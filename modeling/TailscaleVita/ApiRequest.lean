import TailscaleVita.PeerHead
import TailscaleVita.RtPublish
import TailscaleVita.RtSignals
/-!
# ApiRequest — a request to the LocalAPI (`localapi/http.rs`, `localapi/router.rs`, `localapi.rs`)

`read_request` reads up to the blank line and takes the body the first `Content-Length` announces; `dispatch` picks the
handler. Of `httparse` only this is used: a request it accepts it reads line by line, as `requestOf` does. What the
reading handlers answer is an oracle; they hold no control handle.
-/
namespace TailscaleVita.Api

open List
open Peer (HttpRequest ascii asciiLower find_tail)
open Noise (findHeaderTerminator headerTerminator IsHead find_append find_le)
open Rt (ControlSignal Reply Report controlAction)

/-! ## A request, line by line -/

def takeLine (bs : Bytes) : Option (Bytes × Bytes) :=
  (cutAt 10 bs).map fun p => (if p.1.getLast? = some 13 then p.1.dropLast else p.1, p.2)

def isBlank (b : BitVec 8) : Bool := b == 32 || b == 9

def trimBlanks (value : Bytes) : Bytes := ((value.dropWhile isBlank).reverse.dropWhile isBlank).reverse

def headersOf : (fuel : Nat) → Bytes → Option (List (Bytes × Bytes))
  | 0, _ => none
  | fuel + 1, bs =>
    match takeLine bs with
    | none => none
    | some (line, rest) =>
      if line = [] then some []
      else
        match cutAt 58 line with
        | none => none
        | some (name, value) => (headersOf fuel rest).map (fun headers => (name, trimBlanks value) :: headers)

def requestOf (bs : Bytes) : Option HttpRequest :=
  match takeLine (bs.dropWhile (fun b => b == 13 || b == 10)) with
  | none => none
  | some (line, rest) =>
    match cutAt 32 line with
    | none => none
    | some (method, line) =>
      match cutAt 32 line with
      | none => none
      | some (target, _) =>
        (headersOf rest.length rest).map (fun headers => ⟨some method, some target, headers⟩)

/-- `httparse` with room for so many headers, where `none` is `Status::Partial`: it may refuse, and what it accepts it
reads as it stands. -/
structure Httparse where
  parse : (maxHeaders : Nat) → Bytes → Except Unit (Option HttpRequest)
  reads : ∀ {n : Nat} {bs : Bytes} {req : HttpRequest}, parse n bs = .ok (some req) → requestOf bs = some req

/-! ## `read_request` -/

inductive RequestError where
  | io
  | badRequest (reason : String)
  | tooLarge
deriving DecidableEq

structure Request where
  method : Bytes
  path : Bytes
  query : Bytes
  body : Bytes
  hasActionHeader : Bool
deriving DecidableEq

def maxRequestBytes : Nat := 8 * 1024

def maxHeaders : Nat := 32

def actionHeader : Bytes := ascii "x-tailscale-vita-local"

def actionHeaderValue : Text := "1".toList

def findCrlfcrlf (b : Bytes) : Option Nat := findHeaderTerminator b

def readUntilHead (fails : Bool) :
    (fuel : Nat) → Bytes → List Arrival → Except RequestError (Bytes × Nat) × List Arrival
  | 0, _, as => (.error .tooLarge, as)
  | fuel + 1, buf, as =>
    if maxRequestBytes ≤ buf.length then (.error .tooLarge, as)
    else
      match recv 512 as with
      | (.timedOut, as) => (.error (.badRequest "read timeout"), as)
      | (.ok [], as) => (.error (if fails then .io else .badRequest "eof before headers"), as)
      | (.ok tmp, as) =>
        let buf := buf ++ tmp
        let scanStart := buf.length - (tmp.length + 3)
        match findCrlfcrlf (buf.drop scanStart) with
        | some idx => (.ok (buf, scanStart + idx), as)
        | none => readUntilHead fails fuel buf as

def eqIgnoreAsciiCase (a b : Bytes) : Bool := decide (a.map asciiLower = b.map asciiLower)

def contentLengthOf (headers : List (Bytes × Bytes)) : Nat :=
  (((headers.find? (fun h => eqIgnoreAsciiCase h.1 (ascii "content-length"))).bind fun h =>
    (fromUtf8 h.2).bind fun s => fromStrRadix 32 10 (trim s)).map BitVec.toNat).getD 0

def hasActionHeader (headers : List (Bytes × Bytes)) : Bool :=
  headers.any fun h => eqIgnoreAsciiCase h.1 actionHeader &&
    (fromUtf8 h.2).any (fun value => decide (trim value = actionHeaderValue))

def parseRequest (parser : Httparse) (head : Bytes) : Except RequestError (Request × Nat) :=
  match parser.parse maxHeaders head with
  | .error _ => .error (.badRequest "malformed request")
  | .ok none => .error (.badRequest "incomplete request line")
  | .ok (some req) =>
    match req.method, req.path with
    | none, _ => .error (.badRequest "missing method")
    | some _, none => .error (.badRequest "missing path")
    | some method, some target =>
      let (path, query) := (cutAt 0x3F target).getD (target, [])
      let hasAction := hasActionHeader req.headers
      .ok ({ method := method, path := path, query := query, body := [], hasActionHeader := hasAction },
        contentLengthOf req.headers)

def readRest (fails : Bool) :
    (fuel remaining : Nat) → Bytes → List Arrival → Except RequestError Bytes × List Arrival
  | 0, _, body, as => (.ok body, as)
  | fuel + 1, remaining, body, as =>
    if remaining = 0 then (.ok body, as)
    else
      match recv (min 512 remaining) as with
      | (.timedOut, as) => (.error (.badRequest "body read timeout"), as)
      | (.ok [], as) => (.error (if fails then .io else .badRequest "eof before body end"), as)
      | (.ok tmp, as) => readRest fails fuel (remaining - tmp.length) (body ++ tmp) as

/-- Addition of `usize`, which has 32 bits here and wraps in a release build. -/
def usizeAdd (a b : Nat) : Nat := (a + b) % 2 ^ 32

def readBody (fails : Bool) (bodyStart contentLength : Nat) (body : Bytes) (as : List Arrival) :
    Except RequestError Bytes × List Arrival :=
  if body.length < contentLength then
    if maxRequestBytes < usizeAdd bodyStart contentLength then (.error .tooLarge, as)
    else readRest fails (contentLength - body.length) (contentLength - body.length) body as
  else if contentLength < body.length then (.ok (body.take contentLength), as)
  else (.ok body, as)

def readRequest (parser : Httparse) (fails : Bool) (as : List Arrival) : Except RequestError Request × List Arrival :=
  match readUntilHead fails maxRequestBytes [] as with
  | (.error e, as) => (.error e, as)
  | (.ok (buf, headerEnd), as) =>
    match parseRequest parser (buf.take (headerEnd + 4)) with
    | .error e => (.error e, as)
    | .ok (req, contentLength) =>
      match readBody fails (headerEnd + 4) contentLength (buf.drop (headerEnd + 4)) as with
      | (.error e, as) => (.error e, as)
      | (.ok body, as) => (.ok { req with body := body }, as)

/-! ## `dispatch` -/

structure HandlerCtx where
  report : Report
  alive : Bool
  status : Nat × Bytes
  whois : (query : Bytes) → Nat × Bytes
  health : Nat × Bytes
  ping : (query : Bytes) → Nat × Bytes

inductive Answer where
  | json (status : Nat) (body : Bytes)
  | error (status : Nat) (msg : String)
  | control (reply : Reply)

namespace HandlerCtx

variable (ctx : HandlerCtx)

def netmap : Nat × Bytes := ctx.status

def reconnect (queue : List ControlSignal) : Reply × List ControlSignal :=
  if ctx.report.lifecycle.isFatal then (.fatal ctx.report.lifecycle ctx.report.fatalReason, queue)
  else if ctx.report.lifecycle = .stopped then (.stopped, queue)
  else if ctx.alive then (.accepted, queue ++ [.forceReconnect])
  else (.shutDown, queue)

def controlAction (signal : ControlSignal) (queue : List ControlSignal) : Reply × List ControlSignal :=
  Rt.controlAction ctx.report.lifecycle ctx.report.fatalReason ctx.alive signal queue

def up := ctx.controlAction (.setWantRunning true)

def down := ctx.controlAction (.setWantRunning false)

def logout := ctx.controlAction .logout

def loginInteractive := ctx.controlAction .loginInteractive

end HandlerCtx

def writeJson (r : Nat × Bytes) (queue : List ControlSignal) : Answer × List ControlSignal := (.json r.1 r.2, queue)

def writeReply (r : Reply × List ControlSignal) : Answer × List ControlSignal := (.control r.1, r.2)

def dispatch (ctx : HandlerCtx) (req : Request) (queue : List ControlSignal) : Answer × List ControlSignal :=
  if req.method = ascii "POST" ∧ req.hasActionHeader = false then (.error 403 "missing local action header", queue)
  else if req.method = ascii "GET" then
    if req.path = ascii "/localapi/v0/status" then writeJson ctx.status queue
    else if req.path = ascii "/localapi/v0/whois" then writeJson (ctx.whois req.query) queue
    else if req.path = ascii "/localapi/v0/health" then writeJson ctx.health queue
    else if req.path = ascii "/localapi/v0/netmap" then writeJson ctx.netmap queue
    else if req.path = ascii "/localapi/v0/ping" then writeJson (ctx.ping req.query) queue
    else (.error 404 "no such endpoint", queue)
  else if req.method = ascii "POST" then
    if req.path = ascii "/localapi/v0/reconnect" then writeReply (ctx.reconnect queue)
    else if req.path = ascii "/localapi/v0/up" then writeReply (ctx.up queue)
    else if req.path = ascii "/localapi/v0/down" then writeReply (ctx.down queue)
    else if req.path = ascii "/localapi/v0/logout" then writeReply (ctx.logout queue)
    else if req.path = ascii "/localapi/v0/login-interactive" then writeReply (ctx.loginInteractive queue)
    else (.error 404 "no such endpoint", queue)
  else (.error 405 "method not allowed", queue)

def handleOne (parser : Httparse) (fails : Bool) (as : List Arrival) (ctx : HandlerCtx) (queue : List ControlSignal) :
    Option Answer × List ControlSignal :=
  match (readRequest parser fails as).1 with
  | .error .io => (none, queue)
  | .error (.badRequest reason) => (some (.error 400 reason), queue)
  | .error .tooLarge => (some (.error 413 "request too large"), queue)
  | .ok req => let (answer, queue) := dispatch ctx req queue; (some answer, queue)

theorem dispatch_queue {ctx : HandlerCtx} {req : Request} {queue : List ControlSignal} (h : req.method ≠ ascii "POST") :
    (dispatch ctx req queue).2 = queue := by
  unfold dispatch
  rw [if_neg (fun hpost => h hpost.1), if_neg h]
  split
  · repeat' (split; · rfl)
    rfl
  · rfl

theorem readUntilHead_ok (fails : Bool) : ∀ {fuel : Nat} {buf : Bytes} {as as' : List Arrival} {got : Bytes × Nat},
    findHeaderTerminator buf = none → readUntilHead fails fuel buf as = (.ok got, as') →
      got.1 ++ unread as' = buf ++ unread as ∧ findHeaderTerminator got.1 = some got.2
  | 0, _, _, _, _, _, h => by cases h
  | fuel + 1, buf, as, as', got, hnone, h => by
    unfold readUntilHead at h
    split at h
    · cases h
    have hrecv := recv_spec (n := 512) (by decide) as
    generalize recv 512 as = r at hrecv h
    cases hrecv with
    | eof | timedOut as => cases h
    | @got _ as1 b bs hn hu hw ht =>
      have htail := find_tail (b :: bs) hnone
      simp only at htail h
      change (findCrlfcrlf _).map _ = _ at htail
      split at h
      next idx hidx =>
        cases h
        rw [hidx, Option.map_some] at htail
        exact ⟨by rw [hu, append_assoc], htail.symm⟩
      next hidx =>
        rw [hidx, Option.map_none] at htail
        obtain ⟨hbytes, hfound⟩ := readUntilHead_ok fails htail.symm h
        exact ⟨by rw [hbytes, hu, append_assoc], hfound⟩

theorem readRequest_head {parser : Httparse} {fails : Bool} {as as' : List Arrival} {head : Bytes} {req : Request}
    (hhead : IsHead head) (has : unread as <+: head) (h : readRequest parser fails as = (.ok req, as')) :
    ∃ r n as1 body, parseRequest parser head = .ok (r, n) ∧ unread as1 = [] ∧
      readBody fails head.length n [] as1 = (.ok body, as') ∧ req = { r with body := body } := by
  unfold readRequest at h
  split at h
  · cases h
  rename_i buf headerEnd as1 hread
  obtain ⟨hbytes, hfound⟩ := readUntilHead_ok fails rfl hread
  rw [nil_append] at hbytes
  -- what was read is all of the head
  obtain ⟨more, hmore⟩ : buf <+: head := (prefix_append buf (unread as1)).trans (hbytes ▸ has)
  have hend : headerEnd = head.length - 4 := by
    have hlong := find_append more hfound
    rw [hmore, hhead.1] at hlong
    exact (Option.some.inj hlong).symm
  have hpos := hhead.2
  have hlen : head.length = buf.length + more.length := by rw [← hmore, length_append]
  have hle := find_le hfound
  obtain rfl : more = [] := eq_nil_of_length_eq_zero (by simp only at hle; omega)
  rw [append_nil] at hmore
  subst hmore
  have hrest : unread as1 = [] := by
    obtain ⟨t, ht⟩ := has
    rw [← hbytes, append_assoc] at ht
    exact (append_eq_nil_iff.1 (append_right_eq_self.1 ht)).1
  have hcut : headerEnd + 4 = buf.length := by omega
  simp only [hcut, take_length, drop_length] at h
  split at h
  · cases h
  rename_i r n hparse
  split at h
  · cases h
  rename_i body as2 hbody
  cases h
  exact ⟨r, n, as1, body, hparse, hrest, hbody, rfl⟩

theorem parseRequest_ok {parser : Httparse} {head : Bytes} {http : HttpRequest} {method target : Bytes} {r : Request}
    {n : Nat} (hreads : requestOf head = some http) (hmethod : http.method = some method)
    (htarget : http.path = some target) (h : parseRequest parser head = .ok (r, n)) :
    r.method = method ∧ r.path = ((cutAt 0x3F target).getD (target, [])).1 ∧ r.body = [] ∧
      r.hasActionHeader = hasActionHeader http.headers ∧ n = contentLengthOf http.headers := by
  unfold parseRequest at h
  split at h
  · cases h
  · cases h
  next req hparse =>
    obtain rfl : http = req := Option.some.inj (hreads.symm.trans (parser.reads hparse))
    rw [hmethod, htarget] at h
    cases h
    exact ⟨rfl, rfl, rfl, rfl, rfl⟩

def lineReader : Httparse where
  parse _ bs := .ok (requestOf bs)
  reads h := Except.ok.inj h

end TailscaleVita.Api

import TailscaleVita.ApiRequest
/-!
# DemoProxy — the demo's tailnet server (`tailscale-vita-demo/src/handler.rs`)

`serve` takes the first line of what a tailnet client sends and, for a target under `/api/`, splices the rest of the
target into a request of its own to the LocalAPI. The rest has no white space, so it stays inside the target.
-/
namespace TailscaleVita.Demo

open List
open Peer (HttpRequest ascii)
open Noise (findHeaderTerminator headerTerminator IsHead)
open Api (lineReader Httparse HandlerCtx Request readRequest handleOne requestOf takeLine headersOf parseRequest)
open Rt (ControlSignal)

def maxReqHead : Nat := 8 * 1024

def proxyMaxResponse : Nat := 256 * 1024

def defaultResponse : Bytes :=
  ascii "HTTP/1.1 200 OK\r\nContent-Type: text/plain\r\nContent-Length: 16\r\nConnection: close\r\n\r\n" ++
    ascii "hello from vita\n"

/-- The reading loop of `serve`; a stream that `fails` ends with an error, and nothing is answered. A turn brings at
least one byte. -/
def readHead (fails : Bool) : (fuel : Nat) → Bytes → List Arrival → Option Bytes
  | 0, head, _ => some head
  | fuel + 1, head, as =>
    if maxReqHead ≤ head.length then some head
    else
      match recv 256 as with
      | (.ok [], _) => if fails then none else some head
      | (.timedOut, _) => some head
      | (.ok buf, as) =>
        if (findHeaderTerminator (head ++ buf)).isSome then some (head ++ buf) else readHead fails fuel (head ++ buf) as

def nextWord (s : Text) : Option (Text × Text) :=
  let s := s.dropWhile isWhitespace
  if s = [] then none else some (s.takeWhile (fun c => !isWhitespace c), s.dropWhile (fun c => !isWhitespace c))

def apiPath (head : Bytes) : Option (Text × Text) :=
  (fromUtf8 (head.takeWhile (fun b => decide (b ≠ 10)))).bind fun line =>
    (nextWord line).bind fun (method, line) =>
      (nextWord line).bind fun (target, _) => (stripLeading "/api/".toList target).map fun rest => (method, rest)

structure Upstream where
  connect : Except Text Unit := .ok ()
  setReadTimeout : Except Text Unit := .ok ()
  setWriteTimeout : Except Text Unit := .ok ()
  writeAll : Except (Nat × Text) Unit := .ok ()
  flush : Except Text Unit := .ok ()
  answer : List Arrival := []
  timeout : Text := []
  readError : Option Text := none

def readAnswer (up : Upstream) : (fuel : Nat) → Bytes → List Arrival → Except Text Bytes
  | 0, _, _ => .error "upstream response too large".toList
  | fuel + 1, response, as =>
    if proxyMaxResponse ≤ response.length then .error "upstream response too large".toList
    else
      match recv 1024 as with
      | (.ok [], _) =>
        match up.readError with
        | some e => .error ("read: ".toList ++ e)
        | none => .ok response
      | (.timedOut, _) => .error ("read timeout: ".toList ++ up.timeout)
      | (.ok tmp, as) => readAnswer up fuel (response ++ tmp) as

def exposed : List Text := ["status", "whois", "health", "netmap", "ping"].map String.toList

def requestTail : Text :=
  " HTTP/1.1\r\n".toList ++ "Host: localhost:41112\r\n".toList ++ "Connection: close\r\n".toList ++
    "Content-Length: 0\r\n".toList ++ "\r\n".toList

def upstreamReq (method rest : Text) : Text := method ++ " /localapi/v0/".toList ++ rest ++ requestTail

def proxyToLocalapi (up : Upstream) (method rest : Text) : Bytes × Except Text Bytes :=
  if method ≠ "GET".toList then ([], .error "only read-only GET LocalAPI proxying is allowed".toList)
  else
    let path := rest.takeWhile (fun c => decide (c ≠ '?'))
    if path ∉ exposed then ([], .error "LocalAPI endpoint is not exposed through the demo proxy".toList)
    else
      let req := utf8 (upstreamReq method rest)
      match up.connect, up.setReadTimeout, up.setWriteTimeout with
      | .error e, _, _ => ([], .error ("connect: ".toList ++ e))
      | .ok _, .error e, _ => ([], .error ("set_read_timeout: ".toList ++ e))
      | .ok _, .ok _, .error e => ([], .error ("set_write_timeout: ".toList ++ e))
      | .ok _, .ok _, .ok _ =>
        match up.writeAll with
        | .error (n, e) => (req.take n, .error ("write: ".toList ++ e))
        | .ok _ =>
          match up.flush with
          | .error e => (req, .error ("flush: ".toList ++ e))
          | .ok _ => (req, readAnswer up (proxyMaxResponse + 1) [] up.answer)

def proxyErrorResponse (err : Text) : Bytes :=
  let body := "\x7b\"error\":\"proxy: ".toList ++ err ++ "\"\x7d\n".toList
  utf8 ("HTTP/1.1 502 Bad Gateway\r\nContent-Type: application/json\r\nContent-Length: ".toList ++
    (toString (utf8Len body)).toList ++ "\r\nConnection: close\r\n\r\n".toList) ++ utf8 body

def serve (fails : Bool) (client : List Arrival) (up : Upstream) : Bytes × Option Bytes :=
  match readHead fails maxReqHead [] client with
  | none => ([], none)
  | some head =>
    match apiPath head with
    | none => ([], some defaultResponse)
    | some (method, rest) =>
      match proxyToLocalapi up method rest with
      | (sent, .ok bytes) => (sent, some bytes)
      | (sent, .error e) => (sent, some (proxyErrorResponse e))

/-! ## What the proxy writes -/

structure Forwarded (rest : Text) : Prop where
  plain : ∀ c ∈ rest, isWhitespace c = false
  path : rest.takeWhile (fun c => decide (c ≠ '?')) ∈ exposed

theorem forwarded_status : Forwarded "status".toList where
  plain c hc := by
    have hall : "status".toList.all (fun c => !isWhitespace c) = true := by decide
    simpa using all_eq_true.1 hall c hc
  path := by decide

theorem nextWord_plain {s w rest : Text} (h : nextWord s = some (w, rest)) : ∀ c ∈ w, isWhitespace c = false := by
  unfold nextWord at h
  simp only at h
  split at h
  · cases h
  · cases h
    intro c hc
    simpa using all_eq_true.1 all_takeWhile c hc

theorem apiPath_plain {head : Bytes} {method rest : Text} (h : apiPath head = some (method, rest)) :
    ∀ c ∈ rest, isWhitespace c = false := by
  obtain ⟨line, -, h⟩ := Option.bind_eq_some_iff.1 h
  obtain ⟨⟨m, line'⟩, -, h⟩ := Option.bind_eq_some_iff.1 h
  obtain ⟨⟨target, more⟩, htarget, h⟩ := Option.bind_eq_some_iff.1 h
  obtain ⟨r, hstrip, hr⟩ := Option.map_eq_some_iff.1 h
  cases hr
  intro c hc
  have hmem : c ∈ target := by
    rw [eq_append_of_stripLeading hstrip]
    exact mem_append_right _ hc
  exact nextWord_plain htarget c hmem

theorem proxyToLocalapi_sent (up : Upstream) (method rest : Text) :
    (proxyToLocalapi up method rest).1 = [] ∨
      rest.takeWhile (fun c => decide (c ≠ '?')) ∈ exposed ∧
        (proxyToLocalapi up method rest).1 <+: utf8 (upstreamReq "GET".toList rest) := by
  unfold proxyToLocalapi
  split
  · exact .inl rfl
  rename_i hget
  rw [not_not.1 hget]
  simp only
  split
  · exact .inl rfl
  rename_i hpath
  rw [not_not] at hpath
  split
  · exact .inl rfl
  · exact .inl rfl
  · exact .inl rfl
  · split
    · exact .inr ⟨hpath, take_prefix _ _⟩
    · split
      · exact .inr ⟨hpath, prefix_refl _⟩
      · exact .inr ⟨hpath, prefix_refl _⟩

theorem serve_sent (fails : Bool) (client : List Arrival) (up : Upstream) :
    (serve fails client up).1 = [] ∨
      ∃ rest, Forwarded rest ∧ (serve fails client up).1 <+: utf8 (upstreamReq "GET".toList rest) := by
  unfold serve
  split
  · exact .inl rfl
  split
  · exact .inl rfl
  rename_i method rest hapi
  have hsent := proxyToLocalapi_sent up method rest
  have hserve : (match proxyToLocalapi up method rest with
      | (sent, .ok bytes) => (sent, some bytes)
      | (sent, .error e) => (sent, some (proxyErrorResponse e))).1 = (proxyToLocalapi up method rest).1 := by
    obtain ⟨sent, result⟩ := proxyToLocalapi up method rest
    cases result <;> rfl
  rw [hserve]
  exact hsent.imp_right fun h => ⟨rest, ⟨apiPath_plain hapi, h.1⟩, h.2⟩

/-! ## How it is read -/

def requestStart : Bytes := ascii "GET /localapi/v0/"

def requestEnd : Bytes := utf8 requestTail

def proxyHeaders : List (Bytes × Bytes) :=
  [(ascii "Host", ascii "localhost:41112"), (ascii "Connection", ascii "close"), (ascii "Content-Length", ascii "0")]

theorem proxyHeaders_contentLength : Api.contentLengthOf proxyHeaders = 0 := by decide +kernel

theorem proxyHeaders_action : Api.hasActionHeader proxyHeaders = false := by decide +kernel

theorem utf8_upstreamReq (rest : Text) :
    utf8 (upstreamReq "GET".toList rest) = requestStart ++ (utf8 rest ++ requestEnd) := by
  unfold upstreamReq
  rw [utf8_append, utf8_append, append_assoc]
  have hstart : utf8 ("GET".toList ++ " /localapi/v0/".toList) = requestStart := by decide +kernel
  rw [hstart]
  rfl

variable {rest : Text}

theorem utf8_plain (h : ∀ c ∈ rest, isWhitespace c = false) {b : BitVec 8}
    (hb : b = 32 ∨ b = 10 ∨ b = 13) : b ∉ utf8 rest := by
  intro hmem
  have hsmall : b.toNat < 128 := by rcases hb with rfl | rfl | rfl <;> decide
  obtain ⟨c, hc, hcode⟩ := mem_utf8_ascii hsmall hmem
  have hwhite : isWhitespace c = true := by
    unfold isWhitespace
    rw [hcode]
    rcases hb with rfl | rfl | rfl <;> decide
  rw [h c hc] at hwhite
  cases hwhite

theorem find_behind {pre : Bytes} (h : (13 : BitVec 8) ∉ pre) (rest : Bytes) :
    findHeaderTerminator (pre ++ rest) = (findHeaderTerminator rest).map (pre.length + ·) := by
  induction pre with
  | nil => simp
  | cons b pre ih =>
    rw [mem_cons, not_or] at h
    have hnot : ¬ headerTerminator <+: b :: (pre ++ rest) := fun hpre => h.1 (cons_prefix_cons.1 hpre).1
    rw [cons_append, findHeaderTerminator, if_neg hnot, ih h.2, Option.map_map]
    congr 1
    funext k
    simp only [Function.comp_apply, length_cons]
    omega

theorem requestEnd_find : findHeaderTerminator requestEnd = some (requestEnd.length - 4) := by decide +kernel

theorem upstream_isHead (h : Forwarded rest) : IsHead (utf8 (upstreamReq "GET".toList rest)) := by
  rw [utf8_upstreamReq]
  have hstart : (13 : BitVec 8) ∉ requestStart := by decide +kernel
  have hlen : 4 ≤ requestEnd.length := by decide +kernel
  constructor
  · rw [find_behind hstart, find_behind (utf8_plain h.plain (.inr (.inr rfl))), requestEnd_find]
    simp only [Option.map_some, length_append]
    exact congrArg some (by omega)
  · rw [length_append, length_append]
    omega

theorem upstream_requestOf (h : Forwarded rest) :
    requestOf (utf8 (upstreamReq "GET".toList rest)) =
      some ⟨some (ascii "GET"), some (ascii "/localapi/v0/" ++ utf8 rest), proxyHeaders⟩ := by
  rw [utf8_upstreamReq]
  have hno : ∀ b : BitVec 8, b = 32 ∨ b = 10 ∨ b = 13 → b ∉ utf8 rest := fun b hb => utf8_plain h.plain hb
  -- the first line ends at the proxy's own line end
  have hsplit : requestStart ++ (utf8 rest ++ requestEnd) =
      (requestStart ++ (utf8 rest ++ ascii " HTTP/1.1\r")) ++ 10 :: requestEnd.drop 11 := by
    rw [append_assoc, append_assoc]
    congr 2
  have hline : takeLine (requestStart ++ (utf8 rest ++ requestEnd)) =
      some (requestStart ++ (utf8 rest ++ ascii " HTTP/1.1"), requestEnd.drop 11) := by
    have hnl : (10 : BitVec 8) ∉ requestStart ++ (utf8 rest ++ ascii " HTTP/1.1\r") := by
      rw [mem_append, mem_append, not_or, not_or]
      exact ⟨by decide +kernel, hno 10 (.inr (.inl rfl)), by decide +kernel⟩
    have hcr : requestStart ++ (utf8 rest ++ ascii " HTTP/1.1\r") =
        (requestStart ++ (utf8 rest ++ ascii " HTTP/1.1")) ++ [13] := by
      rw [append_assoc, append_assoc]
      congr 2
    unfold takeLine
    rw [hsplit, cutAt_append_cons _ hnl, Option.map_some, hcr]
    simp
  have hskip : (requestStart ++ (utf8 rest ++ requestEnd)).dropWhile (fun b => b == 13 || b == 10) =
      requestStart ++ (utf8 rest ++ requestEnd) := rfl
  have hmethod : cutAt 32 (requestStart ++ (utf8 rest ++ ascii " HTTP/1.1")) =
      some (ascii "GET", ascii "/localapi/v0/" ++ (utf8 rest ++ ascii " HTTP/1.1")) := by
    have hcut : requestStart ++ (utf8 rest ++ ascii " HTTP/1.1") =
        ascii "GET" ++ 32 :: (ascii "/localapi/v0/" ++ (utf8 rest ++ ascii " HTTP/1.1")) := rfl
    rw [hcut]
    exact cutAt_append_cons _ (by decide +kernel)
  have htarget : cutAt 32 (ascii "/localapi/v0/" ++ (utf8 rest ++ ascii " HTTP/1.1")) =
      some (ascii "/localapi/v0/" ++ utf8 rest, ascii "HTTP/1.1") := by
    have hsp : (32 : BitVec 8) ∉ ascii "/localapi/v0/" ++ utf8 rest := by
      rw [mem_append, not_or]
      exact ⟨by decide +kernel, hno 32 (.inl rfl)⟩
    rw [← append_assoc]
    exact cutAt_append_cons _ hsp
  have hheaders : headersOf (requestEnd.drop 11).length (requestEnd.drop 11) = some proxyHeaders := by decide +kernel
  unfold requestOf
  rw [hskip, hline]
  simp only [hmethod, htarget, hheaders, Option.map_some]

theorem upstream_path (h : Forwarded rest) :
    ((cutAt 0x3F (ascii "/localapi/v0/" ++ utf8 rest)).getD (ascii "/localapi/v0/" ++ utf8 rest, [])).1 ∈
      exposed.map (fun path => ascii "/localapi/v0/" ++ utf8 path) := by
  have hmem := mem_map_of_mem (f := fun path => ascii "/localapi/v0/" ++ utf8 path) h.path
  have hno : (0x3F : BitVec 8) ∉ ascii "/localapi/v0/" ++ utf8 (rest.takeWhile (fun c => decide (c ≠ '?'))) := by
    have hall : ∀ target ∈ exposed.map (fun path => ascii "/localapi/v0/" ++ utf8 path),
        (0x3F : BitVec 8) ∉ target := by decide +kernel
    exact hall _ hmem
  obtain ⟨query, hrest⟩ := takeWhile_prefix (p := fun c => decide (c ≠ '?')) (l := rest)
  cases query with
  | nil =>
    rw [append_nil] at hrest
    rw [hrest] at hno hmem
    rwa [cutAt_eq_none hno]
  | cons c query =>
    obtain rfl : c = '?' := by
      have hdrop : rest.dropWhile (fun c => decide (c ≠ '?')) = c :: query := by
        have hboth := takeWhile_append_dropWhile (p := fun c => decide (c ≠ '?')) (l := rest)
        exact append_cancel_left (hboth.trans hrest.symm)
      have hnot := head?_dropWhile_not (fun c => decide (c ≠ '?')) rest
      rw [hdrop] at hnot
      simpa using hnot
    have hcut : ascii "/localapi/v0/" ++ utf8 rest =
        (ascii "/localapi/v0/" ++ utf8 (rest.takeWhile (fun c => decide (c ≠ '?')))) ++ 0x3F :: utf8 query := by
      rw [append_assoc]
      congr 1
      conv_lhs => rw [← hrest]
      rw [utf8_append]
      rfl
    rwa [hcut, cutAt_append_cons _ hno]

/-! ## Read-only -/

structure Visit where
  fails : Bool
  client : List Arrival
  up : Upstream
  apiFails : Bool
  api : List Arrival
  arrives : unread api <+: (serve fails client up).1

theorem visit_request {parser : Httparse} (v : Visit) {req : Request} {as' : List Arrival}
    (h : readRequest parser v.apiFails v.api = (.ok req, as')) :
    req.method = ascii "GET" ∧ req.path ∈ exposed.map (fun path => ascii "/localapi/v0/" ++ utf8 path) ∧
      req.body = [] ∧ req.hasActionHeader = false := by
  have hsome : ∃ rest, Forwarded rest ∧ unread v.api <+: utf8 (upstreamReq "GET".toList rest) := by
    rcases serve_sent v.fails v.client v.up with hnone | ⟨rest, hrest, hpre⟩
    · have harrives := v.arrives
      rw [hnone, prefix_nil] at harrives
      exact ⟨"status".toList, forwarded_status, by rw [harrives]; exact nil_prefix⟩
    · exact ⟨rest, hrest, v.arrives.trans hpre⟩
  obtain ⟨rest, hrest, hpre⟩ := hsome
  obtain ⟨r, n, as1, body, hparse, -, hbody, rfl⟩ := Api.readRequest_head (upstream_isHead hrest) hpre h
  obtain ⟨hmethod, hpath, -, haction, hn⟩ := Api.parseRequest_ok (upstream_requestOf hrest) rfl rfl hparse
  rw [hn, proxyHeaders_contentLength] at hbody
  cases hbody
  refine ⟨hmethod, ?_, rfl, ?_⟩
  · change r.path ∈ _
    rw [hpath]
    exact upstream_path hrest
  · change r.hasActionHeader = false
    rw [haction]
    exact proxyHeaders_action

def visited (parser : Httparse) (queue : List ControlSignal) (v : Visit × HandlerCtx) : List ControlSignal :=
  (handleOne parser v.1.apiFails v.1.api v.2 queue).2

theorem visited_queue (parser : Httparse) (queue : List ControlSignal) (v : Visit × HandlerCtx) :
    visited parser queue v = queue := by
  unfold visited handleOne
  split
  · rfl
  · rfl
  · rfl
  next req hreq =>
    have hread : readRequest parser v.1.apiFails v.1.api = (.ok req, (readRequest parser v.1.apiFails v.1.api).2) :=
      Prod.ext hreq rfl
    have hget := (visit_request v.1 hread).1
    exact Api.dispatch_queue (by rw [hget]; decide +kernel)

/-- **The demo proxy is read-only**: whatever a tailnet client sends, and however much of it gets through, a request
that the LocalAPI reads because of it is a GET of one of the five exposed endpoints, without a body and without the
action header; and no visits put a signal on the control channel. -/
theorem demo_proxy_read_only (parser : Httparse) :
    (∀ (v : Visit) (req : Request), (readRequest parser v.apiFails v.api).1 = .ok req →
      req.method = ascii "GET" ∧
      req.path ∈ ["status", "whois", "health", "netmap", "ping"].map (fun path => ascii ("/localapi/v0/" ++ path)) ∧
      req.body = [] ∧ req.hasActionHeader = false) ∧
    ∀ (visits : List (Visit × HandlerCtx)) (queue : List ControlSignal),
      visits.foldl (visited parser) queue = queue := by
  constructor
  · intro v req hreq
    obtain ⟨hget, hpath, hbody, haction⟩ := visit_request v (Prod.ext hreq rfl)
    have hsame : exposed.map (fun path => ascii "/localapi/v0/" ++ utf8 path) =
        ["status", "whois", "health", "netmap", "ping"].map (fun path => ascii ("/localapi/v0/" ++ path)) := by
      decide +kernel
    exact ⟨hget, hsame ▸ hpath, hbody, haction⟩
  · intro visits
    induction visits with
    | nil => exact fun queue => rfl
    | cons v visits ih =>
      intro queue
      rw [foldl_cons, visited_queue, ih queue]

def smuggler : Visit where
  fails := false
  client := [.data 71 (ascii "ET\t/api/ping?ip=1"), .data 13 (ascii "x-tailscale-vita-local: 1\r\n"),
    .data 80 (ascii "OST /api/logout"), .data 32 (ascii "HTTP/1.1\r\n\r\n")]
  up := {}
  apiFails := false
  api := [.data 71 (ascii "ET /localapi/v0/ping?ip=1"), .data 32 (ascii "HTTP/1.1\r\n"),
    .data 72 (ascii "ost: localhost:41112\r\n"), .data 67 (ascii "onnection: close\r\n"),
    .data 67 (ascii "ontent-Length: 0\r\n\r\n")]
  arrives := by decide +kernel

theorem demo_proxy_read_only_smuggler :
    (serve smuggler.fails smuggler.client smuggler.up).1 = unread smuggler.api ∧
    ∃ req, (readRequest lineReader smuggler.apiFails smuggler.api).1 = .ok req ∧ req.query = ascii "ip=1" ∧
      req.method = ascii "GET" ∧
      req.path ∈ ["status", "whois", "health", "netmap", "ping"].map (fun path => ascii ("/localapi/v0/" ++ path)) ∧
      req.body = [] ∧ req.hasActionHeader = false :=
  ⟨by decide +kernel, ⟨ascii "GET", ascii "/localapi/v0/ping", ascii "ip=1", [], false⟩, by decide +kernel, rfl,
    (demo_proxy_read_only lineReader).1 smuggler _ (by decide +kernel)⟩

end TailscaleVita.Demo

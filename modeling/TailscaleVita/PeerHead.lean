import TailscaleVita.CtlUpgrade
import TailscaleVita.PeerPut
/-!
# PeerHead — a request off the socket (`ts-peerapi/src/http.rs`)

`read_head` reads up to the blank line; `stream_body` hands on what came with the head and then what the socket gives,
up to the announced length. Where the reads were cut is not seen in the result. The HTTP parser is an oracle.
-/
namespace TailscaleVita.Peer

open List
open Fs (Files Name)
open Noise (findHeaderTerminator headerTerminator IsHead find_append find_of_short)

inductive HttpError where
  | io
  | badRequest (message : String)
  | headTooLarge
  | incomplete
deriving DecidableEq

def maxHeadBytes : Nat := 8 * 1024

def maxHeaders : Nat := 32

structure HttpRequest where
  method : Option Bytes
  path : Option Bytes
  headers : List (Bytes × Bytes)

/-- `httparse` with room for so many headers, where `none` is `Status::Partial`, and `str::from_utf8`. -/
structure RequestParser where
  parse : (maxHeaders : Nat) → Bytes → Except Unit (Option HttpRequest)
  fromUtf8 : Bytes → Option Text

structure RequestHead where
  method : Bytes
  path : Bytes
  contentLength : Option Nat
  leftover : Bytes
deriving DecidableEq

/-- The request as the handler has it: the head, and what is left of the socket. -/
def RequestHead.request (h : RequestHead) (socket : List Arrival) : PutRequest :=
  { method := h.method, path := h.path, contentLength := h.contentLength, leftover := h.leftover, socket := socket }

def findCrlfcrlf (b : Bytes) : Option Nat := findHeaderTerminator b

def readUntilHead (fails : Bool) :
    (fuel : Nat) → Bytes → List Arrival → Except HttpError (Bytes × Nat) × List Arrival
  | 0, _, as => (.error .headTooLarge, as)
  | fuel + 1, buf, as =>
    if maxHeadBytes ≤ buf.length then (.error .headTooLarge, as)
    else
      match recv 1024 as with
      | (.timedOut, as) => (.error (.badRequest "head read timeout"), as)
      | (.ok [], as) => (.error (if fails then .io else .badRequest "eof before head end"), as)
      | (.ok tmp, as) =>
        let buf := buf ++ tmp
        let scanStart := buf.length - (tmp.length + 3)
        match findCrlfcrlf (buf.drop scanStart) with
        | some idx => (.ok (buf, scanStart + idx), as)
        | none => readUntilHead fails fuel buf as

def contentLengthOf (parser : RequestParser) (headers : List (Bytes × Bytes)) : Option Nat :=
  ((headers.find? (fun h => decide (h.1.map asciiLower = ascii "content-length"))).bind fun h =>
    (parser.fromUtf8 h.2).bind fun s => fromStrRadix 64 10 (trim s)).map BitVec.toNat

def parseHead (parser : RequestParser) (head leftover : Bytes) : Except HttpError RequestHead :=
  match parser.parse maxHeaders head with
  | .error _ => .error (.badRequest "malformed head")
  | .ok none => .error (.badRequest "incomplete head")
  | .ok (some req) =>
    match req.method, req.path with
    | none, _ => .error (.badRequest "missing method")
    | some _, none => .error (.badRequest "missing path")
    | some method, some target =>
      .ok { method := method
            path := target.takeWhile (fun b => decide (b ≠ 0x3F))
            contentLength := contentLengthOf parser req.headers
            leftover := leftover }

def readHead (parser : RequestParser) (fails : Bool) (as : List Arrival) :
    Except HttpError RequestHead × List Arrival :=
  match readUntilHead fails maxHeadBytes [] as with
  | (.error e, as) => (.error e, as)
  | (.ok (buf, headerEnd), as) => (parseHead parser (buf.take (headerEnd + 4)) (buf.drop (headerEnd + 4)), as)

section

variable {ω : Type} (writeChunk : ω → Bytes → Bool × ω)

def streamRest (fails : Bool) : (fuel remaining : Nat) → ω → List Arrival → Except HttpError Unit × ω
  | 0, _, sink, _ => (.ok (), sink)
  | fuel + 1, remaining, sink, as =>
    if remaining = 0 then (.ok (), sink)
    else
      match recv (min bodyChunk remaining) as with
      | (.timedOut, _) => (.error .incomplete, sink)
      | (.ok [], _) => (.error (if fails then .io else .incomplete), sink)
      | (.ok tmp, as) =>
        match writeChunk sink tmp with
        | (false, sink) => (.error .io, sink)
        | (true, sink) => streamRest fails fuel (remaining - tmp.length) sink as

def streamBody (fails : Bool) (initial : Bytes) (contentLength : Nat) (sink : ω) (as : List Arrival) :
    Except HttpError Nat × ω :=
  let finish (r : Except HttpError Unit × ω) : Except HttpError Nat × ω := (r.1.map (fun _ => contentLength), r.2)
  if initial ≠ [] ∧ 0 < contentLength then
    match writeChunk sink (initial.take contentLength) with
    | (false, sink) => (.error .io, sink)
    | (true, sink) =>
      let remaining := contentLength - (initial.take contentLength).length
      finish (streamRest writeChunk fails remaining remaining sink as)
  else finish (streamRest writeChunk fails contentLength contentLength sink as)

end

def collect (written chunk : Bytes) : Bool × Bytes := (true, written ++ chunk)

theorem find_skip (rest : Bytes) : ∀ pre : Bytes, findHeaderTerminator (pre ++ rest.take 3) = none →
    findHeaderTerminator (pre ++ rest) = (findHeaderTerminator rest).map (pre.length + ·)
  | [], _ => by simp
  | b :: pre, h => by
    rw [cons_append] at h ⊢
    rw [findHeaderTerminator] at h ⊢
    split at h
    · cases h
    next hnot =>
      have hpre : ¬ headerTerminator <+: b :: (pre ++ rest) := fun hpre => by
        have htake : b :: (pre ++ rest.take 3) <+: b :: (pre ++ rest) :=
          cons_prefix_cons.2 ⟨rfl, (prefix_append_right_inj pre).2 (List.take_prefix 3 rest)⟩
        by_cases hlen : headerTerminator.length ≤ (b :: (pre ++ rest.take 3)).length
        · exact hnot (prefix_of_prefix_length_le hpre htake hlen)
        · -- too short to have left anything out
          have hall : rest.take 3 = rest := take_of_length_le (by
            simp only [headerTerminator, length_cons, length_nil, length_append, length_take] at hlen
            omega)
          rw [hall] at hnot
          exact hnot hpre
      rw [if_neg hpre, find_skip rest pre (Option.map_eq_none_iff.1 h)]
      cases findHeaderTerminator rest with
      | none => rfl
      | some k => simp [Nat.add_right_comm]

theorem find_tail {buf : Bytes} (tmp : Bytes) (h : findHeaderTerminator buf = none) :
    let scanStart := (buf ++ tmp).length - (tmp.length + 3)
    (findCrlfcrlf ((buf ++ tmp).drop scanStart)).map (scanStart + ·) = findHeaderTerminator (buf ++ tmp) := by
  intro scanStart
  have hstart : scanStart = buf.length - 3 := by
    simp only [scanStart, length_append]
    omega
  by_cases hlen : 3 ≤ buf.length
  · have hold : (buf ++ tmp).take scanStart ++ ((buf ++ tmp).drop scanStart).take 3 = buf := by
      rw [← take_add, hstart, Nat.sub_add_cancel hlen, take_left]
    have hskip := find_skip ((buf ++ tmp).drop scanStart) ((buf ++ tmp).take scanStart) (by rw [hold, h])
    rw [take_append_drop, length_take_of_le (by rw [length_append]; omega)] at hskip
    exact hskip.symm
  · have hzero : scanStart = 0 := by omega
    rw [hzero, drop_zero]
    simp [findCrlfcrlf]

variable {head tail : Bytes}

theorem readUntilHead_spec (fails : Bool) (hhead : IsHead head) (hcap : head.length ≤ maxHeadBytes) :
    ∀ (fuel : Nat) (buf : Bytes) (as : List Arrival), buf ++ unread as = head ++ tail → .timeout ∉ as →
      buf.length < head.length → head.length ≤ fuel + buf.length →
        ∃ rest as', readUntilHead fails fuel buf as = (.ok (head ++ rest, head.length - 4), as') ∧
          rest ++ unread as' = tail ∧ .timeout ∉ as'
  | 0, buf, as, _, _, hlt, hfuel => by omega
  | fuel + 1, buf, as, hbytes, hno, hlt, hfuel => by
    have hnone : findHeaderTerminator buf = none :=
      find_of_short hhead (prefix_of_prefix_length_le ⟨unread as, hbytes⟩ ⟨tail, rfl⟩ (by omega)) hlt
    unfold readUntilHead
    rw [if_neg (by omega)]
    have hrecv := recv_toward (n := 1024) (by decide) hbytes hlt
    generalize recv 1024 as = got at hrecv ⊢
    cases hrecv with
    | timedOut htimeout => exact absurd htimeout hno
    | @reached as' b bs rest hbuf hrest ht =>
      have htail := find_tail (b :: bs) hnone
      have hfound : findHeaderTerminator (buf ++ b :: bs) = some (head.length - 4) := by
        rw [hbuf]
        exact find_append rest hhead.1
      simp only at htail ⊢
      rw [hfound] at htail
      obtain ⟨idx, hidx, hend⟩ := Option.map_eq_some_iff.1 htail
      rw [hidx]
      exact ⟨rest, as', by rw [hbuf, ← hend, ← hbuf], hrest, fun h => hno (ht h)⟩
    | @more as' b bs hmoved hpre hlt' hgrow ht =>
      have htail := find_tail (b :: bs) hnone
      simp only at htail ⊢
      rw [find_of_short hhead hpre hlt'] at htail
      rw [Option.map_eq_none_iff.1 htail]
      exact readUntilHead_spec fails hhead hcap fuel (buf ++ b :: bs) as' hmoved (fun h => hno (ht h)) hlt' (by omega)

theorem readHead_spec (parser : RequestParser) (fails : Bool) (hhead : IsHead head) (hcap : head.length ≤ maxHeadBytes)
    {as : List Arrival} (hbytes : unread as = head ++ tail) (hno : .timeout ∉ as) :
    ∃ leftover as', readHead parser fails as = (parseHead parser head leftover, as') ∧
      leftover ++ unread as' = tail ∧ .timeout ∉ as' := by
  have hpos := hhead.2
  obtain ⟨rest, as', h, hrest, hno'⟩ := readUntilHead_spec fails hhead hcap maxHeadBytes [] as hbytes hno
    (by rw [length_nil]; omega) (by omega)
  refine ⟨rest, as', ?_, hrest, hno'⟩
  unfold readHead
  rw [h]
  simp only [Nat.sub_add_cancel hpos, take_left, drop_left]

theorem parseHead_leftover (parser : RequestParser) (head leftover : Bytes) :
    parseHead parser head leftover = (parseHead parser head []).map (fun h => { h with leftover := leftover }) := by
  unfold parseHead
  split
  · rfl
  · rfl
  · split <;> rfl

theorem streamRest_collect : ∀ (fuel remaining : Nat) (written : Bytes) (as : List Arrival), remaining ≤ fuel →
    .timeout ∉ as → streamRest collect false fuel remaining written as =
      if remaining ≤ (unread as).length then (.ok (), written ++ (unread as).take remaining)
      else (.error .incomplete, written ++ unread as)
  | 0, remaining, written, as, hfuel, _ => by
    obtain rfl : remaining = 0 := by omega
    simp [streamRest]
  | fuel + 1, remaining, written, as, hfuel, hno => by
    unfold streamRest
    by_cases hzero : remaining = 0
    · rw [if_pos hzero, if_pos (by omega), hzero, take_zero, append_nil]
    rw [if_neg hzero]
    have hrecv := recv_spec (n := min bodyChunk remaining) (by unfold bodyChunk; omega) as
    generalize recv (min bodyChunk remaining) as = got at hrecv ⊢
    cases hrecv with
    | eof =>
      simp [hzero]
    | timedOut as' => exact absurd mem_cons_self hno
    | @got _ as' b bs hn hu hw ht =>
      have hle : (b :: bs).length ≤ remaining := by omega
      have ih := streamRest_collect fuel (remaining - (b :: bs).length) (written ++ b :: bs) as'
        (by rw [length_cons]; omega) (fun h => hno (ht h))
      simp only [collect, ih, hu]
      rw [length_append, take_append, take_of_length_le hle]
      by_cases hall : remaining ≤ (b :: bs).length + (unread as').length
      · rw [if_pos hall, if_pos (by omega), append_assoc]
      · rw [if_neg hall, if_neg (by omega), append_assoc]

theorem streamBody_collect (initial : Bytes) (n : Nat) {as : List Arrival} (hno : .timeout ∉ as) :
    streamBody collect false initial n [] as =
      if n ≤ (initial ++ unread as).length then (.ok n, (initial ++ unread as).take n)
      else (.error .incomplete, initial ++ unread as) := by
  unfold streamBody
  by_cases hinitial : initial ≠ [] ∧ 0 < n
  · simp only [if_pos hinitial, collect, nil_append]
    rw [streamRest_collect _ _ _ as (Nat.le_refl _) hno, length_take, length_append, take_append]
    by_cases hall : n ≤ initial.length + (unread as).length
    · rw [if_pos hall, if_pos (by omega)]
      simp only [Except.map]
      have hrest : n - min n initial.length = n - initial.length := by omega
      rw [hrest]
    · rw [if_neg hall, if_neg (by omega), take_of_length_le (by omega)]
      rfl
  · simp only [if_neg hinitial]
    rw [streamRest_collect _ _ _ as (Nat.le_refl _) hno, nil_append, nil_append]
    rcases not_and_or.1 hinitial with hnil | hzero
    · obtain rfl : initial = [] := not_not.1 hnil
      rw [nil_append]
      split <;> rfl
    · obtain rfl : n = 0 := by omega
      simp [Except.map]

/-- **Taildrop body extraction**: of a request whose head is not too long, however its bytes arrive, the head is
refused or accepted for what it says; of one that announces `n` bytes, the writer gets exactly the `n` bytes behind the
head, or all there are and `Incomplete`. -/
theorem taildrop_body_extraction (parser : RequestParser) (head tail : Bytes) (hhead : IsHead head)
    (hcap : head.length ≤ maxHeadBytes) (as : List Arrival) (hbytes : unread as = head ++ tail) (hno : .timeout ∉ as) :
    (∀ e, parseHead parser head [] = .error e → (readHead parser false as).1 = .error e) ∧
    ∀ h n, parseHead parser head [] = .ok h → h.contentLength = some n → ∃ leftover as',
      readHead parser false as = (.ok { h with leftover := leftover }, as') ∧
      streamBody collect false leftover n [] as' =
        if n ≤ tail.length then (.ok n, tail.take n) else (.error .incomplete, tail) := by
  obtain ⟨leftover, as', hread, hrest, hno'⟩ := readHead_spec parser false hhead hcap hbytes hno
  rw [parseHead_leftover] at hread
  refine ⟨fun e he => ?_, fun h n hok _ => ⟨leftover, as', ?_, ?_⟩⟩
  · rw [hread, he]
    rfl
  · rw [hread, hok]
    rfl
  · rw [streamBody_collect leftover n hno', hrest]

theorem taildrop_body_extraction_byte_by_byte : let parser : RequestParser :=
      { parse := fun _ _ =>
          .ok (some ⟨some (ascii "PUT"), some (ascii "/v0/put/a?x"), [(ascii "CONTENT-length", ascii "3")]⟩)
        fromUtf8 := fun bs => some (bs.map (fun b => Char.ofNat b.toNat)) }
    let head := ascii "PUT /v0/put/a?x HTTP/1.1\r\nCONTENT-length: 3\r\n\r\n"
    let as : List Arrival := (head ++ ascii "abcd").map (fun b => .data b [])
    IsHead head ∧ ∃ leftover as',
      readHead parser false as = (.ok ⟨ascii "PUT", ascii "/v0/put/a", some 3, leftover⟩, as') ∧
      streamBody collect false leftover 3 [] as' = (.ok 3, ascii "abc") := by
  intro parser head as
  have hhead : IsHead head := ⟨by decide +kernel, by decide +kernel⟩
  refine ⟨hhead, ?_⟩
  exact (taildrop_body_extraction parser head (ascii "abcd") hhead (by decide +kernel) as (by decide +kernel)
    (by decide +kernel)).2 ⟨ascii "PUT", ascii "/v0/put/a", some 3, []⟩ 3 (by rfl) rfl

/-- **What a 200 stored is what was sent.** A request is read off the socket in any pieces and served among any others:
the file under the name it was answered with holds the bytes behind its head, as many as were announced. -/
theorem stored_as_sent (parser : RequestParser) {fails : Bool} (hhead : IsHead head) (hcap : head.length ≤ maxHeadBytes)
    {as as' : List Arrival} (hbytes : unread as = head ++ tail) (hno : .timeout ∉ as) {h : RequestHead}
    (hread : readHead parser fails as = (.ok h, as')) {files : Files} {maxSize : Nat} {es : List PutEvent}
    (hclear : Along putStep ClearStep (PutWorld.new files maxSize) es) {p : Put} {n : Name}
    (hreq : p.req = h.request as')
    (hans : .answered p 200 (some n) ∈ (run putStep (PutWorld.new files maxSize) es).log) :
    p.contentLength ≤ tail.length ∧ (run putStep (PutWorld.new files maxSize) es).shared.files.lookup n =
      some (.file (tail.take p.contentLength)) := by
  have hbody : p.body = tail.take p.contentLength := by
    obtain ⟨leftover, as1, hspec, hrest, -⟩ := readHead_spec parser fails hhead hcap hbytes hno
    rw [hread, parseHead_leftover] at hspec
    obtain ⟨hok, rfl⟩ := Prod.mk.inj hspec
    cases hparse : parseHead parser head [] <;> rw [hparse] at hok <;> cases hok
    unfold Put.body
    rw [hreq]
    exact congrArg (List.take p.contentLength) hrest
  obtain ⟨hsafe, hlen⟩ := (putInv_run (putInv_new files maxSize) hclear).1.delivered p n hans
  rw [hbody] at hsafe hlen
  rw [length_take] at hlen
  exact ⟨by omega, hsafe.1⟩

theorem stored_as_sent_in_two_pieces :
    let h : RequestHead := ⟨ascii "PUT", ascii "/v0/put/a", some 2, [1, 2, 3]⟩
    (run putStep (PutWorld.new oneFile 10) (.call (h.request []) :: sections 0 7)).shared.files.lookup
      (ascii "a (1)") = some (.file ([1, 2, 3].take 2)) := by
  intro h
  let parser : RequestParser :=
    { parse := fun _ _ => .ok (some ⟨some h.method, some h.path, [(ascii "Content-Length", ascii "2")]⟩)
      fromUtf8 := fun bs => some (bs.map (fun b => Char.ofNat b.toNat)) }
  let head := ascii "PUT /v0/put/a HTTP/1.1\r\nContent-Length: 2\r\n\r\n"
  have hread : readHead parser false [.data 80 (head.tail.take 42), .data 13 [10, 1, 2, 3]] = (.ok h, []) := by
    decide +kernel
  exact (stored_as_sent parser (show IsHead head from ⟨by decide +kernel, by decide +kernel⟩) (by decide +kernel)
    (show _ = head ++ [1, 2, 3] by decide +kernel) (by decide +kernel) hread (by decide +kernel)
    (p := ⟨h.request [], ascii "a", 2, 0, by decide +kernel, rfl⟩) rfl (by decide +kernel)).2

end TailscaleVita.Peer

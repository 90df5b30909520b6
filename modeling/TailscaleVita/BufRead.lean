import TailscaleVita.Framing
import TailscaleVita.StdText
/-!
# BufRead — a buffered reader, and reading up to a delimiter

`BufReader` asks the stream for more only when its buffer is used up. `takeUntil` takes bytes up to a delimiter and
with it, but at most so many, as `Take` and `read_until` do together; what it took before an error stays with the
caller.
-/
namespace TailscaleVita

open List

structure BufReader where
  buffer : Bytes := []
  arrivals : List Arrival
deriving DecidableEq

inductive ReadError where
  | timedOut
  | failed
deriving DecidableEq

namespace BufReader

def stream (r : BufReader) : Bytes := r.buffer ++ unread r.arrivals

def timeouts (r : BufReader) : Nat := r.arrivals.count .timeout

section

variable (size : Nat) (fails : Bool)

def fillBuf (r : BufReader) : Except ReadError Bytes × BufReader :=
  match r.buffer with
  | b :: bs => (.ok (b :: bs), r)
  | [] =>
    match recv size r.arrivals with
    | (.timedOut, as) => (.error .timedOut, ⟨[], as⟩)
    | (.ok [], as) => (if fails then .error .failed else .ok [], ⟨[], as⟩)
    | (.ok bs, as) => (.ok bs, ⟨bs, as⟩)

def consume (n : Nat) (r : BufReader) : BufReader := { r with buffer := r.buffer.drop n }

def readUntil (delim : BitVec 8) : (turns limit read : Nat) → Bytes → BufReader →
    Except ReadError Nat × Bytes × BufReader
  | 0, _, read, buf, r => (.ok read, buf, r)
  | turns + 1, limit, read, buf, r =>
    if limit = 0 then (.ok read, buf, r)
    else
      match r.fillBuf size fails with
      | (.error e, r) => (.error e, buf, r)
      | (.ok available, r) =>
        match cutAt delim (available.take limit) with
        | some (before, _) =>
          (.ok (read + (before.length + 1)), buf ++ (before ++ [delim]), r.consume (before.length + 1))
        | none =>
          let used := (available.take limit).length
          if used = 0 then (.ok read, buf, r)
          else readUntil delim turns (limit - used) (read + used) (buf ++ available.take limit) (r.consume used)

def takeUntil (delim : BitVec 8) (limit : Nat) (buf : Bytes) (r : BufReader) :
    Except ReadError Nat × Bytes × BufReader := readUntil size fails delim limit limit 0 buf r

end

inductive Filled (fails : Bool) (r : BufReader) : Except ReadError Bytes × BufReader → Prop where
  | timedOut {r' : BufReader} (hs : r'.stream = r.stream) (ht : r'.timeouts < r.timeouts) :
      Filled fails r (.error .timedOut, r')
  | failed {r' : BufReader} (hfails : fails = true) (hs : r.stream = []) : Filled fails r (.error .failed, r')
  | eof {r' : BufReader} (hfails : fails = false) (hs : r.stream = []) (hs' : r'.stream = [])
      (ht : r'.timeouts ≤ r.timeouts) : Filled fails r (.ok [], r')
  | got {r' : BufReader} (hne : r'.buffer ≠ []) (hs : r'.stream = r.stream) (ht : r'.timeouts ≤ r.timeouts) :
      Filled fails r (.ok r'.buffer, r')

theorem count_recv (n : Nat) : ∀ as : List Arrival,
    (recv n as).2.count .timeout + (if (recv n as).1 = .timedOut then 1 else 0) = as.count .timeout
  | [] => rfl
  | .timeout :: as => by simp [recv]
  | .data b bs :: as => by
    cases hdrop : (b :: bs).drop n with
    | nil | cons b' bs' => simp [recv, hdrop]

variable {size : Nat}

theorem filled (hsize : 0 < size) (fails : Bool) (r : BufReader) : Filled fails r (r.fillBuf size fails) := by
  obtain ⟨buffer, as⟩ := r
  unfold fillBuf
  cases buffer with
  | cons b bs => exact .got (cons_ne_nil b bs) rfl (Nat.le_refl _)
  | nil =>
    have hcount := count_recv size as
    have hrecv := recv_spec hsize as
    generalize recv size as = got at hrecv hcount ⊢
    cases hrecv with
    | eof =>
      cases fails with
      | true => exact .failed rfl rfl
      | false => exact .eof rfl rfl rfl (Nat.le_refl _)
    | timedOut as' =>
      refine .timedOut rfl ?_
      exact Nat.lt_of_lt_of_eq (Nat.lt_succ_self _) hcount
    | @got _ as' b bs hn hu hw ht =>
      refine @Filled.got fails _ ⟨b :: bs, as'⟩ (cons_ne_nil b bs) hu.symm ?_
      exact Nat.le_of_eq hcount

inductive Until (delim : BitVec 8) (limit read : Nat) (buf : Bytes) (r : BufReader) :
    Except ReadError Nat × Bytes × BufReader → Prop where
  | delimited (got : Bytes) {n : Nat} {buf' : Bytes} {r' : BufReader} (hno : delim ∉ got)
      (hs : r.stream = got ++ delim :: r'.stream) (hlen : got.length < limit) (hn : n = read + (got.length + 1))
      (hbuf : buf' = buf ++ (got ++ [delim])) : Until delim limit read buf r (.ok n, buf', r')
  | full (got : Bytes) {n : Nat} {buf' : Bytes} {r' : BufReader} (hno : delim ∉ got)
      (hs : r.stream = got ++ r'.stream) (hlen : got.length = limit) (hn : n = read + got.length)
      (hbuf : buf' = buf ++ got) : Until delim limit read buf r (.ok n, buf', r')
  | eof (got : Bytes) {n : Nat} {buf' : Bytes} {r' : BufReader} (hno : delim ∉ got)
      (hs : r.stream = got) (hs' : r'.stream = []) (hlen : got.length < limit) (hn : n = read + got.length)
      (hbuf : buf' = buf ++ got) (ht : r'.timeouts ≤ r.timeouts) : Until delim limit read buf r (.ok n, buf', r')
  | timedOut (got : Bytes) {buf' : Bytes} {r' : BufReader} (hno : delim ∉ got)
      (hs : r.stream = got ++ r'.stream) (hlen : got.length < limit) (hbuf : buf' = buf ++ got)
      (ht : r'.timeouts < r.timeouts) : Until delim limit read buf r (.error .timedOut, buf', r')
  | failed (got : Bytes) {buf' : Bytes} {r' : BufReader} (hno : delim ∉ got) (hs : r.stream = got)
      (hlen : got.length < limit) (hbuf : buf' = buf ++ got) : Until delim limit read buf r (.error .failed, buf', r')

theorem Until.behind {delim : BitVec 8} {limit read : Nat} {buf front : Bytes} {r r1 : BufReader}
    {res : Except ReadError Nat × Bytes × BufReader} (hno : delim ∉ front)
    (hs : r.stream = front ++ r1.stream) (hlen : front.length ≤ limit) (ht : r1.timeouts ≤ r.timeouts)
    (h : Until delim (limit - front.length) (read + front.length) (buf ++ front) r1 res) :
    Until delim limit read buf r res := by
  have hboth : ∀ {got : Bytes}, delim ∉ got → delim ∉ front ++ got := fun hgot hm =>
    (mem_append.1 hm).elim hno hgot
  cases h with
  | delimited got hgot hs1 hlen1 hn hbuf =>
    refine .delimited (front ++ got) (hboth hgot) ?_ ?_ ?_ ?_
    · rw [hs, hs1, append_assoc]
    · rw [length_append]
      omega
    · rw [hn, length_append]
      omega
    · rw [hbuf, append_assoc, append_assoc]
  | full got hgot hs1 hlen1 hn hbuf =>
    refine .full (front ++ got) (hboth hgot) ?_ ?_ ?_ ?_
    · rw [hs, hs1, append_assoc]
    · rw [length_append]
      omega
    · rw [hn, length_append]
      omega
    · rw [hbuf, append_assoc]
  | eof got hgot hs1 hs' hlen1 hn hbuf ht1 =>
    refine .eof (front ++ got) (hboth hgot) ?_ hs' ?_ ?_ ?_ (Nat.le_trans ht1 ht)
    · rw [hs, hs1]
    · rw [length_append]
      omega
    · rw [hn, length_append]
      omega
    · rw [hbuf, append_assoc]
  | timedOut got hgot hs1 hlen1 hbuf ht1 =>
    refine .timedOut (front ++ got) (hboth hgot) ?_ ?_ ?_ (Nat.lt_of_lt_of_le ht1 ht)
    · rw [hs, hs1, append_assoc]
    · rw [length_append]
      omega
    · rw [hbuf, append_assoc]
  | failed got hgot hs1 hlen1 hbuf =>
    refine .failed (front ++ got) (hboth hgot) ?_ ?_ ?_
    · rw [hs, hs1]
    · rw [length_append]
      omega
    · rw [hbuf, append_assoc]

theorem cutAt_cases {α : Type} [DecidableEq α] (a : α) : ∀ l : List α,
    (cutAt a l = none ∧ a ∉ l) ∨
      ∃ before after, cutAt a l = some (before, after) ∧ l = before ++ a :: after ∧ a ∉ before
  | [] => Or.inl ⟨rfl, not_mem_nil⟩
  | x :: l => by
    rw [cutAt]
    by_cases hx : x = a
    · rw [if_pos hx, hx]
      exact .inr ⟨[], l, rfl, rfl, not_mem_nil⟩
    · rw [if_neg hx]
      rcases cutAt_cases a l with ⟨hnone, hno⟩ | ⟨before, after, hsome, hl, hno⟩
      · rw [hnone]
        exact .inl ⟨rfl, fun hm => (mem_cons.1 hm).elim (fun he => hx he.symm) hno⟩
      · rw [hsome, hl]
        exact .inr ⟨x :: before, after, rfl, rfl, fun hm => (mem_cons.1 hm).elim (fun he => hx he.symm) hno⟩

theorem stream_consume {r : BufReader} (front : Bytes) {more : Bytes}
    (h : r.buffer = front ++ more) : r.stream = front ++ (r.consume front.length).stream := by
  unfold stream consume
  rw [h, drop_left, append_assoc]

theorem until_readUntil (hsize : 0 < size) (fails : Bool) (delim : BitVec 8) :
    ∀ (turns limit read : Nat) (buf : Bytes) (r : BufReader), limit ≤ turns →
      Until delim limit read buf r (readUntil size fails delim turns limit read buf r)
  | 0, limit, read, buf, r, hturns =>
    .full [] not_mem_nil rfl (Nat.le_zero.1 hturns).symm rfl (append_nil buf).symm
  | turns + 1, limit, read, buf, r, hturns => by
    unfold readUntil
    by_cases hzero : limit = 0
    · rw [if_pos hzero]
      exact .full [] not_mem_nil rfl hzero.symm rfl (append_nil buf).symm
    rw [if_neg hzero]
    have hpos : 0 < limit := Nat.pos_of_ne_zero hzero
    have hfilled := filled hsize fails r
    generalize r.fillBuf size fails = filled at hfilled ⊢
    cases hfilled with
    | timedOut hs ht => exact .timedOut [] not_mem_nil hs.symm hpos (append_nil buf).symm ht
    | failed _ hs => exact .failed [] not_mem_nil hs hpos (append_nil buf).symm
    | eof _ hs hs' ht =>
      simp only [take_nil, cutAt, length_nil, if_true]
      exact .eof [] not_mem_nil hs hs' hpos rfl (append_nil buf).symm ht
    | @got r' hne hs ht =>
      have hshown : r'.buffer = r'.buffer.take limit ++ r'.buffer.drop limit := (take_append_drop _ _).symm
      have htake : (r'.buffer.take limit).length ≤ limit := by
        rw [length_take]
        omega
      simp only
      rcases cutAt_cases delim (r'.buffer.take limit) with ⟨hnone, hno⟩ | ⟨before, after, hsome, hcut, hno⟩
      · have hused : 0 < (r'.buffer.take limit).length := by
          have := length_pos_iff.2 hne
          rw [length_take]
          omega
        rw [hnone]
        rw [if_neg (Nat.ne_of_gt hused)]
        refine Until.behind hno (hs.symm.trans (stream_consume _ hshown)) htake ht ?_
        exact until_readUntil hsize fails delim turns _ _ _ _ (by omega)
      · rw [hsome]
        have hlen := congrArg List.length hcut
        rw [length_append, length_cons] at hlen
        refine .delimited before hno ?_ (by omega) rfl rfl
        have hbuffer : r'.buffer = (before ++ [delim]) ++ (after ++ r'.buffer.drop limit) := by
          conv_lhs => rw [hshown, hcut]
          simp
        rw [← hs, stream_consume _ hbuffer, append_assoc, length_append]
        rfl

theorem until_takeUntil (hsize : 0 < size) (fails : Bool) (delim : BitVec 8) (limit : Nat)
    (buf : Bytes) (r : BufReader) : Until delim limit 0 buf r (takeUntil size fails delim limit buf r) :=
  until_readUntil hsize fails delim limit limit 0 buf r (Nat.le_refl _)

end BufReader
end TailscaleVita

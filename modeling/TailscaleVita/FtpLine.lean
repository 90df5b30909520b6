import Mathlib.Data.List.Induction
import TailscaleVita.BufRead
import TailscaleVita.TextLossy
/-!
# FtpLine — a command line off the control stream (`ts-ftp/src/session.rs`)

`read_line` polls: each read is bounded by what is left of the line's budget, a timeout leaves what has come so far in
the buffer, and the loop goes on unless the server is stopping or the client was idle for too long. However the bytes
arrive, the line is what stands before the first newline.
-/
namespace TailscaleVita.Ftp

open List

def maxCommandBytes : Nat := 4096

def ctrlIdleTimeout : Nat := 120

def bufReaderSize : Nat := 8 * 1024

/-- What a session sees: the time at which it begins to read a line and at each timeout, and whether the server is
stopping then. -/
structure Watch where
  start : Nat
  now : (poll : Nat) → Nat
  shutdown : (poll : Nat) → Bool

def Watch.stops (w : Watch) (poll : Nat) : Bool := w.shutdown poll || decide (w.start + ctrlIdleTimeout ≤ w.now poll)

def isEol (b : BitVec 8) : Bool := b == 10 || b == 13

def stripEol (buf : Bytes) : Bytes := (buf.reverse.dropWhile isEol).reverse

/-- The loop of `read_line`. A turn that goes on has met a timeout, or the end of the stream with bytes before it. -/
def readLineLoop (w : Watch) (fails : Bool) :
    (turns poll : Nat) → Bytes → BufReader → Option Text × Bytes × BufReader
  | 0, _, buf, r => (none, buf, r)
  | turns + 1, poll, buf, r =>
    let budget := maxCommandBytes + 1 - buf.length
    match BufReader.takeUntil bufReaderSize fails 10 budget buf r with
    | (.ok n, buf, r) =>
      if maxCommandBytes < buf.length then (none, buf, r)
      else if n = 0 then (none, buf, r)
      else if buf.getLast? = some 10 then (some (fromUtf8Lossy (stripEol buf)), buf, r)
      else readLineLoop w fails turns poll buf r
    | (.error .timedOut, buf, r) =>
      if w.stops poll then (none, buf, r) else readLineLoop w fails turns (poll + 1) buf r
    | (.error .failed, buf, r) => (none, buf, r)

def readLine (w : Watch) (fails : Bool) (r : BufReader) : Option Text × Bytes × BufReader :=
  readLineLoop w fails (r.timeouts + 2) 0 [] r

def lineOf (stream : Bytes) : Bytes := stream.takeWhile (fun b => !(b == 10))

def trimEol (s : Text) : Text := (s.reverse.dropWhile (fun c => c == '\n' || c == '\r')).reverse

theorem lineOf_append {before : Bytes} (hno : 10 ∉ before) (rest : Bytes) : lineOf (before ++ 10 :: rest) = before := by
  unfold lineOf
  have hpos : ∀ b ∈ before, (!(b == 10)) = true := by
    intro b hb
    rw [Bool.not_eq_true', beq_eq_false_iff_ne]
    rintro rfl
    exact hno hb
  rw [takeWhile_append_of_pos hpos, takeWhile_cons_of_neg (by decide), append_nil]

theorem drop_line (line rest : Bytes) : (line ++ 10 :: rest).drop (line.length + 1) = rest := by
  rw [append_cons, drop_left' (by rw [length_append, length_singleton])]

theorem stripEol_concat (buf : Bytes) (b : BitVec 8) :
    stripEol (buf ++ [b]) = if isEol b then stripEol buf else buf ++ [b] := by
  unfold stripEol
  rw [reverse_append, reverse_singleton, singleton_append]
  by_cases hb : isEol b = true
  · rw [if_pos hb, dropWhile_cons_of_pos hb]
  · rw [if_neg hb, dropWhile_cons_of_neg hb, reverse_cons, reverse_reverse]

theorem fromUtf8Lossy_stripEol (buf : Bytes) : fromUtf8Lossy (stripEol buf) = trimEol (fromUtf8Lossy buf) := by
  induction buf using List.reverseRecOn with
  | nil => rfl
  | append_singleton buf b ih =>
    rw [stripEol_concat]
    by_cases hb : isEol b = true
    · have hascii : b.toNat < 128 := by
        unfold isEol at hb
        simp only [Bool.or_eq_true, beq_iff_eq] at hb
        rcases hb with rfl | rfl <;> decide
      have hchar : (Char.ofNat b.toNat == '\n' || Char.ofNat b.toNat == '\r') = true := by
        unfold isEol at hb
        simp only [Bool.or_eq_true, beq_iff_eq] at hb
        rcases hb with rfl | rfl <;> decide
      rw [if_pos hb, ih, fromUtf8Lossy_append_ascii hascii]
      unfold trimEol
      rw [reverse_append]
      show _ = (List.dropWhile _ (Char.ofNat b.toNat :: (fromUtf8Lossy buf).reverse)).reverse
      rw [dropWhile_cons, if_pos hchar]
    · rw [if_neg hb]
      have hlast : ∀ c, (fromUtf8Lossy (buf ++ [b])).getLast? = some c → (c == '\n' || c == '\r') = false := by
        intro c hc
        by_contra hne
        rw [Bool.not_eq_false, Bool.or_eq_true, beq_iff_eq, beq_iff_eq] at hne
        have hascii : c.toNat < 128 := by rcases hne with rfl | rfl <;> decide
        have hbyte := getLast?_of_fromUtf8Lossy hascii _ hc
        rw [getLast?_concat, Option.some.injEq] at hbyte
        rw [hbyte] at hb
        rcases hne with rfl | rfl <;> exact hb (by decide)
      unfold trimEol
      rw [dropWhile_of_head (by rw [head?_reverse]; exact hlast), reverse_reverse]

structure LineRead (stream : Bytes) (res : Option Text × Bytes × BufReader) : Prop where
  line : 10 ∈ stream.take maxCommandBytes → res.1 = some (trimEol (fromUtf8Lossy (lineOf stream))) ∧
    res.2.2.stream = stream.drop ((lineOf stream).length + 1)
  none : 10 ∉ stream.take maxCommandBytes → res.1 = none

theorem LineRead.of_line {line : Bytes} {r : BufReader} (hno : 10 ∉ line) (hlen : line.length < maxCommandBytes)
    (buf : Bytes) : LineRead (line ++ 10 :: r.stream) (some (fromUtf8Lossy (stripEol (line ++ [10]))), buf, r) := by
  refine ⟨fun _ => ?_, fun hnone => absurd ?_ hnone⟩
  · rw [lineOf_append hno, stripEol_concat, if_pos (by decide), fromUtf8Lossy_stripEol]
    exact ⟨rfl, (drop_line line r.stream).symm⟩
  · rw [take_append, take_of_length_le (Nat.le_of_lt hlen)]
    obtain ⟨k, hk⟩ := Nat.exists_eq_add_of_lt hlen
    have hroom : maxCommandBytes - line.length = k + 1 := by omega
    rw [hroom, take_succ_cons]
    exact mem_append_right _ mem_cons_self

theorem LineRead.of_none {stream : Bytes} (hno : 10 ∉ stream.take maxCommandBytes) (buf : Bytes) (r : BufReader) :
    LineRead stream (Option.none, buf, r) := ⟨fun hmem => absurd hmem hno, fun _ => rfl⟩

def turnsFor (r : BufReader) : Nat := r.timeouts + (if r.stream = [] then 1 else 2)

theorem lineRead_loop (w : Watch) (fails : Bool) : ∀ (turns poll : Nat) (buf : Bytes) (r : BufReader),
    turnsFor r ≤ turns → (∀ p, poll ≤ p → p < poll + r.timeouts → w.stops p = false) → 10 ∉ buf →
    buf.length ≤ maxCommandBytes → LineRead (buf ++ r.stream) (readLineLoop w fails turns poll buf r)
  | 0, poll, buf, r, hturns, _, _, _ => by
    unfold turnsFor at hturns
    split at hturns <;> omega
  | turns + 1, poll, buf, r, hturns, hw, hno, hlen => by
    have hboth : ∀ {got : Bytes}, 10 ∉ got → 10 ∉ buf ++ got := fun hgot hm => (mem_append.1 hm).elim hno hgot
    have hshort : ∀ {all : Bytes}, 10 ∉ all → 10 ∉ all.take maxCommandBytes := fun hall hm =>
      hall (mem_of_mem_take hm)
    rw [readLineLoop]
    have huntil := @BufReader.until_takeUntil bufReaderSize (by decide) fails 10
      (maxCommandBytes + 1 - buf.length) buf r
    generalize BufReader.takeUntil bufReaderSize fails 10 (maxCommandBytes + 1 - buf.length) buf r = res at huntil ⊢
    cases huntil with
    | @delimited got n buf' r' hgot hs hroom hn hbuf =>
      subst hn hbuf
      simp only
      rw [hs, ← append_assoc buf got [10], ← append_assoc buf got (10 :: r'.stream)]
      by_cases hover : maxCommandBytes < (buf ++ got ++ [10]).length
      · -- the newline is the byte past the budget
        have hcut : (buf ++ got).length = maxCommandBytes := by
          simp only [length_append, length_singleton] at hover ⊢
          omega
        rw [if_pos hover]
        refine .of_none ?_ _ _
        rw [← hcut, take_left]
        exact hboth hgot
      · rw [if_neg hover, if_neg (by omega), if_pos getLast?_concat]
        refine .of_line (hboth hgot) ?_ _
        simp only [length_append, length_singleton] at hover ⊢
        omega
    | @full got n buf' r' hgot hs hroom hn hbuf =>
      subst hn hbuf
      have hover : (buf ++ got).length = maxCommandBytes + 1 := by
        rw [length_append]
        omega
      simp only
      rw [if_pos (by omega), hs, ← append_assoc]
      refine .of_none ?_ _ _
      rw [take_append_of_le_length (by omega)]
      exact hshort (hboth hgot)
    | @eof got n buf' r' hgot hs hs' hroom hn hbuf ht =>
      subst hn hbuf
      have hwithin : ¬ maxCommandBytes < (buf ++ got).length := by
        rw [length_append]
        omega
      simp only
      rw [if_neg hwithin]
      by_cases hzero : 0 + got.length = 0
      · rw [if_pos hzero, hs]
        exact .of_none (hshort (hboth hgot)) _ _
      · have hlast : (buf ++ got).getLast? ≠ some 10 := fun hl => hboth hgot (mem_of_getLast? hl)
        have hcame : r.stream ≠ [] := by
          rw [hs]
          rintro rfl
          exact hzero rfl
        rw [if_neg hzero, if_neg hlast]
        have hrest := lineRead_loop w fails turns poll (buf ++ got) r' (by
            unfold turnsFor at hturns ⊢
            rw [if_neg hcame] at hturns
            rw [if_pos hs']
            omega)
          (fun p hp hlt => hw p hp (by omega)) (hboth hgot) (by omega)
        rw [hs', append_nil] at hrest
        rwa [hs]
    | @timedOut got buf' r' hgot hs hroom hbuf ht =>
      subst hbuf
      simp only
      rw [if_neg (Bool.eq_false_iff.1 (hw poll (Nat.le_refl _) (by omega))), hs, ← append_assoc]
      refine lineRead_loop w fails turns (poll + 1) (buf ++ got) r' ?_ (fun p hp hlt => hw p (by omega) (by omega))
        (hboth hgot) ?_
      · unfold turnsFor at hturns ⊢
        by_cases hnil : r.stream = []
        · have hnil' : r'.stream = [] := (append_eq_nil_iff.1 (hs.symm.trans hnil)).2
          rw [if_pos hnil] at hturns
          rw [if_pos hnil']
          omega
        · rw [if_neg hnil] at hturns
          split <;> omega
      · rw [length_append]
        omega
    | @failed got buf' r' hgot hs hroom hbuf =>
      rw [hs]
      exact .of_none (hshort (hboth hgot)) _ _

theorem length_readLineLoop (w : Watch) (fails : Bool) : ∀ (turns poll : Nat) (buf : Bytes) (r : BufReader),
    buf.length ≤ maxCommandBytes + 1 → (readLineLoop w fails turns poll buf r).2.1.length ≤ maxCommandBytes + 1
  | 0, _, _, _, hlen => hlen
  | turns + 1, poll, buf, r, hlen => by
    rw [readLineLoop]
    have huntil := @BufReader.until_takeUntil bufReaderSize (by decide) fails 10
      (maxCommandBytes + 1 - buf.length) buf r
    generalize BufReader.takeUntil bufReaderSize fails 10 (maxCommandBytes + 1 - buf.length) buf r = res at huntil ⊢
    have hbuf : res.2.1.length ≤ maxCommandBytes + 1 := by
      cases huntil with
      | delimited got _ _ _ _ hbuf | full got _ _ _ _ hbuf | eof got _ _ _ _ _ hbuf | timedOut got _ _ _ hbuf
      | failed got _ _ _ hbuf =>
        rw [hbuf]
        simp only [length_append, length_singleton]
        omega
    obtain ⟨n, buf', r'⟩ := res
    have hrest : ∀ poll, (readLineLoop w fails turns poll buf' r').2.1.length ≤ maxCommandBytes + 1 := fun poll =>
      length_readLineLoop w fails turns poll buf' r' hbuf
    cases n with
    | ok n =>
      simp only
      split
      · exact hbuf
      · split
        · exact hbuf
        · split
          · exact hbuf
          · exact hrest _
    | error e =>
      cases e with
      | timedOut =>
        simp only
        split
        · exact hbuf
        · exact hrest _
      | failed => exact hbuf

theorem turnsFor_le (r : BufReader) : turnsFor r ≤ r.timeouts + 2 := by
  unfold turnsFor
  split <;> omega

theorem lineRead_readLine (w : Watch) (fails : Bool) (r : BufReader) (hw : ∀ p < r.timeouts, w.stops p = false) :
    LineRead r.stream (readLine w fails r) :=
  lineRead_loop w fails (r.timeouts + 2) 0 [] r (turnsFor_le r) (fun p _ hp => hw p (by omega)) not_mem_nil
    (Nat.zero_le _)

/-- **Reading a line.** A session that is not stopped at any of the timeouts reads, off any stream and in whatever
pieces it comes, the line before the first newline and nothing behind it, if that newline is within the budget, and no
line otherwise; and its buffer never exceeds the budget by more than one byte. -/
theorem read_line_exact (w : Watch) (fails : Bool) (r : BufReader) (hw : ∀ poll < r.timeouts, w.stops poll = false) :
    (∀ turns, r.timeouts + 2 ≤ turns →
      (10 ∈ r.stream.take maxCommandBytes →
        (readLineLoop w fails turns 0 [] r).1 = some (trimEol (fromUtf8Lossy (lineOf r.stream))) ∧
        (readLineLoop w fails turns 0 [] r).2.2.stream = r.stream.drop ((lineOf r.stream).length + 1)) ∧
      (10 ∉ r.stream.take maxCommandBytes → (readLineLoop w fails turns 0 [] r).1 = none)) ∧
    ∀ turns, (readLineLoop w fails turns 0 [] r).2.1.length ≤ maxCommandBytes + 1 := by
  refine ⟨fun turns hturns => ?_, fun turns => length_readLineLoop w fails turns 0 [] r (Nat.zero_le _)⟩
  obtain ⟨hline, hnone⟩ := lineRead_loop w fails turns 0 [] r (Nat.le_trans (turnsFor_le r) hturns)
    (fun p _ hp => hw p (by omega)) not_mem_nil (Nat.zero_le _)
  exact ⟨hline, hnone⟩

def slowNoop : BufReader :=
  ⟨[], [.data 78 [79], .timeout, .data 79 [80, 13, 10, 81]]⟩

theorem read_line_slow_noop :
    (readLineLoop ⟨0, fun _ => 2, fun _ => false⟩ false 3 0 [] slowNoop).1 = some "NOOP".toList := by
  have h := (read_line_exact ⟨0, fun _ => 2, fun _ => false⟩ false slowNoop (fun _ _ => rfl)).1 3 (by decide)
  exact (h.1 (by decide)).1

end TailscaleVita.Ftp

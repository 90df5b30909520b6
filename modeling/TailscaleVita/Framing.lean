import Mathlib.Algebra.Ring.Nat
import Mathlib.Data.List.Basic
/-!
# Framing — a byte stream as it arrives, and its frames

A transport delivers a stream in pieces of any size, with timeouts between them, and then its end; `recv` is one read
into a buffer. An `Extractor` takes the first frame off a buffer; what it says of a buffer it says of every longer one,
so the frames of a stream do not depend on how it arrives.
-/
namespace TailscaleVita

open List

/-! ## Arrivals -/

/-- What a read may meet before the end of the stream: bytes, at least one, or nothing in time. -/
inductive Arrival where
  | data (b : BitVec 8) (bs : List (BitVec 8))
  | timeout
deriving DecidableEq

def Arrival.bytes : Arrival → List (BitVec 8)
  | .data b bs => b :: bs
  | .timeout => []

def unread (as : List Arrival) : List (BitVec 8) := as.flatMap Arrival.bytes

def weight : List Arrival → Nat
  | [] => 0
  | .data _ bs :: as => bs.length + 1 + weight as
  | .timeout :: as => weight as + 1

@[simp] theorem unread_nil : unread [] = [] := rfl

@[simp] theorem unread_data (b : BitVec 8) (bs : List (BitVec 8)) (as : List Arrival) :
    unread (.data b bs :: as) = b :: bs ++ unread as := rfl

@[simp] theorem unread_timeout (as : List Arrival) : unread (.timeout :: as) = unread as := rfl

inductive ReadResult where
  | ok (bytes : List (BitVec 8))
  | timedOut
deriving DecidableEq

def recv (n : Nat) : List Arrival → ReadResult × List Arrival
  | [] => (.ok [], [])
  | .timeout :: as => (.timedOut, as)
  | .data b bs :: as =>
    match (b :: bs).drop n with
    | [] => (.ok (b :: bs), as)
    | b' :: bs' => (.ok ((b :: bs).take n), .data b' bs' :: as)

inductive Recv (n : Nat) : List Arrival → ReadResult × List Arrival → Prop where
  | eof : Recv n [] (.ok [], [])
  | timedOut (as : List Arrival) : Recv n (.timeout :: as) (.timedOut, as)
  | got {as as' : List Arrival} {b : BitVec 8} {bs : List (BitVec 8)} (hn : (b :: bs).length ≤ n)
      (hu : unread as = b :: bs ++ unread as') (hw : weight as = (b :: bs).length + weight as')
      (ht : .timeout ∈ as' → .timeout ∈ as) : Recv n as (.ok (b :: bs), as')

theorem recv_spec {n : Nat} (hn : 0 < n) (as : List Arrival) : Recv n as (recv n as) := by
  match as with
  | [] => exact .eof
  | .timeout :: as => exact .timedOut as
  | .data b bs :: as =>
    unfold recv
    obtain ⟨n, rfl⟩ : ∃ m, n = m + 1 := ⟨n - 1, by omega⟩
    have hsplit := take_append_drop n bs
    simp only [drop_succ_cons, take_succ_cons]
    split
    next hdrop =>
      have hlen : bs.length ≤ n := drop_eq_nil_iff.1 hdrop
      exact .got (by simpa using hlen) rfl (by simp [weight]) (fun h => mem_cons_of_mem _ h)
    next b' bs' hdrop =>
      rw [hdrop] at hsplit
      have htake : (bs.take n).length ≤ n := by rw [length_take]; omega
      have hlen : bs.length = (bs.take n).length + (bs'.length + 1) := by
        have h := congrArg List.length hsplit
        rw [length_append, length_cons] at h
        omega
      refine .got (Nat.succ_le_succ htake) ?_ ?_ (fun h => ?_)
      · rw [unread_data, unread_data, ← append_assoc]
        exact congrArg (fun l => b :: l ++ unread as) hsplit.symm
      · simp only [weight, length_cons]
        omega
      · rcases mem_cons.1 h with h | h
        · cases h
        · exact mem_cons_of_mem _ h

inductive Toward (head tail buf : List (BitVec 8)) (as : List Arrival) : ReadResult × List Arrival → Prop where
  | timedOut {as' : List Arrival} (h : .timeout ∈ as) : Toward head tail buf as (.timedOut, as')
  | reached {as' : List Arrival} {b : BitVec 8} {bs rest : List (BitVec 8)} (hbuf : buf ++ b :: bs = head ++ rest)
      (hrest : rest ++ unread as' = tail) (ht : .timeout ∈ as' → .timeout ∈ as) :
      Toward head tail buf as (.ok (b :: bs), as')
  | more {as' : List Arrival} {b : BitVec 8} {bs : List (BitVec 8)}
      (hbytes : (buf ++ b :: bs) ++ unread as' = head ++ tail) (hpre : buf ++ b :: bs <+: head)
      (hlt : (buf ++ b :: bs).length < head.length) (hgrow : buf.length < (buf ++ b :: bs).length)
      (ht : .timeout ∈ as' → .timeout ∈ as) : Toward head tail buf as (.ok (b :: bs), as')

theorem recv_toward {n : Nat} (hn : 0 < n) {head tail buf : List (BitVec 8)} {as : List Arrival}
    (hbytes : buf ++ unread as = head ++ tail) (hlt : buf.length < head.length) :
    Toward head tail buf as (recv n as) := by
  have hrecv := recv_spec hn as
  generalize recv n as = got at hrecv ⊢
  cases hrecv with
  | eof =>
    -- the stream would be shorter than its head
    have hlen := congrArg List.length hbytes
    rw [unread_nil, append_nil, length_append] at hlen
    omega
  | timedOut as' => exact .timedOut mem_cons_self
  | @got _ as' b bs _ hu _ ht =>
    have hmoved : (buf ++ b :: bs) ++ unread as' = head ++ tail := by rw [← hbytes, hu, append_assoc]
    by_cases hlen : head.length ≤ (buf ++ b :: bs).length
    · obtain ⟨rest, hrest⟩ : head <+: buf ++ b :: bs := prefix_of_prefix_length_le ⟨tail, rfl⟩ ⟨unread as', hmoved⟩ hlen
      rw [← hrest, append_assoc] at hmoved
      exact .reached hrest.symm (append_cancel_left hmoved) ht
    · have hpre : buf ++ b :: bs <+: head := prefix_of_prefix_length_le ⟨unread as', hmoved⟩ ⟨tail, rfl⟩ (by omega)
      exact .more hmoved hpre (by omega) (by simp) ht

/-! ## Chunks -/

section

variable {α : Type}

def chunksFrom (n : Nat) : (fuel : Nat) → List α → List (List α)
  | 0, _ => []
  | _ + 1, [] => []
  | fuel + 1, a :: l => (a :: l).take n :: chunksFrom n fuel ((a :: l).drop n)

def chunks (n : Nat) (l : List α) : List (List α) := chunksFrom n l.length l

theorem flatten_chunksFrom {n : Nat} (hn : 0 < n) :
    ∀ (fuel : Nat) (l : List α), l.length ≤ fuel → (chunksFrom n fuel l).flatten = l
  | 0, [], _ => rfl
  | _ + 1, [], _ => rfl
  | fuel + 1, a :: l, h => by
    have hlen : ((a :: l).drop n).length ≤ fuel := by
      rw [length_drop]
      omega
    rw [chunksFrom, flatten_cons, flatten_chunksFrom hn fuel _ hlen, take_append_drop]

theorem flatten_chunks {n : Nat} (hn : 0 < n) (l : List α) : (chunks n l).flatten = l :=
  flatten_chunksFrom hn l.length l (Nat.le_refl _)

theorem mem_chunksFrom {n : Nat} (hn : 0 < n) {p : List α} :
    ∀ (fuel : Nat) (l : List α), p ∈ chunksFrom n fuel l → p ≠ [] ∧ p.length ≤ n
  | 0, _, h => by cases h
  | _ + 1, [], h => by cases h
  | fuel + 1, a :: l, h => by
    obtain ⟨n, rfl⟩ : ∃ m, n = m + 1 := ⟨n - 1, by omega⟩
    rcases mem_cons.1 h with rfl | h
    · refine ⟨by simp, ?_⟩
      rw [length_take]
      omega
    · exact mem_chunksFrom hn fuel _ h

theorem mem_chunks {n : Nat} (hn : 0 < n) {l p : List α} (h : p ∈ chunks n l) : p ≠ [] ∧ p.length ≤ n :=
  mem_chunksFrom hn l.length l h

end

/-! ## Frames -/

inductive Extracted (α ε : Type) where
  | more
  | frame (a : α) (rest : List (BitVec 8))
  | fail (e : ε)

structure Extractor (α ε : Type) where
  extract : List (BitVec 8) → Extracted α ε
  frame_append : ∀ {b a rest}, extract b = .frame a rest → ∀ more, extract (b ++ more) = .frame a (rest ++ more)
  fail_append : ∀ {b e}, extract b = .fail e → ∀ more, extract (b ++ more) = .fail e
  shrinks : ∀ {b a rest}, extract b = .frame a rest → rest.length < b.length

inductive Ending (ε : Type) where
  | short (rest : List (BitVec 8))
  | fail (e : ε)
deriving DecidableEq

namespace Extractor

variable {α ε : Type} (X : Extractor α ε)

def parse : (fuel : Nat) → List (BitVec 8) → List α × Ending ε
  | 0, b => ([], .short b)
  | fuel + 1, b =>
    match X.extract b with
    | .more => ([], .short b)
    | .fail e => ([], .fail e)
    | .frame a rest => (a :: (parse fuel rest).1, (parse fuel rest).2)

def frames (b : List (BitVec 8)) : List α × Ending ε := X.parse (b.length + 1) b

theorem parse_fuel : ∀ (n m : Nat) (b : List (BitVec 8)), b.length < n → b.length < m → X.parse n b = X.parse m b
  | n + 1, m + 1, b, hn, hm => by
    unfold parse
    cases h : X.extract b with
    | more | fail e => rfl
    | frame a rest =>
      have hlt := X.shrinks h
      simp [parse_fuel n m rest (by omega) (by omega)]

theorem frames_of_more {b : List (BitVec 8)} (h : X.extract b = .more) : X.frames b = ([], .short b) := by
  rw [frames, parse, h]

theorem frames_of_fail {b : List (BitVec 8)} {e : ε} (h : X.extract b = .fail e) : X.frames b = ([], .fail e) := by
  rw [frames, parse, h]

theorem frames_of_frame {b rest : List (BitVec 8)} {a : α} (h : X.extract b = .frame a rest) :
    X.frames b = (a :: (X.frames rest).1, (X.frames rest).2) := by
  have hlt := X.shrinks h
  have hfuel : X.parse b.length rest = X.frames rest := X.parse_fuel _ _ rest hlt (by omega)
  rw [frames, parse, h]
  simp [hfuel]

theorem frames_append {b : List (BitVec 8)} {l : List α} (h : X.frames b = (l, .short [])) (more : List (BitVec 8)) :
    X.frames (b ++ more) = (l ++ (X.frames more).1, (X.frames more).2) := by
  induction hn : b.length using Nat.strong_induction_on generalizing b l with
  | _ n ih =>
    cases hx : X.extract b with
    | more =>
      rw [X.frames_of_more hx] at h
      cases h
      rfl
    | fail e =>
      rw [X.frames_of_fail hx] at h
      cases h
    | frame a rest =>
      have hlt := X.shrinks hx
      rw [X.frames_of_frame hx] at h
      obtain ⟨rfl, hend⟩ := Prod.mk.inj h
      have hrest : X.frames rest = ((X.frames rest).1, .short []) := by rw [← hend]
      rw [X.frames_of_frame (X.frame_append hx more), ih rest.length (hn ▸ hlt) hrest rfl]
      rfl

end Extractor

end TailscaleVita

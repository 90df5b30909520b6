import Mathlib.Data.List.Basic
import TailscaleVita.LittleEndian
/-!
# Octets — fixed-size fields of a byte string, and values that are views of bytes

`Octets n` is an array of `n` bytes. A `ByteView` is a type whose values are byte strings of some shape, read in place.
Slices of fixed-size elements are views again.
-/
namespace TailscaleVita

open List

abbrev Octets (n : Nat) := { bs : List (BitVec 8) // bs.length = n }

namespace Octets

variable {n : Nat}

@[simp] theorem length_val (o : Octets n) : o.1.length = n := o.2

def split (n : Nat) (bs : List (BitVec 8)) : Option (Octets n × List (BitVec 8)) :=
  if h : n ≤ bs.length then some (⟨bs.take n, List.length_take_of_le h⟩, bs.drop n) else none

@[simp] theorem split_append (o : Octets n) (rest : List (BitVec 8)) : split n (o.1 ++ rest) = some (o, rest) := by
  simp [split]

theorem eq_append_of_split {bs rest : List (BitVec 8)} {o : Octets n} (h : split n bs = some (o, rest)) :
    bs = o.1 ++ rest := by
  unfold split at h
  split at h
  · cases h
    exact (take_append_drop n bs).symm
  · cases h

def exact (n : Nat) (bs : List (BitVec 8)) : Option (Octets n) := if h : bs.length = n then some ⟨bs, h⟩ else none

@[simp] theorem exact_val (o : Octets n) : exact n o.1 = some o := by rw [exact, dif_pos o.2]

theorem eq_of_exact {bs : List (BitVec 8)} {o : Octets n} (h : exact n bs = some o) : bs = o.1 := by
  unfold exact at h
  split at h
  · cases h
    rfl
  · cases h

theorem exists_split (n : Nat) (bs : List (BitVec 8)) (h : n ≤ bs.length) :
    ∃ o rest, split n bs = some (o, rest) ∧ rest.length = bs.length - n :=
  ⟨_, _, dif_pos h, length_drop⟩

theorem exists_exact (n : Nat) (bs : List (BitVec 8)) (h : bs.length = n) : ∃ o, exact n bs = some o := ⟨_, dif_pos h⟩

end Octets

/-! ## Big-endian words -/

theorem leBytes_leNat : ∀ (bs : List (BitVec 8)), leBytes bs.length (leNat bs) = bs
  | [] => rfl
  | b :: bs => by
    have hmod : (b.toNat + 256 * leNat bs) % 2 ^ 8 = b.toNat := by omega
    have hdiv : (b.toNat + 256 * leNat bs) / 256 = leNat bs := by omega
    rw [length_cons, leNat, leBytes, hdiv, leBytes_leNat bs]
    congr 1
    exact BitVec.eq_of_toNat_eq (by rw [BitVec.toNat_ofNat, hmod])

/-- The `n` low bytes of a number, most significant first: `to_be_bytes`. -/
def beBytes (n v : Nat) : List (BitVec 8) := (leBytes n v).reverse

def beNat (bs : List (BitVec 8)) : Nat := leNat bs.reverse

@[simp] theorem length_beBytes (n v : Nat) : (beBytes n v).length = n := by simp [beBytes]

theorem beNat_beBytes (n v : Nat) : beNat (beBytes n v) = v % 256 ^ n := by
  rw [beNat, beBytes, reverse_reverse, leNat_leBytes]

theorem beBytes_beNat (bs : List (BitVec 8)) : beBytes bs.length (beNat bs) = bs := by
  rw [beNat, beBytes, ← length_reverse, leBytes_leNat, reverse_reverse]

def Octets.get {n : Nat} (o : Octets n) : BitVec (8 * n) := BitVec.ofNat (8 * n) (beNat o.1)

def Octets.new {n : Nat} (x : BitVec (8 * n)) : Octets n := ⟨beBytes n x.toNat, length_beBytes n x.toNat⟩

theorem Octets.get_new {n : Nat} (x : BitVec (8 * n)) : (Octets.new x).get = x := by
  have hx : x.toNat < 256 ^ n := by
    have := x.isLt
    rwa [Nat.pow_mul] at this
  apply BitVec.eq_of_toNat_eq
  rw [Octets.get, Octets.new, BitVec.toNat_ofNat, beNat_beBytes, Nat.mod_eq_of_lt hx, Nat.mod_eq_of_lt x.isLt]

/-! ## Views -/

/-- Values read in place: `bytes` gives back exactly the byte string a value is a view of, and whether a byte string
has a view depends on its length alone. -/
class ByteView (α : Type) where
  view : List (BitVec 8) → Option α
  bytes : α → List (BitVec 8)
  view_bytes : ∀ a, view (bytes a) = some a
  bytes_view : ∀ {bs a}, view bs = some a → bytes a = bs
  exists_view : ∀ {bs a}, bs.length = (bytes a).length → ∃ a', view bs = some a'

section

variable {α : Type} [ByteView α] (k : Nat)

def viewElements : Nat → List (BitVec 8) → Option (List α)
  | 0, bs => if bs = [] then some [] else none
  | n + 1, bs =>
    match ByteView.view (bs.take k) with
    | none => none
    | some a => (viewElements n (bs.drop k)).map (a :: ·)

def viewSlice (bs : List (BitVec 8)) : Option (List α) :=
  if bs.length % k = 0 then viewElements k (bs.length / k) bs else none

theorem viewElements_flatMap (hk : ∀ a : α, (ByteView.bytes a).length = k) :
    ∀ l : List α, viewElements k l.length (l.flatMap ByteView.bytes) = some l
  | [] => rfl
  | a :: l => by
    rw [flatMap_cons, length_cons, viewElements, take_left' (hk a), drop_left' (hk a),
      ByteView.view_bytes, viewElements_flatMap hk l]
    rfl

theorem length_flatMap_bytes (hk : ∀ a : α, (ByteView.bytes a).length = k) :
    ∀ l : List α, (l.flatMap ByteView.bytes).length = l.length * k
  | [] => by simp
  | a :: l => by
    rw [flatMap_cons, length_append, hk a, length_flatMap_bytes hk l, length_cons, Nat.succ_mul]
    omega

theorem viewSlice_flatMap (hk : ∀ a : α, (ByteView.bytes a).length = k) (hpos : 0 < k) (l : List α) :
    viewSlice k (l.flatMap ByteView.bytes) = some l := by
  rw [viewSlice, length_flatMap_bytes k hk, Nat.mul_mod_left, if_pos rfl, Nat.mul_div_cancel _ hpos,
    viewElements_flatMap k hk]

theorem flatMap_of_viewElements : ∀ (n : Nat) {bs : List (BitVec 8)} {l : List α}, viewElements k n bs = some l →
    l.flatMap ByteView.bytes = bs
  | 0, bs, l, h => by
    unfold viewElements at h
    split at h
    next hbs =>
      cases h
      rw [hbs]
      rfl
    · cases h
  | n + 1, bs, l, h => by
    unfold viewElements at h
    split at h
    · cases h
    next a ha =>
      obtain ⟨l', hl', rfl⟩ := Option.map_eq_some_iff.1 h
      rw [flatMap_cons, ByteView.bytes_view ha, flatMap_of_viewElements n hl', take_append_drop]

theorem flatMap_of_viewSlice {bs : List (BitVec 8)} {l : List α} (h : viewSlice k bs = some l) :
    l.flatMap ByteView.bytes = bs := by
  unfold viewSlice at h
  split at h
  · exact flatMap_of_viewElements k _ h
  · cases h

theorem exists_viewElements (hk : ∀ a : α, (ByteView.bytes a).length = k) (a : α) : ∀ (n : Nat)
    {bs : List (BitVec 8)}, bs.length = n * k → ∃ l : List α, viewElements k n bs = some l
  | 0, bs, h => by
    have hbs : bs = [] := eq_nil_of_length_eq_zero (by rw [h, Nat.zero_mul])
    exact ⟨[], if_pos hbs⟩
  | n + 1, bs, h => by
    rw [Nat.succ_mul] at h
    have htake : (bs.take k).length = (ByteView.bytes a).length := by rw [length_take, hk a]; omega
    have hdrop : (bs.drop k).length = n * k := by rw [length_drop]; omega
    obtain ⟨b, hb⟩ := ByteView.exists_view htake
    obtain ⟨l, hl⟩ := exists_viewElements hk a n hdrop
    exact ⟨b :: l, by rw [viewElements, hb, hl]; rfl⟩

end

end TailscaleVita

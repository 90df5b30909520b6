import Mathlib.Algebra.Ring.Nat
import Mathlib.Data.Nat.Basic
/-!
# LittleEndian — words as byte strings, least significant byte first
-/
namespace TailscaleVita

def leBytes : Nat → Nat → List (BitVec 8)
  | 0, _ => []
  | n + 1, v => BitVec.ofNat 8 v :: leBytes n (v / 256)

def leNat : List (BitVec 8) → Nat
  | [] => 0
  | b :: bs => b.toNat + 256 * leNat bs

def fromLeBytes (w : Nat) (bs : List (BitVec 8)) : BitVec w := BitVec.ofNat w (leNat bs)

@[simp] theorem length_leBytes : ∀ (n v : Nat), (leBytes n v).length = n
  | 0, _ => rfl
  | n + 1, v => by rw [leBytes, List.length_cons, length_leBytes n]

theorem leNat_leBytes : ∀ (n v : Nat), leNat (leBytes n v) = v % 256 ^ n
  | 0, v => by simp [leBytes, leNat, Nat.mod_one]
  | n + 1, v => by
    have hpow : 256 ^ (n + 1) = 256 * 256 ^ n := Nat.pow_succ'
    rw [leBytes, leNat, leNat_leBytes n, BitVec.toNat_ofNat, hpow, Nat.mod_mul]

theorem fromLeBytes_leBytes (n : Nat) (x : BitVec (8 * n)) : fromLeBytes (8 * n) (leBytes n x.toNat) = x := by
  have hx : x.toNat < 256 ^ n := by
    have := x.isLt
    rwa [Nat.pow_mul] at this
  unfold fromLeBytes
  rw [leNat_leBytes, Nat.mod_eq_of_lt hx]
  exact BitVec.eq_of_toNat_eq (by rw [BitVec.toNat_ofNat, Nat.mod_eq_of_lt x.isLt])

end TailscaleVita

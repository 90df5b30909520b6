import Mathlib.Data.List.Count
import Mathlib.Data.List.Nodup
import Mathlib.Data.Nat.ModEq
import TailscaleVita.FtpSession
/-!
# FtpPortScan — the search for a data port (`ts-ftp/src/data.rs`)

`bind_passive` goes round the configured range from wherever the shared cursor stands, and gives up after one round. In
a range that is not the wrong way round the claimed ports are the range itself, in turn (`portAt`). The length of a
round is counted in 16 bits, in which the range of all ports does not fit.
-/
namespace TailscaleVita.Ftp

open List

/-! ## The cursor -/

section

variable {lo hi : BitVec 16}

def rangeSize (lo hi : BitVec 16) : Nat := hi.toNat - lo.toNat + 1

def portAt (lo hi cur : BitVec 16) (k : Nat) : BitVec 16 :=
  BitVec.ofNat 16 (lo.toNat + ((claimed lo hi cur).toNat - lo.toNat + k) % rangeSize lo hi)

theorem claimed_within (h : lo ≤ hi) (cur : BitVec 16) :
    lo.toNat ≤ (claimed lo hi cur).toNat ∧ (claimed lo hi cur).toNat ≤ hi.toNat := by
  rw [BitVec.le_def] at h
  unfold claimed
  split
  · exact ⟨Nat.le_refl _, h⟩
  next hlo =>
    rw [BitVec.lt_def] at hlo
    split
    · exact ⟨h, Nat.le_refl _⟩
    next hhi =>
      rw [BitVec.lt_def] at hhi
      omega

theorem toNat_portAt (h : lo ≤ hi) (cur : BitVec 16) (k : Nat) :
    (portAt lo hi cur k).toNat = lo.toNat + ((claimed lo hi cur).toNat - lo.toNat + k) % rangeSize lo hi := by
  rw [BitVec.le_def] at h
  have hmod : ((claimed lo hi cur).toNat - lo.toNat + k) % rangeSize lo hi < rangeSize lo hi :=
    Nat.mod_lt _ (Nat.succ_pos _)
  unfold portAt
  rw [BitVec.toNat_ofNat, Nat.mod_eq_of_lt]
  unfold rangeSize at hmod ⊢
  omega

theorem portAt_within (h : lo ≤ hi) (cur : BitVec 16) (k : Nat) :
    lo ≤ portAt lo hi cur k ∧ portAt lo hi cur k ≤ hi := by
  have hmod : ((claimed lo hi cur).toNat - lo.toNat + k) % rangeSize lo hi < rangeSize lo hi :=
    Nat.mod_lt _ (Nat.succ_pos _)
  have hle := h
  rw [BitVec.le_def] at hle
  rw [BitVec.le_def, BitVec.le_def, toNat_portAt h]
  unfold rangeSize at hmod ⊢
  omega

theorem claimed_eq (h : lo ≤ hi) (cur : BitVec 16) : claimed lo hi cur = portAt lo hi cur 0 := by
  have hwithin := claimed_within h cur
  refine BitVec.eq_of_toNat_eq ?_
  rw [toNat_portAt h, Nat.add_zero, Nat.mod_eq_of_lt]
  · omega
  · unfold rangeSize
    omega

theorem portAt_advanced (h : lo ≤ hi) (cur : BitVec 16) (k : Nat) :
    portAt lo hi (advanced lo hi cur) k = portAt lo hi cur (k + 1) := by
  have hwithin := claimed_within h cur
  have hplace : (claimed lo hi (advanced lo hi cur)).toNat - lo.toNat =
      ((claimed lo hi cur).toNat - lo.toNat + 1) % rangeSize lo hi := by
    have hle := h
    rw [BitVec.le_def] at hle
    unfold advanced
    split
    next hlast =>
      rw [BitVec.le_def] at hlast
      have hround : (claimed lo hi cur).toNat - lo.toNat + 1 = rangeSize lo hi := by
        unfold rangeSize
        omega
      have hlo : claimed lo hi lo = lo := by
        unfold claimed
        rw [if_neg (BitVec.lt_irrefl lo), if_neg (BitVec.not_lt.2 h)]
      rw [hround, Nat.mod_self, hlo, Nat.sub_self]
    next hmore =>
      rw [BitVec.le_def] at hmore
      have hsucc : (claimed lo hi cur + 1).toNat = (claimed lo hi cur).toNat + 1 := by
        have hroom : (claimed lo hi cur).toNat + 1 < 2 ^ 16 := by omega
        rw [BitVec.toNat_add]
        exact Nat.mod_eq_of_lt hroom
      have hnext : claimed lo hi (claimed lo hi cur + 1) = claimed lo hi cur + 1 := by
        unfold claimed at hsucc hwithin hmore ⊢
        rw [if_neg (by rw [BitVec.lt_def, hsucc]; omega), if_neg (by rw [BitVec.lt_def, hsucc]; omega)]
      rw [hnext, hsucc, Nat.mod_eq_of_lt]
      · omega
      · unfold rangeSize
        omega
  unfold portAt
  rw [hplace, Nat.mod_add_mod, Nat.add_assoc, Nat.add_comm 1 k]

theorem portAt_eq_iff (h : lo ≤ hi) (cur : BitVec 16) {i j : Nat} :
    portAt lo hi cur i = portAt lo hi cur j ↔ Nat.ModEq (rangeSize lo hi) i j := by
  rw [← BitVec.toNat_inj, toNat_portAt h, toNat_portAt h, Nat.add_left_cancel_iff]
  exact ⟨Nat.ModEq.add_left_cancel' _, Nat.ModEq.add_left _⟩

theorem exists_portAt (h : lo ≤ hi) (cur : BitVec 16) {port : BitVec 16} (hlo : lo ≤ port) (hhi : port ≤ hi) :
    ∃ k < rangeSize lo hi, portAt lo hi cur k = port := by
  have hwithin := claimed_within h cur
  rw [BitVec.le_def] at hlo hhi
  have hpos : 0 < rangeSize lo hi := Nat.succ_pos _
  have hport : port.toNat - lo.toNat < rangeSize lo hi := by
    unfold rangeSize
    omega
  have hplace : (claimed lo hi cur).toNat - lo.toNat < rangeSize lo hi := by
    unfold rangeSize
    omega
  refine ⟨(port.toNat - lo.toNat + (rangeSize lo hi - ((claimed lo hi cur).toNat - lo.toNat))) % rangeSize lo hi,
    Nat.mod_lt _ hpos, BitVec.eq_of_toNat_eq ?_⟩
  rw [toNat_portAt h, Nat.add_mod_mod]
  have hsum : (claimed lo hi cur).toNat - lo.toNat +
      (port.toNat - lo.toNat + (rangeSize lo hi - ((claimed lo hi cur).toNat - lo.toNat))) =
      port.toNat - lo.toNat + rangeSize lo hi := by omega
  rw [hsum, Nat.add_mod_right, Nat.mod_eq_of_lt hport]
  omega

end

/-! ## The scan -/

section

variable (others : (c : FtpCall) → c.Answer)

def scanEnv : (c : FtpCall) → BitVec 16 × (Nat → Bool) → c.Answer × (BitVec 16 × (Nat → Bool))
  | .claimPort lo hi, w => (w.1, advanced lo hi w.1, w.2)
  | .bindHandle _, w => (w.2 0, w.1, fun i => w.2 (i + 1))
  | c, w => (others c, w)

def tried (calls : List FtpCall) : List (BitVec 16) :=
  calls.filterMap fun
    | .bindHandle port => some port
    | _ => none

variable {others} {lo hi : BitVec 16}

theorem tried_bindLoop_succ (turns : Nat) (cur : BitVec 16) (goes : Nat → Bool) :
    tried ((bindLoop lo hi (turns + 1)).calls (scanEnv others) (cur, goes)) = claimed lo hi cur ::
        (if goes 0 then [] else tried ((bindLoop lo hi turns).calls (scanEnv others)
          (advanced lo hi cur, fun i => goes (i + 1)))) ∧
      ((bindLoop lo hi (turns + 1)).exec (scanEnv others) (cur, goes)).1 =
        (if goes 0 then some (claimed lo hi cur) else ((bindLoop lo hi turns).exec (scanEnv others)
          (advanced lo hi cur, fun i => goes (i + 1))).1) := by
  have hcalls : (bindLoop lo hi (turns + 1)).calls (scanEnv others) (cur, goes) =
      .claimPort lo hi :: .bindHandle (claimed lo hi cur) ::
        (if goes 0 = true then Prog.done (some (claimed lo hi cur)) else bindLoop lo hi turns).calls (scanEnv others)
          (advanced lo hi cur, fun i => goes (i + 1)) := rfl
  have hexec : (bindLoop lo hi (turns + 1)).exec (scanEnv others) (cur, goes) =
      (if goes 0 = true then Prog.done (some (claimed lo hi cur)) else bindLoop lo hi turns).exec (scanEnv others)
        (advanced lo hi cur, fun i => goes (i + 1)) := rfl
  rw [hcalls, hexec]
  cases goes 0 with
  | true | false => exact ⟨rfl, rfl⟩

theorem tried_bindLoop (h : lo ≤ hi) : ∀ (turns : Nat) (cur : BitVec 16) (goes : Nat → Bool),
    ∃ n ≤ turns, tried ((bindLoop lo hi turns).calls (scanEnv others) (cur, goes)) =
        (List.range n).map (portAt lo hi cur) ∧
      (((bindLoop lo hi turns).exec (scanEnv others) (cur, goes)).1 = none → n = turns)
  | 0, _, _ => ⟨0, Nat.le_refl 0, rfl, fun _ => rfl⟩
  | turns + 1, cur, goes => by
    obtain ⟨htried, hresult⟩ := @tried_bindLoop_succ others lo hi turns cur goes
    rw [htried, hresult, claimed_eq h]
    cases goes 0 with
    | true => exact ⟨1, by omega, rfl, fun hnone => by cases hnone⟩
    | false =>
      obtain ⟨n, hn, hrest, hall⟩ := tried_bindLoop h turns (advanced lo hi cur) (fun i => goes (i + 1))
      refine ⟨n + 1, by omega, ?_, fun hnone => congrArg (· + 1) (hall hnone)⟩
      rw [range_succ_eq_map, map_cons, map_map]
      refine congrArg (portAt lo hi cur 0 :: ·) (hrest.trans (map_congr_left (fun k _ => ?_)))
      exact portAt_advanced h cur k

theorem bindLoop_refused : ∀ (turns : Nat) (cur : BitVec 16),
    ((bindLoop lo hi turns).exec (scanEnv others) (cur, fun _ => false)).1 = none
  | 0, _ => rfl
  | turns + 1, cur => by
    rw [(tried_bindLoop_succ turns cur _).2, if_neg Bool.false_ne_true]
    exact bindLoop_refused turns _

theorem passiveSpan_eq (h : lo ≤ hi) : passiveSpan lo hi = rangeSize lo hi ↔ lo ≠ 0 ∨ hi ≠ 65535 := by
  rw [BitVec.le_def] at h
  have hlo : lo = 0 ↔ lo.toNat = 0 := ⟨fun he => by rw [he]; rfl, fun he => BitVec.eq_of_toNat_eq he⟩
  have hall : hi = 65535 ↔ hi.toNat = 65535 := ⟨fun he => by rw [he]; rfl, fun he => BitVec.eq_of_toNat_eq he⟩
  rw [Ne, Ne, hlo, hall]
  unfold passiveSpan rangeSize
  omega

variable (others)

/-- **The search for a data port.** Whatever the cursor and however the binds go, a scan does not panic, keeps to the
range and, when it fails, has tried each of its ports once, exactly for the ranges that are the right way round and not
all the ports. -/
theorem passive_scan_iff (lo hi : BitVec 16) :
    (∀ (cur : BitVec 16) (goes : Nat → Bool), ∃ bind, bindPassive lo hi = some bind ∧
      (lo ≤ hi → (∀ port ∈ tried (bind.calls (scanEnv others) (cur, goes)), lo ≤ port ∧ port ≤ hi) ∧
        ((bind.exec (scanEnv others) (cur, goes)).1 = none → ∀ port, lo ≤ port → port ≤ hi →
          (tried (bind.calls (scanEnv others) (cur, goes))).count port = 1))) ↔
    lo ≤ hi ∧ (lo ≠ 0 ∨ hi ≠ 65535) := by
  constructor
  · intro hscan
    by_cases hle : lo ≤ hi
    · refine ⟨hle, ?_⟩
      by_contra hrange
      -- every port but the last one is tried
      rw [not_or, not_not, not_not] at hrange
      obtain ⟨rfl, rfl⟩ := hrange
      obtain ⟨bind, hbind, hports⟩ := hscan 0 (fun _ => false)
      cases hbind
      obtain ⟨n, hn, htried, -⟩ := @tried_bindLoop others 0 65535 hle (passiveSpan 0 65535) 0 (fun _ => false)
      have hcount := (hports hle).2 (bindLoop_refused _ _) 65535 (by decide) (by decide)
      rw [htried] at hcount
      obtain ⟨k, hk, hport⟩ := mem_map.1 (one_le_count_iff.1 (Nat.le_of_eq hcount.symm))
      have hplace := congrArg BitVec.toNat hport
      rw [toNat_portAt hle] at hplace
      have hspan : passiveSpan 0 65535 = 65535 := rfl
      have hlt := mem_range.1 hk
      have hwhere : (0 : BitVec 16).toNat + ((claimed 0 65535 (0 : BitVec 16)).toNat - (0 : BitVec 16).toNat + k) %
          rangeSize 0 65535 = k % 65536 := by
        simp [rangeSize, claimed]
      rw [hwhere, Nat.mod_eq_of_lt (by omega)] at hplace
      change k = 65535 at hplace
      omega
    · obtain ⟨bind, hbind, -⟩ := hscan 0 (fun _ => false)
      unfold bindPassive at hbind
      rw [if_pos (BitVec.not_le.1 hle)] at hbind
      cases hbind
  · rintro ⟨hle, hrange⟩ cur goes
    refine ⟨bindLoop lo hi (passiveSpan lo hi), if_neg (BitVec.not_lt.2 hle), fun _ => ?_⟩
    obtain ⟨n, -, htried, hall⟩ := @tried_bindLoop others lo hi hle (passiveSpan lo hi) cur goes
    rw [htried]
    refine ⟨fun port hport => ?_, fun hnone port hlo hhi => ?_⟩
    · obtain ⟨k, -, rfl⟩ := mem_map.1 hport
      exact portAt_within hle cur k
    · have hn : n = rangeSize lo hi := (hall hnone).trans ((passiveSpan_eq hle).2 hrange)
      obtain ⟨k, hk, hport⟩ := exists_portAt hle cur hlo hhi
      refine count_eq_one_of_mem ?_ (mem_map.2 ⟨k, mem_range.2 (by omega), hport⟩)
      refine List.Nodup.map_on (fun i hi' j hj heq => ?_) nodup_range
      rw [hn, mem_range] at hi' hj
      exact ((portAt_eq_iff hle cur).1 heq).eq_of_lt_of_lt hi' hj

theorem passive_scan_reversed :
    (spawn { root := "ux0:".toList, username := "vita".toList, password := "pw".toList, passivePortLo := 30009,
             passivePortHi := 30000 }).map
      (fun ctx => (bindPassive ctx.cfg.passivePortLo ctx.cfg.passivePortHi).isSome) = some false := by
  decide

end

end TailscaleVita.Ftp

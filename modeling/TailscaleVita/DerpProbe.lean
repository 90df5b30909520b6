import TailscaleVita.DerpMux
/-!
# DerpProbe — the choice of the home region (`ts-derp/src/probe.rs`)

`pick_home` answers from its cache while that is fresh and its region is in the map. Otherwise it connects to the first
node of every region at once, and keeps the cached region unless the fastest is faster by a quarter than that was when
it was measured. The cached region is then neither looked up in the map nor among the answers.
-/
namespace TailscaleVita.Derp

abbrev DerpMap := HashMap RegionId (List DerpNodeAddr)

structure HomeProbeCache where
  region : RegionId
  rtt : Nat
  measuredAt : Nat
deriving DecidableEq

def homeProbeCache : Nat := 300 * 10 ^ 9

inductive ProbeError where
  | noReachableRegion (probed total : Nat)
deriving DecidableEq

/-- What a call meets: the times at which it looks at its cache and records a winner, which threads start, what a
connection takes, and whose answers are there before the deadline, in what order. -/
structure ProbeMet where
  now : Nat
  done : Nat
  spawns : RegionId → Bool := fun _ => true
  connect : RegionId → DerpNodeAddr → Option Nat
  inTime : RegionId → Bool := fun _ => true
  arrival : HashOrder RegionId

def probeOne (map : DerpMap) (met : ProbeMet) (region : RegionId) : Option Nat :=
  match map.lookup region with
  | some (node :: _) => if met.spawns region && met.inTime region then met.connect region node else none
  | _ => none

def answered (map : DerpMap) (met : ProbeMet) : Finset RegionId :=
  map.keys.filter (fun r => (probeOne map met r).isSome)

def probeResults (map : DerpMap) (met : ProbeMet) : List (RegionId × Nat) :=
  (met.arrival.order (answered map met)).filterMap (fun r => (probeOne map met r).map (r, ·))

def cacheHit (map : DerpMap) (now : Nat) (cache : Option HomeProbeCache) : Option RegionId :=
  match cache with
  | some c => if now - c.measuredAt < homeProbeCache ∧ c.region ∈ map then some c.region else none
  | none => none

section

-- `mul_duration` by `HOME_SWITCH_FRACTION`, in floating point
variable (mulDuration : Nat → Nat)

def keptPrev (cache : Option HomeProbeCache) (winner : RegionId) (rtt : Nat) : Option RegionId :=
  match cache with
  | some prev => if prev.region ≠ winner ∧ mulDuration prev.rtt < rtt then some prev.region else none
  | none => none

def pickHome (map : DerpMap) (met : ProbeMet) (cache : Option HomeProbeCache) :
    Except ProbeError RegionId × Option HomeProbeCache :=
  match cacheHit map met.now cache with
  | some region => (.ok region, cache)
  | none =>
    if map.keys.card = 0 then (.error (.noReachableRegion 0 0), cache)
    else
      match (probeResults map met).argmin Prod.snd with
      | none => (.error (.noReachableRegion map.keys.card map.keys.card), cache)
      | some (winner, rtt) =>
        match keptPrev mulDuration cache winner rtt with
        | some prev => (.ok prev, cache)
        | none => (.ok winner, some ⟨winner, rtt, met.done⟩)

/-! ## What a call returns -/

variable {map : DerpMap}

theorem mem_of_cacheHit {now : Nat} {cache : Option HomeProbeCache} {r : RegionId}
    (h : cacheHit map now cache = some r) : r ∈ map := by
  unfold cacheHit at h
  split at h
  · split at h
    next hfresh =>
      cases h
      exact hfresh.2
    · cases h
  · cases h

theorem mem_of_answered {met : ProbeMet} {r : RegionId} (h : r ∈ answered map met) : r ∈ map :=
  Finmap.mem_keys.1 (Finset.mem_filter.1 h).1

theorem answered_of_argmin {met : ProbeMet} {winner : RegionId} {rtt : Nat}
    (h : (probeResults map met).argmin Prod.snd = some (winner, rtt)) : winner ∈ answered map met := by
  obtain ⟨r, hr, hmap⟩ := List.mem_filterMap.1 (List.argmin_mem h)
  obtain ⟨t, -, he⟩ := Option.map_eq_some_iff.1 hmap
  cases he
  exact (met.arrival.mem_order _ _).1 hr

theorem probeResults_of_empty (h : map.keys.card = 0) (met : ProbeMet) : probeResults map met = [] := by
  have hnone : answered map met = ∅ := by
    rw [answered, Finset.card_eq_zero.1 h, Finset.filter_empty]
  have hnil : met.arrival.order ∅ = [] :=
    List.eq_nil_iff_forall_not_mem.2 (fun r hr => by simpa using (met.arrival.mem_order _ _).1 hr)
  rw [probeResults, hnone, hnil]
  rfl

inductive Picked (map : DerpMap) (met : ProbeMet) (cache : Option HomeProbeCache) :
    Except ProbeError RegionId × Option HomeProbeCache → Prop where
  | hit {r : RegionId} (hhit : cacheHit map met.now cache = some r) : Picked map met cache (.ok r, cache)
  | failed {n : Nat} (hmiss : cacheHit map met.now cache = none)
      (hnone : (probeResults map met).argmin Prod.snd = none) :
      Picked map met cache (.error (.noReachableRegion n n), cache)
  | kept {winner r : RegionId} {rtt : Nat} (hmiss : cacheHit map met.now cache = none)
      (hwon : (probeResults map met).argmin Prod.snd = some (winner, rtt))
      (hkept : keptPrev mulDuration cache winner rtt = some r) : Picked map met cache (.ok r, cache)
  | won {winner : RegionId} {rtt : Nat} (hmiss : cacheHit map met.now cache = none)
      (hwon : (probeResults map met).argmin Prod.snd = some (winner, rtt))
      (hkept : keptPrev mulDuration cache winner rtt = none) :
      Picked map met cache (.ok winner, some ⟨winner, rtt, met.done⟩)

theorem picked (map : DerpMap) (met : ProbeMet) (cache : Option HomeProbeCache) :
    Picked mulDuration map met cache (pickHome mulDuration map met cache) := by
  unfold pickHome
  split
  next r hhit => exact .hit hhit
  next hmiss =>
    split
    next hempty => exact .failed hmiss (by rw [probeResults_of_empty hempty]; rfl)
    · split
      next hnone => exact .failed hmiss hnone
      next winner rtt hwon =>
        split
        next prev hkept => exact .kept hmiss hwon hkept
        next hkept => exact .won hmiss hwon hkept

/-! ## Sequences of calls -/

inductive ProbeEvent where
  | pickHome (map : DerpMap) (met : ProbeMet)
  | invalidate

def probeStep (cache : Option HomeProbeCache) : ProbeEvent → Option HomeProbeCache
  | .pickHome map met => (pickHome mulDuration map met cache).2
  | .invalidate => none

/-- The choice is a valid one: a region of this map, and one that answered if the call probed. -/
def ValidHome (cache : Option HomeProbeCache) : ProbeEvent → Prop
  | .pickHome map met => ∀ r, (pickHome mulDuration map met cache).1 = .ok r →
      r ∈ map ∧ (cacheHit map met.now cache = none → r ∈ answered map met)
  | .invalidate => True

def KeptAnswered (cache : Option HomeProbeCache) : ProbeEvent → Prop
  | .pickHome map met => cacheHit map met.now cache = none → ∀ winner rtt r,
      (probeResults map met).argmin Prod.snd = some (winner, rtt) →
        keptPrev mulDuration cache winner rtt = some r → r ∈ answered map met
  | .invalidate => True

theorem validHome_iff (cache : Option HomeProbeCache) (e : ProbeEvent) :
    ValidHome mulDuration cache e ↔ KeptAnswered mulDuration cache e := by
  cases e with
  | invalidate => exact Iff.rfl
  | pickHome map met =>
    have hpicked := picked mulDuration map met cache
    simp only [ValidHome, KeptAnswered]
    generalize pickHome mulDuration map met cache = result at hpicked ⊢
    cases hpicked with
    | hit hhit =>
      simp only [hhit]
      refine ⟨nofun, fun _ r hr => ?_⟩
      cases hr
      exact ⟨mem_of_cacheHit hhit, fun hmiss => by cases hmiss⟩
    | failed hmiss hnone =>
      simp only [hnone]
      exact ⟨nofun, fun _ r hr => by cases hr⟩
    | @kept winner r rtt hmiss hwon hkept =>
      simp only [hmiss, hwon]
      constructor
      · intro hvalid _ winner' rtt' r' hw hk
        cases hw
        rw [hkept] at hk
        cases hk
        exact (hvalid r rfl).2 trivial
      · intro hall r' hr'
        cases hr'
        have hanswered := hall trivial winner rtt r rfl hkept
        exact ⟨mem_of_answered hanswered, fun _ => hanswered⟩
    | @won winner rtt hmiss hwon hkept =>
      simp only [hmiss, hwon]
      have hanswered := answered_of_argmin hwon
      constructor
      · intro _ _ winner' rtt' r' hw hk
        cases hw
        rw [hkept] at hk
        cases hk
      · intro _ r' hr'
        cases hr'
        exact ⟨mem_of_answered hanswered, fun _ => hanswered⟩

/-- **When the home is a region one can reach.**  Over every sequence of calls, from any cache and with any maps, times
and answers, each region returned is one of its call's map, and one that answered when the call probed, exactly when
every region that hysteresis keeps has answered the probe at hand. -/
theorem home_valid_iff (cache : Option HomeProbeCache) (es : List ProbeEvent) :
    Along (probeStep mulDuration) (ValidHome mulDuration) cache es ↔
      Along (probeStep mulDuration) (KeptAnswered mulDuration) cache es :=
  along_iff_of_inv (fun _ => True) (fun _ _ _ => trivial) (fun cache e _ => validHome_iff mulDuration cache e) es cache
    trivial

end

def threeQuarters (d : Nat) : Nat := (3 * d + 2) / 4

/-- **A region that is no longer in the map is chosen**: it won a probe with 10 ms, and region 2, alone in the map,
answers in 9 ms. -/
theorem vanished_home_kept :
    let answers : Nat → Nat → ProbeMet := fun now ms =>
      { now, done := now, connect := fun _ _ => some (ms * 10 ^ 6), arrival := reachable.ord }
    let map₁ : DerpMap := Finmap.insert 1 [10] ∅
    let map₂ : DerpMap := Finmap.insert 2 [20] ∅
    let first := pickHome threeQuarters map₁ (answers 0 10) none
    let second := pickHome threeQuarters map₂ (answers (600 * 10 ^ 9) 9) first.2
    first.1 = .ok 1 ∧ second.1 = .ok 1 ∧ (1 : RegionId) ∉ map₂ ∧
      ¬ ValidHome threeQuarters first.2 (.pickHome map₂ (answers (600 * 10 ^ 9) 9)) := by
  intro answers map₁ map₂ first second
  have hsecond : second.1 = .ok 1 := by decide +kernel
  have hgone : (1 : RegionId) ∉ map₂ := by decide +kernel
  exact ⟨by decide +kernel, hsecond, hgone, fun hvalid => hgone (hvalid 1 hsecond).1⟩

end TailscaleVita.Derp

import TailscaleVita.DerpMux
/-!
# DerpHome — the home's mark, and what a failed call leaves behind (`ts-derp/src/mux.rs`)

A relay is told that it is the home by a `NotePreferred(true)` on its connection. `set_home` queues one only where it
dials: a connection that is open already is taken as it is. It un-marks no connection but the previous home's, and it
has swapped the home before it dials.
-/
namespace TailscaleVita.Derp

open DerpMux List

def DerpConn.preferred (c : DerpConn) : Option Bool :=
  (c.queued.filterMap (fun | .notePreferred home => some home | _ => none)).getLast?

namespace DerpMux

def preferred (s : DerpMux) (conn : ConnId) : Option Bool := (s.made[conn]?).bind DerpConn.preferred

def live (s : DerpMux) (region : RegionId) : Option ConnId := (s.conns.lookup region).filter s.isAlive

def HomeMarked (s : DerpMux) (region : RegionId) : Prop :=
  (∃ conn, s.live region = some conn ∧ s.preferred conn = some true) ∧
  ∀ region' conn, region' ≠ region → s.live region' = some conn → s.preferred conn ≠ some true

theorem live_eq_some {s : DerpMux} {region : RegionId} {conn : ConnId} :
    s.live region = some conn ↔ s.conns.lookup region = some conn ∧ s.isAlive conn = true :=
  Option.filter_eq_some_iff

theorem isAlive_connSend (s : DerpMux) (conn : ConnId) (msg : DerpTx) :
    (s.connSend conn msg).2.made.map DerpConn.isAlive = s.made.map DerpConn.isAlive := by
  unfold connSend
  split
  · split
    · exact map_modifyConn _ s conn (fun _ => rfl)
    · rfl
  · rfl

theorem isAlive_unmark (s : DerpMux) (prev : RegionId) :
    (s.unmark prev).made.map DerpConn.isAlive = s.made.map DerpConn.isAlive := by
  unfold unmark
  split
  · exact (isAlive_connSend _ _ _).trans (map_modifyConn _ s _ (fun _ => rfl))
  · rfl

theorem regions_spawnIo (now : Nat) (region : RegionId) (isHome : Bool) (s : DerpMux) :
    (s.spawnIo now region isHome).regions = s.regions ++ [region] := by
  simp [regions, spawnIo]

end DerpMux

/-! ## A connection stands under its own region -/

/-- **The pool is keyed by where its connections go**: however the calls and the I/O threads interleave, a pooled
connection was dialled for its region, and no two regions share one. -/
theorem pool_by_region (cap : Nat) (es : List MuxEvent) :
    let s := (run muxStep (MuxWorld.new cap) es).shared
    Placed s ∧ ∀ r r' conn, s.conns.lookup r = some conn → s.conns.lookup r' = some conn → r = r' := by
  intro s
  have h : Placed s := (muxInv_run cap es).placed
  refine ⟨h, fun r r' conn hr hr' => ?_⟩
  exact Option.some.inj ((h r conn hr).symm.trans (h r' conn hr'))

/-! ## What `set_home` tells the relays -/

section

variable {conn : ConnId} {ord : HashOrder RegionId} {region : RegionId} {s s' : DerpMux} {t : MuxTask}

namespace DerpMux

def running (s : DerpMux) (conn : ConnId) : Bool := (s.made[conn]?).any (fun c => decide (c.thread = .running))

def victim (s : DerpMux) (region : RegionId) (ord : HashOrder RegionId) : Option RegionId :=
  let s := { s with home := region }.reap ord
  if s.cap ≤ s.conns.keys.card then s.evictTarget ord else none

/-- What has to hold before a `set_home(region)` that succeeds: a connection the region has is marked, one that is
missing will be dialled, and any other that is marked is the previous home's, which takes messages, or has to go. -/
structure MarksHome (s : DerpMux) (region : RegionId) (ord : HashOrder RegionId) : Prop where
  marked : ∀ conn, s.live region = some conn → s.preferred conn = some true
  dials : s.live region = none → s.home ≠ region
  others : ∀ region' conn, region' ≠ region → s.live region' = some conn → s.preferred conn = some true →
    s.home ≠ region ∧ (region' = s.home ∧ region' ≠ 0 ∧ s.running conn = true ∨
      s.live region = none ∧ s.victim region ord = some region')

variable (ord : HashOrder RegionId)

theorem live_reap (s : DerpMux) : (s.reap ord).live = s.live := by
  funext region
  show ((s.reap ord).conns.lookup region).filter s.isAlive = _
  rw [show (s.reap ord).conns.lookup region = s.live region from ord.lookup_retain _ _ _, live, Option.filter_filter]
  simp

theorem live_makeRoom {s : DerpMux} {region : RegionId} (h : ({ s with home := region }.makeRoom ord).1 = .ok ())
    (r : RegionId) :
    ({ s with home := region }.makeRoom ord).2.live r = if s.victim region ord = some r then none else s.live r := by
  have hreap : ({ s with home := region }.reap ord).live r = s.live r := congrFun (live_reap ord _) r
  unfold victim
  unfold makeRoom at h ⊢
  simp only at h ⊢
  generalize { s with home := region }.reap ord = homed at h hreap ⊢
  by_cases hcap : homed.cap ≤ homed.conns.keys.card
  · rw [if_pos hcap] at h ⊢
    rw [if_pos hcap]
    cases hv : evictTarget ord homed with
    | none =>
      rw [hv] at h
      cases h
    | some v =>
      by_cases hr : v = r
      · simp [live, hr]
      · simp only [live, HashMap.lookup_erase_eq, Option.some.injEq, if_neg hr, if_neg (Ne.symm hr)]
        exact hreap
  · rw [if_neg hcap, if_neg hcap]
    simpa using hreap

def registered (s : DerpMux) (now : Nat) (region : RegionId) : DerpMux :=
  { s.spawnIo now region true with conns := s.conns.insert region s.made.length }

variable {s : DerpMux} {now : Nat} {region : RegionId}

theorem made_registered {conn : ConnId} (h : conn < s.made.length) :
    (s.registered now region).made[conn]? = s.made[conn]? := getElem?_append_left h

theorem made_registered_new : (s.registered now region).made[s.made.length]? =
    some { region, lastUsed := now, isHome := true, queued := [.notePreferred true] } := getElem?_concat_length

theorem lt_of_live {r : RegionId} {conn : ConnId} (h : s.live r = some conn) : conn < s.made.length := by
  have halive := (live_eq_some.1 h).2
  by_contra hle
  rw [isAlive, getElem?_eq_none (Nat.not_lt.1 hle)] at halive
  cases halive

theorem live_congr {s' : DerpMux} {r : RegionId} (hconns : s'.conns.lookup r = s.conns.lookup r)
    (halive : ∀ conn, s.conns.lookup r = some conn → s'.isAlive conn = s.isAlive conn) : s'.live r = s.live r := by
  unfold live
  rw [hconns]
  cases hl : s.conns.lookup r with
  | none => rfl
  | some conn => simp only [Option.filter, halive conn hl]

theorem live_registered (hs : Placed s) (r : RegionId) :
    (s.registered now region).live r = if r = region then some s.made.length else s.live r := by
  by_cases hr : r = region
  · rw [if_pos hr]
    refine live_eq_some.2 ⟨?_, ?_⟩
    · rw [registered, HashMap.lookup_insert_eq, if_pos hr]
    · rw [isAlive, made_registered_new]
      rfl
  · rw [if_neg hr]
    refine live_congr (by rw [registered, HashMap.lookup_insert_eq, if_neg hr]) fun conn hconn => ?_
    have hlt : conn < s.made.length := by
      have hlt := (List.getElem?_eq_some_iff.1 (hs r conn hconn)).1
      rwa [regions, length_map] at hlt
    rw [isAlive, isAlive, made_registered hlt]

theorem live_unmark (prev : RegionId) : (s.unmark prev).live = s.live := by
  have hmap := isAlive_unmark s prev
  funext r
  refine live_congr (by rw [unmark_conns]) fun conn _ => ?_
  have halive : ∀ s : DerpMux, s.isAlive conn = ((s.made.map DerpConn.isAlive)[conn]?).getD false := fun s => by
    rw [isAlive, getElem?_map]
    cases s.made[conn]? <;> rfl
  rw [halive, halive, hmap]

theorem preferred_unmark (prev : RegionId) (conn : ConnId) : (s.unmark prev).preferred conn =
    if s.conns.lookup prev = some conn ∧ s.running conn = true then some false else s.preferred conn := by
  unfold unmark preferred running
  cases hused : s.conns.lookup prev with
  | none => simp
  | some used =>
    simp only [connSetHome, connSend, modifyConn, getElem?_modify]
    by_cases hconn : used = conn
    · subst hconn
      cases hc : s.made[used]? with
      | none => simp [hc]
      | some c => by_cases hrun : c.thread = .running <;> simp [hc, hrun, DerpConn.preferred]
    · have hne : ¬ (some used = some conn ∧ (s.made[conn]?).any (fun c => decide (c.thread = .running)) = true) :=
        fun h => hconn (Option.some.inj h.1)
      rw [if_neg hne]
      simp only [if_true]
      cases s.made[used]? with
      | none => simp [hconn]
      | some c => by_cases hrun : c.thread = .running <;> simp [hrun, hconn]

end DerpMux

inductive Ensured (s : DerpMux) (region : RegionId) (ord : HashOrder RegionId) : DerpMux → Prop where
  | found {conn : ConnId} (h : s.live region = some conn) : Ensured s region ord { s with home := region }
  | dialled {room : DerpMux} (now : Nat) (h : s.live region = none)
      (hroom : { s with home := region }.makeRoom ord = (.ok (), room)) :
      Ensured s region ord (room.registered now region)

inductive Homing (s : DerpMux) (region : RegionId) (ord : HashOrder RegionId) : DerpMux → MuxTask → Prop where
  | checking : Homing s region ord { s with home := region } (.checking region true (.setHome s.home))
  | lookingUp (h : s.live region = none) :
      Homing s region ord { s with home := region } (.lookingUp region true (.setHome s.home))
  | makingRoom (nodes : List DerpNodeAddr) (h : s.live region = none) :
      Homing s region ord { s with home := region } (.makingRoom region true nodes (.setHome s.home))
  | dialing {s' : DerpMux} (nodes : List DerpNodeAddr) (h : s.live region = none)
      (hroom : { s with home := region }.makeRoom ord = (.ok (), s')) :
      Homing s region ord s' (.dialing region true nodes (.setHome s.home))
  | inserting {s' : DerpMux} (now : Nat) (h : s.live region = none)
      (hroom : { s with home := region }.makeRoom ord = (.ok (), s')) :
      Homing s region ord (s'.spawnIo now region true) (.inserting region s'.made.length (.setHome s.home))
  | unmarking {s' : DerpMux} (hprev : s.home ≠ 0) (h : Ensured s region ord s') :
      Homing s region ord s' (.unmarking s.home)
  | returned {s' : DerpMux} (h : Ensured s region ord s') :
      Homing s region ord (if s.home = 0 then s' else s'.unmark s.home) (.returned (.ok none))
  | failed {s' : DerpMux} (e : DerpError) : Homing s region ord s' (.returned (.error e))

theorem homing_ensured (h : Ensured s region ord s') (conn : ConnId) :
    Homing s region ord s' ((Caller.setHome s.home).ensured region conn) := by
  simp only [Caller.ensured]
  split
  next hprev =>
    have hdone := Homing.returned h
    rwa [if_pos hprev] at hdone
  next hprev => exact .unmarking hprev h

theorem homing_resume (now : Nat) (met : MuxMet) (h : Homing s region met.ord s' t) :
    Homing s region met.ord (muxResume now s' met t).1 (muxResume now s' met t).2.1 := by
  cases h with
  | checking =>
    simp only [muxResume]
    split
    next conn hconn => exact homing_ensured (s := s) (.found hconn) conn
    next hnone => exact .lookingUp hnone
  | lookingUp h =>
    simp only [muxResume]
    split
    · exact .failed _
    · exact .makingRoom _ h
  | makingRoom nodes h =>
    simp only [muxResume]
    split
    · exact .failed _
    next hroom => exact .dialing nodes h hroom
  | dialing nodes h hroom =>
    simp only [muxResume]
    split
    · exact .failed _
    · exact .inserting now h hroom
  | inserting at' h hroom => exact homing_ensured (.dialled at' h hroom) 0
  | unmarking hprev h =>
    have hdone := Homing.returned h
    rwa [if_neg hprev] at hdone
  | returned h => exact .returned h
  | failed e => exact .failed e

structure Brought (s : DerpMux) (region : RegionId) (ord : HashOrder RegionId) (s' : DerpMux) : Prop where
  placed : Placed s'
  home : ∃ conn, s'.live region = some conn ∧
    (s'.preferred conn = some true ↔ ∀ conn', s.live region = some conn' → s.preferred conn' = some true)
  others : ∀ r, r ≠ region →
    s'.live r = if s.live region = none ∧ s.victim region ord = some r then none else s.live r
  kept : ∀ r conn, s.live r = some conn → s'.preferred conn = s.preferred conn ∧ s'.running conn = s.running conn

theorem Ensured.brought (hs : Placed s) (h : Ensured s region ord s') : Brought s region ord s' := by
  cases h with
  | @found conn h =>
    refine ⟨hs, ⟨conn, h, fun hp conn' h' => ?_, fun hall => hall conn h⟩, fun r _ => ?_, fun _ _ _ => ⟨rfl, rfl⟩⟩
    · cases h.symm.trans h'
      exact hp
    · rw [if_neg (fun hc => by rw [h] at hc; cases hc.1)]
      rfl
  | @dialled room now h hroom =>
    have hmade : ({ s with home := region }.makeRoom ord).2.made = s.made := made_makeRoom ord _
    have hplaced : Placed ({ s with home := region }.makeRoom ord).2 :=
      Placed.later (s := { s with home := region }) hs (later_of_made hmade) (fun _ _ => lookup_of_makeRoom)
    have hlive := live_makeRoom ord (congrArg Prod.fst hroom)
    rw [hroom] at hmade hplaced hlive
    refine ⟨fun r conn hconn => ?_, ⟨room.made.length, ?_, ?_⟩, fun r hr => ?_, fun r conn hconn => ?_⟩
    · rw [registered, HashMap.lookup_insert_eq] at hconn
      have hregions : (room.registered now region).regions = room.regions ++ [region] :=
        regions_spawnIo now region true room
      rw [hregions]
      split at hconn
      next hr =>
        cases hconn
        rw [hr, show room.made.length = room.regions.length from (length_map _).symm, getElem?_concat_length]
      · exact getElem?_of_prefix ⟨[region], rfl⟩ (hplaced r conn hconn)
    · rw [live_registered hplaced, if_pos rfl]
    · rw [preferred, made_registered_new, h]
      exact ⟨(fun _ _ h' => by cases h'), fun _ => rfl⟩
    · rw [live_registered hplaced, if_neg hr, hlive, h]
      simp only [true_and]
    · have hlt := lt_of_live hconn
      rw [← hmade] at hlt
      unfold preferred running
      rw [made_registered hlt, hmade]
      exact ⟨rfl, rfl⟩

theorem live_told (prev : RegionId) : (if prev = 0 then s' else s'.unmark prev).live = s'.live := by
  split
  · rfl
  · exact live_unmark prev

theorem preferred_told (hs : Placed s') (prev : RegionId) {r : RegionId} (hr : s'.live r = some conn) :
    (if prev = 0 then s' else s'.unmark prev).preferred conn =
      if r = prev ∧ r ≠ 0 ∧ s'.running conn = true then some false else s'.preferred conn := by
  have hconn := (live_eq_some.1 hr).1
  by_cases hzero : prev = 0
  · rw [if_pos hzero, if_neg (fun hc => hc.2.1 (hc.1.trans hzero))]
  · rw [if_neg hzero, preferred_unmark]
    by_cases heq : r = prev
    · subst heq
      simp only [hconn, true_and, ne_eq, hzero, not_false_eq_true]
    · have hother : ¬ (s'.conns.lookup prev = some conn ∧ s'.running conn = true) := fun hc =>
        heq (Option.some.inj ((hs r conn hconn).symm.trans (hs prev conn hc.1)))
      rw [if_neg hother, if_neg (fun hc => heq hc.1)]

theorem marked_iff (hne : s.home ≠ region) (h : Brought s region ord s') :
    (if s.home = 0 then s' else s'.unmark s.home).HomeMarked region ↔ s.MarksHome region ord := by
  have htold : ∀ r conn, s'.live r = some conn → _ := fun r conn => preferred_told h.placed s.home
  unfold HomeMarked
  rw [live_told]
  constructor
  · rintro ⟨⟨conn, hconn, hmark⟩, hrest⟩
    refine ⟨?_, fun _ => hne, fun r conn' hr hold hbefore => ⟨hne, ?_⟩⟩
    · rw [htold region conn hconn, if_neg (fun hc => hne hc.1.symm)] at hmark
      obtain ⟨conn', hconn', hiff⟩ := h.home
      cases hconn.symm.trans hconn'
      exact hiff.1 hmark
    · by_contra hnot
      obtain ⟨hprev, hgone⟩ := not_or.1 hnot
      obtain ⟨hsame, hrun⟩ := h.kept r conn' hold
      have hstill : s'.live r = some conn' := by rw [h.others r hr, if_neg hgone, hold]
      refine hrest r conn' hr hstill ?_
      rw [htold r conn' hstill, hrun, if_neg hprev, hsame, hbefore]
  · intro hm
    obtain ⟨conn, hconn, hiff⟩ := h.home
    refine ⟨⟨conn, hconn, ?_⟩, fun r conn' hr hlive hmark => ?_⟩
    · rw [htold region conn hconn, if_neg (fun hc => hne hc.1.symm)]
      exact hiff.2 hm.marked
    · rw [htold r conn' hlive] at hmark
      rw [h.others r hr] at hlive
      split at hlive
      · cases hlive
      next hstays =>
        obtain ⟨hsame, hrun⟩ := h.kept r conn' hlive
        split at hmark
        · cases hmark
        next hprev =>
          rw [hrun] at hprev
          rcases (hm.others r conn' hr hlive (hsame.symm.trans hmark)).2 with hprev' | hgone
          · exact hprev hprev'
          · exact hstays hgone

/-- **When `set_home` has marked the home.** From every state that a history of the pool leads to, interleavings
included, and whatever the call's dial and its hash map do: after a `set_home(region)` that nothing else comes between
and that returns `Ok`, the home is marked and nothing else is if and only if, before the call, the region's connection
was marked, or it had none and was not the home; and any other live connection that was marked belonged to the
previous home and took messages, or is the one evicted to make room. -/
theorem home_marked_iff (cap : Nat) (es : List MuxEvent) (region : RegionId) (met : MuxMet) (n : Nat) :
    let w := run muxStep (MuxWorld.new cap) es
    let w' := run muxStep w (.call (.setHome region) :: (List.replicate n met).map (.resume w.tasks.length))
    w.shared.home = region ∨ w'.tasks[w.tasks.length]? = some (.returned (.ok none)) →
    (w'.shared.HomeMarked region ↔ w.shared.MarksHome region met.ord) := by
  intro w w' hok
  have hplaced : Placed w.shared := (muxInv_run cap es).placed
  have hcall : muxCall w.clock w.shared (.setHome region) = if w.shared.home = region then (w.shared, none, [])
      else ({ w.shared with home := region }, some (.checking region true (.setHome w.shared.home)), []) := rfl
  by_cases hhome : w.shared.home = region
  · -- the home already: nothing begins, and nothing changes
    rw [if_pos hhome] at hcall
    have hsame : muxStep w (.call (.setHome region)) = w := by simp [muxStep, World.step, muxThreads, hcall]
    have hw' : w' = w := by
      show run muxStep (muxStep w _) _ = w
      rw [hsame]
      exact World.run_none muxThreads (getElem?_eq_none (Nat.le_refl _)) _
    rw [hw']
    constructor
    · rintro ⟨⟨conn, hlive, hmark⟩, hrest⟩
      refine ⟨fun conn' hlive' => ?_, fun hnone => ?_, fun r conn' hr hlive' hm => absurd hm (hrest r conn' hr hlive')⟩
      · cases hlive.symm.trans hlive'
        exact hmark
      · cases hlive.symm.trans hnone
    · intro hm
      refine ⟨?_, fun r conn' hr hlive hmark => (hm.others r conn' hr hlive hmark).1 hhome⟩
      obtain ⟨conn, hlive⟩ := Option.ne_none_iff_exists'.1 (fun hnone => hm.dials hnone hhome)
      exact ⟨conn, hlive, hm.marked conn hlive⟩
  · rw [if_neg hhome] at hcall
    have hbegun : muxStep w (.call (.setHome region)) =
        { w with
          shared := { w.shared with home := region }
          tasks := w.tasks ++ [.checking region true (.setHome w.shared.home)] } := by
      simp [muxStep, World.step, muxThreads, hcall]
    have hstage : Homing w.shared region met.ord w'.shared (.returned (.ok none)) := by
      refine World.alone_keeps muxThreads (Homing w.shared region met.ord) (List.replicate n met) ?_
        (muxStep w (.call (.setHome region))) (fun t ht => ?_) _ (hok.resolve_left hhome)
      · intro now s t met' hmem hstage
        rw [eq_of_mem_replicate hmem]
        exact homing_resume now met hstage
      · rw [hbegun] at ht ⊢
        simp only [getElem?_concat_length, Option.some.injEq] at ht
        subst ht
        exact .checking
    generalize w'.shared = s' at hstage ⊢
    generalize hr : MuxTask.returned (.ok none) = t at hstage
    cases hstage with
    | returned h => exact marked_iff hhome (h.brought hplaced)
    | _ => cases hr

theorem home_marked_in_turn :
    let w := run muxStep (MuxWorld.new 8) ([twoRegions, .call (.setHome 1)] ++ List.replicate 5 (.resume 0 reachable))
    let w' := run muxStep w (.call (.setHome 2) :: (List.replicate 6 reachable).map (.resume w.tasks.length))
    w'.tasks[1]? = some (.returned (.ok none)) ∧ w'.shared.HomeMarked 2 := by
  intro w w'
  have hkeys : w.shared.conns.keys = {1} := by decide +kernel
  have hlive : w.shared.live 1 = some 0 := by decide +kernel
  have hnone : w.shared.live 2 = none := by decide +kernel
  have hok : w'.tasks[w.tasks.length]? = some (.returned (.ok none)) := by decide +kernel
  refine ⟨by decide +kernel, (home_marked_iff 8 _ 2 reachable 6 (.inr hok)).2 ⟨?_, fun _ => by decide +kernel, ?_⟩⟩
  · intro conn hconn
    cases hnone.symm.trans hconn
  · intro r conn _ hr _
    have hmem : r ∈ w.shared.conns.keys := (HashMap.mem_keys_iff _ _).2 ⟨conn, (live_eq_some.1 hr).1⟩
    rw [hkeys, Finset.mem_singleton] at hmem
    subst hmem
    cases hlive.symm.trans hr
    exact ⟨by decide +kernel, .inl ⟨by decide +kernel, by decide, by decide +kernel⟩⟩

/-- **`set_home` returns `Ok` and has not told the relay**: where the region has a connection already, or is the home
and its connection is gone; and after a `set_home` that failed, the home before it stays marked. -/
theorem home_not_told :
    let dials : Nat → Nat → List MuxEvent := fun n id => List.replicate n (.resume id reachable)
    let ensured := run muxStep (MuxWorld.new 8) (twoRegions :: .call (.ensureRegion 1 false) :: dials 5 0)
    let home := run muxStep (MuxWorld.new 8) (twoRegions :: .call (.setHome 1) :: dials 5 0)
    (let w := run muxStep ensured (.call (.setHome 1) :: dials 1 1)
    w.tasks[1]? = some (.returned (.ok none)) ∧ w.shared.live 1 = some 0 ∧ w.shared.preferred 0 = none) ∧
    (let w := run muxStep home [.call (.ioFinished 0), .call (.setHome 1)]
    w.tasks = [.returned (.ok none)] ∧ w.shared.live 1 = none) ∧
    let failed := run muxStep home (.call (.setHome 5) :: dials 2 1)
    let w := run muxStep failed (.call (.setHome 2) :: dials 6 2)
    w.tasks[1]? = some (.returned (.error (.unknownRegion 5))) ∧ w.tasks[2]? = some (.returned (.ok none)) ∧
      w.shared.live 1 = some 0 ∧ w.shared.preferred 0 = some true := by
  refine ⟨⟨?_, ?_, ?_⟩, ⟨?_, ?_⟩, ?_, ?_, ?_, ?_⟩ <;> decide +kernel

end

/-! ## What a failed call leaves behind -/

namespace DerpMux

def liveRegions (s : DerpMux) : Finset RegionId := s.conns.keys.filter (fun r => (s.live r).isSome)

def Evicts (s : DerpMux) (region : RegionId) : Prop :=
  (s.derpMap.lookup region).isSome ∧ s.cap ≤ s.liveRegions.card ∧ ∃ r ∈ s.liveRegions, r ≠ s.home

theorem mem_liveRegions {s : DerpMux} {region : RegionId} :
    region ∈ s.liveRegions ↔ ∃ conn, s.live region = some conn := by
  unfold liveRegions
  rw [Finset.mem_filter, HashMap.mem_keys_iff, Option.isSome_iff_exists]
  constructor
  · exact And.right
  · rintro ⟨conn, hlive⟩
    exact ⟨⟨conn, (live_eq_some.1 hlive).1⟩, conn, hlive⟩

variable (ord : HashOrder RegionId)

theorem keys_reap (s : DerpMux) : (s.reap ord).conns.keys = s.liveRegions := by
  ext region
  rw [mem_liveRegions, HashMap.mem_keys_iff]
  rw [show (s.reap ord).conns.lookup region = s.live region from ord.lookup_retain _ _ _]

inductive MadeRoom (s : DerpMux) : Except DerpError Unit × DerpMux → Prop where
  | had {s'} (hlt : s.liveRegions.card < s.cap) (hlive : s'.live = s.live) : MadeRoom s (.ok (), s')
  | evicted {s' r} (hcap : s.cap ≤ s.liveRegions.card) (hr : r ∈ s.liveRegions) (hne : r ≠ s.home)
      (hgone : s'.live r = none) : MadeRoom s (.ok (), s')
  | full {s' e} (hall : ∀ r ∈ s.liveRegions, r = s.home) (hlive : s'.live = s.live) : MadeRoom s (.error e, s')

theorem madeRoom (s : DerpMux) : MadeRoom s (s.makeRoom ord) := by
  have hkeys := s.keys_reap ord
  unfold makeRoom
  simp only [hkeys]
  split
  next hcap =>
    split
    next r hr =>
      have hmem := argmin_mem hr
      rw [mem_filter, ord.mem_order, hkeys, decide_eq_true_eq] at hmem
      refine .evicted hcap hmem.1 hmem.2 ?_
      simp [live]
    next hnone =>
      refine .full (fun r hr => ?_) (live_reap ord s)
      rw [evictTarget, argmin_eq_none, hkeys, filter_eq_nil_iff] at hnone
      have hhome := hnone r ((ord.mem_order _ _).2 hr)
      rwa [decide_eq_true_eq, not_not] at hhome
  next hlt => exact .had (Nat.not_le.1 hlt) (live_reap ord s)

theorem home_makeRoom (s : DerpMux) : (s.makeRoom ord).2.home = s.home := by
  rcases s.makeRoom_spec ord with h | ⟨r, -, h⟩ <;> rw [h] <;> rfl

theorem MadeRoom.live_iff {s s' : DerpMux} {r : Except DerpError Unit} {region : RegionId} (h : MadeRoom s (r, s'))
    (hmap : (s.derpMap.lookup region).isSome) : s'.live = s.live ↔ ¬ s.Evicts region := by
  cases h with
  | had hlt hlive => exact ⟨fun _ hevicts => absurd hlt (Nat.not_lt.2 hevicts.2.1), fun _ => hlive⟩
  | @evicted _ r hcap hr hne hgone =>
    refine ⟨fun hlive => ?_, fun hnot => absurd ⟨hmap, hcap, r, hr, hne⟩ hnot⟩
    obtain ⟨conn, hconn⟩ := mem_liveRegions.1 hr
    rw [hlive, hconn] at hgone
    cases hgone
  | full hall hlive => exact ⟨(fun _ ⟨_, _, r, hr, hne⟩ => hne (hall r hr)), fun _ => hlive⟩

end DerpMux

variable {caller : Caller} {e : DerpError} {q : MuxRequest} {region : RegionId} {s s0 : DerpMux} {t : MuxTask}
  {w : MuxWorld}

def MuxTask.Succeeds : MuxTask → Prop
  | .inserting _ _ (.send _) | .sending .. | .dropping .. | .checking .. | .lookingUp .. | .makingRoom .. | .dialing ..
  | .returned (.error _) => False
  | .inserting .. | .unmarking _ | .returned (.ok _) => True

inductive Stage (s₀ : DerpMux) (region : RegionId) (caller : Caller) : DerpMux → MuxTask → Prop where
  | checking (isHome : Bool) : Stage s₀ region caller s₀ (.checking region isHome caller)
  | lookingUp (isHome : Bool) : Stage s₀ region caller s₀ (.lookingUp region isHome caller)
  | makingRoom (isHome : Bool) (nodes : List DerpNodeAddr) (hmap : (s₀.derpMap.lookup region).isSome) :
      Stage s₀ region caller s₀ (.makingRoom region isHome nodes caller)
  | dialing {s : DerpMux} (isHome : Bool) (nodes : List DerpNodeAddr) (hmap : (s₀.derpMap.lookup region).isSome)
      (hhome : s.home = s₀.home) (hroom : MadeRoom s₀ (.ok (), s)) :
      Stage s₀ region caller s (.dialing region isHome nodes caller)
  | unknown (e : DerpError) (hmap : s₀.derpMap.lookup region = none) : Stage s₀ region caller s₀ (.returned (.error e))
  | failed {s : DerpMux} (e : DerpError) {r : Except DerpError Unit} (hmap : (s₀.derpMap.lookup region).isSome)
      (hhome : s.home = s₀.home) (hroom : MadeRoom s₀ (r, s)) : Stage s₀ region caller s (.returned (.error e))
  | succeeding {s : DerpMux} {t : MuxTask} (ht : t.Succeeds) : Stage s₀ region caller s t

theorem succeeds_ensured (h : ∀ msg, caller ≠ .send msg) (region : RegionId) (conn : ConnId) :
    (caller.ensured region conn).Succeeds := by
  cases caller with
  | ensureRegion => trivial
  | send msg => exact absurd rfl (h msg)
  | setHome prev =>
    simp only [Caller.ensured]
    split <;> trivial

theorem succeeds_resume (now : Nat) (s : DerpMux) (met : MuxMet) (ht : t.Succeeds) :
    (muxResume now s met t).2.1.Succeeds := by
  match t, ht with
  | .inserting region conn (.setHome prev), _ =>
    have hcaller : ∀ msg, Caller.setHome prev ≠ .send msg := fun _ h => by cases h
    exact succeeds_ensured hcaller region conn
  | .inserting region conn .ensureRegion, _ => trivial
  | .unmarking prev, _ => trivial
  | .returned (.ok conn), _ => trivial

theorem stage_resume (hcaller : ∀ msg, caller ≠ .send msg) (now : Nat) (s : DerpMux) (t : MuxTask) (met : MuxMet)
    (h : Stage s0 region caller s t) :
    Stage s0 region caller (muxResume now s met t).1 (muxResume now s met t).2.1 := by
  cases h with
  | checking isHome =>
    simp only [muxResume]
    split
    · exact .succeeding (succeeds_ensured hcaller _ _)
    · exact .lookingUp isHome
  | lookingUp isHome =>
    simp only [muxResume]
    split
    next hnone => exact .unknown _ hnone
    next nodes hsome => exact .makingRoom isHome nodes (by rw [hsome]; rfl)
  | makingRoom isHome nodes hmap =>
    have hroom := madeRoom met.ord s0
    have hhome := s0.home_makeRoom met.ord
    simp only [muxResume]
    generalize s0.makeRoom met.ord = r at hroom hhome ⊢
    obtain ⟨e | ⟨⟩, s'⟩ := r
    · exact .failed e hmap hhome hroom
    · exact .dialing isHome nodes hmap hhome hroom
  | dialing isHome nodes hmap hhome hroom =>
    simp only [muxResume]
    split
    · exact .failed _ hmap hhome hroom
    · refine .succeeding ?_
      cases caller with
      | ensureRegion | setHome => trivial
      | send msg => exact absurd rfl (hcaller msg)
  | unknown e hmap => exact .unknown e hmap
  | failed e hmap hhome hroom => exact .failed e hmap hhome hroom
  | succeeding ht => exact .succeeding (succeeds_resume now s met ht)

theorem stage_alone {isHome : Bool} (hcaller : ∀ msg, caller ≠ .send msg)
    (hcall : muxCall w.clock w.shared q = (s0, some (.checking region isHome caller), [])) (mets : List MuxMet)
    (ht : (run muxStep w (.call q :: mets.map (.resume w.tasks.length))).tasks[w.tasks.length]? = some t) :
    Stage s0 region caller (run muxStep w (.call q :: mets.map (.resume w.tasks.length))).shared t := by
  have hbegun : muxStep w (.call q) =
      { w with shared := s0, tasks := w.tasks ++ [.checking region isHome caller] } := by
    simp [muxStep, World.step, muxThreads, hcall]
  rw [run_cons, hbegun] at ht ⊢
  refine World.alone_keeps muxThreads _ mets (fun now s t met _ => stage_resume hcaller now s t met) _
    (fun t' ht' => ?_) t ht
  simp only [getElem?_concat_length, Option.some.injEq] at ht'
  subst ht'
  exact .checking isHome

theorem Stage.failed_iff {e : DerpError} (h : Stage s0 region caller s (.returned (.error e))) :
    s.home = s0.home ∧ (s.live = s0.live ↔ ¬ s0.Evicts region) := by
  cases h with
  | unknown e hmap =>
    refine ⟨rfl, fun _ hevicts => ?_, fun _ => rfl⟩
    rw [DerpMux.Evicts, hmap] at hevicts
    cases hevicts.1
  | failed e hmap hhome hroom => exact ⟨hhome, hroom.live_iff hmap⟩
  | succeeding ht => cases ht

/-- **When a failed call changes nothing.**  From every state of the pool, whatever the dials answer: a `set_home` or an
`ensure_region` that nothing else comes between and that returns an error leaves the home and the live connections as
they were if and only if it is an `ensure_region` and has evicted nothing. -/
theorem failed_change_atomic_iff (w : MuxWorld) (q : MuxRequest)
    (hq : (∃ region isHome, q = .ensureRegion region isHome) ∨ ∃ region, q = .setHome region) (mets : List MuxMet)
    (e : DerpError) :
    let w' := run muxStep w (.call q :: mets.map (.resume w.tasks.length))
    w'.tasks[w.tasks.length]? = some (.returned (.error e)) →
    (w'.shared.home = w.shared.home ∧ w'.shared.live = w.shared.live ↔
      ∃ region isHome, q = .ensureRegion region isHome ∧ ¬ w.shared.Evicts region) := by
  intro w' herr
  rcases hq with ⟨region, isHome, rfl⟩ | ⟨region, rfl⟩
  · have hstage : Stage w.shared region .ensureRegion w'.shared (.returned (.error e)) :=
      stage_alone (fun _ h => by cases h) rfl mets herr
    obtain ⟨hhome, hlive⟩ := hstage.failed_iff
    constructor
    · rintro ⟨-, hsame⟩
      exact ⟨region, isHome, rfl, hlive.1 hsame⟩
    · rintro ⟨_, _, heq, hnot⟩
      cases heq
      exact ⟨hhome, hlive.2 hnot⟩
  · have hcall : muxCall w.clock w.shared (.setHome region) = if w.shared.home = region then (w.shared, none, [])
        else ({ w.shared with home := region }, some (.checking region true (.setHome w.shared.home)), []) := rfl
    by_cases hsame : w.shared.home = region
    · rw [if_pos hsame] at hcall
      have hnever : ∀ t, (muxStep w (.call (.setHome region))).tasks[w.tasks.length]? = some t → False := by
        intro t ht
        simp [muxStep, World.step, muxThreads, hcall] at ht
      exact (World.alone_keeps muxThreads (fun _ _ => False) mets (fun _ _ _ _ _ h => h) _ hnever _ herr).elim
    · rw [if_neg hsame] at hcall
      have hstage := (stage_alone (fun _ h => by cases h) hcall mets herr).failed_iff
      constructor
      · rintro ⟨hback, -⟩
        exact absurd (hback.symm.trans hstage.1) hsame
      · rintro ⟨_, _, heq, -⟩
        cases heq

theorem failed_change_of_unknown :
    let w := run muxStep (MuxWorld.new 1) ([twoRegions, .call (.setHome 1)] ++ List.replicate 5 (.resume 0 reachable))
    let w' := run muxStep w (.call (.ensureRegion 5 false) :: [reachable, reachable].map (.resume w.tasks.length))
    w'.shared.home = w.shared.home ∧ w'.shared.live = w.shared.live := by
  intro w w'
  have hunknown : w.shared.derpMap.lookup 5 = none := by decide +kernel
  have herr : w'.tasks[w.tasks.length]? = some (.returned (.error (.unknownRegion 5))) := by decide +kernel
  refine (failed_change_atomic_iff w _ (.inl ⟨5, false, rfl⟩) [reachable, reachable] _ herr).2 ⟨5, false, rfl, ?_⟩
  rintro ⟨hsome, -⟩
  rw [hunknown] at hsome
  cases hsome

def unreachable : MuxMet := { reachable with dial := fun _ => .error (.handshake "refused") }

/-- **What failed calls have changed**: a `set_home` to an unknown region leaves it as the home; an `ensure_region` has
closed the connection to region 1 before its own dial fails. -/
theorem failed_change_kept :
    let dials : List MuxEvent := List.replicate 5 (.resume 0 reachable)
    let unknown : List MuxEvent := .call (.setHome 5) :: List.replicate 2 (.resume 1 reachable)
    let refused : List MuxEvent := .call (.ensureRegion 2 false) :: List.replicate 4 (.resume 1 unreachable)
    (let w := run muxStep (MuxWorld.new 8) (twoRegions :: .call (.setHome 1) :: dials)
    let w' := run muxStep w unknown
    w'.tasks[1]? = some (.returned (.error (.unknownRegion 5))) ∧ w.shared.home = 1 ∧ w'.shared.home = 5) ∧
    let w := run muxStep (MuxWorld.new 1) (twoRegions :: .call (.ensureRegion 1 false) :: dials)
    let w' := run muxStep w refused
    w'.tasks[1]? = some (.returned (.error (.handshake "refused"))) ∧ w.shared.live 1 = some 0 ∧
      w'.shared.live 1 = none := by
  refine ⟨⟨?_, ?_, ?_⟩, ?_, ?_, ?_⟩ <;> decide +kernel

end TailscaleVita.Derp

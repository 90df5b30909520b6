import TailscaleVita.Slot
import TailscaleVita.Threads
/-!
# SyncLazy — a mutex and its condition variable, created when first used (`vita-sync/src/vita.rs`)

The kernel objects behind a `Mutex` and a `Condvar` are created at the first `lock` and at the first `wait`, under a
sentinel in an atomic cell. Any number of threads lock, change what the mutex protects, wait for a predicate of it and
notify, interleaved access by access; a creation that fails makes the caller panic, and the kernel's wait releases the
mutex and sleeps in one step. For the theorems only, `history` keeps every value that was written, `notified` how many
there were when each completed `notify_all` was issued, and a stage such numbers as `tested` and `begun`.
-/
namespace TailscaleVita.Sync

open Function List

def sceInitSentinel : Int := -1

inductive Init where
  | load
  | claim
  | create
  | store (rc : Int)
deriving DecidableEq

inductive Inited where
  | again (i : Init)
  | got (uid : Int)
  | panicked

structure Lazy where
  sce : Int := 0
  created : List Int := []

def Init.access (l : Lazy) (rc : Int) : Init → Lazy × Inited
  | .load => (l, if 0 < l.sce then .got l.sce else .again .claim)
  | .claim =>
    if l.sce = 0 then ({ l with sce := sceInitSentinel }, .again .create)
    else if l.sce = sceInitSentinel then (l, .again .claim)
    else (l, if 0 < l.sce then .got l.sce else .panicked)
  | .create => ({ l with created := l.created ++ if 0 < rc then [rc] else [] }, .again (.store rc))
  | .store uid => if uid ≤ 0 then ({ l with sce := 0 }, .panicked) else ({ l with sce := uid }, .got uid)

inductive Stage (σ : Type) where
  | idle
  | mutexInit (tryLock : Bool) (i : Init)
  | locking (tryLock : Bool) (uid : Int)
  | holding (uid : Int)
  | condInit (uid : Int) (pred : σ → Bool) (tested : Nat) (i : Init)
  | sleeping (uid cond : Int) (pred : σ → Bool) (tested : Nat)
  | asleep (uid cond : Int) (pred : σ → Bool) (tested : Nat)
  | relocking (uid cond : Int)
  | unwinding (uid : Int)
  | notifying (guard : Option Int) (all : Bool) (begun : Nat)
  | signalling (guard : Option Int) (all : Bool) (begun : Nat) (cond : Int)

structure Shared (σ : Type) where
  data : σ
  mutex : Lazy := {}
  cond : Lazy := {}
  owner : Int → Option Nat := fun _ => none
  bound : Int → Int := fun _ => 0
  waiting : List (Int × Nat) := []
  history : List σ := []
  notified : List Nat := []

inductive Move (σ : Type) where
  | lock (tryLock : Bool)
  | unlock
  | write (data : σ)
  | wait (pred : σ → Bool)
  | notify (all : Bool)
  | go (rc : Int) (pick : Nat)
  | wake

section

variable {σ : Type}

def Shared.unlock (s : Shared σ) (id : Nat) (uid : Int) : Shared σ :=
  if s.owner uid = some id then { s with owner := update s.owner uid none } else s

/-- `sceKernelSignalCondAll`, or `sceKernelSignalCond`, which wakes any one of those who wait. -/
def Shared.signal (s : Shared σ) (all : Bool) (cond : Int) (pick : Nat) : Shared σ :=
  if all then { s with waiting := s.waiting.filter (fun p => p.1 ≠ cond) }
  else if (cond, pick) ∈ s.waiting then { s with waiting := s.waiting.erase (cond, pick) }
  else { s with waiting := s.waiting.eraseP (fun p => p.1 = cond) }

def Shared.notify (s : Shared σ) (all : Bool) (begun : Nat) : Shared σ :=
  if all then { s with notified := s.notified ++ [begun] } else s

def Stage.back (guard : Option Int) : Stage σ :=
  match guard with
  | some uid => .holding uid
  | none => .idle

def resume (id : Nat) (s : Shared σ) (t : Stage σ) (m : Move σ) : Shared σ × Stage σ :=
  match t, m with
  | .idle, .lock tryLock => (s, .mutexInit tryLock .load)
  | .idle, .notify all => (s, .notifying none all s.history.length)
  | .mutexInit tryLock i, .go rc _ =>
    let (mutex, next) := i.access s.mutex rc
    ({ s with mutex := mutex }, match next with
      | .again i => .mutexInit tryLock i
      | .got uid => .locking tryLock uid
      | .panicked => .idle)
  | .locking tryLock uid, .go _ _ =>
    if s.owner uid = none then ({ s with owner := update s.owner uid (some id) }, .holding uid)
    else (s, if tryLock then .idle else .locking tryLock uid)
  | .holding uid, .unlock => (s.unlock id uid, .idle)
  | .holding uid, .write data => ({ s with data := data, history := s.history ++ [data] }, .holding uid)
  | .holding uid, .wait pred =>
    (s, if pred s.data then .holding uid else .condInit uid pred s.history.length .load)
  | .holding uid, .notify all => (s, .notifying (some uid) all s.history.length)
  | .condInit uid pred tested i, .go rc _ =>
    let (cond, next) := i.access s.cond rc
    let bound := if i = .create then update s.bound rc uid else s.bound
    ({ s with cond := cond, bound := bound }, match next with
      | .again i => .condInit uid pred tested i
      | .got cond => .sleeping uid cond pred tested
      | .panicked => .unwinding uid)
  | .sleeping uid cond pred tested, .go _ _ =>
    if s.owner (s.bound cond) = some id then
      ({ s with owner := update s.owner (s.bound cond) none, waiting := s.waiting ++ [(cond, id)] },
        .asleep uid cond pred tested)
    else (s, .unwinding uid)
  | .asleep uid cond pred tested, .go _ _ =>
    (s, if (cond, id) ∈ s.waiting then .asleep uid cond pred tested else .relocking uid cond)
  | .asleep uid cond _ _, .wake =>
    ({ s with waiting := s.waiting.filter (fun p => p ≠ (cond, id)) }, .relocking uid cond)
  | .relocking uid cond, .go _ _ =>
    if s.owner (s.bound cond) = none then
      ({ s with owner := update s.owner (s.bound cond) (some id) }, .holding uid)
    else (s, .relocking uid cond)
  | .unwinding uid, .go _ _ => (s.unlock id uid, .idle)
  | .notifying guard all begun, .go _ _ =>
    if 0 < s.cond.sce then (s, .signalling guard all begun s.cond.sce) else (s.notify all begun, .back guard)
  | .signalling guard all begun cond, .go _ pick => ((s.signal all cond pick).notify all begun, .back guard)
  | t, _ => (s, t)

def syncThreads (σ : Type) : Threads (Shared σ) (Stage σ) Empty Unit (Move σ) where
  call _ s _ := (s, some .idle, [])
  resume _ id s t m := ((resume id s t m).1, (resume id s t m).2, [])

abbrev SyncWorld (σ : Type) := World (Shared σ) (Stage σ) Empty

abbrev SyncEvent (σ : Type) := WorldEvent Unit (Move σ)

def syncStep (w : SyncWorld σ) (e : SyncEvent σ) : SyncWorld σ := w.step (syncThreads σ) e

def SyncWorld.new (data : σ) : SyncWorld σ := { shared := { data } }

/-! ## What every interleaving keeps -/

def Init.place : Init → Claim Int
  | .load => .away
  | .claim => .away
  | .create => .building
  | .store rc => .built (if 0 < rc then some rc else none)

def Inited.place : Inited → Claim Int
  | .again i => i.place
  | _ => .away

inductive Holds : Int → Slot Int → Prop where
  | vacant : Holds 0 .vacant
  | claimed : Holds sceInitSentinel .claimed
  | filled {uid : Int} (h : 0 < uid) : Holds uid (.filled uid)

theorem Holds.eq_filled {uid : Int} {slot : Slot Int} (h : Holds uid slot) (hpos : 0 < uid) : slot = .filled uid := by
  cases h with
  | vacant | claimed => exact absurd hpos (by decide)
  | filled _ => rfl

def Lazy.Moves (l : Lazy) (p : Claim Int) (l' : Lazy) (p' : Claim Int) : Prop :=
  ∀ slot, Holds l.sce slot → (p ≠ .away → slot = .claimed) →
    ∃ slot', Holds l'.sce slot' ∧ Slot.Move slot l.created p slot' l'.created p'

theorem Init.mem_created {l : Lazy} {rc c : Int} {i : Init} (h : c ∈ (i.access l rc).1.created) :
    c ∈ l.created ∨ i = .create ∧ c = rc := by
  cases i with
  | load => exact .inl h
  | claim =>
    simp only [Init.access] at h
    repeat' split at h
    all_goals exact .inl h
  | create =>
    refine (mem_append.1 h).imp_right fun hc => ⟨rfl, ?_⟩
    split at hc
    · exact mem_singleton.1 hc
    · cases hc
  | store uid =>
    simp only [Init.access] at h
    split at h <;> exact .inl h

theorem Lazy.Moves.refl (l : Lazy) (p : Claim Int) : l.Moves p l p := fun slot h _ => ⟨slot, h, .stay⟩

theorem Init.access_moves (l : Lazy) (rc : Int) (i : Init) :
    l.Moves i.place (i.access l rc).1 (i.access l rc).2.place ∧
      ∀ uid, (i.access l rc).2 = .got uid → 0 < uid ∧ (i.access l rc).1.sce = uid := by
  have hgot : 0 < l.sce → ∀ uid, Inited.got l.sce = .got uid → 0 < uid ∧ l.sce = uid := by
    rintro hpos uid ⟨⟩
    exact ⟨hpos, rfl⟩
  cases i with
  | load =>
    simp only [Init.access]
    split
    · exact ⟨Lazy.Moves.refl l .away, hgot ‹_›⟩
    · exact ⟨Lazy.Moves.refl l .away, nofun⟩
  | claim =>
    simp only [Init.access]
    split
    next hzero =>
      refine ⟨fun slot hslot _ => ⟨.claimed, .claimed, ?_⟩, nofun⟩
      rw [hzero] at hslot
      cases hslot with
      | vacant => exact .claim
      | filled h => exact absurd h (by decide)
    · split
      · exact ⟨Lazy.Moves.refl l .away, nofun⟩
      · split
        · exact ⟨Lazy.Moves.refl l .away, hgot ‹_›⟩
        · exact ⟨Lazy.Moves.refl l .away, nofun⟩
  | create =>
    refine ⟨fun slot hslot _ => ⟨slot, hslot, ?_⟩, nofun⟩
    simp only [Init.access, Init.place, Inited.place]
    split
    · exact .build (some rc)
    · exact .build none
  | store uid =>
    by_cases hfailed : uid ≤ 0
    · have hnot : ¬ 0 < uid := by omega
      simp only [Init.access, Init.place, if_pos hfailed, if_neg hnot]
      exact ⟨fun slot _ _ => ⟨.vacant, .vacant, .vacate⟩, nofun⟩
    · have hpos : 0 < uid := by omega
      simp only [Init.access, Init.place, if_neg hfailed, if_pos hpos]
      refine ⟨fun slot _ _ => ⟨.filled uid, .filled hpos, .fill⟩, ?_⟩
      rintro _ ⟨⟩
      exact ⟨hpos, rfl⟩

theorem Lazy.Moves.filled {l l' : Lazy} {p p' : Claim Int} (h : l.Moves p l' p') {slot : Slot Int}
    (hslot : Holds l.sce slot) (hclaim : p ≠ .away → slot = .claimed) (hpos : 0 < l.sce) : l'.sce = l.sce := by
  obtain rfl := hslot.eq_filled hpos
  obtain ⟨slot', hslot', hmove⟩ := h _ hslot hclaim
  generalize l.created = made, l'.created = made' at hmove
  generalize l'.sce = sce' at hslot' ⊢
  cases hmove with
  | stay =>
    cases hslot'
    rfl
  | build _ | fill | vacate | abandon => cases hclaim nofun

def Stage.uid : Stage σ → Option Int
  | .locking _ uid => some uid
  | .holding uid => some uid
  | .condInit uid _ _ _ => some uid
  | .sleeping uid _ _ _ => some uid
  | .asleep uid _ _ _ => some uid
  | .relocking uid _ => some uid
  | .unwinding uid => some uid
  | .notifying guard _ _ => guard
  | .signalling guard _ _ _ => guard
  | _ => none

def Stage.holds : Stage σ → Option Int
  | .locking _ _ => none
  | .asleep _ _ _ _ => none
  | .relocking _ _ => none
  | t => t.uid

def Stage.cond : Stage σ → Option Int
  | .sleeping _ cond _ _ => some cond
  | .asleep _ cond _ _ => some cond
  | .relocking _ cond => some cond
  | .signalling _ _ _ cond => some cond
  | _ => none

def Stage.tested : Stage σ → Option Nat
  | .condInit _ _ tested _ => some tested
  | .sleeping _ _ _ tested => some tested
  | _ => none

def Stage.sleeps : Stage σ → Option (Int × Nat)
  | .asleep _ cond _ tested => some (cond, tested)
  | _ => none

def Stage.begun : Stage σ → Option Nat
  | .notifying _ _ begun => some begun
  | .signalling _ _ begun _ => some begun
  | _ => none

def Stage.mutexPlace : Stage σ → Claim Int
  | .mutexInit _ i => i.place
  | _ => .away

def Stage.condPlace : Stage σ → Claim Int
  | .condInit _ _ _ i => i.place
  | _ => .away

structure Local (s : Shared σ) (id : Nat) (t : Stage σ) : Prop where
  uid : ∀ u ∈ t.uid, 0 < u ∧ u = s.mutex.sce := by nofun
  owner : ∀ u, s.owner u = some id ↔ t.holds = some u
  cond : ∀ c ∈ t.cond, 0 < c ∧ c = s.cond.sce := by nofun
  tested : ∀ n ∈ t.tested, n = s.history.length := by nofun
  begun : ∀ n ∈ t.begun, n ≤ s.history.length := by nofun
  heard : ∀ c n, (c, n) ∈ t.sleeps → (c, id) ∈ s.waiting → ∀ b ∈ s.notified, b ≤ n := by nofun

/-- What a step of another thread leaves alone, for thread `j`. -/
structure Frame (s s' : Shared σ) (j : Nat) : Prop where
  mutex : 0 < s.mutex.sce → s'.mutex.sce = s.mutex.sce
  cond : 0 < s.cond.sce → s'.cond.sce = s.cond.sce
  owner : ∀ u, s'.owner u = some j ↔ s.owner u = some j
  grows : s.history.length ≤ s'.history.length
  still : s.owner s.mutex.sce = some j → s'.history.length = s.history.length
  heard : 0 < s.cond.sce → (s.cond.sce, j) ∈ s'.waiting → (s.cond.sce, j) ∈ s.waiting ∧ s'.notified = s.notified

variable {s s' : Shared σ} {id : Nat} {t t' : Stage σ}

theorem Frame.refl (s : Shared σ) (j : Nat) : Frame s s j :=
  ⟨fun _ => rfl, fun _ => rfl, fun _ => Iff.rfl, Nat.le_refl _, fun _ => rfl, fun _ h => ⟨h, rfl⟩⟩

theorem Stage.holds_of_tested {n : Nat} (h : n ∈ t.tested) : ∃ u, t.holds = some u ∧ u ∈ t.uid := by
  cases t with
  | condInit uid _ _ _ | sleeping uid _ _ _ => exact ⟨uid, rfl, rfl⟩
  | _ => cases h

theorem Stage.cond_of_sleeps {c : Int} {n : Nat} (h : (c, n) ∈ t.sleeps) : c ∈ t.cond := by
  cases t with
  | asleep _ _ _ _ =>
    cases h
    rfl
  | _ => cases h

theorem Local.frame (h : Local s id t) (hf : Frame s s' id) : Local s' id t where
  uid u hu := by
    obtain ⟨hpos, rfl⟩ := h.uid u hu
    exact ⟨hpos, (hf.mutex hpos).symm⟩
  owner u := (hf.owner u).trans (h.owner u)
  cond c hc := by
    obtain ⟨hpos, rfl⟩ := h.cond c hc
    exact ⟨hpos, (hf.cond hpos).symm⟩
  tested n hn := by
    obtain ⟨u, hholds, hu⟩ := Stage.holds_of_tested hn
    have howner := (h.owner u).2 hholds
    rw [(h.uid u hu).2] at howner
    rw [hf.still howner]
    exact h.tested n hn
  begun n hn := Nat.le_trans (h.begun n hn) hf.grows
  heard c n hn hwaiting := by
    obtain ⟨hpos, rfl⟩ := h.cond c (Stage.cond_of_sleeps hn)
    obtain ⟨hwaited, hnotified⟩ := hf.heard hpos hwaiting
    rw [hnotified]
    exact h.heard _ n hn hwaited

structure Moved (s : Shared σ) (id : Nat) (t : Stage σ) (s' : Shared σ) (t' : Stage σ) : Prop where
  here : Local s' id t'
  others : ∀ j, j ≠ id → Frame s s' j
  mutex : s.mutex.Moves t.mutexPlace s'.mutex t'.mutexPlace
  cond : s.cond.Moves t.condPlace s'.cond t'.condPlace
  bound : ∀ c ∈ s'.cond.created, 0 < s'.mutex.sce ∧ s'.bound c = s'.mutex.sce
  notified : ∀ b ∈ s'.notified, b ≤ s'.history.length

structure SyncInv (w : SyncWorld σ) : Prop where
  thread : ∀ (id : Nat) (t : Stage σ), w.tasks[id]? = some t → Local w.shared id t
  owners : ∀ u id, w.shared.owner u = some id → id < w.tasks.length
  mutex : ∃ slot, Holds w.shared.mutex.sce slot ∧ slot.Inv w.shared.mutex.created (places Stage.mutexPlace w.tasks)
  cond : ∃ slot, Holds w.shared.cond.sce slot ∧ slot.Inv w.shared.cond.created (places Stage.condPlace w.tasks)
  bound : ∀ c ∈ w.shared.cond.created, 0 < w.shared.mutex.sce ∧ w.shared.bound c = w.shared.mutex.sce
  notified : ∀ b ∈ w.shared.notified, b ≤ w.shared.history.length

theorem SyncInv.moved {w : SyncWorld σ} (h : SyncInv w) (hid : w.tasks[id]? = some t) (hm : Moved w.shared id t s' t')
    (log : List Empty) :
    SyncInv { w with shared := s', tasks := w.tasks.set id t', log } := by
  have hlt : id < w.tasks.length := (List.getElem?_eq_some_iff.1 hid).1
  have hcell : ∀ {l l' : Lazy} {f : Stage σ → Claim Int}, l.Moves (f t) l' (f t') →
      (∃ slot, Holds l.sce slot ∧ slot.Inv l.created (places f w.tasks)) →
      ∃ slot', Holds l'.sce slot' ∧ slot'.Inv l'.created (places f (w.tasks.set id t')) := by
    rintro l l' f hmoves ⟨slot, hslot, hinv⟩
    obtain ⟨slot', hslot', hmove⟩ := hmoves slot hslot (hinv.claims hid)
    rw [← places_of_getElem? f hid] at hmove
    exact ⟨slot', hslot', by rw [places_set f hid]; exact hinv.move hmove⟩
  refine ⟨fun j u hj => ?_, fun u j hj => ?_, hcell hm.mutex h.mutex, hcell hm.cond h.cond, hm.bound, hm.notified⟩
  · by_cases hne : j = id
    · subst hne
      rw [getElem?_set_self hlt] at hj
      cases hj
      exact hm.here
    · rw [getElem?_set_ne (Ne.symm hne)] at hj
      exact (h.thread j u hj).frame (hm.others j hne)
  · change j < (w.tasks.set id t').length
    rw [length_set]
    by_cases hne : j = id
    · rwa [hne]
    · exact h.owners u j (((hm.others j hne).owner u).1 hj)

/-! ## The steps, one kind after the other -/

section

variable {w : SyncWorld σ}

structure Turns (s : Shared σ) (t t' : Stage σ) : Prop where
  uid : ∀ u ∈ t'.uid, u ∈ t.uid := by first | exact fun _ hu => hu | nofun
  holds : t'.holds = t.holds := by rfl
  cond : ∀ c ∈ t'.cond, c ∈ t.cond ∨ 0 < c ∧ c = s.cond.sce := by first | exact fun _ hc => .inl hc | nofun
  tested : ∀ n ∈ t'.tested, n ∈ t.tested ∨ n = s.history.length := by nofun
  begun : ∀ n ∈ t'.begun, n ∈ t.begun ∨ n = s.history.length := by nofun
  sleeps : ∀ p ∈ t'.sleeps, p ∈ t.sleeps := by nofun
  mutexPlace : t'.mutexPlace = t.mutexPlace := by rfl
  condPlace : t'.condPlace = t.condPlace := by rfl

theorem Local.turn (h : Local s id t) (ht : Turns s t t') : Local s id t' where
  uid u hu := h.uid u (ht.uid u hu)
  owner u := by rw [ht.holds]; exact h.owner u
  cond c hc := (ht.cond c hc).elim (h.cond c) (fun hc => hc)
  tested n hn := (ht.tested n hn).elim (h.tested n) (fun hn => hn)
  begun n hn := (ht.begun n hn).elim (h.begun n) Nat.le_of_eq
  heard c n hn := h.heard c n (ht.sleeps _ hn)

theorem SyncInv.turn (h : SyncInv w) (hlocal : Local w.shared id t) (ht : Turns w.shared t t') :
    Moved w.shared id t w.shared t' :=
  ⟨hlocal.turn ht, fun j _ => Frame.refl _ j, ht.mutexPlace ▸ Lazy.Moves.refl _ _, ht.condPlace ▸ Lazy.Moves.refl _ _,
    h.bound, h.notified⟩

variable {uid : Int}

theorem SyncInv.locks (h : SyncInv w) (ht : Local w.shared id t) (hfree : w.shared.owner uid = none)
    (huid : uid ∈ t.uid := by rfl) (hholds : t.holds = none := by rfl) (hmutex : t.mutexPlace = .away := by rfl)
    (hcond : t.condPlace = .away := by rfl) :
    Moved w.shared id t { w.shared with owner := update w.shared.owner uid (some id) } (.holding uid) where
  here := by
    refine { uid := fun u hu => ht.uid u (by cases hu; exact huid), owner := fun u => ?_ }
    have hnot : w.shared.owner u ≠ some id := by
      rw [Ne, ht.owner, hholds]
      nofun
    by_cases hu : u = uid
    · simp [hu, Stage.holds, Stage.uid]
    · simp [update_of_ne hu, hnot, Stage.holds, Stage.uid, Ne.symm hu]
  others j hj := by
    refine { Frame.refl w.shared j with owner := fun u => ?_ }
    by_cases hu : u = uid
    · simp [hu, hfree, Ne.symm hj]
    · simp [update_of_ne hu]
  mutex := hmutex ▸ Lazy.Moves.refl _ _
  cond := hcond ▸ Lazy.Moves.refl _ _
  bound := h.bound
  notified := h.notified

theorem SyncInv.releases (h : SyncInv w) (ht : Local w.shared id t) (hholds : t.holds = some uid) (t' : Stage σ)
    {waiting : List (Int × Nat)} (hwaiting : ∀ c j, j ≠ id → (c, j) ∈ waiting → (c, j) ∈ w.shared.waiting)
    (hsleeps : ∀ c n, (c, n) ∈ t'.sleeps → n = w.shared.history.length)
    (hplaces : (t'.mutexPlace = t.mutexPlace) ∧ t'.condPlace = t.condPlace)
    (huid : ∀ u ∈ t'.uid, u ∈ t.uid := by first | exact fun _ hu => hu | nofun) (hholds' : t'.holds = none := by rfl)
    (hcond : ∀ c ∈ t'.cond, c ∈ t.cond := by first | exact fun _ hc => hc | nofun)
    (htested : t'.tested = none := by rfl) (hbegun : t'.begun = none := by rfl) :
    Moved w.shared id t { w.shared with owner := update w.shared.owner uid none, waiting := waiting } t' where
  here := by
    refine ⟨fun u hu => ht.uid u (huid u hu), fun u => ?_, fun c hc => ht.cond c (hcond c hc), ?_, ?_, ?_⟩
    · by_cases hu : u = uid
      · simp [hu, hholds']
      · simp [update_of_ne hu, ht.owner, hholds, hholds', Ne.symm hu]
    · rw [htested]
      nofun
    · rw [hbegun]
      nofun
    · intro c n hn _ b hb
      rw [hsleeps c n hn]
      exact h.notified b hb
  others j hj := by
    refine { Frame.refl w.shared j with owner := fun u => ?_, heard := fun _ hw => ⟨hwaiting _ j hj hw, rfl⟩ }
    by_cases hu : u = uid
    · simp [hu, (ht.owner uid).2 hholds, Ne.symm hj]
    · simp [update_of_ne hu]
  mutex := hplaces.1 ▸ Lazy.Moves.refl _ _
  cond := hplaces.2 ▸ Lazy.Moves.refl _ _
  bound := h.bound
  notified := h.notified

theorem SyncInv.unlocks (h : SyncInv w) (ht : Local w.shared id t) (hholds : t.holds = some uid := by rfl)
    (hplaces : Claim.away = t.mutexPlace ∧ Claim.away = t.condPlace := by exact ⟨rfl, rfl⟩) :
    Moved w.shared id t (w.shared.unlock id uid) .idle := by
  unfold Shared.unlock
  rw [if_pos ((ht.owner uid).2 hholds)]
  exact h.releases ht hholds .idle (fun _ _ _ hw => hw) nofun hplaces

theorem SyncInv.writes (h : SyncInv w) (ht : Local w.shared id (.holding uid)) (data : σ) :
    Moved w.shared id (.holding uid) { w.shared with data := data, history := w.shared.history ++ [data] }
      (.holding uid) where
  here := { uid := ht.uid, owner := ht.owner }
  others j hj := by
    refine { Frame.refl w.shared j with grows := by simp, still := fun howner => ?_ }
    -- two owners of one mutex
    have hmine := (ht.owner uid).2 rfl
    rw [(ht.uid uid rfl).2, howner] at hmine
    exact absurd (Option.some.inj hmine) hj
  mutex := Lazy.Moves.refl _ _
  cond := Lazy.Moves.refl _ _
  bound := h.bound
  notified b hb := by
    have hle := h.notified b hb
    simp only [length_append]
    omega

theorem SyncInv.notifies (h : SyncInv w) (ht : Local w.shared id t) {guard : Option Int} {waiting : List (Int × Nat)}
    (hwaiting : ∀ p ∈ waiting, p ∈ w.shared.waiting) {notified : List Nat}
    (hnotified : ∀ b ∈ notified, b ∈ w.shared.notified ∨ b ∈ t.begun := by exact fun _ hb => .inl hb)
    (hheard : notified = w.shared.notified ∨ (0 < w.shared.cond.sce → ∀ j, (w.shared.cond.sce, j) ∉ waiting) := by
      exact .inl rfl) (hguard : t.uid = guard := by rfl) (hholds : t.holds = guard := by rfl)
    (hplaces : Claim.away = t.mutexPlace ∧ Claim.away = t.condPlace := by exact ⟨rfl, rfl⟩) :
    Moved w.shared id t { w.shared with waiting := waiting, notified := notified } (.back guard) := by
  have haway : (Stage.back guard : Stage σ).mutexPlace = .away ∧ (Stage.back guard : Stage σ).condPlace = .away := by
    cases guard <;> exact ⟨rfl, rfl⟩
  refine ⟨?_, fun j _ => { Frame.refl w.shared j with heard := fun hpos hw => ?_ }, ?_, ?_, h.bound, fun b hb => ?_⟩
  · have huid := ht.uid
    have howner := ht.owner
    rw [hguard] at huid
    rw [hholds] at howner
    cases guard <;> exact { uid := huid, owner := howner }
  · rcases hheard with hsame | hnobody
    · exact ⟨hwaiting _ hw, hsame⟩
    · exact absurd hw (hnobody hpos j)
  · rw [haway.1, ← hplaces.1]
    exact Lazy.Moves.refl _ _
  · rw [haway.2, ← hplaces.2]
    exact Lazy.Moves.refl _ _
  · exact (hnotified b hb).elim (h.notified b) (ht.begun b)

theorem SyncInv.bound_of_filled (h : SyncInv w) {c : Int} (hpos : 0 < w.shared.cond.sce) (hc : c = w.shared.cond.sce) :
    w.shared.bound c = w.shared.mutex.sce := by
  obtain ⟨slot, hslot, hinv⟩ := h.cond
  obtain rfl := hslot.eq_filled hpos
  exact (h.bound c (by rw [hinv.filled _ rfl, hc]; exact mem_singleton_self _)).2

theorem SyncInv.initsMutex (h : SyncInv w) {tryLock : Bool} {i : Init}
    (hid : w.tasks[id]? = some (.mutexInit tryLock i)) (rc : Int) :
    Moved w.shared id (.mutexInit tryLock i) (resume id w.shared (.mutexInit tryLock i) (.go rc 0)).1
      (resume id w.shared (.mutexInit tryLock i) (.go rc 0)).2 := by
  have ht := h.thread id _ hid
  obtain ⟨slot, hslot, hinv⟩ := h.mutex
  obtain ⟨hmoves, hgot⟩ := Init.access_moves w.shared.mutex rc i
  have hkept := hmoves.filled hslot (hinv.claims hid)
  simp only [resume]
  generalize i.access w.shared.mutex rc = r at hmoves hgot hkept ⊢
  obtain ⟨mutex, next⟩ := r
  refine ⟨?_, fun j _ => { Frame.refl w.shared j with mutex := hkept }, ?_, ?_, fun c hc => ?_, h.notified⟩
  · cases next with
    | again i | panicked => exact { owner := ht.owner }
    | got uid =>
      refine { uid := fun u hu => ?_, owner := ht.owner }
      cases hu
      exact ⟨(hgot uid rfl).1, (hgot uid rfl).2.symm⟩
  · cases next <;> exact hmoves
  · cases next <;> exact Lazy.Moves.refl _ _
  · obtain ⟨hpos, hbound⟩ := h.bound c hc
    rw [hkept hpos]
    exact ⟨hpos, hbound⟩

theorem SyncInv.initsCond (h : SyncInv w) {pred : σ → Bool} {tested : Nat} {i : Init}
    (hid : w.tasks[id]? = some (.condInit uid pred tested i)) (rc : Int) :
    Moved w.shared id (.condInit uid pred tested i) (resume id w.shared (.condInit uid pred tested i) (.go rc 0)).1
      (resume id w.shared (.condInit uid pred tested i) (.go rc 0)).2 := by
  have ht := h.thread id _ hid
  obtain ⟨slot, hslot, hinv⟩ := h.cond
  obtain ⟨hmoves, hgot⟩ := Init.access_moves w.shared.cond rc i
  have hkept := hmoves.filled hslot (hinv.claims hid)
  have hcreated : ∀ c, c ∈ (i.access w.shared.cond rc).1.created → c ∈ w.shared.cond.created ∨ i = .create ∧ c = rc :=
    fun _ => Init.mem_created
  simp only [resume]
  generalize i.access w.shared.cond rc = r at hmoves hgot hkept hcreated ⊢
  obtain ⟨cond, next⟩ := r
  refine ⟨?_, fun j _ => { Frame.refl w.shared j with cond := hkept }, ?_, ?_, fun c hc => ?_, h.notified⟩
  · cases next with
    | again i => exact { uid := ht.uid, owner := ht.owner, tested := ht.tested }
    | panicked => exact { uid := ht.uid, owner := ht.owner }
    | got c =>
      refine { uid := ht.uid, owner := ht.owner, cond := fun c' hc' => ?_, tested := ht.tested }
      cases hc'
      exact ⟨(hgot c rfl).1, (hgot c rfl).2.symm⟩
  · cases next <;> exact Lazy.Moves.refl _ _
  · cases next <;> exact hmoves
  · obtain ⟨hpos, hmutex⟩ := ht.uid uid rfl
    refine ⟨hmutex ▸ hpos, ?_⟩
    -- a new condition variable is bound to the mutex of the guard, and an old one is as before
    change (if i = .create then update w.shared.bound rc uid else w.shared.bound) c = w.shared.mutex.sce
    by_cases hnew : i = .create ∧ c = rc
    · rw [if_pos hnew.1, hnew.2, update_self, hmutex]
    · have hold := (h.bound c ((hcreated c hc).resolve_right hnew)).2
      split
      next hcreate =>
        rwa [update_of_ne (fun hc => hnew ⟨hcreate, hc⟩)]
      · exact hold

theorem SyncInv.resumes (h : SyncInv w) (hid : w.tasks[id]? = some t) (m : Move σ) :
    Moved w.shared id t (resume id w.shared t m).1 (resume id w.shared t m).2 := by
  have ht := h.thread id t hid
  have hstay : Moved w.shared id t w.shared t :=
    ⟨ht, fun j _ => Frame.refl _ j, Lazy.Moves.refl _ _, Lazy.Moves.refl _ _, h.bound, h.notified⟩
  have hbegun : ∀ {n b : Nat}, b ∈ w.shared.notified ++ [n] → b ∈ w.shared.notified ∨ b ∈ some n := fun hb =>
    (mem_append.1 hb).imp_right fun hb => by cases mem_singleton.1 hb; rfl
  -- a thread that is not asked to do what it can do stays as it is
  cases t <;> cases m <;> try exact hstay
  case idle.lock => exact h.turn ht {}
  case idle.notify => exact h.turn ht { begun := fun n hn => .inr (by cases hn; rfl) }
  case mutexInit.go rc _ => exact h.initsMutex hid rc
  case locking.go tryLock uid _ _ =>
    by_cases hfree : w.shared.owner uid = none
    · simp only [resume, if_pos hfree]
      exact h.locks ht hfree
    · simp only [resume, if_neg hfree]
      cases tryLock with
      | true => exact h.turn ht {}
      | false => exact hstay
  case holding.unlock => exact h.unlocks ht
  case holding.write data => exact h.writes ht data
  case holding.wait =>
    simp only [resume]
    split
    · exact hstay
    · exact h.turn ht { tested := fun n hn => .inr (by cases hn; rfl) }
  case holding.notify => exact h.turn ht { begun := fun n hn => .inr (by cases hn; rfl) }
  case condInit.go rc _ => exact h.initsCond hid rc
  case sleeping.go uid cond pred tested _ _ =>
    simp only [resume]
    split
    next howner =>
      refine h.releases ht ((ht.owner _).1 howner) (.asleep uid cond pred tested) (fun c j hj hw => ?_)
        (fun c n hn => ?_) ⟨rfl, rfl⟩
      · refine (mem_append.1 hw).resolve_right fun hmine => ?_
        cases mem_singleton.1 hmine
        exact hj rfl
      · cases hn
        exact ht.tested tested rfl
    · exact h.turn ht {}
  case asleep.go =>
    simp only [resume]
    split
    · exact hstay
    · exact h.turn ht {}
  case asleep.wake uid cond pred tested =>
    have hframe : ∀ j, Frame w.shared
        { w.shared with waiting := w.shared.waiting.filter (fun p => p ≠ (cond, id)) } j :=
      fun j => { Frame.refl w.shared j with heard := fun _ hw => ⟨mem_of_mem_filter hw, rfl⟩ }
    exact ⟨(ht.frame (hframe id)).turn {}, fun j _ => hframe j, Lazy.Moves.refl _ _, Lazy.Moves.refl _ _, h.bound,
      h.notified⟩
  case relocking.go uid cond _ _ =>
    have hbound : w.shared.bound cond = uid := by
      obtain ⟨hpos, hcond⟩ := ht.cond cond rfl
      rw [h.bound_of_filled (hcond ▸ hpos) hcond, (ht.uid uid rfl).2]
    simp only [resume, hbound]
    split
    · exact h.locks ht ‹_›
    · exact hstay
  case unwinding.go => exact h.unlocks ht
  case notifying.go all _ _ _ =>
    simp only [resume]
    split
    next hpos =>
      refine h.turn ht { cond := fun c hc => .inr ?_, begun := fun _ hn => .inl hn }
      cases hc
      exact ⟨hpos, rfl⟩
    next hnone =>
      cases all with
      | true => exact h.notifies ht (fun _ hp => hp) (fun _ => hbegun) (.inr fun hpos => absurd hpos hnone)
      | false => exact h.notifies ht (fun _ hp => hp)
  case signalling.go all _ cond _ _ =>
    have hcond := (ht.cond cond rfl).2
    simp only [resume, Shared.signal]
    cases all with
    | true =>
      refine h.notifies ht (fun _ hp => mem_of_mem_filter hp) (fun _ => hbegun) (.inr fun _ j hj => ?_)
      simp [hcond] at hj
    | false =>
      simp only [Bool.false_eq_true, if_false]
      split
      · exact h.notifies ht (fun _ hp => mem_of_mem_erase hp)
      · exact h.notifies ht (fun _ hp => mem_of_mem_eraseP hp)

end

theorem syncInv_step (w : SyncWorld σ) (e : SyncEvent σ) (h : SyncInv w) : SyncInv (syncStep w e) := by
  unfold syncStep
  rcases w.step_cases (syncThreads σ) e with ⟨d, hd⟩ | ⟨_, -, hr⟩ | ⟨id, t, m, -, hid, hr⟩
  · rw [hd]
    exact ⟨h.thread, h.owners, h.mutex, h.cond, h.bound, h.notified⟩
  · rw [hr]
    have hnew : Local w.shared w.tasks.length (.idle : Stage σ) := by
      refine { owner := fun u => ⟨fun howner => ?_, nofun⟩ }
      exact absurd (h.owners u _ howner) (Nat.lt_irrefl _)
    refine ⟨fun j u hj => ?_, fun u j hj => ?_, ?_, ?_, h.bound, h.notified⟩
    · change (w.tasks ++ [Stage.idle])[j]? = some u at hj
      rw [List.getElem?_append] at hj
      split at hj
      · exact h.thread j u hj
      next hge =>
        obtain ⟨hzero, hu⟩ := List.getElem?_eq_some_iff.1 hj
        simp only [List.length_singleton, Nat.lt_one_iff] at hzero
        obtain rfl : j = w.tasks.length := by omega
        simp only [hzero, List.getElem_cons_zero] at hu
        rwa [← hu]
    · exact Nat.lt_of_lt_of_le (h.owners u j hj) (by simp [syncThreads])
    · change ∃ slot, Holds w.shared.mutex.sce slot ∧ slot.Inv _ (places Stage.mutexPlace (w.tasks ++ [Stage.idle]))
      rw [places_append _ rfl]
      exact h.mutex
    · change ∃ slot, Holds w.shared.cond.sce slot ∧ slot.Inv _ (places Stage.condPlace (w.tasks ++ [Stage.idle]))
      rw [places_append _ rfl]
      exact h.cond
  · rw [hr]
    exact h.moved hid (h.resumes hid m) _

theorem syncInv_run (data : σ) (es : List (SyncEvent σ)) : SyncInv (run syncStep (SyncWorld.new data) es) :=
  run_keeps SyncInv syncInv_step es _ ⟨nofun, nofun, ⟨.vacant, .vacant, Slot.inv_vacant⟩,
    ⟨.vacant, .vacant, Slot.inv_vacant⟩, nofun, nofun⟩

/-- A wakeup is lost: a thread is blocked in `wait`, the predicate that it had tested was made true after that, and
a `notify_all` that was issued after that again has completed. -/
def Lost (w : SyncWorld σ) : Prop :=
  ∃ (id : Nat) (uid cond : Int) (pred : σ → Bool) (tested : Nat),
    w.tasks[id]? = some (.asleep uid cond pred tested) ∧ (cond, id) ∈ w.shared.waiting ∧
    ∃ i v begun, tested ≤ i ∧ w.shared.history[i]? = some v ∧ pred v = true ∧ i < begun ∧ begun ∈ w.shared.notified

end

/-- **Lazy kernel objects.**  Over every interleaving of any number of threads, with creations that fail anywhere: at
most one kernel mutex and one kernel condition variable are ever created, every guard is one of that mutex, and no
wakeup is lost. -/
theorem lazy_kernel_objects {σ : Type} (data : σ) (es : List (SyncEvent σ)) :
    let w : SyncWorld σ := run syncStep (SyncWorld.new data) es
    w.shared.mutex.created.length ≤ 1 ∧ w.shared.cond.created.length ≤ 1 ∧
    (∀ (id : Nat) (t : Stage σ) (uid : Int), w.tasks[id]? = some t → t.uid = some uid →
      w.shared.mutex.created = [uid]) ∧
    ¬ Lost w := by
  intro w
  have h : SyncInv w := syncInv_run data es
  obtain ⟨slot, hslot, hinv⟩ := h.mutex
  obtain ⟨_, _, hinv'⟩ := h.cond
  refine ⟨hinv.once, hinv'.once, fun id t uid hid huid => ?_, ?_⟩
  · obtain ⟨hpos, hsce⟩ := (h.thread id t hid).uid uid huid
    rw [← hsce] at hslot
    obtain rfl := hslot.eq_filled hpos
    exact hinv.filled uid rfl
  · rintro ⟨id, uid, cond, pred, tested, hid, hwaiting, i, v, begun, htested, -, -, hbegun, hnotified⟩
    have hle := (h.thread id _ hid).heard cond tested rfl hwaiting begun hnotified
    omega

/-- **Mutual exclusion.**  Over every interleaving, with creations that fail anywhere, a mutex that `wait` gives up and
takes back, and panics that unwind through a guard: at most one thread has its guard, and the kernel says so. -/
theorem guard_exclusive {σ : Type} (data : σ) (es : List (SyncEvent σ)) :
    let w : SyncWorld σ := run syncStep (SyncWorld.new data) es
    ∃ holder : Option Nat, w.shared.owner w.shared.mutex.sce = holder ∧
      ∀ (id : Nat) (t : Stage σ), w.tasks[id]? = some t → (t.holds.isSome ↔ holder = some id) := by
  intro w
  have h : SyncInv w := syncInv_run data es
  refine ⟨_, rfl, fun id t hid => ⟨fun hholds => ?_, fun howner => ?_⟩⟩
  · obtain ⟨uid, hholds⟩ := Option.isSome_iff_exists.1 hholds
    have huid : uid ∈ t.uid := by
      cases t <;> first | exact hholds | cases hholds
    rw [← ((h.thread id t hid).uid uid huid).2]
    exact ((h.thread id t hid).owner uid).2 hholds
  · rw [((h.thread id t hid).owner _).1 howner]
    rfl

end TailscaleVita.Sync

import Mathlib.Data.List.MinMax
import TailscaleVita.DerpFrame
import TailscaleVita.HashMap
import TailscaleVita.Threads
/-!
# DerpMux — the pool of relay connections (`ts-derp/src/mux.rs`, `conn.rs`)

One connection for each region, at most `cap` of them, dialled when a region is first needed. `ensure_region` takes the
lock three times: to look, to make room, and, after a dial, to register what it dialled. Other calls come in between,
and the I/O thread of a connection may end at any time.
-/
namespace TailscaleVita.Derp

open List

abbrev RegionId := BitVec 16

abbrev NodeKeyBytes := BitVec 256

abbrev ConnId := Nat

inductive DerpTx where
  | sendPacket (dstPubkey : NodeKeyBytes) (wgBytes : Bytes)
  | notePreferred (home : Bool)
  | pong (payload : Bytes)
deriving DecidableEq

inductive IoThread where
  | running
  | closed
  | finished
deriving DecidableEq

structure DerpConn where
  region : RegionId
  lastUsed : Nat
  isHome : Bool
  queued : List DerpTx
  thread : IoThread := .running
deriving DecidableEq

def DerpConn.isAlive (c : DerpConn) : Bool := decide (c.thread ≠ .finished)

abbrev DerpNodeAddr := Nat

structure DerpMux where
  conns : HashMap RegionId ConnId := ∅
  derpMap : HashMap RegionId (List DerpNodeAddr) := ∅
  home : RegionId := 0
  cap : Nat
  made : List DerpConn := []

inductive Caller where
  | ensureRegion
  | send (msg : DerpTx)
  | setHome (prev : RegionId)
deriving DecidableEq

inductive MuxTask where
  | checking (region : RegionId) (isHome : Bool) (caller : Caller)
  | lookingUp (region : RegionId) (isHome : Bool) (caller : Caller)
  | makingRoom (region : RegionId) (isHome : Bool) (nodes : List DerpNodeAddr) (caller : Caller)
  | dialing (region : RegionId) (isHome : Bool) (nodes : List DerpNodeAddr) (caller : Caller)
  | inserting (region : RegionId) (conn : ConnId) (caller : Caller)
  | sending (region : RegionId) (conn : ConnId) (msg : DerpTx)
  | dropping (region : RegionId) (conn : ConnId) (e : DerpError)
  | unmarking (prev : RegionId)
  | returned (result : Except DerpError (Option ConnId))
deriving DecidableEq

inductive MuxObserved where
  | dropped (region : RegionId) (used : ConnId) (removed : Option ConnId)
deriving DecidableEq

inductive MuxRequest where
  | ensureRegion (region : RegionId) (isHome : Bool)
  | send (region : RegionId) (dstPubkey : NodeKeyBytes) (wgBytes : Bytes)
  | setHome (region : RegionId)
  | setDerpMap (map : HashMap RegionId (List DerpNodeAddr))
  | shutdown
  | ioActive (conn : ConnId)
  | ioClosed (conn : ConnId)
  | ioFinished (conn : ConnId)

/-- What a section meets: the order of the hash map, what each node of a region answers to a dial, and whether a thread
can be started. -/
structure MuxMet where
  ord : HashOrder RegionId
  dial : DerpNodeAddr → Except DerpError Unit := fun _ => .ok ()
  spawn : Except DerpError Unit := .ok ()

def defaultMaxConns : Nat := 8

namespace DerpMux

def new (cap : Nat) : DerpMux := { cap := if cap = 0 then defaultMaxConns else cap }

def modifyConn (s : DerpMux) (conn : ConnId) (f : DerpConn → DerpConn) : DerpMux :=
  { s with made := s.made.modify conn f }

def isAlive (s : DerpMux) (conn : ConnId) : Bool := (s.made[conn]?).any DerpConn.isAlive

def lastUsed (s : DerpMux) (region : RegionId) : Nat :=
  ((s.conns.lookup region).bind (fun conn => s.made[conn]?)).elim 0 DerpConn.lastUsed

def connSend (s : DerpMux) (conn : ConnId) (msg : DerpTx) : Except DerpError Unit × DerpMux :=
  match s.made[conn]? with
  | some c =>
    if c.thread = .running then (.ok (), s.modifyConn conn (fun c => { c with queued := c.queued ++ [msg] }))
    else (.error (.connDied ("region " ++ toString c.region.toNat ++ " thread closed")), s)
  | none => (.error (.connDied "no connection"), s)

def connSetHome (s : DerpMux) (conn : ConnId) (home : Bool) : Except DerpError Unit × DerpMux :=
  (s.modifyConn conn (fun c => { c with isHome := home })).connSend conn (.notePreferred home)

def reap (ord : HashOrder RegionId) (s : DerpMux) : DerpMux :=
  { s with conns := ord.retain (fun _ conn => s.isAlive conn) s.conns }

def evictTarget (ord : HashOrder RegionId) (s : DerpMux) : Option RegionId :=
  ((ord.order s.conns.keys).filter (fun r => decide (r ≠ s.home))).argmin s.lastUsed

def makeRoom (ord : HashOrder RegionId) (s : DerpMux) : Except DerpError Unit × DerpMux :=
  let s := s.reap ord
  if s.cap ≤ s.conns.keys.card then
    match s.evictTarget ord with
    | some r => (.ok (), { s with conns := s.conns.erase r })
    | none => (.error (.capExceededHome s.cap s.home), s)
  else (.ok (), s)

def dialNodes (region : RegionId) (dial : DerpNodeAddr → Except DerpError Unit) :
    List DerpNodeAddr → Except DerpError Unit
  | [] => .error (.unknownRegion region)
  | [node] => dial node
  | node :: nodes =>
    match dial node with
    | .ok () => .ok ()
    | .error _ => dialNodes region dial nodes

def spawnIo (now : Nat) (region : RegionId) (isHome : Bool) (s : DerpMux) : DerpMux :=
  { s with made := s.made ++ [{ region, lastUsed := now, isHome,
                                queued := if isHome then [.notePreferred true] else [] }] }

def unmark (prev : RegionId) (s : DerpMux) : DerpMux :=
  match s.conns.lookup prev with
  | some conn => (s.connSetHome conn false).2
  | none => s

end DerpMux

def Caller.ensured (region : RegionId) (conn : ConnId) : Caller → MuxTask
  | .ensureRegion => .returned (.ok (some conn))
  | .send msg => .sending region conn msg
  | .setHome prev => if prev = 0 then .returned (.ok none) else .unmarking prev

open DerpMux

def muxCall (now : Nat) (s : DerpMux) : MuxRequest → DerpMux × Option MuxTask × List MuxObserved
  | .ensureRegion region isHome => (s, some (.checking region isHome .ensureRegion), [])
  | .send region dstPubkey wgBytes =>
    (s, some (.checking region (decide (region = s.home)) (.send (.sendPacket dstPubkey wgBytes))), [])
  | .setHome region =>
    if s.home = region then (s, none, [])
    else ({ s with home := region }, some (.checking region true (.setHome s.home)), [])
  | .setDerpMap map => ({ s with derpMap := map }, none, [])
  | .shutdown => ({ s with conns := ∅ }, none, [])
  | .ioActive conn => (s.modifyConn conn (fun c => { c with lastUsed := now }), none, [])
  | .ioClosed conn =>
    (s.modifyConn conn (fun c => if c.thread = .running then { c with thread := .closed } else c), none, [])
  | .ioFinished conn => (s.modifyConn conn (fun c => { c with thread := .finished }), none, [])

def muxResume (now : Nat) (s : DerpMux) (met : MuxMet) : MuxTask → DerpMux × MuxTask × List MuxObserved
  | .checking region isHome caller =>
    match (s.conns.lookup region).filter s.isAlive with
    | some conn => (s, caller.ensured region conn, [])
    | none => (s, .lookingUp region isHome caller, [])
  | .lookingUp region isHome caller =>
    match s.derpMap.lookup region with
    | none => (s, .returned (.error (.unknownRegion region)), [])
    | some nodes => (s, .makingRoom region isHome nodes caller, [])
  | .makingRoom region isHome nodes caller =>
    match s.makeRoom met.ord with
    | (.error e, s) => (s, .returned (.error e), [])
    | (.ok (), s) => (s, .dialing region isHome nodes caller, [])
  | .dialing region isHome nodes caller =>
    match (do dialNodes region met.dial nodes; met.spawn) with
    | .error e => (s, .returned (.error e), [])
    | .ok () => (s.spawnIo now region isHome, .inserting region s.made.length caller, [])
  | .inserting region conn caller =>
    ({ s with conns := s.conns.insert region conn }, caller.ensured region conn, [])
  | .sending region conn msg =>
    match s.connSend conn msg with
    | (.ok (), s) => (s, .returned (.ok none), [])
    | (.error e, s) => (s, .dropping region conn e, [])
  | .dropping region conn e =>
    ({ s with conns := s.conns.erase region }, .returned (.error e), [.dropped region conn (s.conns.lookup region)])
  | .unmarking prev => (s.unmark prev, .returned (.ok none), [])
  | .returned result => (s, .returned result, [])

def muxThreads : Threads DerpMux MuxTask MuxObserved MuxRequest MuxMet where
  call := muxCall
  resume now _ s t met := muxResume now s met t

abbrev MuxWorld := World DerpMux MuxTask MuxObserved

abbrev MuxEvent := WorldEvent MuxRequest MuxMet

def muxStep (w : MuxWorld) (e : MuxEvent) : MuxWorld := w.step muxThreads e

def MuxWorld.new (cap : Nat) : MuxWorld := { shared := DerpMux.new cap }

/-! ## What a section leaves alone -/

namespace DerpMux

@[simp] theorem connSend_conns (s : DerpMux) (conn : ConnId) (msg : DerpTx) :
    (s.connSend conn msg).2.conns = s.conns := by
  unfold connSend
  repeat' split
  all_goals rfl

@[simp] theorem connSend_cap (s : DerpMux) (conn : ConnId) (msg : DerpTx) : (s.connSend conn msg).2.cap = s.cap := by
  unfold connSend
  repeat' split
  all_goals rfl

@[simp] theorem unmark_conns (s : DerpMux) (prev : RegionId) : (s.unmark prev).conns = s.conns := by
  unfold unmark
  split
  · exact connSend_conns _ _ _
  · rfl

@[simp] theorem unmark_cap (s : DerpMux) (prev : RegionId) : (s.unmark prev).cap = s.cap := by
  unfold unmark
  split
  · exact connSend_cap _ _ _
  · rfl

variable (ord : HashOrder RegionId)

theorem makeRoom_spec (s : DerpMux) :
    (s.makeRoom ord).2 = s.reap ord ∨
    ∃ r, r ≠ s.home ∧ (s.makeRoom ord).2 = { s.reap ord with conns := (s.reap ord).conns.erase r } := by
  unfold makeRoom
  simp only
  split
  · split
    next r hr =>
      have hmem := argmin_mem hr
      rw [mem_filter, decide_eq_true_eq] at hmem
      exact .inr ⟨r, hmem.2, rfl⟩
    · exact .inl rfl
  · exact .inl rfl

theorem card_makeRoom_le (s : DerpMux) :
    (s.makeRoom ord).2.conns.keys.card ≤ s.conns.keys.card := by
  have hreap : (s.reap ord).conns.keys.card ≤ s.conns.keys.card := ord.card_keys_retain_le _ _
  rcases s.makeRoom_spec ord with h | ⟨r, -, h⟩
  · rwa [h]
  · rw [h]
    exact Nat.le_trans (HashMap.card_keys_erase_le _ r) hreap

theorem lookup_home_makeRoom (s : DerpMux) :
    (s.makeRoom ord).2.conns.lookup s.home = (s.conns.lookup s.home).filter s.isAlive := by
  have hreap : (s.reap ord).conns.lookup s.home = (s.conns.lookup s.home).filter s.isAlive := ord.lookup_retain _ _ _
  rcases s.makeRoom_spec ord with h | ⟨r, hr, h⟩
  · rwa [h]
  · rw [h]
    simp only [HashMap.lookup_erase_eq, if_neg (Ne.symm hr)]
    exact hreap

end DerpMux

inductive PoolDid (s : DerpMux) (t : MuxTask) : DerpMux × MuxTask × List MuxObserved → Prop where
  | registered {r} {region : RegionId} {conn : ConnId} {caller : Caller} (ht : t = .inserting region conn caller)
      (hconns : r.1.conns = s.conns.insert region conn) (hcap : r.1.cap = s.cap) (hlog : r.2.2 = []) : PoolDid s t r
  | dropped {r} {region : RegionId} {conn : ConnId} {e : DerpError} (ht : t = .dropping region conn e)
      (hconns : r.1.conns = s.conns.erase region) (hcap : r.1.cap = s.cap)
      (hlog : r.2.2 = [.dropped region conn (s.conns.lookup region)]) : PoolDid s t r
  | kept {r} (hcard : r.1.conns.keys.card ≤ s.conns.keys.card := by exact Nat.le_refl _)
      (hcap : r.1.cap = s.cap := by rfl) (hlog : r.2.2 = [] := by rfl)
      (hins : ∀ region conn caller, t ≠ .inserting region conn caller := by nofun)
      (hdrop : ∀ region conn e, t ≠ .dropping region conn e := by nofun) : PoolDid s t r

theorem poolDid (now : Nat) (s : DerpMux) (met : MuxMet) (t : MuxTask) : PoolDid s t (muxResume now s met t) := by
  cases t with simp only [muxResume]
  | inserting region conn caller => exact .registered rfl rfl rfl rfl
  | dropping region conn e => exact .dropped rfl rfl rfl rfl
  | makingRoom region isHome nodes caller =>
    have hcard := s.card_makeRoom_le met.ord
    have hcap : (s.makeRoom met.ord).2.cap = s.cap := by
      rcases s.makeRoom_spec met.ord with h | ⟨r, -, h⟩ <;> rw [h] <;> rfl
    generalize s.makeRoom met.ord = r at hcard hcap ⊢
    obtain ⟨e | ⟨⟩, s'⟩ := r <;> exact .kept hcard hcap
  | checking | lookingUp | dialing => split <;> exact .kept
  | sending region conn msg =>
    have hconns := s.connSend_conns conn msg
    have hcap := s.connSend_cap conn msg
    generalize s.connSend conn msg = r at hconns hcap ⊢
    obtain ⟨e | ⟨⟩, s'⟩ := r <;> exact .kept (Nat.le_of_eq (by rw [hconns])) hcap
  | unmarking prev => exact .kept (Nat.le_of_eq (by rw [unmark_conns])) (s.unmark_cap prev)
  | returned result => exact .kept

theorem called_pool (now : Nat) (s : DerpMux) (q : MuxRequest) :
    (muxCall now s q).1.conns.keys.card ≤ s.conns.keys.card ∧
    (muxCall now s q).1.cap = s.cap ∧ (muxCall now s q).2.2 = [] := by
  cases q with
  | setHome region =>
    simp only [muxCall]
    split <;> exact ⟨Nat.le_refl _, rfl, rfl⟩
  | shutdown => exact ⟨Nat.zero_le _, rfl, rfl⟩
  | ensureRegion | send | setDerpMap | ioActive | ioClosed | ioFinished => exact ⟨Nat.le_refl _, rfl, rfl⟩

variable {s : DerpMux} {t : MuxTask} {now : Nat}

theorem dropping_of_log {met : MuxMet} {region : RegionId} {used : ConnId} {removed : Option ConnId}
    (h : .dropped region used removed ∈ (muxResume now s met t).2.2) :
    ∃ e, t = .dropping region used e := by
  have hdid := poolDid now s met t
  cases hdid with
  | registered _ _ _ hnil | kept _ _ hnil =>
    rw [hnil] at h
    cases h
  | @dropped region' conn e ht _ _ hnew =>
    rw [hnew] at h
    cases mem_singleton.1 h
    exact ⟨e, ht⟩

/-! ## The bound, and whose entry is dropped -/

/-- What the pool should keep: at most `cap` connections, and a failed `send` has taken out none but its own. -/
def Kept (w : MuxWorld) : Prop :=
  w.shared.conns.keys.card ≤ w.shared.cap ∧
  ∀ region used removed, .dropped region used removed ∈ w.log → removed = none ∨ removed = some used

def MuxTask.Fits (s : DerpMux) : MuxTask → Prop
  | .inserting region _ _ => (s.conns.lookup region).isSome ∨ s.conns.keys.card < s.cap
  | .dropping region used _ => s.conns.lookup region = none ∨ s.conns.lookup region = some used
  | _ => True

def Admits (w : MuxWorld) : MuxEvent → Prop
  | .resume id _ => ∀ t ∈ w.tasks[id]?, t.Fits w.shared
  | _ => True

instance (s : DerpMux) : (t : MuxTask) → Decidable (t.Fits s)
  | .inserting region _ _ => inferInstanceAs (Decidable ((s.conns.lookup region).isSome ∨ s.conns.keys.card < s.cap))
  | .dropping region used _ =>
    inferInstanceAs (Decidable (s.conns.lookup region = none ∨ s.conns.lookup region = some used))
  | .checking .. | .lookingUp .. | .makingRoom .. | .dialing .. | .sending .. | .unmarking .. | .returned .. =>
    isTrue trivial

instance (w : MuxWorld) : (e : MuxEvent) → Decidable (Admits w e)
  | .resume id _ => inferInstanceAs (Decidable (∀ t ∈ w.tasks[id]?, t.Fits w.shared))
  | .wait _ | .call _ => isTrue trivial

theorem fits_iff {r : DerpMux × MuxTask × List MuxObserved} (h : PoolDid s t r) {log : List MuxObserved}
    (hcard : s.conns.keys.card ≤ s.cap)
    (hlog : ∀ region used removed, .dropped region used removed ∈ log → removed = none ∨ removed = some used) :
    (r.1.conns.keys.card ≤ r.1.cap ∧ ∀ region used removed, .dropped region used removed ∈ log ++ r.2.2 →
      removed = none ∨ removed = some used) ↔ t.Fits s := by
  cases h with
  | @registered region conn caller hins hconns hcap hnil =>
    subst hins
    simp only [hconns, hcap, hnil, append_nil, HashMap.card_keys_insert]
    constructor
    · rintro ⟨hle, -⟩
      split at hle
      next hsome => exact .inl hsome
      · exact .inr hle
    · rintro (hsome | hlt)
      · rw [if_pos hsome]
        exact ⟨hcard, hlog⟩
      · refine ⟨?_, hlog⟩
        split
        · exact hcard
        · exact hlt
  | @dropped region conn e hdrop hconns hcap hnew =>
    subst hdrop
    simp only [hconns, hcap, hnew]
    constructor
    · rintro ⟨-, hall⟩
      exact hall region conn _ (mem_append_right _ mem_cons_self)
    · intro hown
      refine ⟨Nat.le_trans (HashMap.card_keys_erase_le _ region) hcard, fun region' used removed hmem => ?_⟩
      rcases mem_append.1 hmem with hmem | hmem
      · exact hlog region' used removed hmem
      · cases mem_singleton.1 hmem
        exact hown
  | kept hle hcap hnil hins hdrop =>
    rw [hcap, hnil, append_nil]
    refine ⟨fun _ => ?_, fun _ => ⟨Nat.le_trans hle hcard, hlog⟩⟩
    cases t with
    | inserting region conn caller => exact absurd rfl (hins region conn caller)
    | dropping region used e => exact absurd rfl (hdrop region used e)
    | _ => trivial

theorem kept_step_iff (w : MuxWorld) (e : MuxEvent) (h : Kept w) : Kept (muxStep w e) ↔ Admits w e := by
  obtain ⟨hcard, hlog⟩ := h
  cases e with
  | wait d => exact ⟨fun _ => trivial, fun _ => ⟨hcard, hlog⟩⟩
  | call q =>
    obtain ⟨hle, hcap, hnil⟩ := called_pool w.clock w.shared q
    refine ⟨fun _ => trivial, fun _ => ⟨?_, ?_⟩⟩
    · exact Nat.le_trans hle (Nat.le_trans hcard (Nat.le_of_eq hcap.symm))
    · intro region used removed hmem
      have hsame : (muxStep w (.call q)).log = w.log := by
        simp [muxStep, World.step, muxThreads, hnil]
      exact hlog region used removed (hsame ▸ hmem)
  | resume id met =>
    cases ht : w.tasks[id]? with
    | none =>
      have hsame : muxStep w (.resume id met) = w := by simp only [muxStep, World.step, ht]
      rw [hsame, Admits, ht]
      exact ⟨fun _ _ h => (by cases h), fun _ => ⟨hcard, hlog⟩⟩
    | some t =>
      have hiff := fits_iff (poolDid w.clock w.shared met t) hcard hlog
      simp only [Kept, Admits, muxStep, World.step, ht, Option.mem_some_iff, forall_eq']
      exact hiff

/-! ## The connection a failed send used -/

def DerpMux.Dead (s : DerpMux) (conn : ConnId) : Prop := ∃ c, s.made[conn]? = some c ∧ c.thread ≠ .running

def DerpMux.regions (s : DerpMux) : List RegionId := s.made.map DerpConn.region

/-- What time does to the connections: there are only more of them, and a dead one stays dead. -/
structure Later (s s' : DerpMux) : Prop where
  regions : s.regions <+: s'.regions
  dead : ∀ conn, s.Dead conn → s'.Dead conn

theorem later_of_made {s s' : DerpMux} (h : s'.made = s.made) : Later s s' :=
  ⟨by rw [regions, regions, h], fun conn hdead => by unfold DerpMux.Dead; rw [h]; exact hdead⟩

theorem map_modifyConn {β : Type} (g : DerpConn → β) (s : DerpMux) (conn : ConnId) {f : DerpConn → DerpConn}
    (hf : ∀ c, g (f c) = g c) : (s.modifyConn conn f).made.map g = s.made.map g := by
  apply ext_getElem?
  intro i
  simp only [modifyConn, getElem?_map, getElem?_modify]
  cases s.made[i]? with
  | none => rfl
  | some c =>
    by_cases hi : conn = i
    · simp [hi, hf]
    · simp [hi]

theorem later_modifyConn (s : DerpMux) (conn : ConnId) {f : DerpConn → DerpConn}
    (hf : ∀ c, c.thread ≠ .running → (f c).thread ≠ .running) (hregion : ∀ c, (f c).region = c.region) :
    Later s (s.modifyConn conn f) := by
  refine ⟨by rw [regions, regions, map_modifyConn _ s conn hregion], fun conn' => ?_⟩
  rintro ⟨c, hc, hdead⟩
  refine ⟨if conn = conn' then f c else c, ?_, ?_⟩
  · simp [modifyConn, getElem?_modify, hc]
  · split
    · exact hf c hdead
    · exact hdead

theorem later_connSend (s : DerpMux) (conn : ConnId) (msg : DerpTx) : Later s (s.connSend conn msg).2 := by
  unfold connSend
  split
  · split
    · exact later_modifyConn s conn (fun _ h => h) (fun _ => rfl)
    · exact later_of_made rfl
  · exact later_of_made rfl

theorem later_unmark (s : DerpMux) (prev : RegionId) : Later s (s.unmark prev) := by
  unfold unmark
  split
  next conn _ =>
    have hmark := later_modifyConn s conn (f := fun c => { c with isHome := false }) (fun _ h => h)
      (fun _ => rfl)
    have hsend := later_connSend (s.modifyConn conn (fun c => { c with isHome := false })) conn (.notePreferred false)
    exact ⟨hmark.regions.trans hsend.regions, fun conn' h => hsend.dead conn' (hmark.dead conn' h)⟩
  · exact later_of_made rfl

theorem later_spawnIo (now : Nat) (region : RegionId) (isHome : Bool) (s : DerpMux) :
    Later s (s.spawnIo now region isHome) := by
  refine ⟨by simp [regions, spawnIo], fun conn => ?_⟩
  rintro ⟨c, hc, hdead⟩
  exact ⟨c, List.getElem?_append_left (List.getElem?_eq_some_iff.1 hc).1 ▸ hc, hdead⟩

theorem made_makeRoom (ord : HashOrder RegionId) (s : DerpMux) : (s.makeRoom ord).2.made = s.made := by
  rcases s.makeRoom_spec ord with h | ⟨r, -, h⟩ <;> rw [h] <;> rfl

theorem later_call (now : Nat) (s : DerpMux) (q : MuxRequest) : Later s (muxCall now s q).1 := by
  cases q with
  | setHome region =>
    simp only [muxCall]
    split <;> exact later_of_made rfl
  | ioActive conn => exact later_modifyConn s conn (fun _ h => h) (fun _ => rfl)
  | ioClosed conn =>
    refine later_modifyConn s conn (fun c h => ?_) (fun c => ?_)
    · rwa [if_neg h]
    · split <;> rfl
  | ioFinished conn => exact later_modifyConn s conn (fun _ _ => by nofun) (fun _ => rfl)
  | ensureRegion | send | setDerpMap | shutdown => exact later_of_made rfl

def Placed (s : DerpMux) : Prop := ∀ region conn, s.conns.lookup region = some conn → s.regions[conn]? = some region

theorem getElem?_of_prefix {α : Type} {l l' : List α} (h : l <+: l') {i : Nat} {a : α} (hi : l[i]? = some a) :
    l'[i]? = some a := by
  obtain ⟨more, rfl⟩ := h
  rw [List.getElem?_append_left (List.getElem?_eq_some_iff.1 hi).1, hi]

theorem Placed.later {s s' : DerpMux} (h : Placed s) (hlater : Later s s')
    (hsub : ∀ region conn, s'.conns.lookup region = some conn → s.conns.lookup region = some conn) : Placed s' :=
  fun region conn hconn => getElem?_of_prefix hlater.regions (h region conn (hsub region conn hconn))

variable {conn : ConnId}

theorem lookup_of_makeRoom {ord : HashOrder RegionId} {region : RegionId}
    (h : (s.makeRoom ord).2.conns.lookup region = some conn) : s.conns.lookup region = some conn := by
  have hreap : ∀ {r conn}, (s.reap ord).conns.lookup r = some conn → s.conns.lookup r = some conn := fun h =>
    (Option.filter_eq_some_iff.1 ((ord.lookup_retain _ _ _).symm.trans h)).1
  rcases s.makeRoom_spec ord with hroom | ⟨r, -, hroom⟩
  · rw [hroom] at h
    exact hreap h
  · rw [hroom, HashMap.lookup_erase_eq] at h
    split at h
    · cases h
    · exact hreap h

def MuxTask.Holds (s : DerpMux) : MuxTask → Prop
  | .inserting region conn _ | .sending region conn _ => s.regions[conn]? = some region
  | .dropping _ conn _ => s.Dead conn
  | _ => True

theorem MuxTask.Holds.later {s s' : DerpMux} (h : Later s s') : ∀ {t : MuxTask}, t.Holds s → t.Holds s'
  | .inserting .., ht | .sending .., ht => getElem?_of_prefix h.regions ht
  | .dropping _ conn _, ht => h.dead conn ht
  | .checking .., _ | .lookingUp .., _ | .makingRoom .., _ | .dialing .., _ | .unmarking .., _ | .returned .., _ =>
    trivial

variable {region : RegionId}

theorem holds_ensured (h : s.regions[conn]? = some region) (caller : Caller) :
    (caller.ensured region conn).Holds s := by
  cases caller with
  | ensureRegion => trivial
  | send msg => exact h
  | setHome prev =>
    simp only [Caller.ensured]
    split <;> trivial

theorem dead_of_connSend (h : s.regions[conn]? = some region) {msg : DerpTx} {e : DerpError}
    {s' : DerpMux} (hsend : s.connSend conn msg = (.error e, s')) : s'.Dead conn := by
  rw [regions, getElem?_map, Option.map_eq_some_iff] at h
  obtain ⟨c, hc, -⟩ := h
  simp only [connSend, hc] at hsend
  split at hsend
  · cases hsend
  next hdead =>
    cases hsend
    exact ⟨c, hc, hdead⟩

theorem resume_holds (now : Nat) (met : MuxMet) (hs : Placed s) (ht : t.Holds s) :
    Later s (muxResume now s met t).1 ∧ Placed (muxResume now s met t).1 ∧
    (muxResume now s met t).2.1.Holds (muxResume now s met t).1 := by
  cases t with
  | checking region isHome caller =>
    simp only [muxResume]
    split
    next conn hconn =>
      exact ⟨later_of_made rfl, hs, holds_ensured (hs region conn (Option.filter_eq_some_iff.1 hconn).1) caller⟩
    · exact ⟨later_of_made rfl, hs, trivial⟩
  | lookingUp region isHome caller =>
    simp only [muxResume]
    split <;> exact ⟨later_of_made rfl, hs, trivial⟩
  | makingRoom region isHome nodes caller =>
    have hlater := later_of_made (made_makeRoom met.ord s)
    have hs' := hs.later hlater (fun _ _ => lookup_of_makeRoom)
    simp only [muxResume]
    generalize s.makeRoom met.ord = r at hlater hs' ⊢
    obtain ⟨e | ⟨⟩, s'⟩ := r <;> exact ⟨hlater, hs', trivial⟩
  | dialing region isHome nodes caller =>
    simp only [muxResume]
    split
    · exact ⟨later_of_made rfl, hs, trivial⟩
    · have hlater := later_spawnIo now region isHome s
      refine ⟨hlater, hs.later hlater (fun _ _ h => h), ?_⟩
      simp [MuxTask.Holds, regions, spawnIo]
  | inserting region conn caller =>
    refine ⟨later_of_made rfl, fun r conn' hconn => ?_, holds_ensured ht caller⟩
    simp only [muxResume, HashMap.lookup_insert_eq] at hconn
    split at hconn
    next hr =>
      cases hconn
      exact hr ▸ ht
    · exact hs r conn' hconn
  | sending region conn msg =>
    have hlater := later_connSend s conn msg
    have hconns := s.connSend_conns conn msg
    simp only [muxResume]
    cases hsend : s.connSend conn msg with
    | mk result s' =>
      rw [hsend] at hlater hconns
      have hs' : Placed s' := hs.later hlater (fun _ _ h => by rw [← hconns]; exact h)
      cases result with
      | ok u => exact ⟨hlater, hs', trivial⟩
      | error e => exact ⟨hlater, hs', dead_of_connSend ht hsend⟩
  | dropping region conn e =>
    refine ⟨later_of_made rfl, hs.later (later_of_made rfl) (fun r conn' hconn => ?_), trivial⟩
    simp only [muxResume, HashMap.lookup_erase_eq] at hconn
    split at hconn
    · cases hconn
    · exact hconn
  | unmarking prev =>
    have hlater := later_unmark s prev
    exact ⟨hlater, hs.later hlater (fun _ _ h => by rw [← unmark_conns s prev]; exact h), trivial⟩
  | returned result => exact ⟨later_of_made rfl, hs, trivial⟩

theorem placed_call (h : Placed s) (q : MuxRequest) : Placed (muxCall now s q).1 := by
  refine h.later (later_call now s q) (fun region conn hconn => ?_)
  cases q with
  | setHome r =>
    simp only [muxCall] at hconn
    split at hconn <;> exact hconn
  | shutdown => cases hconn
  | ensureRegion | send | setDerpMap | ioActive | ioClosed | ioFinished => exact hconn

theorem holds_call {q : MuxRequest} (ht : (muxCall now s q).2.1 = some t) (s' : DerpMux) : t.Holds s' := by
  cases q with
  | setHome r =>
    simp only [muxCall] at ht
    split at ht <;> cases ht
    trivial
  | ensureRegion | send =>
    cases ht
    trivial
  | setDerpMap | shutdown | ioActive | ioClosed | ioFinished => cases ht

structure MuxInv (w : MuxWorld) : Prop where
  placed : Placed w.shared
  tasks : ∀ t ∈ w.tasks, t.Holds w.shared
  dropped : ∀ region used removed, .dropped region used removed ∈ w.log → w.shared.Dead used

theorem muxInv_step (w : MuxWorld) (e : MuxEvent) (h : MuxInv w) : MuxInv (muxStep w e) := by
  unfold muxStep
  rcases w.step_cases muxThreads e with ⟨d, hd⟩ | ⟨q, -, hq⟩ | ⟨id, t, met, -, hid, hr⟩
  · rw [hd]
    exact ⟨h.placed, h.tasks, h.dropped⟩
  · rw [hq]
    have hlater := later_call w.clock w.shared q
    have hnil := (called_pool w.clock w.shared q).2.2
    refine ⟨placed_call h.placed q, fun t ht => ?_, fun region used removed hmem => ?_⟩
    · rcases mem_append.1 ht with ht | ht
      · exact (h.tasks t ht).later hlater
      · exact holds_call (Option.mem_toList.1 ht) _
    · rw [show (muxThreads.call w.clock w.shared q).2.2 = [] from hnil, append_nil] at hmem
      exact hlater.dead used (h.dropped region used removed hmem)
  · rw [hr]
    have ht := h.tasks t (mem_of_getElem? hid)
    obtain ⟨hlater, hs, hholds⟩ := resume_holds w.clock met h.placed ht
    refine ⟨hs, fun t' ht' => ?_, fun region used removed hmem => ?_⟩
    · rcases mem_or_eq_of_mem_set ht' with ht' | rfl
      · exact (h.tasks t' ht').later hlater
      · exact hholds
    · rcases mem_append.1 hmem with hmem | hmem
      · exact hlater.dead used (h.dropped region used removed hmem)
      · obtain ⟨e, rfl⟩ := dropping_of_log hmem
        exact hlater.dead used ht

theorem muxInv_run (cap : Nat) (es : List MuxEvent) : MuxInv (run muxStep (MuxWorld.new cap) es) :=
  run_keeps MuxInv muxInv_step es _ ⟨nofun, nofun, nofun⟩

/-- **When the pool keeps its bound and its entries**: over every interleaving of any number of calls, the pool holds
at most `cap` connections and failed sends take out none but their own, if and only if every registration finds the
region registered or room in the pool, and every drop finds the connection that was used, or none. Making room never
takes the live connection of the home, and a failed send has always used a dead one. -/
theorem derp_pool_kept_iff (cap : Nat) (es : List MuxEvent) :
    ((∀ es₁, es₁ <+: es → Kept (run muxStep (MuxWorld.new cap) es₁)) ↔ Along muxStep Admits (MuxWorld.new cap) es) ∧
    (∀ id met region isHome nodes caller,
      (run muxStep (MuxWorld.new cap) es).tasks[id]? = some (.makingRoom region isHome nodes caller) →
        let w := run muxStep (MuxWorld.new cap) es
        (muxStep w (.resume id met)).shared.conns.lookup w.shared.home =
          (w.shared.conns.lookup w.shared.home).filter w.shared.isAlive) ∧
    ∀ region used removed, .dropped region used removed ∈ (run muxStep (MuxWorld.new cap) es).log →
      (run muxStep (MuxWorld.new cap) es).shared.Dead used := by
  have hnew : Kept (MuxWorld.new cap) := ⟨Nat.zero_le _, fun _ _ _ hmem => by cases hmem⟩
  refine ⟨run_always_iff kept_step_iff es _ hnew, ?_, ?_⟩
  · intro id met region isHome nodes caller ht w
    have hhome := w.shared.lookup_home_makeRoom met.ord
    have hstep : (muxStep w (.resume id met)).shared = (w.shared.makeRoom met.ord).2 := by
      simp only [muxStep, World.step, w, ht, muxThreads, muxResume]
      split <;> rename_i heq <;> rw [heq]
    rwa [hstep]
  · exact (muxInv_run cap es).dropped

def reachable : MuxMet := { ord := HashOrder.byRank BitVec.toNat (fun _ _ => BitVec.eq_of_toNat_eq) }

def twoRegions : MuxEvent :=
  let nodes : List (RegionId × List DerpNodeAddr) := [(1, [10]), (2, [20])]
  .call (.setDerpMap (nodes.foldl (fun m p => m.insert p.1 p.2) ∅))

theorem derp_pool_kept_one_by_one :
    let es : List MuxEvent := [twoRegions, .call (.ensureRegion 1 false)] ++ List.replicate 5 (.resume 0 reachable) ++
      [.call (.ensureRegion 2 true)] ++ List.replicate 5 (.resume 1 reachable)
    Along muxStep Admits (MuxWorld.new 1) es ∧ Kept (run muxStep (MuxWorld.new 1) es) ∧
      (run muxStep (MuxWorld.new 1) es).shared.conns.lookup 2 = some 1 := by
  intro es
  have hadmits : Along muxStep Admits (MuxWorld.new 1) es := by decide +kernel
  exact ⟨hadmits, (derp_pool_kept_iff 1 es).1.2 hadmits es (prefix_refl es), by decide +kernel⟩

/-- **Two dials at once pass the cap, and a send drops a connection it never used**: the one that another call has
dialled since. -/
theorem derp_pool_overfilled_and_robbed :
    (run muxStep (MuxWorld.new 1)
      (([twoRegions, .call (.ensureRegion 1 false), .call (.ensureRegion 2 false)] : List MuxEvent) ++
        (List.replicate 4 (.resume 0 reachable) : List MuxEvent) ++
        (List.replicate 4 (.resume 1 reachable) : List MuxEvent) ++
        ([.resume 0 reachable, .resume 1 reachable] : List MuxEvent))).shared.conns.keys.card = 2 ∧
    (let w := run muxStep (MuxWorld.new 8) (([twoRegions, .call (.send 1 7 [9])] : List MuxEvent) ++
      (List.replicate 5 (.resume 0 reachable) : List MuxEvent) ++
      ([.call (.ioClosed 0), .resume 0 reachable, .call (.ioFinished 0), .call (.ensureRegion 1 false)] :
        List MuxEvent) ++
      (List.replicate 5 (.resume 1 reachable) : List MuxEvent) ++ ([.resume 0 reachable] : List MuxEvent))
    w.log = [.dropped 1 0 (some 1)] ∧ w.shared.isAlive 1 = true) := by
  constructor
  · decide +kernel
  · exact ⟨by decide +kernel, by decide +kernel⟩

end TailscaleVita.Derp

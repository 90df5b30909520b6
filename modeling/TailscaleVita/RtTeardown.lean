import TailscaleVita.RtReconnect
import TailscaleVita.RtSignals
/-!
# RtTeardown — the engine's peers and the regions kept for them

`clear_engine_peers` removes from the engine what `peer_regions` lists. The two are changed by two functions that
replay the same delta, so the keys agree after every pass, and a teardown leaves nothing.
-/
namespace TailscaleVita.Rt

open Ctl (NodeKey NetMapSnapshot PeerDelta RekeyedPeer PeerSnapshot ControlError MapClient StateDir)
open Wg (Engine Boringtun EngineEvent)

def regionLog (home : BitVec 16) (d : PeerDelta) : ChangeLog NodeKey (BitVec 16) where
  sets := d.upserted.map (fun p => (p.nodeKey, relayRegion home p))
  dels := d.removed
  moves := d.rekeyed.map (fun r => (r.oldKey, r.snapshot.nodeKey, relayRegion home r.snapshot))

theorem lookup_updatePeerRegions (regions : HashMap NodeKey (BitVec 16)) (snap : NetMapSnapshot) (home : BitVec 16) :
    (updatePeerRegions regions snap home).lookup = (regionLog home snap.delta.toPeerDelta).replay regions.lookup := by
  unfold updatePeerRegions ChangeLog.replay
  rw [lookup_foldl_move_replay, lookup_foldl_erase_replay, lookup_foldl_insert_replay]
  rfl

section

variable {τ : Type} (b : Boringtun τ)

def present {V : Type} (f : NodeKey → Option V) : NodeKey → Option Unit := Option.map (fun _ => ()) ∘ f

theorem keys_eq_iff_present (e : Engine τ) (m : HashMap NodeKey (BitVec 16)) :
    m.keys = e.indices.byPubkey.keys ↔ present m.lookup = present (engineRoutes e) := by
  rw [Finset.ext_iff, funext_iff]
  refine forall_congr' fun k => ?_
  rw [mem_keys_iff_routes, HashMap.mem_keys_iff, ← Option.ne_none_iff_exists']
  unfold present
  simp only [Function.comp_apply]
  cases m.lookup k <;> cases engineRoutes e k <;> simp

theorem keys_push (e : Engine τ) (m : HashMap NodeKey (BitVec 16)) (snap : NetMapSnapshot) (home : BitVec 16)
    (h : m.keys = e.indices.byPubkey.keys) :
    (updatePeerRegions m snap home).keys = (pushDeltaToEngine b e snap home).indices.byPubkey.keys := by
  have hlogs : (regionLog home snap.delta.toPeerDelta).map (fun _ => ()) =
      (deltaLog snap.delta.toPeerDelta).map (fun _ => ()) := by
    unfold regionLog deltaLog ChangeLog.map
    simp only [List.map_map]
    rfl
  rw [keys_eq_iff_present] at h ⊢
  unfold present at h ⊢
  rw [lookup_updatePeerRegions, engineRoutes_pushDelta, ← replay_map, ← replay_map, h, hlogs]

theorem wf_removePeers {e : Engine τ} (h : e.Wf) (ks : List NodeKey) : (ks.foldl (fun e k => e.removePeer k) e).Wf :=
  run_keeps Engine.Wf (fun _ k hwf => Engine.wf_removePeer hwf k) ks e h

theorem wf_pushDelta {e : Engine τ} (h : e.Wf) (snap : NetMapSnapshot) (home : BitVec 16) :
    (pushDeltaToEngine b e snap home).Wf := by
  have hpolicy : (pushPolicy e snap).Wf := by
    unfold pushPolicy
    split
    · split
      · exact ⟨h.coherent, h.next⟩
      · exact h
    · exact h
  exact pushDelta_keeps b Engine.Wf (fun _ cfg hwf => Engine.wf_upsertPeer b hwf cfg)
    (fun _ k hwf => Engine.wf_removePeer hwf k) hpolicy home

inductive NodeEvent where
  | pass (p : Pass)
  | pump (ev : { ev : EngineEvent // ev.isPump = true })

def LoopState.meet (s : LoopState τ) : NodeEvent → LoopState τ
  | .pass p => s.step b p
  | .pump ev => { s with engine := s.engine.step b ev.1 }

structure Paired (s : LoopState τ) : Prop where
  wf : s.engine.Wf
  keys : s.peerRegions.keys = s.engine.indices.byPubkey.keys
  parked : s.wantRunning = false → s.engine.indices = Wg.Indices.new

variable {b}

variable {s : LoopState τ}

theorem Paired.clear (h : Paired s) (ord : HashOrder NodeKey) :
    (s.clearEnginePeers ord).engine.Wf ∧ (s.clearEnginePeers ord).engine.indices = Wg.Indices.new := by
  have hwf : (s.clearEnginePeers ord).engine.Wf := wf_removePeers h.wf _
  refine ⟨hwf, Wg.indices_eq_new hwf (Finset.eq_empty_of_forall_notMem fun k hk => ?_)⟩
  rw [mem_keys_iff_routes, LoopState.clearEnginePeers] at hk
  rw [engineRoutes_removes, replayDels_apply] at hk
  split at hk
  · exact hk rfl
  next hno =>
    rw [ord.mem_order, h.keys, mem_keys_iff_routes] at hno
    exact hno hk

theorem Paired.receive (h : Paired s) (fatal : Bool) (ord : HashOrder NodeKey) (d : Drained) :
    Paired (s.receive fatal ord d) := by
  unfold LoopState.receive
  split
  · exact h
  · split
    · exact ⟨h.wf, h.keys, h.parked⟩
    · split
      · exact h
      · exact ⟨h.wf, h.keys, fun hw => (by cases hw)⟩
    · split
      · obtain ⟨hwf, hnew⟩ := h.clear ord
        refine ⟨hwf, ?_, fun _ => hnew⟩
        rw [hnew]
        rfl
      · exact h
    · exact ⟨h.wf, h.keys, h.parked⟩
    · exact ⟨h.wf, h.keys, h.parked⟩

theorem Paired.drain (h : Paired s) (fatal : Bool) (ord : HashOrder NodeKey) (ds : List Drained) :
    Paired (ds.foldl (LoopState.receive fatal ord) s) :=
  run_keeps Paired (fun _ d hs => hs.receive fatal ord d) ds s h

theorem Paired.logOut (h : Paired s) (p : Pass) : Paired (s.logOut p) := by
  unfold LoopState.logOut
  cases p.logout with
  | failed => exact ⟨h.wf, h.keys, fun hw => (by cases hw)⟩
  | done seqFile handleFile =>
    have hflag : Paired ({ s with logoutRequested := false } : LoopState τ) := ⟨h.wf, h.keys, h.parked⟩
    obtain ⟨hwf, hnew⟩ := hflag.clear p.ord
    refine ⟨hwf, ?_, fun hw => (by cases hw)⟩
    simp only [LoopState.performLogout]
    rw [hnew]
    rfl

theorem Paired.sleep (h : Paired s) (p : Pass) : Paired (s.sleep p) := by
  unfold LoopState.sleep
  split
  · exact ⟨h.wf, h.keys, h.parked⟩
  · exact h

theorem Paired.fail {s retry : LoopState τ} (h : Paired s) (hr : Paired retry) (e : ControlError) :
    Paired (s.fail e retry) := by
  unfold LoopState.fail
  split
  · exact ⟨h.wf, h.keys, h.parked⟩
  · exact ⟨h.wf, h.keys, h.parked⟩
  · exact hr

theorem Paired.poll (h : Paired s) (hwant : s.wantRunning = true) (m : MapClient) (p : Pass) :
    Paired (s.poll b m p) := by
  have hrun : s.wantRunning = false → s.engine.indices = Wg.Indices.new := fun hw => by
    rw [hwant] at hw
    cases hw
  unfold LoopState.poll
  simp only
  split
  · refine Paired.fail ?_ ?_ _
    · exact ⟨h.wf, h.keys, hrun⟩
    · exact ⟨h.wf, h.keys, hrun⟩
  next event _ =>
    cases event with
    | snapshot snap =>
      refine ⟨wf_pushDelta b h.wf snap p.homeRegion, keys_push b s.engine s.peerRegions snap p.homeRegion h.keys,
        fun hw => ?_⟩
      have hfalse : s.wantRunning = false := hw
      rw [hwant] at hfalse
      cases hfalse
    | keepAlive _ | idle => exact ⟨h.wf, h.keys, hrun⟩

theorem Paired.step (h : Paired s) (p : Pass) : Paired (s.step b p) := by
  have hdrain : Paired (s.drained p) := by
    obtain ⟨hwf, hkeys, hparked⟩ := h.drain s.lifecycle.state.isFatal p.ord p.signals
    exact ⟨hwf, hkeys, hparked⟩
  have hset : ∀ t : LoopState τ, t.engine = (s.drained p).engine → t.peerRegions = (s.drained p).peerRegions →
      t.wantRunning = (s.drained p).wantRunning → Paired t := fun t he hr hw =>
    ⟨he ▸ hdrain.wf, by rw [hr, he]; exact hdrain.keys, by rw [hw, he]; exact hdrain.parked⟩
  have hwent := went b s p
  generalize s.step b p = s' at hwent ⊢
  cases hwent with
  | left => exact h
  | stopped => exact ⟨h.wf, h.keys, h.parked⟩
  | relogin => exact hset _ rfl rfl rfl
  | logout => exact hdrain.logOut p
  | parked =>
    refine Paired.sleep ?_ p
    exact hset _ rfl rfl rfl
  | loggedOut => exact hdrain.sleep p
  | backingOff | unauthorized => exact hset _ rfl rfl rfl
  | refused e =>
    refine Paired.fail ?_ ?_ e
    · exact hset _ rfl rfl rfl
    · exact hset _ rfl rfl rfl
  | polled hlistens =>
    cases hlistens with
    | held hw => exact hdrain.poll hw.wanted _ p
    | fresh hb =>
      refine Paired.poll ?_ ?_ _ p
      · exact hset _ rfl rfl rfl
      · exact hb.wanted

theorem Paired.meet (h : Paired s) (ev : NodeEvent) : Paired (s.meet b ev) := by
  cases ev with
  | pass p => exact h.step p
  | pump ev =>
    have hix := Wg.indices_step_of_isPump b s.engine ev.2
    refine ⟨Wg.wf_step b s.engine ev.1 h.wf, ?_, ?_⟩
    · simp only [LoopState.meet]
      rw [hix]
      exact h.keys
    · simp only [LoopState.meet]
      rw [hix]
      exact h.parked

theorem up_paired {secret : BitVec 256} {dir : StateDir} {want : Bool} {login : Except ControlError LoginOutcome}
    {opened : Except ControlError Unit} (h : LoopState.up b secret dir want login opened = .ok s) :
    Paired s := by
  have hs := up_started b h
  refine ⟨?_, ?_, fun _ => ?_⟩
  · rw [hs.engine]
    exact Engine.wf_new b secret []
  · rw [hs.engine, hs.noRegions]
    rfl
  · rw [hs.engine]
    rfl

theorem atHead_meet (s : LoopState τ) (ev : NodeEvent) (h : s.exit = none → AtHead s) :
    (s.meet b ev).exit = none → AtHead (s.meet b ev) := by
  cases ev with
  | pass p => exact atHead_step b s p h
  | pump ev => exact fun hexit => ⟨(h hexit).noLogin, (h hexit).noLogout, (h hexit).notFatal⟩

/-- **A teardown is complete**: in every run of the loop and the pump, and after every signal of the next batch, the
regions are kept for exactly the peers of the engine; a teardown then empties every index. -/
theorem teardown_complete {secret : BitVec 256} {dir : StateDir} {want : Bool}
    {login : Except ControlError LoginOutcome} {opened : Except ControlError Unit} {s₀ : LoopState τ}
    (hup : LoopState.up b secret dir want login opened = .ok s₀) (events : List NodeEvent) :
    let s := run (LoopState.meet b) s₀ events
    (∀ (p : Pass) (ds rest : List Drained), p.signals = ds ++ rest →
      let t := ds.foldl (LoopState.receive s.lifecycle.state.isFatal p.ord) s
      t.peerRegions.keys = t.engine.indices.byPubkey.keys ∧
        (t.clearEnginePeers p.ord).engine.indices = Wg.Indices.new) ∧
    (s.wantRunning = false → s.engine.indices = Wg.Indices.new) ∧
    ∀ p, (s.step b p).trace = s.trace ++ [.logout true] → (s.step b p).engine.indices = Wg.Indices.new := by
  intro s
  have hs : Paired s := run_keeps Paired (fun _ ev h => h.meet ev) events s₀ (up_paired hup)
  have hhead : s.exit = none → AtHead s :=
    run_keeps (fun s : LoopState τ => s.exit = none → AtHead s) atHead_meet events s₀ (fun _ => up_atHead b hup)
  refine ⟨fun p ds rest _ => ?_, hs.parked, fun p hout => ?_⟩
  · have ht := hs.drain s.lifecycle.state.isFatal p.ord ds
    exact ⟨ht.keys, (ht.clear p.ord).2⟩
  · obtain ⟨-, hstep, hwent⟩ := step_of_logout b hhead hout
    rw [hstep]
    unfold LoopState.logOut
    cases hl : p.logout with
    | failed => cases hwent.2 hl
    | done seqFile handleFile =>
      obtain ⟨hwf, hkeys, hparked⟩ := hs.drain s.lifecycle.state.isFatal p.ord p.signals
      have hflags : Paired ({ s.drained p with logoutRequested := false } : LoopState τ) := ⟨hwf, hkeys, hparked⟩
      exact (hflags.clear p.ord).2

end

open Ctl (keyText keyOf nodeKeyOrder)

theorem teardown_complete_down :
    let nodes : List Ctl.NodeWire := [{ id := 1, key := keyText '1' }, { id := 2, key := keyText '2' }]
    let listed : NodeEvent := .pass { ord := nodeKeyOrder, polled := .frame {} { peers := some nodes } }
    ∃ s₀, LoopState.up Wg.clearTunn 0 {} true (.ok .authorized) (.ok ()) = .ok s₀ ∧
      (run (LoopState.meet Wg.clearTunn) s₀ [listed]).engine.indices.byPubkey.keys = {keyOf 0x11, keyOf 0x22} ∧
      (run (LoopState.meet Wg.clearTunn) s₀
        [listed, .pass (signalled (.setWantRunning false) .failed)]).engine.indices = Wg.Indices.new := by
  intro nodes listed
  refine ⟨authorizedLoop, up_authorizedLoop, by decide +kernel, ?_⟩
  exact (teardown_complete up_authorizedLoop _).2.1 (by decide +kernel)

end TailscaleVita.Rt

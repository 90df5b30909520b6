import TailscaleVita.RtMirror
import TailscaleVita.RtPass
/-!
# RtReconnect — a full peer list against the engine of an earlier session

The engine outlives a map session; the netmap does not. A full list is turned into removals by comparing it with the
netmap of the session it arrives in, so it removes from the engine only what that session has heard of.
-/
namespace TailscaleVita.Rt

open LoopState

open Ctl (NodeKey PeerTables Applying NetMap snapshotOf MapResponseWire NodeWire MapClient StateDir ControlError
  listedKeys)
open Wg (Engine Boringtun)

structure FullListOnly (resp : MapResponseWire) (nodes : List NodeWire) : Prop where
  notKeepAlive : resp.keepAlive = false
  peers : resp.peers = some nodes
  peersChanged : resp.peersChanged.getD [] = []
  peersRemoved : resp.peersRemoved.getD [] = []
  peersChangedPatch : resp.peersChangedPatch.getD [] = []

theorem delta_fullList (ord : HashOrder NodeKey) {resp : MapResponseWire} {nodes : List NodeWire}
    (h : FullListOnly resp nodes) (pt : PeerTables) :
    (Applying.applyPeerChanges ord resp ⟨pt, {}⟩).delta =
      { upserted := nodes.filterMap Ctl.nodeToSnapshot
        removed := (ord.order pt.peers.keys).filter (fun k => !(listedKeys nodes).contains k) } := by
  unfold Applying.applyPeerChanges
  simp only [h.peers, h.peersChanged, h.peersRemoved, h.peersChangedPatch, List.foldl_nil]
  exact Ctl.delta_applyPeers ord pt nodes

section

variable {τ : Type} (b : Boringtun τ)

theorem mem_keys_iff_routes (e : Engine τ) (k : NodeKey) : k ∈ e.indices.byPubkey.keys ↔ engineRoutes e k ≠ none := by
  rw [HashMap.mem_keys_iff, engineRoutes, Option.ne_none_iff_exists']
  simp

theorem mem_keys_push_fullList (e : Engine τ) (nm : NetMap) (ord : HashOrder NodeKey) {resp : MapResponseWire}
    {nodes : List NodeWire} (h : FullListOnly resp nodes) (home : BitVec 16) (k : NodeKey) :
    k ∈ (pushDeltaToEngine b e (snapshotOf (nm.apply ord resp)) home).indices.byPubkey.keys ↔
      k ∈ listedKeys nodes ∨ k ∈ e.indices.byPubkey.keys ∧ k ∉ nm.peers.keys := by
  have hdelta : (snapshotOf (nm.apply ord resp)).delta.toPeerDelta = _ :=
    (NetMap.apply_peers ord nm resp).2.trans (delta_fullList ord h nm.toPeerTables)
  rw [mem_keys_iff_routes, engineRoutes_pushDelta, hdelta, mem_keys_iff_routes]
  simp only [deltaLog, ChangeLog.replay, List.map_nil]
  rw [show ∀ f : NodeKey → Option (List Wg.Ipv4Cidr), replayMoves [] f = f from fun _ => rfl, replayDels_apply]
  have hsets : replaySets ((nodes.filterMap Ctl.nodeToSnapshot).map
      (fun p => (p.nodeKey, engineAllowedIps p.allowedIps))) (engineRoutes e) k ≠ none ↔
        k ∈ listedKeys nodes ∨ engineRoutes e k ≠ none := by
    rw [replaySets_ne_none, List.map_map, Ctl.mem_listedKeys_iff, List.mem_map]
    rfl
  have hdels : k ∈ (ord.order nm.peers.keys).filter (fun k => !(listedKeys nodes).contains k) ↔
      k ∈ nm.peers.keys ∧ k ∉ listedKeys nodes := by
    rw [List.mem_filter, ord.mem_order]
    simp
  rw [ite_ne_left_iff, ne_comm, hsets, hdels]
  by_cases hl : k ∈ listedKeys nodes <;> by_cases hn : k ∈ nm.peers.keys <;> simp [hl, hn]

end

section

variable {τ : Type} (b : Boringtun τ)

structure Pushes (s : LoopState τ) (p : Pass) (s' : LoopState τ) (m : MapClient) (resp : MapResponseWire) : Prop where
  running : s.exit = none
  goesOn : p.shouldStop = false
  listens : s.beforePoll p = .listen s' m
  handled : ∃ io, p.polled = .frame io resp ∧ ∃ event, (m.handleFrame s'.dir p.ord io resp).2.2 = .ok event

variable {m : MapClient} {p : Pass}

theorem listen_cases {s s' : LoopState τ} (h : Listens s p s' m) :
    s'.engine = (s.drain p).engine ∧
      ((s.drain p).mapOpt = some m ∨ (s.drain p).mapOpt = none ∧ m.netmap.peers = ∅) := by
  cases h with
  | held _ hm => exact ⟨rfl, .inl hm⟩
  | fresh hb hboot =>
    obtain ⟨seq, handle, hnm⟩ := bootstrap_blank hboot
    exact ⟨rfl, .inr ⟨hb.noSession, by rw [hnm]⟩⟩

theorem listen_of_bootstrap {s : LoopState τ} (hsignals : p.signals = []) (hlogin : s.loginInteractiveRequested = false)
    (hlogout : s.logoutRequested = false) (hwant : s.wantRunning = true) (hmap : s.mapOpt = none)
    (hstate : s.lifecycle.state ≠ .needsLogin) (hsleep : p.sleepStops = false)
    (hboot : bootstrapControlSession s.dir p.register p.opened = .ok (.session m)) :
    ∃ s', s.beforePoll p = .listen s' m := by
  have hdrain : s.drain p = s := by
    unfold drain
    rw [hsignals]
    rfl
  simp only [beforePoll, hdrain, hlogin, Bool.false_eq_true, false_and, if_false, proceed, hlogout,
    hwant, if_true, hmap, if_neg hstate, reconnect, hsleep, hboot]
  exact ⟨_, rfl⟩

variable {resp : MapResponseWire}

theorem handleFrame_written (c : MapClient) (dir : StateDir) (ord : HashOrder NodeKey)
    (hk : resp.keepAlive = false) : ∃ event, (c.handleFrame dir ord {} resp).2.2 = .ok event := by
  unfold MapClient.handleFrame
  simp only [hk, Bool.false_eq_true, if_false, ne_eq, not_true_eq_false, and_false, if_true]
  split
  · exact ⟨_, rfl⟩
  · exact ⟨_, rfl⟩

theorem handleFrame_event {c : MapClient} {dir : StateDir} {ord : HashOrder NodeKey} {io : MapClient.FrameIo}
    {event : Ctl.MapEvent} (hk : resp.keepAlive = false) (h : (c.handleFrame dir ord io resp).2.2 = .ok event) :
    event = .snapshot (snapshotOf (c.netmap.apply ord resp)) := by
  unfold MapClient.handleFrame at h
  simp only [hk, Bool.false_eq_true, if_false] at h
  split at h
  · cases h
  · split at h
    · split at h
      · cases h
        rfl
      · cases h
    · cases h
      rfl

theorem engine_of_pushes {s s' : LoopState τ} (h : Pushes s p s' m resp) (hk : resp.keepAlive = false) :
    (s.step b p).engine = pushDeltaToEngine b s'.engine (snapshotOf (m.netmap.apply p.ord resp)) p.homeRegion := by
  obtain ⟨io, hpolled, event, hevent⟩ := h.handled
  have hsnap := handleFrame_event hk hevent
  subst hsnap
  simp only [step, h.running, h.goesOn, h.listens, Option.isSome_none, Bool.false_eq_true, if_false,
    finish, poll, hpolled, MapClient.nextEvent, hevent]
  rfl

/-- **A full list reaches the engine exactly when it names every peer of the engine, or the session's netmap does**: in
every run of the loop, for every pass that pushes a frame with a full list. -/
theorem full_list_is_engine_iff (s₀ : LoopState τ) (passes : List Pass) (p : Pass) {s' : LoopState τ} {m : MapClient}
    {resp : MapResponseWire} {nodes : List NodeWire} (h : Pushes (run (step b) s₀ passes) p s' m resp)
    (hfull : FullListOnly resp nodes) :
    let s := run (step b) s₀ passes
    let before := (s.drain p).engine.indices.byPubkey.keys
    let after := (s.step b p).engine.indices.byPubkey.keys
    ((∀ k, k ∈ after ↔ k ∈ listedKeys nodes) ↔ ∀ k ∈ before, k ∈ listedKeys nodes ∨ k ∈ m.netmap.peers.keys) ∧
      ((s.drain p).mapOpt = none → ∀ k ∈ before, k ∈ after) := by
  intro s before after
  obtain ⟨heng, hsession⟩ := listen_cases (listens_of_beforePoll h.running h.goesOn h.listens)
  have hafter : ∀ k, k ∈ after ↔ k ∈ listedKeys nodes ∨ k ∈ before ∧ k ∉ m.netmap.peers.keys := by
    intro k
    simp only [after, before]
    rw [engine_of_pushes b h hfull.notKeepAlive, heng]
    exact mem_keys_push_fullList b _ m.netmap p.ord hfull p.homeRegion k
  refine ⟨⟨fun heq k hk => ?_, fun hsub k => ?_⟩, fun hnew k hk => ?_⟩
  · by_cases hn : k ∈ m.netmap.peers.keys
    · exact .inr hn
    · exact .inl ((heq k).1 ((hafter k).2 (.inr ⟨hk, hn⟩)))
  · rw [hafter]
    refine ⟨?_, .inl⟩
    rintro (hl | ⟨hk, hn⟩)
    · exact hl
    · exact (hsub k hk).resolve_right hn
  · refine (hafter k).2 (.inr ⟨hk, ?_⟩)
    rcases hsession with hm | ⟨-, hempty⟩
    · rw [hnew] at hm
      cases hm
    · rw [hempty]
      exact Finset.notMem_empty k

end

open Ctl (keyText keyOf nodeKeyOrder)

def lostSession (first : List NodeWire) : List Pass :=
  [{ ord := nodeKeyOrder, polled := .frame {} { peers := some first } },
   { ord := nodeKeyOrder, polled := .error .mapConnectionLost }]

def relisting (nodes : List NodeWire) : Pass :=
  { ord := nodeKeyOrder, polled := .frame {} { peers := some nodes } }

theorem full_list_is_engine_iff_grown :
    let first : List NodeWire := [{ id := 1, key := keyText '1' }]
    let nodes : List NodeWire := [{ id := 1, key := keyText '1' }, { id := 2, key := keyText '2' }]
    ∃ s₀, up Wg.clearTunn 0 {} true (.ok .authorized) (.ok ()) = .ok s₀ ∧
      ∀ k, k ∈ (run (step Wg.clearTunn) s₀ (lostSession first ++ [relisting nodes])).engine.indices.byPubkey.keys
        ↔ k ∈ listedKeys nodes := by
  intro first nodes
  refine ⟨authorizedLoop, up_authorizedLoop, ?_⟩
  rw [run_append, run_cons, run_nil]
  let lost := run (step Wg.clearTunn) authorizedLoop (lostSession first)
  have hkeys : lost.engine.indices.byPubkey.keys = {keyOf 0x11} := by decide +kernel
  have hexit : lost.exit = none := Option.isNone_iff_eq_none.1 (by decide +kernel)
  obtain ⟨s', hlisten⟩ := listen_of_bootstrap (s := lost) (p := relisting nodes) (m := ⟨{}⟩) rfl (by decide +kernel)
    (by decide +kernel) (by decide +kernel) (Option.isNone_iff_eq_none.1 (by decide +kernel)) (by decide +kernel)
    rfl rfl
  have hpushes : Pushes lost (relisting nodes) s' ⟨{}⟩ { peers := some nodes } :=
    ⟨hexit, rfl, hlisten, {}, rfl, handleFrame_written _ _ _ rfl⟩
  have hfull : FullListOnly { peers := some nodes } nodes := ⟨rfl, rfl, rfl, rfl, rfl⟩
  have hiff := (full_list_is_engine_iff Wg.clearTunn authorizedLoop (lostSession first) (relisting nodes) hpushes
    hfull).1
  refine hiff.2 (fun k hk => .inl ?_)
  have hk₁ : k ∈ lost.engine.indices.byPubkey.keys := hk
  rw [hkeys, Finset.mem_singleton] at hk₁
  rw [hk₁]
  decide +kernel

/-- **A peer revoked while the session was down stays in the engine**: the new session's full list does not have it. -/
theorem revoked_peer_survives_reconnect :
    let first : List NodeWire := [{ id := 1, key := keyText '1' }, { id := 2, key := keyText '2' }]
    let nodes : List NodeWire := [{ id := 1, key := keyText '1' }]
    ∃ s₀, up Wg.clearTunn 0 {} true (.ok .authorized) (.ok ()) = .ok s₀ ∧
      (run (step Wg.clearTunn) s₀ (lostSession first)).mapOpt.isNone = true ∧
      keyOf 0x22 ∉ listedKeys nodes ∧
      keyOf 0x22 ∈
        (run (step Wg.clearTunn) s₀ (lostSession first ++ [relisting nodes])).engine.indices.byPubkey.keys := by
  intro first nodes
  exact ⟨_, rfl, by decide +kernel, by decide +kernel, by decide +kernel⟩

end TailscaleVita.Rt

import TailscaleVita.CtlRecords
import TailscaleVita.RtDelta
/-!
# RtMirror — the engine's peers against the netmap's

The engine replays a delta in its own order: all upserts, then all removals, then the rekeys. Seen through the routes
it gives each key, that is the replay of a change log, and the netmap's changes keep the log in step.
-/
namespace TailscaleVita.Rt

open Function Finmap

open Ctl (NodeKey AllowedIp PeerSnapshot PacketFilter NetMap NetMapDelta PeerTables PeerDelta Applying
  NetMapSnapshot snapshotOf MapResponseWire NodeWire PeerChangeWire listedKeys)
open Wg (Engine Boringtun Ipv4Cidr PublicKey TransportAddr PeerConfig)

def engineRoutes {τ : Type} (e : Engine τ) (k : PublicKey) : Option (List Ipv4Cidr) :=
  (e.indices.byPubkey.lookup k).map Wg.Peer.allowedIps

def netmapRoutes (pt : PeerTables) (k : NodeKey) : Option (List Ipv4Cidr) :=
  (pt.peers.lookup k).map (fun s => engineAllowedIps s.allowedIps)

def deltaLog (d : PeerDelta) : ChangeLog NodeKey (List Ipv4Cidr) where
  sets := d.upserted.map (fun p => (p.nodeKey, engineAllowedIps p.allowedIps))
  dels := d.removed
  moves := d.rekeyed.map (fun r => (r.oldKey, r.snapshot.nodeKey, engineAllowedIps r.snapshot.allowedIps))

section

variable {τ : Type} (b : Boringtun τ)

theorem engineRoutes_removePeer (e : Engine τ) (k : PublicKey) :
    engineRoutes (e.removePeer k) = update (engineRoutes e) k none := by
  funext k'
  unfold engineRoutes Engine.removePeer
  rw [Wg.byPubkey_remove]
  by_cases hk : k' = k
  · subst hk
    rw [if_pos rfl, update_self]
    rfl
  · rw [if_neg hk, update_of_ne hk]

theorem engineRoutes_rebuildPeer (e : Engine τ) (cfg : PeerConfig) :
    engineRoutes (e.rebuildPeer b cfg) = update (engineRoutes e) cfg.pubkey (some cfg.allowedIps) := by
  funext k
  unfold engineRoutes Engine.rebuildPeer Wg.Indices.insert
  rw [HashMap.lookup_insert_eq, Wg.byPubkey_remove]
  by_cases hk : k = cfg.pubkey
  · subst hk
    rw [if_pos rfl, update_self]
    rfl
  · rw [if_neg hk, if_neg hk, update_of_ne hk]

theorem engineRoutes_upsertPeer (e : Engine τ) (cfg : PeerConfig) :
    engineRoutes (e.upsertPeer b cfg) = update (engineRoutes e) cfg.pubkey (some cfg.allowedIps) := by
  unfold Engine.upsertPeer
  split
  next peer hpeer =>
    split
    next hips =>
      have hsame : engineRoutes e = update (engineRoutes e) cfg.pubkey (some cfg.allowedIps) := by
        funext k
        by_cases hk : k = cfg.pubkey
        · subst hk
          rw [update_self, engineRoutes, hpeer, ← hips]
          rfl
        · rw [update_of_ne hk]
      split
      · exact hsame
      · exact hsame
    · exact engineRoutes_rebuildPeer b e cfg
  · exact engineRoutes_rebuildPeer b e cfg

theorem engineRoutes_upserts (home : BitVec 16) : ∀ (ps : List PeerSnapshot) (e : Engine τ),
    engineRoutes (ps.foldl (fun e p => e.upsertPeer b (peerConfig home p)) e) =
      replaySets (ps.map (fun p => (p.nodeKey, engineAllowedIps p.allowedIps))) (engineRoutes e)
  | [], _ => rfl
  | p :: ps, e => by
    rw [List.foldl_cons, engineRoutes_upserts home ps, engineRoutes_upsertPeer]
    rfl

theorem engineRoutes_removes : ∀ (ks : List NodeKey) (e : Engine τ),
    engineRoutes (ks.foldl (fun e k => e.removePeer k) e) = replayDels ks (engineRoutes e)
  | [], _ => rfl
  | k :: ks, e => by
    rw [List.foldl_cons, engineRoutes_removes ks, engineRoutes_removePeer]
    rfl

theorem engineRoutes_rekeys (home : BitVec 16) : ∀ (rs : List Ctl.RekeyedPeer) (e : Engine τ),
    engineRoutes (rs.foldl (fun e r => (e.removePeer r.oldKey).upsertPeer b (peerConfig home r.snapshot)) e) =
      replayMoves (rs.map (fun r => (r.oldKey, r.snapshot.nodeKey, engineAllowedIps r.snapshot.allowedIps)))
        (engineRoutes e)
  | [], _ => rfl
  | r :: rs, e => by
    rw [List.foldl_cons, engineRoutes_rekeys home rs, engineRoutes_upsertPeer, engineRoutes_removePeer]
    rfl

theorem engineRoutes_pushPolicy (e : Engine τ) (snap : NetMapSnapshot) :
    engineRoutes (pushPolicy e snap) = engineRoutes e := by
  unfold pushPolicy
  split
  · split <;> rfl
  · rfl

theorem engineRoutes_pushDelta (e : Engine τ) (snap : NetMapSnapshot) (home : BitVec 16) :
    engineRoutes (pushDeltaToEngine b e snap home) = (deltaLog snap.delta.toPeerDelta).replay (engineRoutes e) := by
  unfold pushDeltaToEngine ChangeLog.replay
  rw [engineRoutes_rekeys, engineRoutes_removes, engineRoutes_upserts, engineRoutes_pushPolicy]
  rfl

end

def InStep (start : NodeKey → Option (List Ipv4Cidr)) (s : Applying) : Prop :=
  Tracks start (netmapRoutes s.tables) (deltaLog s.delta)

variable (ord : HashOrder NodeKey)

theorem inStep_applyPeerChanges (resp : MapResponseWire) (pt : PeerTables)
    (hk : Ctl.KeyedByOwn pt) : InStep (netmapRoutes pt) (Applying.applyPeerChanges ord resp ⟨pt, {}⟩) :=
  Ctl.inLog_applyPeerChanges ord resp hk (.inl fun _ _ => rfl)

def Mirror {τ : Type} (e : Engine τ) (nm : NetMap) : Prop :=
  (∀ k, k ∈ e.indices.byPubkey.keys ↔ k ∈ nm.peers.keys) ∧
    ∀ k p s, e.indices.byPubkey.lookup k = some p → nm.peers.lookup k = some s →
      p.allowedIps = engineAllowedIps s.allowedIps

theorem mirror_iff_routes {τ : Type} (e : Engine τ) (nm : NetMap) :
    Mirror e nm ↔ engineRoutes e = netmapRoutes nm.toPeerTables := by
  constructor
  · rintro ⟨hkeys, hips⟩
    funext k
    have hk := hkeys k
    rw [HashMap.mem_keys_iff, HashMap.mem_keys_iff] at hk
    unfold engineRoutes netmapRoutes
    cases hp : e.indices.byPubkey.lookup k with
    | none =>
      cases hs : nm.peers.lookup k with
      | none => rfl
      | some s =>
        obtain ⟨p, hp'⟩ := hk.2 ⟨s, hs⟩
        rw [hp] at hp'
        cases hp'
    | some p =>
      obtain ⟨s, hs⟩ := hk.1 ⟨p, hp⟩
      rw [hs, Option.map_some, Option.map_some, hips k p s hp hs]
  · intro h
    have hk : ∀ k, (e.indices.byPubkey.lookup k).map Wg.Peer.allowedIps =
        (nm.peers.lookup k).map (fun s => engineAllowedIps s.allowedIps) := fun k => congrFun h k
    refine ⟨fun k => ?_, fun k p s hp hs => ?_⟩
    · have := hk k
      rw [HashMap.mem_keys_iff, HashMap.mem_keys_iff]
      cases hp : e.indices.byPubkey.lookup k <;> cases hs : nm.peers.lookup k <;> simp_all
    · have := hk k
      rw [hp, hs, Option.map_some, Option.map_some] at this
      exact Option.some.inj this

/-- What a frame may do: it sends again, as a changed node, no key that the netmap holds and its full list leaves
out. -/
def NoneRevived (nm : NetMap) (resp : MapResponseWire) : Prop :=
  ∀ nodes ∈ resp.peers, ∀ k ∈ listedKeys (resp.peersChanged.getD []), k ∈ nm.peers.keys → k ∈ listedKeys nodes

def Away (s : Applying) : Prop :=
  ∀ k ∈ s.delta.removed, k ∈ s.tables.peers.keys → ∃ r ∈ s.delta.rekeyed, r.snapshot.nodeKey = k

theorem away_upsertNodes {s : Applying} (h : Away s) {nodes : List NodeWire}
    (hn : ∀ k ∈ listedKeys nodes, k ∉ s.delta.removed) : Away (nodes.foldl Applying.upsertNode s) := by
  intro k hk hmem
  rw [Ctl.delta_foldl_upsertNode] at hk ⊢
  rw [Ctl.mem_keys_foldl_upsertNode] at hmem
  exact h k hk (hmem.resolve_right (fun hl => hn k hl hk))

theorem away_removeId (s : Applying) (id : Ctl.NodeId) (h : Away s) : Away (s.removeId id) := by
  unfold Applying.removeId
  split
  · exact h
  next key _ =>
    intro k hk hmem
    simp only [mem_keys, mem_erase] at hmem
    rcases List.mem_append.1 hk with hk | hk
    · exact h k hk (mem_keys.2 hmem.2)
    · exact absurd (List.mem_singleton.1 hk) hmem.1

theorem away_applyPatch (s : Applying) (p : PeerChangeWire) (h : Away s) : Away (s.applyPatch p) := by
  unfold Applying.applyPatch
  cases hid : s.tables.idToKey.lookup p.nodeId with
  | none => exact h
  | some nodeKey =>
    simp only
    cases hpeer : s.tables.peers.lookup nodeKey with
    | none => exact h
    | some peer =>
      cases Applying.rekeyTo p nodeKey with
      | some newKey =>
        intro k hk hmem
        simp only [mem_keys, mem_insert, mem_erase] at hmem
        rcases hmem with rfl | ⟨-, hmem⟩
        · exact ⟨_, List.mem_append_right _ (List.mem_singleton.2 rfl), rfl⟩
        · obtain ⟨r, hr, hkey⟩ := h k hk (mem_keys.2 hmem)
          exact ⟨r, List.mem_append_left _ hr, hkey⟩
      | none =>
        intro k hk hmem
        refine h k hk ?_
        simp only [mem_keys, mem_insert] at hmem
        rcases hmem with rfl | hmem
        · exact (HashMap.mem_keys_iff _ _).2 ⟨peer, hpeer⟩
        · exact mem_keys.2 hmem

theorem mem_removed_applyPeers (pt : PeerTables) (nodes : List NodeWire) (k : NodeKey) :
    k ∈ ((⟨pt, {}⟩ : Applying).applyPeers ord nodes).delta.removed ↔ k ∈ pt.peers.keys ∧ k ∉ listedKeys nodes := by
  rw [Ctl.delta_applyPeers]
  simp only [List.mem_filter, ord.mem_order]
  simp

theorem away_applyPeerChanges (nm : NetMap) (resp : MapResponseWire) :
    (NoneRevived nm resp → Away (Applying.applyPeerChanges ord resp ⟨nm.toPeerTables, {}⟩)) ∧
      (resp.peersRemoved.getD [] = [] → resp.peersChangedPatch.getD [] = [] →
        Away (Applying.applyPeerChanges ord resp ⟨nm.toPeerTables, {}⟩) → NoneRevived nm resp) := by
  constructor
  · intro h
    refine run_keeps Away (fun s p hs => away_applyPatch s p hs) _ _ ?_
    refine run_keeps Away (fun s id hs => away_removeId s id hs) _ _ ?_
    cases hp : resp.peers with
    | none => exact away_upsertNodes (by nofun) (by nofun)
    | some nodes =>
      refine away_upsertNodes (fun k hk hmem => ?_) (fun k hk hrem => ?_)
      · rw [mem_removed_applyPeers] at hk
        rw [Ctl.mem_keys_applyPeers] at hmem
        exact absurd hmem hk.2
      · rw [mem_removed_applyPeers] at hrem
        exact hrem.2 (h nodes hp k hk hrem.1)
  · intro hr hc h nodes hp k hk hnm
    have hpeers : resp.peers = some nodes := hp
    unfold Applying.applyPeerChanges at h
    simp only [hpeers, hr, hc, List.foldl_nil] at h
    by_contra hno
    have hrem : k ∈ ((⟨nm.toPeerTables, {}⟩ : Applying).applyPeers ord nodes).delta.removed :=
      (mem_removed_applyPeers ord _ nodes k).2 ⟨hnm, hno⟩
    have hmem := (Ctl.mem_keys_foldl_upsertNode (resp.peersChanged.getD [])
      ((⟨nm.toPeerTables, {}⟩ : Applying).applyPeers ord nodes) k).2 (.inr hk)
    obtain ⟨r, hr, -⟩ := h k (by rw [Ctl.delta_foldl_upsertNode]; exact hrem) hmem
    rw [Ctl.delta_foldl_upsertNode, Ctl.delta_applyPeers] at hr
    cases hr

theorem replay_iff_away {V : Type} {g : PeerSnapshot → V} {start : NodeKey → Option V} {s : Applying}
    (h : Tracks start (s.tables.read g) (s.delta.log g)) :
    (s.delta.log g).replay start = s.tables.read g ↔ Away s := by
  refine h.replay_eq_iff.trans (forall₂_congr (fun k _ => ?_))
  have hkeys : s.tables.read g k ≠ none ↔ k ∈ s.tables.peers.keys := by
    rw [HashMap.mem_keys_iff, PeerTables.read, Option.ne_none_iff_exists']
    simp
  rw [hkeys]
  simp [PeerDelta.log]

theorem records_replayed_iff {nm : NetMap} (hk : Ctl.KeyedByOwn nm.toPeerTables) (ord : HashOrder NodeKey)
    {resp : MapResponseWire} (hapart : Ctl.RekeysApart (nm.apply ord resp).2.toPeerDelta) :
    ((nm.apply ord resp).2.toPeerDelta.log id).replay nm.peers.lookup = (nm.apply ord resp).1.peers.lookup ↔
      Away ⟨(nm.apply ord resp).1.toPeerTables, (nm.apply ord resp).2.toPeerDelta⟩ := by
  obtain ⟨htab, hdel⟩ := NetMap.apply_peers ord nm resp
  have hread : ∀ pt : PeerTables, pt.read id = pt.peers.lookup := fun pt => funext fun k => Option.map_id' ..
  rw [hdel] at hapart
  have hlog := Ctl.inLog_applyPeerChanges (g := id) ord resp hk (.inr hapart)
  have hiff := replay_iff_away hlog
  rw [hread, hread, ← htab, ← hdel] at hiff
  rw [hiff, htab, hdel]

section

variable {τ : Type} (b : Boringtun τ)

theorem mirror_frame_iff {e : Engine τ} {nm : NetMap} (hm : Mirror e nm) (hk : Ctl.KeyedByOwn nm.toPeerTables)
    (ord : HashOrder NodeKey) (resp : MapResponseWire) (home : BitVec 16) :
    Mirror (pushDeltaToEngine b e (snapshotOf (nm.apply ord resp)) home) (nm.apply ord resp).1 ↔
      Away (Applying.applyPeerChanges ord resp ⟨nm.toPeerTables, {}⟩) := by
  obtain ⟨htab, hdel⟩ := NetMap.apply_peers ord nm resp
  rw [mirror_iff_routes, engineRoutes_pushDelta, (mirror_iff_routes e nm).1 hm, htab,
    show (snapshotOf (nm.apply ord resp)).delta.toPeerDelta = _ from hdel]
  exact replay_iff_away (inStep_applyPeerChanges ord resp nm.toPeerTables hk)

theorem keyed_session_step (s : Session τ) (f : Frame) (h : Ctl.KeyedByOwn s.netmap.toPeerTables) :
    Ctl.KeyedByOwn (s.step b f).netmap.toPeerTables := Ctl.keyed_apply h f.ord f.resp

/-- **The engine mirrors the netmap** along every session in which no frame revives a key that its full list drops; and
after a next frame that neither removes nor patches exactly when it revives none. -/
theorem engine_mirrors_netmap (secret : BitVec 256) (frames : List Frame)
    (h : Along (Session.step b) (fun s f => NoneRevived s.netmap f.resp) (Session.start b secret) frames) :
    let s := run (Session.step b) (Session.start b secret) frames
    Mirror s.engine s.netmap ∧
      ∀ f : Frame, f.resp.peersRemoved.getD [] = [] → f.resp.peersChangedPatch.getD [] = [] →
        (Mirror (s.step b f).engine (s.step b f).netmap ↔ NoneRevived s.netmap f.resp) := by
  intro s
  have hinv : Mirror s.engine s.netmap ∧ Ctl.KeyedByOwn s.netmap.toPeerTables := by
    refine run_inv (fun s : Session τ => Mirror s.engine s.netmap ∧ Ctl.KeyedByOwn s.netmap.toPeerTables)
      (fun s f hs hf => ?_) frames _ ⟨?_, fun _ _ hs => by cases hs⟩ h
    · refine ⟨(mirror_frame_iff b hs.1 hs.2 f.ord f.resp f.ourHome).2 ?_, keyed_session_step b s f hs.2⟩
      exact (away_applyPeerChanges f.ord s.netmap f.resp).1 hf
    · rw [mirror_iff_routes]
      rfl
  refine ⟨hinv.1, fun f hr hc => (mirror_frame_iff b hinv.1 hinv.2 f.ord f.resp f.ourHome).trans ?_⟩
  obtain ⟨hif, honly⟩ := away_applyPeerChanges f.ord s.netmap f.resp
  exact ⟨honly hr hc, hif⟩

end

open Ctl (keyText keyOf nodeKeyOrder)

theorem engine_mirrors_netmap_rekeyed : let frames : List Frame :=
      [⟨nodeKeyOrder, { peers := some [{ id := 1, key := keyText '1' }, { id := 2, key := keyText '2' }] }, 7⟩,
       ⟨nodeKeyOrder,
         { peersRemoved := some [2], peersChangedPatch := some [{ nodeId := 1, key := some (keyText '3') }] }, 7⟩]
    let s := run (Session.step Wg.clearTunn) (Session.start Wg.clearTunn 0) frames
    Mirror s.engine s.netmap ∧ keyOf 0x33 ∈ s.netmap.peers.keys ∧ keyOf 0x11 ∉ s.netmap.peers.keys := by
  intro frames s
  have h := engine_mirrors_netmap Wg.clearTunn 0 frames
    ⟨nofun, nofun, trivial⟩
  exact ⟨h.1, by decide +kernel, by decide +kernel⟩

/-- **A key dropped by the full list and sent again in the same frame is lost to the engine.** -/
theorem engine_misses_revived_peer : let frames : List Frame :=
      [⟨nodeKeyOrder, { peers := some [{ id := 1, key := keyText '1' }] }, 7⟩,
       ⟨nodeKeyOrder,
         { peers := some [{ id := 2, key := keyText '2' }],
           peersChanged := some [{ id := 1, key := keyText '1' }] }, 7⟩]
    let s := run (Session.step Wg.clearTunn) (Session.start Wg.clearTunn 0) frames
    keyOf 0x11 ∈ s.netmap.peers.keys ∧ keyOf 0x11 ∉ s.engine.indices.byPubkey.keys ∧ ¬ Mirror s.engine s.netmap := by
  intro frames s
  have hin : keyOf 0x11 ∈ s.netmap.peers.keys := by decide +kernel
  have hout : keyOf 0x11 ∉ s.engine.indices.byPubkey.keys := by decide +kernel
  exact ⟨hin, hout, fun hm => hout ((hm.1 _).2 hin)⟩

end TailscaleVita.Rt

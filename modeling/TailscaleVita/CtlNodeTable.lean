import TailscaleVita.CtlNetmap
import TailscaleVita.Run
/-!
# CtlNodeTable — the netmap's peers against a table keyed by node number

The reference keeps one record per node number; the netmap keeps its records by node key, with a second map from
numbers to keys. The two agree as long as a full node record never changes the key of a known number.
-/
namespace TailscaleVita.Ctl

open Applying HashMap List

inductive PeerOp where
  | clear
  | upsert (snap : PeerSnapshot)
  | remove (id : NodeId)
  | patch (p : PeerChangeWire)

def frameOps (resp : MapResponseWire) : List PeerOp :=
  (match resp.peers with
    | some nodes => .clear :: (nodes.filterMap nodeToSnapshot).map .upsert
    | none => []) ++
  ((resp.peersChanged.getD []).filterMap nodeToSnapshot).map .upsert ++
  (resp.peersRemoved.getD []).map .remove ++
  (resp.peersChangedPatch.getD []).map .patch

/-! ## The netmap's tables under one operation -/

def PeerTables.step (pt : PeerTables) : PeerOp → PeerTables
  | .clear => {}
  | .upsert snap => ⟨pt.peers.insert snap.nodeKey snap, pt.idToKey.insert snap.nodeId snap.nodeKey⟩
  | .remove id =>
    match pt.idToKey.lookup id with
    | none => pt
    | some key => ⟨pt.peers.erase key, pt.idToKey.erase id⟩
  | .patch p =>
    match pt.idToKey.lookup p.nodeId with
    | none => pt
    | some nodeKey =>
      match pt.peers.lookup nodeKey with
      | none => pt
      | some peer =>
        match rekeyTo p nodeKey with
        | some newKey =>
          let newPeer := applyPatchFields { peer with nodeKey := newKey } p
          ⟨(pt.peers.erase nodeKey).insert newKey newPeer, pt.idToKey.insert newPeer.nodeId newKey⟩
        | none => { pt with peers := pt.peers.insert nodeKey (applyPatchFields peer p) }

theorem tables_foldl_upsertNode : ∀ (nodes : List NodeWire) (s : Applying),
    (nodes.foldl upsertNode s).tables =
      run PeerTables.step s.tables ((nodes.filterMap nodeToSnapshot).map .upsert)
  | [], _ => rfl
  | n :: nodes, s => by
    rw [foldl_cons, tables_foldl_upsertNode nodes, filterMap_cons]
    unfold upsertNode
    cases nodeToSnapshot n with
    | none | some snap => rfl

theorem tables_foldl_removeId : ∀ (ids : List NodeId) (s : Applying),
    (ids.foldl removeId s).tables = run PeerTables.step s.tables (ids.map .remove)
  | [], _ => rfl
  | id :: ids, s => by
    rw [foldl_cons, tables_foldl_removeId ids, map_cons, run_cons]
    congr 1
    simp only [removeId, PeerTables.step]
    cases s.tables.idToKey.lookup id <;> rfl

theorem tables_applyPatch (s : Applying) (p : PeerChangeWire) : (s.applyPatch p).tables = s.tables.step (.patch p) := by
  simp only [applyPatch, PeerTables.step]
  cases s.tables.idToKey.lookup p.nodeId with
  | none => rfl
  | some nodeKey =>
    simp only
    cases s.tables.peers.lookup nodeKey with
    | none => rfl
    | some peer =>
      cases rekeyTo p nodeKey <;> rfl

theorem tables_foldl_applyPatch : ∀ (ps : List PeerChangeWire) (s : Applying),
    (ps.foldl applyPatch s).tables = run PeerTables.step s.tables (ps.map .patch)
  | [], _ => rfl
  | p :: ps, s => by
    rw [foldl_cons, tables_foldl_applyPatch ps, tables_applyPatch, map_cons, run_cons]

variable {n : NodeWire}

theorem nodeToSnapshot_key {snap : PeerSnapshot} (h : nodeToSnapshot n = some snap) :
    parseNodekey n.key = some snap.nodeKey := by
  unfold nodeToSnapshot at h
  cases hk : parseNodekey n.key with
  | none =>
    rw [hk] at h
    cases h
  | some k =>
    rw [hk] at h
    cases h
    rfl

theorem nodeToSnapshot_isSome {k : NodeKey} (h : parseNodekey n.key = some k) :
    ∃ snap, nodeToSnapshot n = some snap ∧ snap.nodeKey = k := by
  unfold nodeToSnapshot
  rw [h]
  exact ⟨_, rfl, rfl⟩

def listedKeys (nodes : List NodeWire) : List NodeKey := nodes.filterMap (fun n => parseNodekey n.key)

theorem mem_listedKeys_iff (nodes : List NodeWire) (k : NodeKey) :
    k ∈ listedKeys nodes ↔ ∃ snap ∈ nodes.filterMap nodeToSnapshot, snap.nodeKey = k := by
  simp only [listedKeys, mem_filterMap]
  constructor
  · rintro ⟨n, hn, hk⟩
    obtain ⟨snap, hs, he⟩ := nodeToSnapshot_isSome hk
    exact ⟨snap, ⟨n, hn, hs⟩, he⟩
  · rintro ⟨snap, ⟨n, hn, hs⟩, rfl⟩
    exact ⟨n, hn, nodeToSnapshot_key hs⟩

/-! ## The full-set replace -/

theorem peers_foldl_dropUnlisted (newKeys : List NodeKey) : ∀ (olds : List NodeKey) (s : Applying) (k : NodeKey),
    (olds.foldl (dropUnlisted newKeys) s).tables.peers.lookup k =
      if k ∈ olds ∧ k ∉ newKeys then none else s.tables.peers.lookup k
  | [], s, k => by simp
  | old :: olds, s, k => by
    have hstep : (s.dropUnlisted newKeys old).tables.peers.lookup k =
        if k = old ∧ old ∉ newKeys then none else s.tables.peers.lookup k := by
      unfold dropUnlisted
      by_cases hmem : old ∈ newKeys
      · simp [hmem]
      · simp [hmem, lookup_erase_eq]
    rw [foldl_cons, peers_foldl_dropUnlisted newKeys olds, hstep]
    by_cases hk : k = old
    · subst hk
      by_cases hmem : k ∈ newKeys <;> simp [hmem]
    · simp [hk]

theorem delta_foldl_dropUnlisted (newKeys : List NodeKey) : ∀ (olds : List NodeKey) (s : Applying),
    (olds.foldl (dropUnlisted newKeys) s).delta =
      { s.delta with removed := s.delta.removed ++ olds.filter (fun k => !newKeys.contains k) }
  | [], s => by simp
  | old :: olds, s => by
    rw [foldl_cons, delta_foldl_dropUnlisted newKeys olds, filter_cons]
    unfold dropUnlisted
    by_cases h : old ∈ newKeys <;> simp [h]

theorem delta_foldl_upsertNode : ∀ (nodes : List NodeWire) (s : Applying),
    (nodes.foldl upsertNode s).delta =
      { s.delta with upserted := s.delta.upserted ++ nodes.filterMap nodeToSnapshot }
  | [], s => by simp
  | n :: nodes, s => by
    rw [foldl_cons, delta_foldl_upsertNode nodes, filterMap_cons]
    unfold upsertNode
    cases nodeToSnapshot n with
    | none => rfl
    | some snap => simp

variable (ord : HashOrder NodeKey)

theorem delta_applyPeers (pt : PeerTables) (nodes : List NodeWire) :
    ((⟨pt, {}⟩ : Applying).applyPeers ord nodes).delta =
      { upserted := nodes.filterMap nodeToSnapshot
        removed := (ord.order pt.peers.keys).filter (fun k => !(listedKeys nodes).contains k) } := by
  unfold applyPeers
  rw [delta_foldl_upsertNode]
  rw [delta_foldl_dropUnlisted]
  rfl

theorem mem_keys_foldl_upsertNode : ∀ (nodes : List NodeWire) (s : Applying) (k : NodeKey),
    k ∈ (nodes.foldl upsertNode s).tables.peers.keys ↔ k ∈ s.tables.peers.keys ∨ k ∈ listedKeys nodes
  | [], s, k => by simp [listedKeys]
  | n :: nodes, s, k => by
    rw [foldl_cons, mem_keys_foldl_upsertNode nodes]
    unfold listedKeys
    rw [filterMap_cons]
    cases hn : parseNodekey n.key with
    | none =>
      have hskip : s.upsertNode n = s := by
        unfold upsertNode nodeToSnapshot
        rw [hn]
      rw [hskip]
    | some key =>
      obtain ⟨snap, hs, hkey⟩ := nodeToSnapshot_isSome hn
      have hins : k ∈ (s.upsertNode n).tables.peers.keys ↔ k = key ∨ k ∈ s.tables.peers.keys := by
        unfold upsertNode
        rw [hs, ← hkey]
        simp [Finmap.mem_keys, Finmap.mem_insert]
      rw [hins]
      simp only [mem_cons]
      rw [or_comm (a := k = key), or_assoc]

theorem mem_keys_applyPeers (s : Applying) (nodes : List NodeWire) (k : NodeKey) :
    k ∈ (s.applyPeers ord nodes).tables.peers.keys ↔ k ∈ listedKeys nodes := by
  unfold applyPeers
  rw [mem_keys_foldl_upsertNode]
  refine ⟨?_, .inr⟩
  rintro (hk | hk)
  · rw [mem_keys_iff] at hk
    obtain ⟨v, hv⟩ := hk
    rw [peers_foldl_dropUnlisted] at hv
    split at hv
    · cases hv
    next hno =>
      have hold : k ∈ ord.order s.tables.peers.keys := by
        rw [ord.mem_order, mem_keys_iff]
        exact ⟨v, hv⟩
      by_contra hk
      exact hno ⟨hold, hk⟩
  · exact hk

theorem run_upserts (snaps : List PeerSnapshot) (pt : PeerTables) :
    run PeerTables.step pt (snaps.map .upsert) =
      ⟨snaps.foldl (fun m snap => m.insert snap.nodeKey snap) pt.peers,
        snaps.foldl (fun m snap => m.insert snap.nodeId snap.nodeKey) pt.idToKey⟩ := by
  induction snaps generalizing pt with
  | nil => rfl
  | cons snap snaps ih =>
    rw [map_cons, run_cons, ih]
    rfl

theorem tables_applyPeers (s : Applying) (nodes : List NodeWire) :
    (s.applyPeers ord nodes).tables =
      run PeerTables.step {} ((nodes.filterMap nodeToSnapshot).map .upsert) := by
  unfold applyPeers
  rw [tables_foldl_upsertNode, run_upserts, run_upserts]
  congr 1
  apply Finmap.ext_lookup
  intro k
  rw [lookup_foldl_insert (fun snap : PeerSnapshot => snap.nodeKey) (fun snap => snap),
    lookup_foldl_insert (fun snap : PeerSnapshot => snap.nodeKey) (fun snap => snap),
    peers_foldl_dropUnlisted, Finmap.lookup_empty]
  by_cases hk : k ∈ nodes.filterMap (fun n => parseNodekey n.key)
  · obtain ⟨snap, hs, he⟩ := (mem_listedKeys_iff nodes k).1 hk
    have hne : (nodes.filterMap nodeToSnapshot).filter (fun snap => decide (snap.nodeKey = k)) ≠ [] :=
      ne_nil_of_mem (mem_filter.2 ⟨hs, by simpa using he⟩)
    rw [getLast?_eq_some_getLast hne]
    rfl
  · have hnone : (if k ∈ ord.order s.tables.peers.keys ∧ k ∉ nodes.filterMap (fun n => parseNodekey n.key)
        then none else s.tables.peers.lookup k) = none := by
      by_cases hold : k ∈ ord.order s.tables.peers.keys
      · rw [if_pos ⟨hold, hk⟩]
      · rw [if_neg (fun h => hold h.1)]
        rw [ord.mem_order, Finmap.mem_keys] at hold
        exact Finmap.lookup_eq_none.2 hold
    rw [hnone]

theorem tables_applyPeerChanges (resp : MapResponseWire) (s : Applying) :
    (applyPeerChanges ord resp s).tables = run PeerTables.step s.tables (frameOps resp) := by
  unfold applyPeerChanges frameOps
  simp only [run_append]
  rw [tables_foldl_applyPatch, tables_foldl_removeId, tables_foldl_upsertNode]
  cases resp.peers with
  | none => rfl
  | some nodes =>
    rw [tables_applyPeers]
    rfl

theorem apply_tables (nm : NetMap) (resp : MapResponseWire) :
    (nm.apply ord resp).1.toPeerTables = run PeerTables.step nm.toPeerTables (frameOps resp) := by
  rw [(NetMap.apply_peers ord nm resp).1, tables_applyPeerChanges]

def KeyedByOwn (pt : PeerTables) : Prop := ∀ k s, pt.peers.lookup k = some s → s.nodeKey = k

variable {s : PeerSnapshot}

theorem keyed_insert {peers : HashMap NodeKey PeerSnapshot} (h : ∀ k s, peers.lookup k = some s → s.nodeKey = k)
    {k : NodeKey} (hs : s.nodeKey = k) :
    ∀ k' s', (peers.insert k s).lookup k' = some s' → s'.nodeKey = k' := by
  intro k' s' hs'
  rw [lookup_insert_eq] at hs'
  split at hs'
  next he =>
    cases hs'
    exact hs.trans he.symm
  · exact h k' s' hs'

theorem keyed_erase {peers : HashMap NodeKey PeerSnapshot} (h : ∀ k s, peers.lookup k = some s → s.nodeKey = k)
    (k : NodeKey) : ∀ k' s', (peers.erase k).lookup k' = some s' → s'.nodeKey = k' := by
  intro k' s' hs'
  rw [lookup_erase_eq] at hs'
  split at hs'
  · cases hs'
  · exact h k' s' hs'

theorem keyed_step (pt : PeerTables) (op : PeerOp) (h : KeyedByOwn pt) : KeyedByOwn (pt.step op) := by
  cases op with
  | clear =>
    intro k s hs
    cases hs
  | upsert snap => exact keyed_insert h rfl
  | remove id =>
    simp only [PeerTables.step]
    split
    · exact h
    · exact keyed_erase h _
  | patch p =>
    simp only [PeerTables.step]
    split
    · exact h
    · split
      · exact h
      next nodeKey _ _ peer hpeer =>
        split
        · exact keyed_insert (keyed_erase h nodeKey) rfl
        · exact keyed_insert h (h nodeKey peer hpeer)

/-! ## The reference table -/

abbrev NodeTable := HashMap NodeId PeerSnapshot

def patched (s : PeerSnapshot) (p : PeerChangeWire) : PeerSnapshot :=
  applyPatchFields { s with nodeKey := (p.key.bind parseNodekey).getD s.nodeKey } p

def tableStep (t : NodeTable) : PeerOp → NodeTable
  | .clear => ∅
  | .upsert snap => t.insert snap.nodeId snap
  | .remove id => t.erase id
  | .patch p =>
    match t.lookup p.nodeId with
    | none => t
    | some s => t.insert p.nodeId (patched s p)

def KeysDistinct (t : NodeTable) : Prop :=
  ∀ id id' s s', t.lookup id = some s → t.lookup id' = some s' → s.nodeKey = s'.nodeKey → id = id'

def KeepsKey (t : NodeTable) : PeerOp → Prop
  | .upsert snap => ∀ s, t.lookup snap.nodeId = some s → s.nodeKey = snap.nodeKey
  | _ => True

/-- The netmap's tables are the table, by node key and by number. -/
structure Refines (pt : PeerTables) (t : NodeTable) : Prop where
  peers : ∀ k s, pt.peers.lookup k = some s ↔ ∃ id, t.lookup id = some s ∧ s.nodeKey = k
  ids : ∀ id k, pt.idToKey.lookup id = some k ↔ ∃ s, t.lookup id = some s ∧ s.nodeKey = k

structure TableWf (t : NodeTable) : Prop where
  distinct : KeysDistinct t
  own : ∀ id s, t.lookup id = some s → s.nodeId = id

theorem tableWf_empty : TableWf ∅ where
  distinct _ _ _ _ h := by cases h
  own _ _ h := by cases h

theorem refines_empty : Refines {} ∅ where
  peers k s := by simp
  ids id k := by simp

theorem patched_nodeId (s : PeerSnapshot) (p : PeerChangeWire) : (patched s p).nodeId = s.nodeId := rfl

variable {t : NodeTable}

theorem tableWf_insert (h : TableWf t) (snap : PeerSnapshot)
    (hd : KeysDistinct (t.insert snap.nodeId snap)) : TableWf (t.insert snap.nodeId snap) := by
  refine ⟨hd, fun id s hs => ?_⟩
  rw [lookup_insert_eq] at hs
  split at hs
  next he =>
    cases hs
    exact he.symm
  · exact h.own id s hs

variable {p : PeerChangeWire}

theorem tableStep_patch (h : TableWf t)
    (hs : t.lookup p.nodeId = some s) : tableStep t (.patch p) = t.insert (patched s p).nodeId (patched s p) := by
  simp only [tableStep]
  rw [hs, patched_nodeId, h.own _ _ hs]

theorem tableWf_step (h : TableWf t) (op : PeerOp) (hd : KeysDistinct (tableStep t op)) : TableWf (tableStep t op) := by
  cases op with
  | clear => exact tableWf_empty
  | upsert snap => exact tableWf_insert h snap hd
  | remove id =>
    refine ⟨hd, fun id' s hs => ?_⟩
    simp only [tableStep] at hs
    rw [lookup_erase_eq] at hs
    split at hs
    · cases hs
    · exact h.own id' s hs
  | patch p =>
    cases hs : t.lookup p.nodeId with
    | none =>
      simp only [tableStep, hs]
      exact h
    | some s =>
      rw [tableStep_patch h hs] at hd ⊢
      exact tableWf_insert h _ hd

variable {pt : PeerTables}

theorem refines_replace (hr : Refines pt t) (hw : TableWf t) (snap : PeerSnapshot)
    (hd : KeysDistinct (t.insert snap.nodeId snap)) (peers : HashMap NodeKey PeerSnapshot)
    (hp : ∀ k s, k ≠ snap.nodeKey → (peers.lookup k = some s ↔
      pt.peers.lookup k = some s ∧ ∀ s', t.lookup snap.nodeId = some s' → s'.nodeKey ≠ k)) :
    Refines ⟨peers.insert snap.nodeKey snap, pt.idToKey.insert snap.nodeId snap.nodeKey⟩
      (t.insert snap.nodeId snap) := by
  have hsnap : (t.insert snap.nodeId snap).lookup snap.nodeId = some snap := by
    rw [lookup_insert_eq, if_pos rfl]
  refine ⟨fun k s => ?_, fun id k => ?_⟩
  · simp only
    rw [lookup_insert_eq]
    split
    next hk =>
      subst hk
      constructor
      · intro he
        cases he
        exact ⟨snap.nodeId, hsnap, rfl⟩
      · rintro ⟨id, hs, hkey⟩
        have hid := hd id snap.nodeId s snap hs hsnap hkey
        rwa [hid, hsnap] at hs
    next hk =>
      rw [hp k s hk, hr.peers]
      constructor
      · rintro ⟨⟨id, hs, hkey⟩, hold⟩
        have hid : id ≠ snap.nodeId := fun he => hold s (he ▸ hs) hkey
        exact ⟨id, by rw [lookup_insert_eq, if_neg hid]; exact hs, hkey⟩
      · rintro ⟨id, hs, hkey⟩
        rw [lookup_insert_eq] at hs
        split at hs
        · cases hs
          exact absurd hkey.symm hk
        next hid =>
          refine ⟨⟨id, hs, hkey⟩, fun s' hs' hkey' => ?_⟩
          exact hid (hw.distinct id snap.nodeId s s' hs hs' (hkey.trans hkey'.symm))
  · simp only
    rw [lookup_insert_eq, lookup_insert_eq]
    split
    · simp
    · exact hr.ids id k

theorem refines_upsert (hr : Refines pt t) (hw : TableWf t) (snap : PeerSnapshot)
    (hd : KeysDistinct (t.insert snap.nodeId snap))
    (hk : ∀ s, t.lookup snap.nodeId = some s → s.nodeKey = snap.nodeKey) :
    Refines (pt.step (.upsert snap)) (tableStep t (.upsert snap)) := by
  refine refines_replace hr hw snap hd pt.peers (fun k s hne => ⟨fun h => ⟨h, fun s' hs' he => ?_⟩, fun h => h.1⟩)
  exact hne (he.symm.trans (hk s' hs'))

theorem Refines.id_absent_iff (hr : Refines pt t) (id : NodeId) : pt.idToKey.lookup id = none ↔ t.lookup id = none := by
  constructor
  · intro hid
    cases ht : t.lookup id with
    | none => rfl
    | some s =>
      rw [(hr.ids id s.nodeKey).2 ⟨s, ht, rfl⟩] at hid
      cases hid
  · intro ht
    cases hk : pt.idToKey.lookup id with
    | none => rfl
    | some k =>
      obtain ⟨s, hs, -⟩ := (hr.ids id k).1 hk
      rw [ht] at hs
      cases hs

theorem refines_remove (hr : Refines pt t) (hw : TableWf t) (id : NodeId) :
    Refines (pt.step (.remove id)) (tableStep t (.remove id)) := by
  simp only [PeerTables.step, tableStep]
  cases hid : pt.idToKey.lookup id with
  | none =>
    rwa [erase_of_lookup_none ((hr.id_absent_iff id).1 hid)]
  | some key =>
    obtain ⟨s0, hs0, hkey0⟩ := (hr.ids id key).1 hid
    refine ⟨fun k s => ?_, fun id' k => ?_⟩
    · simp only
      rw [lookup_erase_eq]
      constructor
      · intro h
        split at h
        · cases h
        next hk =>
          obtain ⟨id', hs, he⟩ := (hr.peers k s).1 h
          have hne : id' ≠ id := fun hi => by
            rw [hi, hs0] at hs
            cases hs
            exact hk (he.symm.trans hkey0)
          exact ⟨id', by rw [lookup_erase_eq, if_neg hne]; exact hs, he⟩
      · rintro ⟨id', hs, he⟩
        rw [lookup_erase_eq] at hs
        split at hs
        · cases hs
        next hne =>
          rw [if_neg]
          · exact (hr.peers k s).2 ⟨id', hs, he⟩
          · intro hk
            exact hne (hw.distinct id' id s s0 hs hs0 (by rw [he, hkey0, hk]))
    · simp only
      rw [lookup_erase_eq, lookup_erase_eq]
      split
      · simp
      · exact hr.ids id' k

theorem patched_of_rekeyTo {newKey : NodeKey} (h : rekeyTo p s.nodeKey = some newKey) :
    patched s p = applyPatchFields { s with nodeKey := newKey } p := by
  unfold rekeyTo at h
  unfold patched
  cases hk : p.key.bind parseNodekey with
  | none =>
    rw [hk] at h
    cases h
  | some k =>
    rw [hk] at h
    simp only at h
    split at h
    · cases h
      rfl
    · cases h

theorem patched_of_rekeyTo_none (h : rekeyTo p s.nodeKey = none) : patched s p = applyPatchFields s p := by
  unfold rekeyTo at h
  unfold patched
  cases hk : p.key.bind parseNodekey with
  | none => rfl
  | some k =>
    rw [hk] at h
    simp only at h
    split at h
    · cases h
    next hne =>
      have : k = s.nodeKey := not_not.1 hne
      subst this
      rfl

theorem refines_replace_moved (hr : Refines pt t) (hw : TableWf t) (snap : PeerSnapshot)
    (hown : t.lookup snap.nodeId = some s) (hd : KeysDistinct (t.insert snap.nodeId snap)) :
    Refines ⟨(pt.peers.erase s.nodeKey).insert snap.nodeKey snap, pt.idToKey.insert snap.nodeId snap.nodeKey⟩
      (t.insert snap.nodeId snap) := by
  refine refines_replace hr hw snap hd (pt.peers.erase s.nodeKey) (fun k r hk => ?_)
  rw [lookup_erase_eq, hown]
  simp only [Option.some.injEq]
  constructor
  · intro h
    split at h
    · cases h
    next hks =>
      refine ⟨h, fun s' hs' he => ?_⟩
      subst hs'
      exact hks he.symm
  · rintro ⟨h, hold⟩
    rwa [if_neg (fun he => hold s rfl he.symm)]

theorem refines_replace_same (hr : Refines pt t) (hw : TableWf t) (snap : PeerSnapshot)
    (hown : t.lookup snap.nodeId = some s) (hkey : snap.nodeKey = s.nodeKey)
    (hd : KeysDistinct (t.insert snap.nodeId snap)) :
    Refines ⟨pt.peers.insert snap.nodeKey snap, pt.idToKey⟩ (t.insert snap.nodeId snap) := by
  have hself : pt.idToKey.insert snap.nodeId snap.nodeKey = pt.idToKey := by
    rw [hkey]
    exact insert_of_lookup ((hr.ids _ _).2 ⟨s, hown, rfl⟩)
  have hup : Refines ⟨_, pt.idToKey.insert snap.nodeId snap.nodeKey⟩ _ := refines_upsert hr hw snap hd fun s' hs' => by
    rw [hown] at hs'
    cases hs'
    exact hkey.symm
  rwa [hself] at hup

theorem refines_patch (hr : Refines pt t) (hw : TableWf t) (p : PeerChangeWire)
    (hd : KeysDistinct (tableStep t (.patch p))) : Refines (pt.step (.patch p)) (tableStep t (.patch p)) := by
  cases hs : t.lookup p.nodeId with
  | none =>
    simp only [PeerTables.step, tableStep, (hr.id_absent_iff _).2 hs, hs]
    exact hr
  | some s =>
    have hid : pt.idToKey.lookup p.nodeId = some s.nodeKey := (hr.ids _ _).2 ⟨s, hs, rfl⟩
    have hpeer : pt.peers.lookup s.nodeKey = some s := (hr.peers _ _).2 ⟨p.nodeId, hs, rfl⟩
    have hown : t.lookup (patched s p).nodeId = some s := by
      rwa [patched_nodeId, hw.own _ _ hs]
    rw [tableStep_patch hw hs] at hd ⊢
    simp only [PeerTables.step, hid, hpeer]
    cases hrk : rekeyTo p s.nodeKey with
    | some newKey =>
      have hpat := patched_of_rekeyTo hrk
      have := refines_replace_moved hr hw (patched s p) hown hd
      rw [hpat] at this ⊢
      exact this
    | none =>
      have hpat := patched_of_rekeyTo_none hrk
      have hkey : (patched s p).nodeKey = s.nodeKey := by
        rw [hpat]
        rfl
      have := refines_replace_same hr hw (patched s p) hown hkey hd
      rw [hkey] at this
      rw [hpat] at this ⊢
      exact this

theorem refines_step (hr : Refines pt t) (hw : TableWf t) (op : PeerOp)
    (hd : KeysDistinct (tableStep t op)) (hk : KeepsKey t op) : Refines (pt.step op) (tableStep t op) := by
  cases op with
  | clear => exact refines_empty
  | upsert snap => exact refines_upsert hr hw snap hd hk
  | remove id => exact refines_remove hr hw id
  | patch p => exact refines_patch hr hw p hd

theorem keepsKey_of_refines_upsert (hr : Refines pt t) (hw : TableWf t) (snap : PeerSnapshot)
    (h : Refines (pt.step (.upsert snap)) (tableStep t (.upsert snap))) :
    KeepsKey t (.upsert snap) := by
  intro s hs
  by_contra hne
  have hold : (pt.step (.upsert snap)).peers.lookup s.nodeKey = some s := by
    simp only [PeerTables.step]
    rw [lookup_insert_eq, if_neg hne]
    exact (hr.peers _ _).2 ⟨snap.nodeId, hs, rfl⟩
  obtain ⟨id, hid, -⟩ := (h.peers _ _).1 hold
  simp only [tableStep] at hid
  rw [lookup_insert_eq] at hid
  split at hid
  · cases hid
    exact hne rfl
  next hidne => exact hidne (hw.distinct id snap.nodeId s s hid hs rfl)

/-! ## Runs of frames -/

def netmapAfter (frames : List (HashOrder NodeKey × MapResponseWire)) : NetMap :=
  run (fun nm f => (nm.apply f.1 f.2).1) {} frames

def tableAfter (frames : List (HashOrder NodeKey × MapResponseWire)) : NodeTable :=
  run tableStep ∅ (frames.flatMap (fun f => frameOps f.2))

theorem tables_run_apply : ∀ (frames : List (HashOrder NodeKey × MapResponseWire)) (nm : NetMap),
    (run (fun nm f => (nm.apply f.1 f.2).1) nm frames).toPeerTables =
      run PeerTables.step nm.toPeerTables (frames.flatMap (fun f => frameOps f.2))
  | [], _ => rfl
  | f :: frames, nm => by
    rw [run_cons, tables_run_apply frames, flatMap_cons, run_append, apply_tables]

theorem frameOps_peersChanged {snap : PeerSnapshot} (h : nodeToSnapshot n = some snap) :
    frameOps { peersChanged := some [n] } = [.upsert snap] := by
  simp [frameOps, h]

/-- **The netmap refines the table keyed by number**, over every sequence of frames in which distinct numbers carry
distinct keys and no full record changes the key of a known number; and at the next full record it goes on doing so
exactly when that record keeps the key. -/
theorem netmap_refines_node_table (frames : List (HashOrder NodeKey × MapResponseWire))
    (h : Along tableStep (fun t op => KeysDistinct (tableStep t op) ∧ KeepsKey t op) ∅
      (frames.flatMap (fun f => frameOps f.2))) :
    Refines (netmapAfter frames).toPeerTables (tableAfter frames) ∧
    (∀ id k, (netmapAfter frames).idToKey.lookup id = some k ↔
      ∃ s, (netmapAfter frames).peers.lookup k = some s ∧ s.nodeId = id) ∧
    ∀ ord n snap, nodeToSnapshot n = some snap → KeysDistinct (tableStep (tableAfter frames) (.upsert snap)) →
      (Refines ((netmapAfter frames).apply ord { peersChanged := some [n] }).1.toPeerTables
          (tableStep (tableAfter frames) (.upsert snap)) ↔ KeepsKey (tableAfter frames) (.upsert snap)) := by
  have hrun : Refines (netmapAfter frames).toPeerTables (tableAfter frames) ∧ TableWf (tableAfter frames) := by
    unfold netmapAfter tableAfter
    rw [tables_run_apply]
    refine run_sim (fun pt t => Refines pt t ∧ TableWf t) (fun pt t op hr hok => ?_) _ _ _
      ⟨refines_empty, tableWf_empty⟩ h
    exact ⟨refines_step hr.1 hr.2 op hok.1 hok.2, tableWf_step hr.2 op hok.1⟩
  obtain ⟨hr, hw⟩ := hrun
  refine ⟨hr, fun id k => ?_, fun ord n snap hn hd => ?_⟩
  · rw [hr.ids]
    constructor
    · rintro ⟨s, hs, hk⟩
      exact ⟨s, (hr.peers k s).2 ⟨id, hs, hk⟩, hw.own id s hs⟩
    · rintro ⟨s, hs, hid⟩
      obtain ⟨id', hs', hk⟩ := (hr.peers k s).1 hs
      have := hw.own id' s hs'
      exact ⟨s, by rw [← hid, this]; exact hs', hk⟩
  · rw [apply_tables, frameOps_peersChanged hn, run_cons, run_nil]
    exact ⟨keepsKey_of_refines_upsert hr hw snap, refines_upsert hr hw snap hd⟩

def keyText (c : Char) : Text := nodekeyLead ++ List.replicate 64 c

def keyOf (d : BitVec 8) : NodeKey := keyOfBytes (List.replicate 32 d)

def nodeKeyOrder : HashOrder NodeKey := HashOrder.byRank BitVec.toNat (fun _ _ h => BitVec.eq_of_toNat_eq h)

theorem keysDistinct_insert_self {i : NodeId} (h : ∀ id s, t.lookup id = some s → id = i) (snap : PeerSnapshot) :
    (∀ id s, (t.insert i snap).lookup id = some s → id = i) ∧ KeysDistinct (t.insert i snap) := by
  have honly : ∀ id s, (t.insert i snap).lookup id = some s → id = i := fun id s hs => by
    rw [lookup_insert_eq] at hs
    split at hs
    next he => exact he
    · exact h id s hs
  exact ⟨honly, fun id id' s s' hs hs' _ => (honly id s hs).trans (honly id' s' hs').symm⟩

theorem netmap_refines_node_table_rekeyed :
    let frames := [(nodeKeyOrder, ({ peers := some [{ id := 1, key := keyText '1' }] } : MapResponseWire)),
      (nodeKeyOrder, { peersChangedPatch := some [{ nodeId := 1, key := some (keyText '2') }] })]
    (netmapAfter frames).idToKey.lookup 1 = some (keyOf 0x22) ∧
      ∃ s, (netmapAfter frames).peers.lookup (keyOf 0x22) = some s ∧ s.nodeId = 1 := by
  intro frames
  have hkey : (netmapAfter frames).idToKey.lookup 1 = some (keyOf 0x22) := by decide
  have hfirst := keysDistinct_insert_self (t := ∅) (i := 1) nofun
    ⟨1, keyOf 0x11, none, [], [], 0, false, [], none, none⟩
  have hops : Along tableStep (fun t op => KeysDistinct (tableStep t op) ∧ KeepsKey t op) ∅
      (frames.flatMap (fun f => frameOps f.2)) :=
    ⟨⟨tableWf_empty.distinct, trivial⟩, ⟨hfirst.2, fun s hs => by cases hs⟩,
      ⟨(keysDistinct_insert_self hfirst.1 _).2, trivial⟩, trivial⟩
  exact ⟨hkey, ((netmap_refines_node_table frames hops).2.1 1 (keyOf 0x22)).1 hkey⟩

/-- **A full record with a rotated key leaves a stale peer**: node 1, listed under one key and then sent whole under
another, is in the netmap twice. -/
theorem netmap_keeps_stale_key :
    let frames := [(nodeKeyOrder, ({ peers := some [{ id := 1, key := keyText '1' }] } : MapResponseWire)),
      (nodeKeyOrder, { peersChanged := some [{ id := 1, key := keyText '2' }] })]
    Along tableStep (fun t op => KeysDistinct (tableStep t op)) ∅ (frames.flatMap (fun f => frameOps f.2)) ∧
      (netmapAfter frames).idToKey.lookup 1 = some (keyOf 0x22) ∧
      ((netmapAfter frames).peers.lookup (keyOf 0x11)).isSome = true ∧
      ¬ Refines (netmapAfter frames).toPeerTables (tableAfter frames) := by
  intro frames
  have hfirst := keysDistinct_insert_self (t := ∅) (i := 1) nofun
    ⟨1, keyOf 0x11, none, [], [], 0, false, [], none, none⟩
  have hsecond := keysDistinct_insert_self hfirst.1 ⟨1, keyOf 0x22, none, [], [], 0, false, [], none, none⟩
  refine ⟨⟨tableWf_empty.distinct, hfirst.2, hsecond.2, trivial⟩, by decide, by decide, fun hr => ?_⟩
  have hstale : (netmapAfter frames).peers.lookup (keyOf 0x11) =
      some ⟨1, keyOf 0x11, none, [], [], 0, false, [], none, none⟩ := by decide
  obtain ⟨id, hid, -⟩ := (hr.peers _ _).1 hstale
  have hone : id = 1 := hsecond.1 id _ hid
  subst hone
  exact absurd hid (by decide)

end TailscaleVita.Ctl

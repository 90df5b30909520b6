import TailscaleVita.CtlNodeTable
import TailscaleVita.Replay
/-!
# CtlRecords — the delta of a frame as a change log of the netmap

What a consumer reads of a peer record is a function `g` of it. A frame's changes keep the log of the readings in step
with the netmap if patches do not change what is read, or no record is patched after it was rekeyed in the same frame.
-/
namespace TailscaleVita.Ctl

open Function List

section

variable {V : Type} (g : PeerSnapshot → V)

def PeerTables.read (pt : PeerTables) (k : NodeKey) : Option V := (pt.peers.lookup k).map g

def PeerDelta.log (d : PeerDelta) : ChangeLog NodeKey V where
  sets := d.upserted.map (fun p => (p.nodeKey, g p))
  dels := d.removed
  moves := d.rekeyed.map (fun r => (r.oldKey, r.snapshot.nodeKey, g r.snapshot))

def RekeysApart (d : PeerDelta) : Prop := ∀ r ∈ d.rekeyed, ∀ p ∈ d.upserted, p.nodeKey ≠ r.snapshot.nodeKey

def ReadsAlike (d : PeerDelta) : Prop := (∀ peer p, g (applyPatchFields peer p) = g peer) ∨ RekeysApart d

def InLog (start : NodeKey → Option V) (s : Applying) : Prop :=
  ReadsAlike g s.delta → Tracks start (s.tables.read g) (s.delta.log g)

theorem read_insert (pt : PeerTables) (k : NodeKey) (s : PeerSnapshot) (ids : HashMap NodeId NodeKey) :
    PeerTables.read g ⟨pt.peers.insert k s, ids⟩ = update (pt.read g) k (some (g s)) := by
  funext k'
  unfold PeerTables.read
  rw [HashMap.lookup_insert_eq, update_apply]
  split <;> rfl

theorem read_erase (pt : PeerTables) (k : NodeKey) (ids : HashMap NodeId NodeKey) :
    PeerTables.read g ⟨pt.peers.erase k, ids⟩ = update (pt.read g) k none := by
  funext k'
  unfold PeerTables.read
  rw [HashMap.lookup_erase_eq, update_apply]
  split <;> rfl

variable {g}

theorem ReadsAlike.of_more {d d' : PeerDelta} (h : ReadsAlike g d') (hu : ∀ p ∈ d.upserted, p ∈ d'.upserted)
    (hr : ∀ r ∈ d.rekeyed, r ∈ d'.rekeyed) : ReadsAlike g d :=
  h.imp_right (fun ha r hr' p hp => ha r (hr r hr') p (hu p hp))

theorem not_touched_of_no_rekey {d : PeerDelta} (h : d.rekeyed = []) (k : NodeKey) : ¬ Touched (d.log g).moves k := by
  rintro ⟨m, hm, -⟩
  unfold PeerDelta.log at hm
  rw [h] at hm
  cases hm

variable {start : NodeKey → Option V} {s : Applying}

theorem inLog_upsertNode (h : InLog g start s) (hr : s.delta.rekeyed = []) (n : NodeWire) :
    InLog g start (s.upsertNode n) ∧ (s.upsertNode n).delta.rekeyed = [] := by
  unfold Applying.upsertNode
  cases nodeToSnapshot n with
  | none => exact ⟨h, hr⟩
  | some snap =>
    refine ⟨fun hg => ?_, hr⟩
    have hlog := (h (hg.of_more (fun _ => mem_append_left _) (fun _ hr' => hr'))).set snap.nodeKey (g snap)
      (not_touched_of_no_rekey hr snap.nodeKey)
    simp only [PeerDelta.log, map_append, map_cons, map_nil] at hlog ⊢
    rwa [read_insert]

theorem inLog_del (h : InLog g start s) (hr : s.delta.rekeyed = []) (k : NodeKey) (ids : HashMap NodeId NodeKey) :
    InLog g start ⟨⟨s.tables.peers.erase k, ids⟩, { s.delta with removed := s.delta.removed ++ [k] }⟩ := by
  intro hg
  have hlog := h hg
  unfold PeerDelta.log at hlog ⊢
  simp only [hr, map_nil] at hlog ⊢
  rw [read_erase]
  exact hlog.del k

theorem inLog_dropUnlisted (h : InLog g start s) (hr : s.delta.rekeyed = []) (newKeys : List NodeKey) (old : NodeKey) :
    InLog g start (s.dropUnlisted newKeys old) ∧ (s.dropUnlisted newKeys old).delta.rekeyed = [] := by
  unfold Applying.dropUnlisted
  split
  · exact ⟨h, hr⟩
  · exact ⟨inLog_del h hr old _, hr⟩

theorem inLog_removeId (h : InLog g start s) (hr : s.delta.rekeyed = []) (id : NodeId) :
    InLog g start (s.removeId id) ∧ (s.removeId id).delta.rekeyed = [] := by
  unfold Applying.removeId
  split
  · exact ⟨h, hr⟩
  · exact ⟨inLog_del h hr _ _, hr⟩

theorem not_touched_of_lookup {peer : PeerSnapshot} {k : NodeKey}
    (h : Tracks start (s.tables.read g) (s.delta.log g)) (hk : s.tables.peers.lookup k = some peer)
    (hto : ∀ r ∈ s.delta.rekeyed, r.snapshot.nodeKey ≠ k) : ¬ Touched (s.delta.log g).moves k := by
  intro ht
  have hmoves : ∀ m ∈ (s.delta.log g).moves, m.2.1 ≠ k := by
    intro m hm
    obtain ⟨r, hr, rfl⟩ := mem_map.1 hm
    exact hto r hr
  have hfrom : ∃ m ∈ (s.delta.log g).moves, m.1 = k := by
    obtain ⟨m, hm, he | he⟩ := ht
    · exact ⟨m, hm, he.symm⟩
    · exact absurd he.symm (hmoves m hm)
  have hgone : s.tables.read g k = none := by
    rw [← h.moved k ht (fun _ => none)]
    exact replayMoves_from _ _ k hfrom hmoves
  rw [PeerTables.read, hk] at hgone
  cases hgone

theorem inLog_applyPatch (h : InLog g start s) (p : PeerChangeWire) (hkeys : KeyedByOwn s.tables) :
    InLog g start (s.applyPatch p) := by
  unfold Applying.applyPatch
  cases hid : s.tables.idToKey.lookup p.nodeId with
  | none => exact h
  | some nodeKey =>
    simp only
    cases hpeer : s.tables.peers.lookup nodeKey with
    | none => exact h
    | some peer =>
      cases Applying.rekeyTo p nodeKey with
      | some newKey =>
        intro hg
        have hlog := h (hg.of_more (fun _ hp => hp) (fun _ => mem_append_left _))
        unfold PeerDelta.log at hlog ⊢
        simp only [map_append, map_cons, map_nil]
        have herase : PeerTables.read g ⟨s.tables.peers.erase nodeKey, s.tables.idToKey⟩ =
            update (s.tables.read g) nodeKey none := read_erase g _ _ _
        rw [read_insert g ⟨s.tables.peers.erase nodeKey, s.tables.idToKey⟩, herase]
        exact hlog.move nodeKey newKey _
      | none =>
        intro hg
        have hkey : (applyPatchFields peer p).nodeKey = nodeKey := hkeys nodeKey peer hpeer
        have hread : s.tables.read g nodeKey = some (g peer) := by
          rw [PeerTables.read, hpeer]
          rfl
        have hlog := h (hg.of_more (fun _ => mem_append_left _) (fun _ hr => hr))
        have hset : Tracks start (update (s.tables.read g) nodeKey (some (g (applyPatchFields peer p))))
            { s.delta.log g with sets := (s.delta.log g).sets ++ [(nodeKey, g (applyPatchFields peer p))] } := by
          rcases hg with hsame | hapart
          · rw [hsame, ← hread, update_eq_self]
            exact hlog.reset nodeKey (g peer) hread
          · refine hlog.set nodeKey _ (not_touched_of_lookup hlog hpeer fun r hr he => ?_)
            exact hapart r hr _ (mem_append_right _ (mem_singleton.2 rfl)) (hkey.trans he.symm)
        unfold PeerDelta.log at hset ⊢
        simp only [map_append, map_cons, map_nil]
        rwa [read_insert, hkey]

theorem inLog_foldl {α : Type} (f : Applying → α → Applying)
    (hf : ∀ s a, InLog g start s → s.delta.rekeyed = [] → InLog g start (f s a) ∧ (f s a).delta.rekeyed = [])
    (l : List α) (h : InLog g start s) (hr : s.delta.rekeyed = []) :
    InLog g start (l.foldl f s) ∧ (l.foldl f s).delta.rekeyed = [] :=
  run_keeps (fun s => InLog g start s ∧ s.delta.rekeyed = []) (fun s a hs => hf s a hs.1 hs.2) l s ⟨h, hr⟩

theorem inLog_patches (ps : List PeerChangeWire) (h : InLog g start s) (hk : KeyedByOwn s.tables) :
    InLog g start (ps.foldl Applying.applyPatch s) := by
  refine (run_keeps (fun s => InLog g start s ∧ KeyedByOwn s.tables) (fun s p hs => ?_) ps s ⟨h, hk⟩).1
  refine ⟨inLog_applyPatch hs.1 p hs.2, ?_⟩
  rw [tables_applyPatch]
  exact keyed_step s.tables (.patch p) hs.2

theorem keyed_run {pt : PeerTables} (h : KeyedByOwn pt) (ops : List PeerOp) :
    KeyedByOwn (run PeerTables.step pt ops) := run_keeps KeyedByOwn keyed_step ops pt h

theorem keyed_apply {nm : NetMap} (h : KeyedByOwn nm.toPeerTables) (ord : HashOrder NodeKey) (resp : MapResponseWire) :
    KeyedByOwn (nm.apply ord resp).1.toPeerTables := by
  rw [apply_tables]
  exact keyed_run h _

theorem inLog_applyPeerChanges (ord : HashOrder NodeKey) (resp : MapResponseWire) {pt : PeerTables}
    (hk : KeyedByOwn pt) : InLog g (pt.read g) (Applying.applyPeerChanges ord resp ⟨pt, {}⟩) := by
  have h0 : InLog g (pt.read g) ⟨pt, {}⟩ := fun _ => Tracks.begin _
  -- what comes after the full list
  have hrest : ∀ s1 : Applying, InLog g (pt.read g) s1 → s1.delta.rekeyed = [] → KeyedByOwn s1.tables →
      InLog g (pt.read g) ((resp.peersChangedPatch.getD []).foldl Applying.applyPatch
        ((resp.peersRemoved.getD []).foldl Applying.removeId
          ((resp.peersChanged.getD []).foldl Applying.upsertNode s1))) := by
    intro s1 h1 hr1 hk1
    have h2 := inLog_foldl _ (fun s n hs hr => inLog_upsertNode hs hr n) (resp.peersChanged.getD []) h1 hr1
    have h3 := inLog_foldl _ (fun s i hs hr => inLog_removeId hs hr i) (resp.peersRemoved.getD []) h2.1 h2.2
    refine inLog_patches (resp.peersChangedPatch.getD []) h3.1 ?_
    rw [tables_foldl_removeId, tables_foldl_upsertNode]
    exact keyed_run (keyed_run hk1 _) _
  unfold Applying.applyPeerChanges
  cases resp.peers with
  | none => exact hrest _ h0 rfl hk
  | some nodes =>
    have hdropped := inLog_foldl _ (fun s a hs hr => inLog_dropUnlisted hs hr
      (nodes.filterMap (fun n => parseNodekey n.key)) a) (ord.order pt.peers.keys) h0 rfl
    have hlisted : InLog g (pt.read g) ((⟨pt, {}⟩ : Applying).applyPeers ord nodes) ∧
        ((⟨pt, {}⟩ : Applying).applyPeers ord nodes).delta.rekeyed = [] := by
      refine inLog_foldl _ (fun s n hs hr => inLog_upsertNode hs hr n) nodes ?_ ?_
      · exact hdropped.1
      · exact hdropped.2
    refine hrest _ hlisted.1 hlisted.2 ?_
    rw [tables_applyPeers]
    exact keyed_run (by nofun) _

end

end TailscaleVita.Ctl

import TailscaleVita.MsWorld
/-!
# MsPaths — where the liveness of a path comes from

`known s n a` is what the state knows of address `a` of node `n`. Every section either leaves the last ping, the pong
and the outstanding id of a path as they are, or drops the path; only `recordPing` sets the ping and an id, and only
`acceptPong` a pong, for the id that was outstanding.
-/
namespace TailscaleVita.Ms

open Ctl (NodeKey)

namespace MagicState

def known (s : MagicState) (n : NodeKey) (a : SocketAddr) : PathState :=
  match s.peers.lookup n with
  | some peer => pathOrNew peer.paths a
  | none => {}

def tracked (s : MagicState) (n : NodeKey) (a : SocketAddr) : Bool :=
  (s.peers.lookup n).any (fun peer => (peer.paths.lookup a).isSome)

end MagicState

open MagicState

theorem pathOrNew_insert (paths : HashMap SocketAddr PathState) (a a' : SocketAddr) (st : PathState) :
    pathOrNew (paths.insert a st) a' = if a' = a then st else pathOrNew paths a' := by
  unfold pathOrNew
  rw [HashMap.lookup_insert_eq]
  split <;> rfl

theorem pathOrNew_ensurePath (paths : HashMap SocketAddr PathState) (a a' : SocketAddr) :
    pathOrNew (ensurePath paths a) a' = pathOrNew paths a' := by
  unfold ensurePath
  rw [pathOrNew_insert]
  split
  next h => rw [h]
  · rfl

theorem pathOrNew_ensurePaths (a : SocketAddr) : ∀ (l : List SocketAddr) (paths : HashMap SocketAddr PathState),
    pathOrNew (l.foldl ensurePath paths) a = pathOrNew paths a
  | [], _ => rfl
  | a' :: l, paths => by rw [List.foldl_cons, pathOrNew_ensurePaths a l, pathOrNew_ensurePath]

theorem known_setPeer (s : MagicState) (m n : NodeKey) (peer : PeerState) (a : SocketAddr) :
    (s.setPeer m peer).known n a = if n = m then pathOrNew peer.paths a else s.known n a := by
  unfold known setPeer
  rw [HashMap.lookup_insert_eq]
  by_cases h : n = m
  · rw [if_pos h, if_pos h]
  · rw [if_neg h, if_neg h]

variable {s : MagicState}

theorem known_of_lookup {n : NodeKey} {peer : PeerState} (h : s.peers.lookup n = some peer)
    (a : SocketAddr) : s.known n a = pathOrNew peer.paths a := by
  unfold known
  rw [h]

theorem known_of_untracked {n : NodeKey} {a : SocketAddr} (h : s.tracked n a = false) : s.known n a = {} := by
  unfold known
  unfold tracked at h
  cases hp : s.peers.lookup n with
  | none => rfl
  | some peer =>
    rw [hp] at h
    have hnone : peer.paths.lookup a = none := Option.not_isSome_iff_eq_none.1 (ne_true_of_eq_false h)
    simp only [pathOrNew, hnone, Option.getD_none]

def Fades (s s' : MagicState) : Prop :=
  ∀ n a, s'.tracked n a = true → (s'.known n a).lastPingAt = (s.known n a).lastPingAt ∧
    (s'.known n a).lastPongAt = (s.known n a).lastPongAt ∧
    (s'.known n a).outstandingTxId = (s.known n a).outstandingTxId

theorem Fades.cases {s' : MagicState} (h : Fades s s') (n : NodeKey) (a : SocketAddr) :
    ((s'.known n a).lastPingAt = (s.known n a).lastPingAt ∧ (s'.known n a).lastPongAt = (s.known n a).lastPongAt ∧
      (s'.known n a).outstandingTxId = (s.known n a).outstandingTxId) ∨ s'.known n a = {} := by
  cases ht : s'.tracked n a with
  | true => exact .inl (h n a ht)
  | false => exact .inr (known_of_untracked ht)

theorem Fades.of_peers {s s' : MagicState} (h : s'.peers = s.peers) : Fades s s' := fun n a _ => by
  unfold known
  rw [h]
  exact ⟨rfl, rfl, rfl⟩

theorem Fades.refl (s : MagicState) : Fades s s := Fades.of_peers rfl

theorem Fades.setPeer {m : NodeKey} {peer : PeerState}
    (h : ∀ a, (peer.paths.lookup a).isSome → (pathOrNew peer.paths a).lastPingAt = (s.known m a).lastPingAt ∧
      (pathOrNew peer.paths a).lastPongAt = (s.known m a).lastPongAt ∧
      (pathOrNew peer.paths a).outstandingTxId = (s.known m a).outstandingTxId) :
    Fades s (s.setPeer m peer) := fun n a ht => by
  rw [known_setPeer]
  split
  next hn =>
    subst hn
    refine h a ?_
    rwa [tracked, MagicState.setPeer, HashMap.lookup_insert_eq, if_pos rfl] at ht
  · exact ⟨rfl, rfl, rfl⟩

theorem lookup_ensurePaths (a : SocketAddr) : ∀ (l : List SocketAddr) (paths : HashMap SocketAddr PathState),
    ((l.foldl ensurePath paths).lookup a).isSome → a ∈ l ∨ (paths.lookup a).isSome
  | [], _, h => .inr h
  | a' :: l, paths, h => by
    rcases lookup_ensurePaths a l _ h with hl | hl
    · exact .inl (List.mem_cons_of_mem a' hl)
    · unfold ensurePath at hl
      rw [HashMap.lookup_insert_eq] at hl
      by_cases ha : a = a'
      · exact .inl (by rw [ha]; exact List.mem_cons_self)
      · rw [if_neg ha] at hl
        exact .inr hl

theorem fades_upsertPeer (s : MagicState) (ord : Orders) (now : Instant) (n : NodeKey) (d : DiscoKey)
    (endpoints : List SocketAddr) : Fades s (s.upsertPeer ord now n d endpoints) := by
  have hpeers : Fades s (s.setPeer n (upsertPaths ord now d endpoints ((s.peers.lookup n).getD ⟨d, [], ∅⟩))) := by
    refine Fades.setPeer fun a ht => ?_
    unfold upsertPaths at ht ⊢
    have hkept := lookup_ensurePaths a _ _ ht
    rw [pathOrNew_ensurePaths]
    unfold pathOrNew known
    rw [HashOrder.lookup_retain] at hkept ⊢
    cases hp : s.peers.lookup n with
    | none => exact ⟨rfl, rfl, rfl⟩
    | some peer =>
      rw [hp, Option.getD_some] at hkept
      simp only [Option.getD_some]
      unfold pathOrNew
      cases hst : peer.paths.lookup a with
      | none => exact ⟨rfl, rfl, rfl⟩
      | some st =>
        -- a path that is still there was not pruned
        have hk : keepsPath endpoints now a st = true := by
          rw [hst] at hkept
          rcases hkept with hmem | hmem
          · simp [keepsPath, hmem]
          · by_contra hk
            simp [Option.filter, hk] at hmem
        simp [Option.filter, hk]
  exact hpeers

theorem fades_removePeer (s : MagicState) (m : NodeKey) : Fades s (s.removePeer m) := by
  unfold MagicState.removePeer
  split
  · intro n a ht
    unfold known
    unfold tracked at ht
    rw [HashMap.lookup_erase_eq] at ht ⊢
    by_cases h : n = m
    · rw [if_pos h] at ht
      cases ht
    · rw [if_neg h]
      exact ⟨rfl, rfl, rfl⟩
  · exact Fades.refl s

theorem fades_learnSource (s : MagicState) (now : Instant) (m : NodeKey) (src : SocketAddr) :
    Fades s (s.learnSource now m src) := by
  unfold MagicState.learnSource
  cases hp : s.peers.lookup m with
  | none => exact Fades.refl s
  | some peer =>
    simp only
    cases hpath : peer.paths.lookup src with
    | some path =>
      refine Fades.setPeer fun a _ => ?_
      rw [known_of_lookup hp, pathOrNew_insert]
      split
      next ha =>
        rw [ha, pathOrNew, hpath]
        exact ⟨rfl, rfl, rfl⟩
      · exact ⟨rfl, rfl, rfl⟩
    | none =>
      simp only
      split
      · refine Fades.setPeer fun a _ => ?_
        rw [known_of_lookup hp]
        rw [pathOrNew_insert]
        split
        next ha =>
          rw [ha, pathOrNew, hpath]
          exact ⟨rfl, rfl, rfl⟩
        · exact ⟨rfl, rfl, rfl⟩
      · exact Fades.refl s

theorem paths_mergeEndpoints (a : SocketAddr) : ∀ (l : List SocketAddr) (peer : PeerState),
    pathOrNew (l.foldl mergeEndpoint peer).paths a = pathOrNew peer.paths a
  | [], _ => rfl
  | ep :: l, peer => by
    rw [List.foldl_cons, paths_mergeEndpoints a l]
    exact pathOrNew_ensurePath peer.paths ep a

theorem fades_mergeEndpoints (s : MagicState) (d : DiscoKey) (advertised : List SocketAddr) :
    Fades s (s.mergeEndpoints d advertised).1 := by
  unfold MagicState.mergeEndpoints
  split
  · exact Fades.refl s
  · split
    · exact Fades.refl s
    next peer hp =>
      refine Fades.setPeer fun a _ => ?_
      rw [known_of_lookup hp, paths_mergeEndpoints]
      exact ⟨rfl, rfl, rfl⟩

theorem fades_returnPing (s : MagicState) (now : Instant) (tx : TxId) : Fades s (s.returnPing now tx) := by
  refine Fades.of_peers ?_
  unfold MagicState.returnPing
  split <;> rfl

theorem call_fades (now : Instant) (s : MagicState) (request : Request) : Fades s (call now s request).1 := by
  cases request with
  | upsertPeer ord n d endpoints => exact fades_upsertPeer s ord now n d endpoints
  | removePeer n => exact fades_removePeer s n
  | setLocalEndpoints endpoints | takePendingCmm => exact Fades.of_peers rfl
  | pump | datagram src opened | derpFrame opened | pingNow n => exact Fades.refl s

theorem Quiet.fades {s s' : MagicState} (h : Quiet s s') : Fades s s' := by
  cases h with
  | kept hp => exact Fades.of_peers hp
  | merged d advertised => exact fades_mergeEndpoints s d advertised
  | learned at' n src => exact fades_learnSource s at' n src

theorem known_recordPing (s : MagicState) (now : Instant) (m : NodeKey) (addr : SocketAddr) (tx : TxId) (n : NodeKey)
    (a : SocketAddr) :
    (s.recordPing now m addr tx).known n a =
      if (n = m ∧ a = addr) ∧ (s.peers.lookup m).isSome then
        { s.known n a with lastPingAt := some now, outstandingTxId := some tx }
      else s.known n a := by
  unfold MagicState.recordPing
  cases hp : s.peers.lookup m with
  | none => simp
  | some peer =>
    rw [known_setPeer]
    by_cases hn : n = m
    · rw [if_pos hn, hn, known_of_lookup hp, pathOrNew_insert]
      by_cases ha : a = addr <;> simp [ha]
    · simp [hn]

theorem pong_recordPing (s : MagicState) (now : Instant) (m : NodeKey) (addr : SocketAddr) (tx : TxId) (n : NodeKey)
    (a : SocketAddr) : ((s.recordPing now m addr tx).known n a).lastPongAt = (s.known n a).lastPongAt := by
  rw [known_recordPing]
  split <;> rfl

theorem acceptPong_some {now : Instant} {d : DiscoKey} {src : SocketAddr} {tx : TxId} {m : NodeKey}
    (h : (s.acceptPong now d src tx).2 = some m) :
    s.discoToNode.lookup d = some m ∧ (s.known m src).outstandingTxId = some tx ∧
      ∀ n a, (s.acceptPong now d src tx).1.known n a =
        if n = m ∧ a = src then (s.known m src).answer now else s.known n a := by
  unfold MagicState.acceptPong at h ⊢
  cases hd : s.discoToNode.lookup d with
  | none =>
    rw [hd] at h
    cases h
  | some m' =>
    rw [hd] at h
    simp only at h ⊢
    cases hp : s.peers.lookup m' with
    | none =>
      rw [hp] at h
      cases h
    | some peer =>
      rw [hp] at h
      simp only at h ⊢
      cases hpath : peer.paths.lookup src with
      | none =>
        rw [hpath] at h
        cases h
      | some path =>
        rw [hpath] at h
        simp only at h ⊢
        by_cases htx : path.outstandingTxId = some tx
        · rw [if_pos htx] at h ⊢
          cases h
          have hknown : s.known m src = path := by
            rw [known_of_lookup hp, pathOrNew, hpath]
            rfl
          refine ⟨rfl, by rw [hknown, htx], fun n a => ?_⟩
          rw [known_setPeer, hknown]
          by_cases hn : n = m
          · rw [if_pos hn, pathOrNew_insert, hn, known_of_lookup hp]
            simp
          · rw [if_neg hn, if_neg (fun hc => hn hc.1)]
        · rw [if_neg htx] at h
          cases h

end TailscaleVita.Ms

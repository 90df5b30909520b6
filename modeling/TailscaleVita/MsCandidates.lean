import TailscaleVita.MsPeers
/-!
# MsCandidates — the candidate list and the path table of a peer (`ts-magicsock/src/lib.rs`)

A peer has a list of candidate addresses, which the pump walks, and a table of paths. `PeerView` keeps the two as sets,
and one lemma per request and per section says what it makes of them.
-/
namespace TailscaleVita.Ms

open Function List HashMap

open Ctl (NodeKey)

@[ext] structure PeerView where
  candidates : Finset SocketAddr
  tracked : Finset SocketAddr

def PeerState.view (peer : PeerState) : PeerView := ⟨peer.endpoints.toFinset, peer.paths.keys⟩

abbrev Views := NodeKey → Option PeerView

namespace MagicState

def views (s : MagicState) : Views := fun n => (s.peers.lookup n).map PeerState.view

def keptPaths (s : MagicState) (now : Instant) (n : NodeKey) (endpoints : List SocketAddr) : Finset SocketAddr :=
  match s.peers.lookup n with
  | some peer => peer.paths.keys.filter (fun a => (peer.paths.lookup a).any (keepsPath endpoints now a))
  | none => ∅

/-! ## What each section makes of the sets -/

theorem views_setPeer (s : MagicState) (n : NodeKey) (peer : PeerState) :
    (s.setPeer n peer).views = update s.views n (some peer.view) := by
  funext k
  unfold views setPeer
  rw [lookup_insert_eq, update_apply]
  split <;> rfl

variable {s : MagicState} {n : NodeKey}

theorem views_of_lookup {peer : PeerState} (h : s.peers.lookup n = some peer) : s.views n = some peer.view := by
  unfold views
  rw [h]
  rfl

theorem views_of_none (h : s.peers.lookup n = none) : s.views n = none := by
  unfold views
  rw [h]
  rfl

theorem views_setPeer_same {peer peer' : PeerState} (h : s.peers.lookup n = some peer)
    (hv : peer'.view = peer.view) : (s.setPeer n peer').views = s.views := by
  rw [views_setPeer, hv, ← views_of_lookup h, update_eq_self]

theorem update_views_of_none (hp : s.peers.lookup n = none) (f : PeerView → PeerView) :
    update s.views n ((s.views n).map f) = s.views := by
  rw [views_of_none hp, Option.map_none, ← views_of_none hp, update_eq_self]

theorem keys_ensurePaths : ∀ (l : List SocketAddr) (paths : HashMap SocketAddr PathState),
    (l.foldl ensurePath paths).keys = l.toFinset ∪ paths.keys
  | [], paths => by simp
  | a :: l, paths => by
    rw [foldl_cons, keys_ensurePaths l, ensurePath, keys_insert, toFinset_cons]
    ext x
    simp only [Finset.mem_union, Finset.mem_insert]
    tauto

theorem views_upsertPeer (s : MagicState) (ord : Orders) (now : Instant) (n : NodeKey) (d : DiscoKey)
    (endpoints : List SocketAddr) :
    (s.upsertPeer ord now n d endpoints).views = update s.views n
      (some ⟨endpoints.toFinset ∪ s.keptPaths now n endpoints, endpoints.toFinset ∪ s.keptPaths now n endpoints⟩) := by
  have hkept : s.keptPaths now n endpoints =
      (ord.addrs.retain (keepsPath endpoints now) ((s.peers.lookup n).getD ⟨d, [], ∅⟩).paths).keys := by
    rw [HashOrder.keys_retain]
    unfold keptPaths
    cases s.peers.lookup n with
    | none => simp
    | some peer => rfl
  refine (views_setPeer s n _).trans ?_
  rw [hkept]
  congr 2
  unfold upsertPaths PeerState.view
  ext a
  · simp only [toFinset_append, toFinset_filter, Finset.mem_union, Finset.mem_filter, mem_toFinset,
      ord.addrs.mem_order, decide_eq_true_eq]
    tauto
  · simp [keys_ensurePaths]

theorem views_removePeer (s : MagicState) (n : NodeKey) : (s.removePeer n).views = update s.views n none := by
  funext k
  unfold removePeer
  rw [update_apply]
  cases hp : s.peers.lookup n with
  | some peer =>
    unfold views
    rw [lookup_erase_eq]
    split <;> rfl
  | none =>
    simp only
    split
    next hk => rw [hk, views_of_none hp]
    · rfl

theorem toFinset_addOnce (l : List SocketAddr) (a : SocketAddr) :
    (if a ∈ l then l else l ++ [a]).toFinset = insert a l.toFinset := by
  by_cases h : a ∈ l
  · rw [if_pos h, Finset.insert_eq_of_mem (mem_toFinset.2 h)]
  · rw [if_neg h, toFinset_append, Finset.union_comm]
    rfl

theorem views_learnSource (s : MagicState) (now : Instant) (n : NodeKey) (src : SocketAddr) :
    (s.learnSource now n src).views = update s.views n ((s.views n).map fun v =>
      if src ∈ v.tracked ∨ maxPeerPaths ≤ v.tracked.card then v
      else ⟨insert src v.candidates, insert src v.tracked⟩) := by
  unfold learnSource
  cases hp : s.peers.lookup n with
  | none => exact (update_views_of_none hp _).symm
  | some peer =>
    rw [views_of_lookup hp, Option.map_some]
    simp only
    cases hpath : peer.paths.lookup src with
    | some path =>
      have hmem : src ∈ peer.view.tracked := (mem_keys_iff _ _).2 ⟨path, hpath⟩
      let pinged := { path with lastSrcPingAt := some now }
      have hsame : (s.setPeer n { peer with paths := peer.paths.insert src pinged }).views = s.views := by
        refine views_setPeer_same hp ?_
        have hkeys : insert src peer.paths.keys = peer.paths.keys := Finset.insert_eq_of_mem hmem
        simp [PeerState.view, keys_insert, hkeys]
      rwa [if_pos (show src ∈ peer.view.tracked ∨ maxPeerPaths ≤ peer.view.tracked.card from .inl hmem),
        ← views_of_lookup hp, update_eq_self]
    | none =>
      have hnot : src ∉ peer.view.tracked := fun hmem => by
        obtain ⟨st, hst⟩ := (mem_keys_iff _ _).1 hmem
        rw [hpath] at hst
        cases hst
      by_cases hcap : peer.paths.keys.card < maxPeerPaths
      · have hroom : ¬ (src ∈ peer.view.tracked ∨ maxPeerPaths ≤ peer.view.tracked.card) := by
          rw [not_or]
          exact ⟨hnot, Nat.not_le.2 hcap⟩
        rw [if_pos hcap, if_neg hroom, views_setPeer]
        simp [PeerState.view, keys_insert, toFinset_addOnce]
      · have hfull : src ∈ peer.view.tracked ∨ maxPeerPaths ≤ peer.view.tracked.card := .inr (Nat.not_lt.1 hcap)
        rw [if_neg hcap, if_pos hfull, ← views_of_lookup hp, update_eq_self]

theorem view_mergeEndpoint (peer : PeerState) (ep : SocketAddr) :
    (mergeEndpoint peer ep).view = ⟨insert ep peer.view.candidates, insert ep peer.view.tracked⟩ := by
  simp [mergeEndpoint, PeerState.view, ensurePath, keys_insert, toFinset_addOnce]

theorem view_mergeEndpoints : ∀ (l : List SocketAddr) (peer : PeerState),
    (l.foldl mergeEndpoint peer).view = ⟨l.toFinset ∪ peer.view.candidates, l.toFinset ∪ peer.view.tracked⟩
  | [], peer => by simp
  | ep :: l, peer => by
    rw [foldl_cons, view_mergeEndpoints l, view_mergeEndpoint, toFinset_cons, Finset.insert_union,
      Finset.union_insert, Finset.insert_union, Finset.union_insert]

theorem views_mergeEndpoints (s : MagicState) (d : DiscoKey) (advertised : List SocketAddr) :
    (s.mergeEndpoints d advertised).1.views =
      match s.discoToNode.lookup d with
      | some n => update s.views n ((s.views n).map fun v =>
          ⟨advertised.toFinset ∪ v.candidates, advertised.toFinset ∪ v.tracked⟩)
      | none => s.views := by
  unfold mergeEndpoints
  cases s.discoToNode.lookup d with
  | none => rfl
  | some n =>
    simp only
    cases hp : s.peers.lookup n with
    | none => exact (update_views_of_none hp _).symm
    | some peer =>
      rw [views_setPeer, view_mergeEndpoints, views_of_lookup hp, Option.map_some]

theorem views_recordPing (s : MagicState) (now : Instant) (n : NodeKey) (a : SocketAddr) (tx : TxId) :
    (s.recordPing now n a tx).views = update s.views n ((s.views n).map fun v =>
      ⟨v.candidates, insert a v.tracked⟩) := by
  unfold recordPing
  cases hp : s.peers.lookup n with
  | none => exact (update_views_of_none hp _).symm
  | some peer =>
    rw [views_setPeer, views_of_lookup hp, Option.map_some]
    simp [PeerState.view, keys_insert]

theorem views_acceptPong (s : MagicState) (now : Instant) (d : DiscoKey) (src : SocketAddr) (tx : TxId) :
    (s.acceptPong now d src tx).1.views = s.views := by
  unfold acceptPong
  split
  · rfl
  · split
    · rfl
    next peer hp =>
      split
      · rfl
      next path hpath =>
        have hmem : src ∈ peer.paths.keys := (mem_keys_iff _ _).2 ⟨path, hpath⟩
        split
        · refine views_setPeer_same hp ?_
          simp only [PeerState.view, keys_insert, Finset.insert_eq_of_mem hmem]
        · rfl

theorem views_of_peers {s s' : MagicState} (h : s'.peers = s.peers) : s'.views = s.views := by
  unfold views
  rw [h]

end MagicState

open MagicState

def AllViews (P : PeerView → Prop) (vs : Views) : Prop := ∀ n v, vs n = some v → P v

theorem allViews_update_iff {P : PeerView → Prop} {vs : Views} (h : AllViews P vs) (n : NodeKey) (x : Option PeerView) :
    AllViews P (update vs n x) ↔ ∀ v, x = some v → P v := by
  constructor
  · intro hall v hv
    exact hall n v (by rw [update_self, hv])
  · intro hx m v hv
    by_cases hm : m = n
    · rw [hm, update_self] at hv
      exact hx v hv
    · rw [update_of_ne hm] at hv
      exact h m v hv

theorem forall_map_view_iff (s : MagicState) (n : NodeKey) (f : PeerView → PeerView) (P : PeerView → Prop) :
    (∀ v, (s.views n).map f = some v → P v) ↔ ∀ peer, s.peers.lookup n = some peer → P (f peer.view) := by
  unfold views
  cases s.peers.lookup n with
  | none => simp
  | some peer => simp

def Task.Grows (P : PeerView → Prop) (s : MagicState) : Task → Prop
  | .recording _ n a _ _ _ => ∀ peer, s.peers.lookup n = some peer →
      P ⟨peer.view.candidates, insert a peer.view.tracked⟩
  | .calledMaybe _ d advertised => ∀ n peer, s.discoToNode.lookup d = some n → s.peers.lookup n = some peer →
      P ⟨advertised.toFinset ∪ peer.view.candidates, advertised.toFinset ∪ peer.view.tracked⟩
  | .learning _ n _ src _ => ∀ peer, s.peers.lookup n = some peer →
      P (if src ∈ peer.view.tracked ∨ maxPeerPaths ≤ peer.view.tracked.card then peer.view
        else ⟨insert src peer.view.candidates, insert src peer.view.tracked⟩)
  | _ => True

/-- What the event makes of a peer's sets has the property. -/
def Grows (P : PeerView → Prop) (w : MagicWorld) : MagicEvent → Prop
  | .call (.upsertPeer _ n _ endpoints) =>
    let all := endpoints.toFinset ∪ w.shared.keptPaths w.clock n endpoints
    P ⟨all, all⟩
  | .resume id _ =>
    match w.tasks[id]? with
    | some t => t.Grows P w.shared
    | none => True
  | _ => True

section

variable {P : PeerView → Prop}

theorem allViews_resume_iff (now id : Nat) {s : MagicState} (h : AllViews P s.views) (t : Task) (met : Met) :
    AllViews P (resume now id s t met).1.views ↔ t.Grows P s := by
  have hsame {s' : MagicState} (hp : s'.peers = s.peers) : AllViews P s'.views ↔ True := by
    rw [views_of_peers hp]
    exact iff_of_true h trivial
  cases t with simp only [resume]
  | recording at' n a tx jobs after =>
    rw [views_recordPing, allViews_update_iff h, forall_map_view_iff]
    rfl
  | calledMaybe at' d advertised =>
    have hmerge : AllViews P (s.mergeEndpoints d advertised).1.views ↔
        (Task.calledMaybe at' d advertised).Grows P s := by
      rw [views_mergeEndpoints]
      simp only [Task.Grows]
      cases s.discoToNode.lookup d with
      | none => exact iff_of_true h (fun _ _ h => by cases h)
      | some n =>
        rw [allViews_update_iff h, forall_map_view_iff]
        exact ⟨fun hall m peer hm => by cases hm; exact hall peer, fun hall peer => hall n peer rfl⟩
    split <;> exact hmerge
  | learning at' n d src tx =>
    rw [views_learnSource, allViews_update_iff h, forall_map_view_iff]
    rfl
  | accepting at' d src tx =>
    rw [views_acceptPong]
    exact hsame rfl
  | ponged at' d src tx =>
    refine hsame ?_
    unfold MagicState.returnPing
    split <;> rfl
  | pinging at' jobs after | cmmQueueing at' endpoints jobs =>
    cases jobs with
    | nil => exact hsame rfl
    | cons job jobs =>
      simp only
      split <;> exact hsame rfl
  | pinged | picking | sending => split <;> exact hsame rfl
  | awaiting tx =>
    split
    · exact hsame rfl
    · split <;> exact hsame rfl
  | _ => exact hsame rfl

theorem allViews_step_iff (w : MagicWorld) (e : MagicEvent) (h : AllViews P w.shared.views) :
    AllViews P (w.step magicsock e).shared.views ↔ Grows P w e := by
  cases e with
  | wait d => exact iff_of_true h trivial
  | call request =>
    cases request with
    | upsertPeer ord n d endpoints =>
      show AllViews _ (w.shared.upsertPeer ord w.clock n d endpoints).views ↔ _
      rw [views_upsertPeer, allViews_update_iff h]
      simp [Grows]
    | removePeer n =>
      show AllViews _ (w.shared.removePeer n).views ↔ _
      rw [views_removePeer, allViews_update_iff h]
      simp [Grows]
    | _ => exact iff_of_true h trivial
  | resume id met =>
    simp only [World.step, Grows]
    cases w.tasks[id]? with
    | none => exact iff_of_true h trivial
    | some t => exact allViews_resume_iff w.clock id h t met

end

/-! ## The cap -/

def Capped (s : MagicState) : Prop := ∀ n peer, s.peers.lookup n = some peer → peer.paths.keys.card ≤ maxPeerPaths

/-- The event leaves room: an upsert for what it advertises and what it keeps, a CallMeMaybe for what it adds, and a
ping is recorded for a path still tracked or below the cap. -/
def LeavesRoom (w : MagicWorld) : MagicEvent → Prop
  | .call (.upsertPeer _ n _ endpoints) =>
    (endpoints.toFinset ∪ w.shared.keptPaths w.clock n endpoints).card ≤ maxPeerPaths
  | .resume id _ =>
    match w.tasks[id]? with
    | some (.calledMaybe _ d advertised) => ∀ n peer, w.shared.discoToNode.lookup d = some n →
        w.shared.peers.lookup n = some peer → (advertised.toFinset ∪ peer.paths.keys).card ≤ maxPeerPaths
    | some (.recording _ n a _ _ _) => ∀ peer, w.shared.peers.lookup n = some peer →
        a ∈ peer.paths.keys ∨ peer.paths.keys.card < maxPeerPaths
    | _ => True
  | _ => True

theorem capped_iff (s : MagicState) : Capped s ↔ AllViews (fun v => v.tracked.card ≤ maxPeerPaths) s.views := by
  constructor
  · intro h n v hv
    obtain ⟨peer, hp, rfl⟩ := Option.map_eq_some_iff.1 hv
    exact h n peer hp
  · intro h n peer hp
    exact h n peer.view (views_of_lookup hp)

theorem card_insert_le_iff {K : Finset SocketAddr} {a : SocketAddr} (h : K.card ≤ maxPeerPaths) :
    (insert a K).card ≤ maxPeerPaths ↔ a ∈ K ∨ K.card < maxPeerPaths := by
  by_cases ha : a ∈ K
  · rw [Finset.insert_eq_of_mem ha]
    exact iff_of_true h (.inl ha)
  · rw [Finset.card_insert_of_notMem ha]
    constructor
    · intro hc
      exact .inr hc
    · intro hc
      exact hc.resolve_left ha

theorem capped_step_iff (w : MagicWorld) (e : MagicEvent) (h : Capped w.shared) :
    Capped (w.step magicsock e).shared ↔ LeavesRoom w e := by
  rw [capped_iff, allViews_step_iff w e ((capped_iff w.shared).1 h)]
  cases e with
  | wait d => exact Iff.rfl
  | call request => cases request <;> exact Iff.rfl
  | resume id met =>
    simp only [Grows, LeavesRoom]
    cases w.tasks[id]? with
    | none => exact Iff.rfl
    | some t =>
      cases t with
      | recording at' n a tx jobs after => exact forall₂_congr fun peer hp => card_insert_le_iff (h n peer hp)
      | learning at' n d src tx =>
        refine iff_of_true (fun peer hp => ?_) trivial
        have hcap := h n peer hp
        split
        · exact hcap
        next hroom => exact (card_insert_le_iff hcap).2 (.inr (Nat.not_le.1 (not_or.1 hroom).2))
      | _ => exact Iff.rfl

/-- **When the paths of a peer stay within the cap.**  Over every interleaving of the socket's threads, no peer ever
tracks more than `MAX_PEER_PATHS` paths exactly when every upsert, every CallMeMaybe and every recorded ping leaves
room; a learned ping always does. -/
theorem paths_capped_iff (es : List MagicEvent) :
    (∀ es₁, es₁ <+: es → Capped (socketAfter es₁).shared) ↔ Along (World.step magicsock) LeavesRoom bound es := by
  have hbound : Capped bound.shared := fun n peer h => by cases h
  have hkept := run_always_iff capped_step_iff es bound hbound
  exact hkept

def manyAddrs (n : Nat) : List SocketAddr :=
  (List.range n).map (fun i => .v4 (Ipv4Addr.new 192 0 2 1) (BitVec.ofNat 16 i))

/-- **A CallMeMaybe overruns the cap**: a peer registered without endpoints advertises 25 and has 25 paths. -/
theorem callMeMaybe_overruns_cap :
    let s := (socketAfter [.call (.upsertPeer byRank 1 7 []),
      .call (.derpFrame (some (7, .callMeMaybe (manyAddrs 25)))), .resume 0 { ord := byRank }]).shared
    (s.views 1).map (fun v => v.tracked.card) = some 25 ∧ ¬ Capped s := by
  intro s
  have hcard : (s.views 1).map (fun v => v.tracked.card) = some 25 := by decide +kernel
  refine ⟨hcard, fun h => ?_⟩
  obtain ⟨v, hv, hc⟩ := Option.map_eq_some_iff.1 hcard
  have hle := (capped_iff s).1 h 1 v hv
  simp only at hle
  rw [hc] at hle
  exact absurd hle (by decide)

/-! ## Candidates and paths -/

def CandidatesAgree (s : MagicState) : Prop :=
  ∀ n peer, s.peers.lookup n = some peer → ∀ a, a ∈ peer.endpoints ↔ a ∈ peer.paths.keys

def RecordsCandidate (w : MagicWorld) : MagicEvent → Prop
  | .resume id _ =>
    match w.tasks[id]? with
    | some (.recording _ n a _ _ _) => ∀ peer, w.shared.peers.lookup n = some peer → a ∈ peer.endpoints
    | _ => True
  | _ => True

theorem candidatesAgree_iff (s : MagicState) :
    CandidatesAgree s ↔ AllViews (fun v => v.candidates = v.tracked) s.views := by
  constructor
  · intro h n v hv
    obtain ⟨peer, hp, rfl⟩ := Option.map_eq_some_iff.1 hv
    ext a
    exact mem_toFinset.trans (h n peer hp a)
  · intro h n peer hp a
    have hv : peer.endpoints.toFinset = peer.paths.keys := h n peer.view (views_of_lookup hp)
    rw [← hv, mem_toFinset]

theorem candidatesAgree_step_iff (w : MagicWorld) (e : MagicEvent) (h : CandidatesAgree w.shared) :
    CandidatesAgree (w.step magicsock e).shared ↔ RecordsCandidate w e := by
  have hviews := (candidatesAgree_iff w.shared).1 h
  have hsame {n : NodeKey} {peer : PeerState} (hp : w.shared.peers.lookup n = some peer) :
      peer.view.candidates = peer.view.tracked := hviews n peer.view (views_of_lookup hp)
  rw [candidatesAgree_iff, allViews_step_iff w e hviews]
  cases e with
  | wait d => exact Iff.rfl
  | call request => cases request <;> exact iff_of_true (by trivial) trivial
  | resume id met =>
    simp only [Grows, RecordsCandidate]
    cases w.tasks[id]? with
    | none => exact Iff.rfl
    | some t =>
      cases t with
      | calledMaybe at' d advertised => exact iff_of_true (fun n peer _ hp => by rw [hsame hp]) trivial
      | recording at' n a tx jobs after =>
        refine forall₂_congr fun peer hp => ?_
        simp only [← hsame hp]
        rw [eq_comm, Finset.insert_eq_self]
        exact mem_toFinset
      | learning at' n d src tx =>
        refine iff_of_true (fun peer hp => ?_) trivial
        split
        · exact hsame hp
        · simp [hsame hp]
      | _ => exact Iff.rfl

/-- **When candidates and paths agree.**  Over every interleaving of the socket's threads at the lock, every peer's
candidates are its tracked paths whenever the lock is free, exactly when every ping is recorded for an address that is
still a candidate of its peer. -/
theorem candidates_agree_iff (es : List MagicEvent) :
    (∀ es₁, es₁ <+: es → CandidatesAgree (socketAfter es₁).shared) ↔
      Along (World.step magicsock) RecordsCandidate bound es := by
  have hbound : CandidatesAgree bound.shared := fun n peer h => by cases h
  have hkept := run_always_iff candidatesAgree_step_iff es bound hbound
  exact hkept

/-- **A path outlives its candidate**: the pump sends a ping, an upsert takes the address away, and the ping is
recorded. -/
theorem pruned_path_recorded :
    let a : SocketAddr := .v4 (Ipv4Addr.new 192 0 2 1) 41641
    let s := (socketAfter [.call (.upsertPeer byRank 1 7 [a]), .call .pump, .resume 0 { ord := byRank },
      .resume 0 { ord := byRank }, .call (.upsertPeer byRank 1 7 []), .resume 0 { ord := byRank }]).shared
    (s.peers.lookup 1).map (fun p => (p.endpoints, decide (a ∈ p.paths.keys))) = some ([], true) ∧
      ¬ CandidatesAgree s := by
  intro a s
  have hpeer : (s.peers.lookup 1).map (fun p => (p.endpoints, decide (a ∈ p.paths.keys))) = some ([], true) := by
    decide +kernel
  refine ⟨hpeer, fun h => ?_⟩
  obtain ⟨p, hp, he⟩ := Option.map_eq_some_iff.1 hpeer
  obtain ⟨hnil, htracked⟩ := Prod.mk.inj he
  have hmem := (h 1 p hp a).2 (of_decide_eq_true htracked)
  rw [hnil] at hmem
  cases hmem

end TailscaleVita.Ms

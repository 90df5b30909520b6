import TailscaleVita.MsPeers
import TailscaleVita.RtMirror
import TailscaleVita.RtPass
/-!
# RtMagic — magicsock's peers against the netmap's (`push_delta_to_magicsock`)

A snapshot's delta is pushed to magicsock request by request, while the socket's own threads go on. A peer that loses
its disco key or its endpoints keeps the registration it had; and nothing is pushed when the node is parked or logged
out.
-/
namespace TailscaleVita.Rt

open LoopState

open Ctl (NodeKey PeerSnapshot NetMap NetMapSnapshot PeerDelta MapClient StateDir ControlError RekeysApart)
open Ms (DiscoKey Orders Request MagicWorld MagicEvent magicsock ofOthers)
open Wg (Boringtun)

def upsertRequest (ord : Orders) (p : PeerSnapshot) : List Request :=
  match p.discoKey with
  | none => []
  | some discoPub => if p.endpoints.isEmpty then [] else [.upsertPeer ord p.nodeKey discoPub p.endpoints]

def pushDeltaToMagicsock (ord : Orders) (snap : NetMapSnapshot) : List Request :=
  snap.delta.upserted.flatMap (upsertRequest ord) ++ snap.delta.removed.map .removePeer ++
    snap.delta.rekeyed.flatMap (fun r => .removePeer r.oldKey :: upsertRequest ord r.snapshot)

abbrev OtherEvent := { e : MagicEvent // ofOthers e = true }

def others (w : MagicWorld) (es : List OtherEvent) : MagicWorld := run (World.step magicsock) w (es.map Subtype.val)

def requested : List Request → List (List OtherEvent) → MagicWorld → MagicWorld
  | [], _, w => w
  | request :: rest, between, w =>
    requested rest between.tail ((others w (between.headD [])).step magicsock (.call request))

theorem registered_others (es : List OtherEvent) (w : MagicWorld) :
    (others w es).shared.registered = w.shared.registered := by
  unfold others run
  rw [List.foldl_map]
  exact run_keeps (fun w' : MagicWorld => w'.shared.registered = w.shared.registered)
    (fun w' e h => (Ms.registered_ofOthers w' e.2).trans h) es w rfl

theorem registered_requested : ∀ (requests : List Request) (between : List (List OtherEvent)) (w : MagicWorld),
    (requested requests between w).shared.registered =
      requests.foldl (fun r request => request.registers r) w.shared.registered
  | [], _, _ => rfl
  | request :: rest, between, w => by
    have hcall := Ms.registered_call (others w (between.headD [])).clock (others w (between.headD [])).shared request
    rw [requested, registered_requested rest, List.foldl_cons]
    congr 1
    refine hcall.trans ?_
    rw [registered_others]

def registration (p : PeerSnapshot) : Option DiscoKey := if p.endpoints.isEmpty then none else p.discoKey

theorem registers_upsertRequest (ord : Orders) (p : PeerSnapshot) (r : NodeKey → Option DiscoKey) :
    (upsertRequest ord p).foldl (fun r request => request.registers r) r = setWanted registration r p.nodeKey p := by
  unfold upsertRequest setWanted registration
  cases p.discoKey with
  | none => simp
  | some d => cases p.endpoints <;> rfl

theorem registered_push (ord : Orders) (snap : NetMapSnapshot) (between : List (List OtherEvent)) (w : MagicWorld) :
    (requested (pushDeltaToMagicsock ord snap) between w).shared.registered =
      (snap.delta.toPeerDelta.log id).replayWanted registration w.shared.registered := by
  rw [registered_requested]
  unfold pushDeltaToMagicsock ChangeLog.replayWanted movesWanted replayDels setsWanted PeerDelta.log
  simp only [List.foldl_append, List.foldl_flatMap, List.foldl_map, List.foldl_cons, registers_upsertRequest, id_eq]
  rfl

structure Direct (τ : Type) where
  loop : LoopState τ
  socket : MagicWorld

inductive DirectEvent where
  | pass (p : Pass) (ord : Orders) (between : List (List OtherEvent))
  | other (e : OtherEvent)

section

variable {τ : Type} (b : Boringtun τ)

/-- A pass pushes the snapshot it handles; the other threads go on between the passes. -/
def Direct.step (s : Direct τ) : DirectEvent → Direct τ
  | .pass p ord between =>
    { loop := s.loop.step b p
      socket := match s.loop.heard p with
        | some (_, snap) => requested (pushDeltaToMagicsock ord snap) between s.socket
        | none => s.socket }
  | .other e => { s with socket := s.socket.step magicsock e.1 }

def wanted (nm : NetMap) (k : NodeKey) : Option DiscoKey := (nm.peers.lookup k).bind registration

structure Tells (d : PeerDelta) (nm : NetMap) : Prop where
  away : Away ⟨nm.toPeerTables, d⟩
  apart : RekeysApart d
  distinct : (d.rekeyed.map (fun r => r.snapshot.nodeKey)).Nodup

def Direct.TellsAll (s : Direct τ) : DirectEvent → Prop
  | .pass p _ _ => ∀ m snap, s.loop.heard p = some (m, snap) → Tells snap.delta.toPeerDelta m.netmap
  | .other _ => True

structure Registers (s : Direct τ) (m : MapClient) : Prop where
  keyed : Ctl.KeyedByOwn m.netmap.toPeerTables
  covers : Covers registration m.netmap.peers.lookup s.socket.shared.registered

theorem registers_blank (s : Direct τ) {m : MapClient} (h : Blank m) : Registers s m := by
  obtain ⟨seq, handle, hnm⟩ := h
  refine ⟨fun k p hp => ?_, fun k d hd => ?_⟩
  · rw [hnm] at hp
    cases hp
  · rw [hnm] at hd
    cases hd

theorem registers_heard {s : Direct τ} (h : s.loop.exit = none → ∀ m, s.loop.mapOpt = some m → Registers s m) {p : Pass}
    {m : MapClient} {snap : NetMapSnapshot} (hheard : s.loop.heard p = some (m, snap))
    (htells : Tells snap.delta.toPeerDelta m.netmap) :
    Ctl.KeyedByOwn m.netmap.toPeerTables ∧
      ∃ nm : NetMap, Covers registration nm.peers.lookup s.socket.shared.registered ∧
        (snap.delta.toPeerDelta.log id).replay nm.peers.lookup = m.netmap.peers.lookup := by
  obtain ⟨s', m0, hl, hfrom⟩ := listens_of_heard hheard
  obtain ⟨-, resp, -, -, -, -, hnm, hsnap⟩ := heardFrom_some hfrom
  have hold : Registers s m0 :=
    hl.session.elim (h (beforePoll_of_listens hl).1.running m0) (registers_blank s)
  subst hsnap
  rw [hnm] at htells ⊢
  exact ⟨Ctl.keyed_apply hold.keyed p.ord resp, m0.netmap, hold.covers,
    (records_replayed_iff hold.keyed p.ord htells.apart).2 htells.away⟩

theorem registers_step (s : Direct τ) (ev : DirectEvent)
    (h : s.loop.exit = none → ∀ m, s.loop.mapOpt = some m → Registers s m) (hok : s.TellsAll ev) :
    (s.step b ev).loop.exit = none → ∀ m, (s.step b ev).loop.mapOpt = some m → Registers (s.step b ev) m := by
  cases ev with
  | other e =>
    intro hexit m hm
    obtain ⟨hkeyed, hcovers⟩ := h hexit m hm
    refine ⟨hkeyed, ?_⟩
    rwa [← Ms.registered_ofOthers s.socket e.2] at hcovers
  | pass p ord between =>
    intro hexit m hm
    rcases session_after b hexit hm with ⟨snap, hheard⟩ | ⟨hnone, hsession⟩
    · obtain ⟨hkeyed, nm, hcovers, hreplay⟩ := registers_heard h hheard (hok m snap hheard)
      refine ⟨hkeyed, ?_⟩
      simp only [Direct.step, hheard]
      rw [registered_push, ← hreplay]
      exact hcovers.replay _
    · have hold : Registers s m := hsession.elim (h (running_of_step b hexit) m) (registers_blank s)
      refine ⟨hold.keyed, ?_⟩
      simp only [Direct.step, hnone]
      exact hold.covers

/-- **Magicsock mirrors the netmap exactly when no registration goes stale**: in every run whose deltas tell their
netmaps. After a push the registered peers are the netmap's peers that have a disco key and an endpoint, under that
disco key, if and only if every peer registered before, or in passing, still has both or is removed or rekeyed by the
delta. Parking or logging out leaves nobody registered if and only if nobody was. -/
theorem magicsock_mirrors_iff {secret : BitVec 256} {dir : StateDir} {want : Bool}
    {login : Except ControlError LoginOutcome} {opened : Except ControlError Unit} {s₀ : LoopState τ}
    (hup : up b secret dir want login opened = .ok s₀) (events : List DirectEvent)
    (h : Along (Direct.step b) Direct.TellsAll ⟨s₀, Ms.bound⟩ events) :
    let s := run (Direct.step b) ⟨s₀, Ms.bound⟩ events
    (∀ p ord between m snap, s.loop.heard p = some (m, snap) → Tells snap.delta.toPeerDelta m.netmap →
      ((s.step b (.pass p ord between)).socket.shared.registered = wanted m.netmap ↔
        ∀ k, (s.socket.shared.registered k ≠ none ∨
            ∃ u ∈ snap.delta.upserted, u.nodeKey = k ∧ registration u ≠ none) →
          wanted m.netmap k ≠ none ∨ k ∈ snap.delta.removed ∨ ∃ r ∈ snap.delta.rekeyed, r.oldKey = k)) ∧
    ∀ p ord between, (s.loop.step b p).wantRunning = false ∨ (s.loop.step b p).trace = s.loop.trace ++ [.logout true] →
      ((∀ k, (s.step b (.pass p ord between)).socket.shared.registered k = none) ↔
        ∀ k, s.socket.shared.registered k = none) := by
  intro s
  have hinv : s.loop.exit = none → ∀ m, s.loop.mapOpt = some m → Registers s m :=
    run_inv (fun s : Direct τ => s.loop.exit = none → ∀ m, s.loop.mapOpt = some m → Registers s m)
      (registers_step b) events _ (fun _ m hm => registers_blank _ (start_blank ((up_started b hup).session m hm))) h
  constructor
  · intro p ord between m snap hheard htells
    obtain ⟨-, nm, hcovers, hreplay⟩ := registers_heard hinv hheard htells
    have hnew : ((snap.delta.toPeerDelta.log id).moves.map (fun m => m.2.1)).Nodup := by
      simp only [PeerDelta.log, List.map_map]
      exact htells.distinct
    have hafter : (s.step b (.pass p ord between)).socket.shared.registered =
        (snap.delta.toPeerDelta.log id).replayWanted registration s.socket.shared.registered := by
      simp only [Direct.step, hheard]
      exact registered_push ord snap between s.socket
    have hiff := replayWanted_eq_iff hcovers hnew
    rw [hreplay] at hiff
    rw [hafter]
    refine hiff.trans (forall_congr' fun k => ?_)
    simp [PeerDelta.log, wanted]
  · intro p ord between hdown
    simp [Direct.step, unheard_of_teardown b hdown]

end

open Ctl (NodeWire keyText keyOf nodeKeyOrder)

def reachableNode : NodeWire :=
  { id := 1, key := keyText '1', discoKey := Ctl.discokeyLead ++ List.replicate 64 '7',
    endpoints := ["192.0.2.1:41641".toList] }

def frameRead (resp : Ctl.MapResponseWire) : Pass := { ord := nodeKeyOrder, polled := .frame {} resp }

theorem magicsock_mirrors_iff_listed :
    ∃ s₀, up Wg.clearTunn 0 {} true (.ok .authorized) (.ok ()) = .ok s₀ ∧
      ∃ m snap, s₀.heard (frameRead { peers := some [reachableNode] }) = some (m, snap) ∧
        let s := Direct.step Wg.clearTunn ⟨s₀, Ms.bound⟩
          (.pass (frameRead { peers := some [reachableNode] }) Ms.byRank [])
        s.socket.shared.registered = wanted m.netmap ∧ s.socket.shared.registered (keyOf 0x11) = some (keyOf 0x77) := by
  have htold : (authorizedLoop.heard (frameRead { peers := some [reachableNode] })).map
      (fun r => (r.2.delta.upserted.map (fun u => u.nodeKey), r.2.delta.removed, r.2.delta.rekeyed)) =
        some ([keyOf 0x11], [], []) := by
    decide +kernel
  have hwanted : (authorizedLoop.heard (frameRead { peers := some [reachableNode] })).map
      (fun r => wanted r.1.netmap (keyOf 0x11)) = some (some (keyOf 0x77)) := by
    decide +kernel
  obtain ⟨⟨m, snap⟩, hheard, htold⟩ := Option.map_eq_some_iff.1 htold
  rw [hheard] at hwanted
  simp only [Prod.mk.injEq] at htold
  obtain ⟨hupserted, hremoved, hrekeyed⟩ := htold
  have hkey : wanted m.netmap (keyOf 0x11) = some (keyOf 0x77) := Option.some.inj hwanted
  have hmirror := ((magicsock_mirrors_iff Wg.clearTunn up_authorizedLoop [] trivial).1 _ Ms.byRank [] m snap hheard
    ⟨(fun k hk => by rw [hremoved] at hk; cases hk), (fun r hr => by rw [hrekeyed] at hr; cases hr),
      by rw [hrekeyed]; exact List.nodup_nil⟩).2 (by
        rintro k (hk | ⟨u, hu, rfl, -⟩)
        · exact absurd rfl hk
        · have hu' : u.nodeKey ∈ snap.delta.upserted.map (fun u => u.nodeKey) := List.mem_map_of_mem hu
          rw [hupserted, List.mem_singleton] at hu'
          rw [hu', hkey]
          exact .inl (Option.some_ne_none _))
  exact ⟨authorizedLoop, up_authorizedLoop, m, snap, hheard, hmirror, (congrFun hmirror _).trans hkey⟩

/-- **A registration outlives what it was made for**: the listed node loses its endpoints, or the node is parked or
logged out, and the peer is still registered. -/
theorem magicsock_keeps_stale_peer :
    let listed : DirectEvent := .pass (frameRead { peers := some [reachableNode] }) Ms.byRank []
    let cleared : DirectEvent :=
      .pass (frameRead { peersChangedPatch := some [{ nodeId := 1, endpoints := some [] }] }) Ms.byRank []
    let down : DirectEvent :=
      .pass { ord := nodeKeyOrder, signals := [⟨.setWantRunning false, .removed, .removed⟩] } Ms.byRank []
    let logout : DirectEvent :=
      .pass { ord := nodeKeyOrder, signals := [⟨.logout, .removed, .removed⟩], logout := .done .removed .removed }
        Ms.byRank []
    ∃ s₀, up Wg.clearTunn 0 {} true (.ok .authorized) (.ok ()) = .ok s₀ ∧
      let after := fun ev => run (Direct.step Wg.clearTunn) ⟨s₀, Ms.bound⟩ [listed, ev]
      (after cleared).loop.mapOpt.map (fun m => wanted m.netmap (keyOf 0x11)) = some none ∧
      (after cleared).socket.shared.registered (keyOf 0x11) = some (keyOf 0x77) ∧
      (after down).loop.wantRunning = false ∧
      (after down).socket.shared.registered (keyOf 0x11) = some (keyOf 0x77) ∧
      (after logout).loop.trace = [.logout true] ∧
      (after logout).socket.shared.registered (keyOf 0x11) = some (keyOf 0x77) := by
  intro listed cleared down logout
  exact ⟨_, rfl, by decide +kernel, by decide +kernel, by decide +kernel, by decide +kernel, by decide +kernel,
    by decide +kernel⟩

end TailscaleVita.Rt

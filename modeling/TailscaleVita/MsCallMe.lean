import TailscaleVita.MsPaths
/-!
# MsCallMe — asking an unreachable peer to call (`cmm_pump`, `ts-magicsock/src/lib.rs`)

`cmm_pump` takes the earliest `last_ping_at` among a peer's paths for the time the pinging began. The pump that calls
it has just pinged every candidate again whose last ping was five seconds old, so those times never grow to the ten
seconds it asks for. What the peer is owed is kept beside the socket.
-/
namespace TailscaleVita.Ms

open Ctl (NodeKey)
open MagicState Function

/-! ## The pings of a peer, and its first answer -/

/-- A socket, and for each registered peer the time of its first ping, the time of the last ping to each of its paths
and whether it ever answered one. -/
structure Courted where
  world : MagicWorld
  firstPing : NodeKey → Option Instant
  lastPing : NodeKey → SocketAddr → Option Instant
  answered : NodeKey → Bool

namespace Courted

def recorded (c : Courted) : MagicEvent → Option (Instant × NodeKey × SocketAddr)
  | .resume id _ =>
    match c.world.tasks[id]? with
    | some (.recording at' n a _ _ _) => some (at', n, a)
    | _ => none
  | _ => none

def nextFirstPing (c : Courted) (e : MagicEvent) : NodeKey → Option Instant :=
  match e, c.recorded e with
  | .call (.removePeer n), _ => update c.firstPing n none
  | _, some (at', n, _) =>
    if (c.world.shared.peers.lookup n).isSome && (c.firstPing n).isNone then update c.firstPing n (some at')
    else c.firstPing
  | _, none => c.firstPing

def nextLastPing (c : Courted) (e : MagicEvent) (n : NodeKey) (a : SocketAddr) : Option Instant :=
  -- a path that is dropped has no pings any more
  if (c.world.step magicsock e).shared.tracked n a then
    match c.recorded e with
    | some (at', m, b) => if n = m ∧ a = b then some at' else c.lastPing n a
    | none => c.lastPing n a
  else none

def nextAnswered (c : Courted) : MagicEvent → NodeKey → Bool
  | .call (.removePeer n) => update c.answered n false
  | .resume id _ =>
    match c.world.tasks[id]? with
    | some (.accepting at' d src tx) =>
      match (c.world.shared.acceptPong at' d src tx).2 with
      | some n => update c.answered n true
      | none => c.answered
    | _ => c.answered
  | _ => c.answered

def step (c : Courted) (e : MagicEvent) : Courted :=
  ⟨c.world.step magicsock e, c.nextFirstPing e, c.nextLastPing e, c.nextAnswered e⟩

end Courted

def courted (es : List MagicEvent) : Courted :=
  run Courted.step ⟨bound, fun _ => none, fun _ _ => none, fun _ => false⟩ es

theorem courted_resumes (es : List MagicEvent) (id : Nat) (inputs : List Met) :
    (courted (es ++ inputs.map (.resume id))).world =
      run (World.step magicsock) (courted es).world (inputs.map (.resume id)) := by
  unfold courted
  rw [run_append]
  generalize run Courted.step _ es = c
  induction inputs generalizing c with
  | nil => rfl
  | cons met inputs ih => exact ih (c.step (.resume id met))

structure Courted.Sound (c : Courted) : Prop where
  silent : ∀ n a, c.answered n = false → (c.world.shared.known n a).lastPongAt = none
  pings : ∀ n a, (c.world.shared.known n a).lastPingAt = c.lastPing n a

variable {n : NodeKey} {c : Courted}

theorem Courted.answered_of_next {e : MagicEvent} (h : c.nextAnswered e n = false) :
    c.answered n = false ∨ e = .call (.removePeer n) := by
  -- a peer marked as answered stays so unless the mark is taken off again
  have hmark : ∀ m, update c.answered m true n = false → c.answered n = false := fun m hm => by
    by_cases he : n = m
    · rw [he, update_self] at hm
      cases hm
    · rwa [update_of_ne he] at hm
  cases e with
  | wait d => exact .inl h
  | call request =>
    cases request with
    | removePeer m =>
      by_cases he : n = m
      · exact .inr (by rw [he])
      · simp only [nextAnswered, update_of_ne he] at h
        exact .inl h
    | _ => exact .inl h
  | resume id met =>
    refine .inl ?_
    simp only [nextAnswered] at h
    cases ht : c.world.tasks[id]? with
    | none =>
      rwa [ht] at h
    | some t =>
      rw [ht] at h
      cases t with
      | accepting at' d src tx =>
        simp only at h
        cases hm : (c.world.shared.acceptPong at' d src tx).2 with
        | none =>
          rwa [hm] at h
        | some m =>
          rw [hm] at h
          exact hmark m h
      | _ => exact h

variable {a : SocketAddr}

theorem fades_silent {s s' : MagicState} (h : Fades s s')
    (hs : (s.known n a).lastPongAt = none) : (s'.known n a).lastPongAt = none := by
  rcases h.cases n a with hk | hk
  · rw [hk.2.1, hs]
  · rw [hk]

theorem known_removePeer (s : MagicState) (n : NodeKey) (a : SocketAddr) : (s.removePeer n).known n a = {} := by
  unfold MagicState.removePeer MagicState.known
  cases hp : s.peers.lookup n with
  | none =>
    rw [hp]
  | some peer =>
    rw [HashMap.lookup_erase_eq, if_pos rfl]

theorem Courted.silent_step (c : Courted) (e : MagicEvent)
    (h : ∀ n a, c.answered n = false → (c.world.shared.known n a).lastPongAt = none) (n : NodeKey) (a : SocketAddr)
    (hn : c.nextAnswered e n = false) : ((c.world.step magicsock e).shared.known n a).lastPongAt = none := by
  by_cases hrem : e = .call (.removePeer n)
  · rw [hrem]
    show ((c.world.shared.removePeer n).known n a).lastPongAt = none
    rw [known_removePeer]
  have hold := h n a ((answered_of_next hn).resolve_right hrem)
  rcases c.world.step_cases magicsock e with ⟨d, hd⟩ | ⟨request, rfl, hr⟩ | ⟨id, t, met, rfl, ht, hr⟩
  · rwa [hd]
  · rw [hr]
    exact fades_silent (call_fades c.world.clock c.world.shared request) hold
  · rw [hr]
    simp only [magicsock]
    have hdid := did c.world.clock id c.world.shared t met
    generalize resume c.world.clock id c.world.shared t met = r at hdid ⊢
    cases hdid with
    | sends => exact hold
    | records at' m b tx =>
      rwa [pong_recordPing]
    | passes at' d src tx => exact fades_silent (fades_returnPing c.world.shared at' tx) hold
    | answers at' d src tx m hm =>
      -- the peer whose pong is taken has answered, so it is not the one at hand
      have hne : n ≠ m := by
        rintro rfl
        have htrue : c.nextAnswered (.resume id met) n = true := by
          simp [nextAnswered, ht, hm, update_self]
        rw [hn] at htrue
        cases htrue
      rwa [(acceptPong_some hm).2.2 n a, if_neg (fun hc => hne hc.1)]
    | other hq => exact fades_silent hq.fades hold

variable {at' : Instant} {id now : Nat} {met : Met}

theorem ping_resume {s : MagicState} {t : Task}
    (ht : ∀ at' m b tx jobs after, t ≠ .recording at' m b tx jobs after)
    (htr : (resume now id s t met).1.tracked n a = true) :
    ((resume now id s t met).1.known n a).lastPingAt = (s.known n a).lastPingAt := by
  have hdid := did now id s t met
  generalize resume now id s t met = r at hdid htr ⊢
  cases hdid with
  | sends => rfl
  | records at' m b tx jobs after => exact absurd rfl (ht at' m b tx jobs after)
  | passes at' d src tx => exact (fades_returnPing s at' tx n a htr).1
  | answers at' d src tx m hm =>
    rw [(acceptPong_some hm).2.2 n a]
    split
    next hna =>
      rw [hna.1, hna.2]
      rfl
    · rfl
  | other hq => exact (hq.fades n a htr).1

theorem Courted.pings_step (c : Courted) (e : MagicEvent)
    (h : ∀ n a, (c.world.shared.known n a).lastPingAt = c.lastPing n a) (n : NodeKey) (a : SocketAddr) :
    ((c.world.step magicsock e).shared.known n a).lastPingAt = c.nextLastPing e n a := by
  unfold nextLastPing
  cases htr : (c.world.step magicsock e).shared.tracked n a with
  | false =>
    rw [known_of_untracked htr]
    rfl
  | true =>
    rw [if_pos rfl]
    cases e with
    | wait d => exact h n a
    | call request => exact (call_fades c.world.clock c.world.shared request n a htr).1.trans (h n a)
    | resume id met =>
      cases ht : c.world.tasks[id]? with
      | none =>
        simp only [World.step, recorded, ht]
        exact h n a
      | some t =>
        rw [(World.step_resume magicsock ht met).1] at htr ⊢
        cases t with
        | recording at' m b tx jobs after =>
          simp only [recorded, ht, magicsock, resume] at htr ⊢
          rw [known_recordPing]
          by_cases hna : n = m ∧ a = b
          · -- the path is there, so the peer was
            have hreg : (c.world.shared.peers.lookup m).isSome := by
              by_contra hno
              rw [recordPing, Option.not_isSome_iff_eq_none.1 hno, tracked, hna.1,
                Option.not_isSome_iff_eq_none.1 hno] at htr
              cases htr
            rw [if_pos ⟨hna, hreg⟩, if_pos hna]
          · rw [if_neg (fun hc => hna hc.1), if_neg hna]
            exact h n a
        | _ =>
          simp only [recorded, ht]
          exact (ping_resume (by simp) htr).trans (h n a)

theorem sound_courted (es : List MagicEvent) : (courted es).Sound :=
  run_keeps Courted.Sound (fun c e h => ⟨c.silent_step e h.silent, c.pings_step e h.pings⟩) es _
    ⟨fun _ _ _ => rfl, fun _ _ => rfl⟩

/-! ## Who is asked -/

structure Owed (c : Courted) (at' : Instant) (n : NodeKey) (peer : PeerState) : Prop where
  registered : c.world.shared.peers.lookup n = some peer
  candidates : peer.endpoints ≠ []
  unanswered : c.answered n = false
  pinged : ∃ t, c.firstPing n = some t ∧ cmmTriggerAfter ≤ at' - t
  endpoints : c.world.shared.localEndpoints ≠ []
  unasked : ∀ t, c.world.shared.lastCmmSentAt.lookup n = some t → cmmRateLimit ≤ at' - t

/-- Some path of the peer was pinged, and for `CMM_TRIGGER_AFTER` now no ping to it has gone out. -/
def Courted.Neglected (c : Courted) (at' : Instant) (n : NodeKey) : Prop :=
  ∃ a t, c.lastPing n a = some t ∧ cmmTriggerAfter ≤ at' - t

variable {peer : PeerState}

theorem mem_pings_iff (h : c.Sound) (hp : c.world.shared.peers.lookup n = some peer) (ord : Orders) (t : Instant) :
    t ∈ (pathStates peer ord).filterMap PathState.lastPingAt ↔ ∃ a, c.lastPing n a = some t := by
  unfold pathStates
  simp only [List.mem_filterMap, HashOrder.mem_values, ← h.pings, known_of_lookup hp, pathOrNew]
  constructor
  · rintro ⟨st, ⟨a, ha⟩, ht⟩
    exact ⟨a, by rw [ha]; exact ht⟩
  · rintro ⟨a, ha⟩
    cases hl : peer.paths.lookup a with
    | none =>
      rw [hl] at ha
      cases ha
    | some st =>
      rw [hl] at ha
      exact ⟨st, ⟨a, hl⟩, ha⟩

theorem neglected_iff (h : c.Sound) (hp : c.world.shared.peers.lookup n = some peer) (ord : Orders) (at' : Instant) :
    (∃ t, ((pathStates peer ord).filterMap PathState.lastPingAt).min? = some t ∧ cmmTriggerAfter ≤ at' - t) ↔
      c.Neglected at' n := by
  constructor
  · rintro ⟨t0, hmin, hold⟩
    obtain ⟨a, ha⟩ := (mem_pings_iff h hp ord t0).1 (List.min?_eq_some_iff.1 hmin).1
    exact ⟨a, t0, ha, hold⟩
  · rintro ⟨a, t, ha, hold⟩
    have hmem := (mem_pings_iff h hp ord t).2 ⟨a, ha⟩
    cases hmin : ((pathStates peer ord).filterMap PathState.lastPingAt).min? with
    | none =>
      rw [List.min?_eq_none_iff.1 hmin] at hmem
      cases hmem
    | some t0 =>
      have hle := (List.min?_eq_some_iff.1 hmin).2 t hmem
      exact ⟨t0, rfl, hold.trans (Nat.sub_le_sub_left hle at')⟩

theorem not_alive_of_silent (h : c.Sound) (hp : c.world.shared.peers.lookup n = some peer) (hn : c.answered n = false)
    (ord : Orders) (at' : Instant) :
    (pathStates peer ord).any (fun st => st.alive at') = false := by
  rw [List.any_eq_false]
  intro st hst
  obtain ⟨a, ha⟩ := (ord.addrs.mem_values _ _).1 hst
  have hpong := h.silent n a hn
  rw [known_of_lookup hp, pathOrNew, ha] at hpong
  have hnone : st.lastPongAt = none := hpong
  simp [PathState.alive, hnone]

theorem needsCmm_iff (h : c.Sound) (ho : Owed c at' n peer) (ord : Orders) :
    c.world.shared.needsCmm ord at' n peer = true ↔ c.Neglected at' n := by
  have hasked := ho.unasked
  rw [← neglected_iff h ho.registered ord at']
  simp only [needsCmm, not_alive_of_silent h ho.registered ho.unanswered ord at']
  cases ((pathStates peer ord).filterMap PathState.lastPingAt).min? with
  | none => simp
  | some t => cases hl : c.world.shared.lastCmmSentAt.lookup n <;> simp_all [ho.candidates]

variable {s : MagicState}

theorem mem_toCmm_iff (hp : s.peers.lookup n = some peer) (hl : s.localEndpoints ≠ []) (ord : Orders) (at' : Instant) :
    n ∈ (s.toCmm ord at').2.map Prod.fst ↔ s.needsCmm ord at' n peer = true := by
  unfold toCmm
  rw [if_neg (by simpa using hl)]
  simp only [List.mem_map, List.mem_filterMap]
  constructor
  · rintro ⟨_, ⟨m, -, hm⟩, rfl⟩
    cases hp' : s.peers.lookup m with
    | none =>
      rw [hp'] at hm
      cases hm
    | some peer' =>
      rw [hp'] at hm
      simp only [Option.ite_none_right_eq_some, Option.some.injEq] at hm
      obtain ⟨hneeds, rfl⟩ := hm
      rw [hp] at hp'
      cases hp'
      exact hneeds
  · intro hneeds
    refine ⟨(n, peer.discoPub), ⟨n, (ord.nodes.mem_order _ _).2 ((HashMap.mem_keys_iff _ _).2 ⟨peer, hp⟩), ?_⟩, rfl⟩
    rw [hp]
    simp only
    rw [if_pos hneeds]

/-! ## The sections of the pump -/

/-- A CallMeMaybe to the node is queued, put there by a pump that began at `at'`. -/
def MagicState.AskedAt (s : MagicState) (at' : Instant) (n : NodeKey) : Prop :=
  s.lastCmmSentAt.lookup n = some at' ∧ n ∈ s.cmmPending.map Prod.fst

theorem askedAt_queueCmm (at' : Instant) (m : NodeKey) (bytes : Bytes) :
    (s.queueCmm at' m bytes).AskedAt at' n ↔ n = m ∨ s.AskedAt at' n := by
  unfold AskedAt queueCmm
  rw [HashMap.lookup_insert_eq, List.map_append, List.mem_append]
  by_cases h : n = m <;> simp [h]

def Asking (asked : Prop) (at' : Instant) (n : NodeKey) (s : MagicState) : Task → Prop
  | .cmmScanning now =>
    now = at' ∧ ¬ s.AskedAt at' n ∧ ∀ ord, n ∈ (s.toCmm ord at').2.map Prod.fst ↔ asked
  | .cmmQueueing now _ peers => now = at' ∧ (n ∈ peers.map Prod.fst ∨ s.AskedAt at' n ↔ asked)
  | .finished => s.AskedAt at' n ↔ asked
  | _ => False

theorem asking_resume {asked : Prop} {t : Task} (hb : met.built.isSome)
    (h : Asking asked at' n s t) : Asking asked at' n (resume now id s t met).1 (resume now id s t met).2.1 := by
  cases t with
  | finished => exact h
  | cmmScanning =>
    obtain ⟨rfl, hno, hscan⟩ := h
    exact ⟨rfl, (or_iff_left hno).trans (hscan met.ord)⟩
  | cmmQueueing now eps peers =>
    obtain ⟨rfl, hall⟩ := h
    rcases peers with _ | ⟨⟨m, d⟩, peers⟩
    · exact (or_iff_right List.not_mem_nil).symm.trans hall
    · obtain ⟨bytes, hbytes⟩ := Option.isSome_iff_exists.1 hb
      simp only [resume, hbytes]
      refine ⟨rfl, ?_⟩
      rw [← hall, askedAt_queueCmm, List.map_cons, List.mem_cons]
      tauto
  | _ => exact h.elim

theorem queueing_finishes (met : Met) : ∀ (eps : List SocketAddr)
    (peers : List (NodeKey × DiscoKey)) (w : MagicWorld), w.tasks[id]? = some (.cmmQueueing at' eps peers) →
    ∃ k, (run (World.step magicsock) w ((List.replicate k met).map (.resume id))).tasks[id]? = some .finished
  | eps, [], w, h => ⟨1, (World.step_resume magicsock h met).2⟩
  | eps, p :: peers, w, h => by
    have hnext : (w.step magicsock (.resume id met)).tasks[id]? = some (.cmmQueueing at' eps peers) := by
      rw [(World.step_resume magicsock h met).2]
      cases hb : met.built <;> simp [magicsock, resume, hb]
    obtain ⟨k, hk⟩ := queueing_finishes met eps peers _ hnext
    exact ⟨k + 1, hk⟩

theorem scan_finishes {w : MagicWorld} (h : w.tasks[id]? = some (.cmmScanning at'))
    (met : Met) :
    ∃ k, (run (World.step magicsock) w ((List.replicate k met).map (.resume id))).tasks[id]? = some .finished := by
  obtain ⟨k, hk⟩ := queueing_finishes met _ _ _ (World.step_resume magicsock h met).2
  exact ⟨k + 1, hk⟩

theorem owed_asked_iff (h : c.Sound)
    (ht : c.world.tasks[id]? = some (.cmmScanning at')) (ho : Owed c at' n peer) (inputs : List Met)
    (hb : ∀ met ∈ inputs, met.built.isSome)
    (hend : (run (World.step magicsock) c.world (inputs.map (.resume id))).tasks[id]? = some .finished) :
    (run (World.step magicsock) c.world (inputs.map (.resume id))).shared.AskedAt at' n ↔ c.Neglected at' n := by
  refine World.alone_keeps magicsock (Asking (c.Neglected at' n) at' n) inputs
    (fun _ _ _ met hm => asking_resume (hb met hm)) c.world (fun t ht' => ?_) _ hend
  cases ht.symm.trans ht'
  refine ⟨rfl, fun hno => ?_, fun ord => ?_⟩
  · exact absurd (ho.unasked at' hno.1) (by rw [Nat.sub_self]; decide)
  · rw [mem_toCmm_iff ho.registered ho.endpoints, needsCmm_iff h ho]

/-! ## The age of a last ping -/

/-- Every candidate that was pinged was pinged within `PING_INTERVAL`, or is still to be pinged. -/
def Fresh (s : MagicState) (at' : Instant) (todo : List (NodeKey × SocketAddr)) : Prop :=
  ∀ n peer, s.peers.lookup n = some peer → ∀ a ∈ peer.endpoints, ∀ t, (s.known n a).lastPingAt = some t →
    at' - t < pingInterval ∨ (n, a) ∈ todo

def jobAddrs (jobs : List PingJob) : List (NodeKey × SocketAddr) := jobs.map (fun j => (j.1, j.2.2))

def Renewing (at' : Instant) (s : MagicState) : Task → Prop
  | .scanning now => now = at'
  | .pinging now jobs .cmmPump => now = at' ∧ Fresh s at' (jobAddrs jobs)
  | .recording now n a _ jobs .cmmPump => now = at' ∧ Fresh s at' ((n, a) :: jobAddrs jobs)
  | .cmmScanning now => now = at' ∧ Fresh s at' []
  | .cmmQueueing .. => True
  | .finished => True
  | _ => False

theorem fresh_toPing (ord : Orders) (at' : Instant) : Fresh s at' (jobAddrs (s.toPing ord at')) := by
  intro n peer hp a ha t ht
  rw [known_of_lookup hp, pathOrNew] at ht
  cases hneeds : pathNeedsPing (peer.paths.lookup a) at' with
  | true =>
    refine .inr (List.mem_map.2 ⟨(n, peer.discoPub, a), List.mem_flatMap.2 ⟨n, ?_, ?_⟩, rfl⟩)
    · exact (ord.nodes.mem_order _ _).2 ((HashMap.mem_keys_iff _ _).2 ⟨peer, hp⟩)
    · rw [hp]
      exact List.mem_map.2 ⟨a, List.mem_filter.2 ⟨ha, hneeds⟩, rfl⟩
  | false =>
    cases hst : peer.paths.lookup a with
    | none =>
      rw [hst] at ht
      cases ht
    | some st =>
      rw [hst, Option.getD_some] at ht
      simp only [pathNeedsPing, hst, ht, decide_eq_false_iff_not, Nat.not_le] at hneeds
      refine .inl (hneeds.trans_le ?_)
      split <;> decide

theorem fresh_recordPing {m : NodeKey} {b : SocketAddr} {todo : List (NodeKey × SocketAddr)}
    (h : Fresh s at' ((m, b) :: todo)) (tx : TxId) : Fresh (s.recordPing at' m b tx) at' todo := by
  intro n peer hp a ha t ht
  rw [known_recordPing] at ht
  split at ht
  · cases ht
    exact .inl (by rw [Nat.sub_self]; decide)
  next hna =>
    -- recording a ping leaves the candidates as they are
    have hold : ∃ peer', s.peers.lookup n = some peer' ∧ peer'.endpoints = peer.endpoints := by
      unfold MagicState.recordPing at hp
      cases hm : s.peers.lookup m with
      | none =>
        rw [hm] at hp
        exact ⟨peer, hp, rfl⟩
      | some peer' =>
        simp only [hm, setPeer, HashMap.lookup_insert_eq] at hp
        split at hp
        next hn =>
          cases hp
          exact ⟨peer', hn ▸ hm, rfl⟩
        · exact ⟨peer, hp, rfl⟩
    obtain ⟨peer', hp', heq⟩ := hold
    rcases h n peer' hp' a (heq ▸ ha) t ht with hfresh | hmem
    · exact .inl hfresh
    · rcases List.mem_cons.1 hmem with heq | hmem
      · cases heq
        exact absurd ⟨⟨rfl, rfl⟩, by rw [hp']; rfl⟩ hna
      · exact .inr hmem

theorem renewing_resume {t : Task} (hsends : met.sends = true)
    (h : Renewing at' s t) : Renewing at' (resume now id s t met).1 (resume now id s t met).2.1 := by
  cases t with
  | scanning =>
    cases h
    exact ⟨rfl, fresh_toPing met.ord at'⟩
  | pinging _ jobs after =>
    cases after with
    | nothing => exact h.elim
    | cmmPump =>
      rcases jobs with _ | ⟨⟨n, d, a⟩, jobs⟩
      · exact h
      · simp only [resume, hsends, if_true]
        exact h
  | recording _ n a tx jobs after =>
    cases after with
    | nothing => exact h.elim
    | cmmPump =>
      obtain ⟨rfl, hfresh⟩ := h
      exact ⟨rfl, fresh_recordPing hfresh tx⟩
  | cmmScanning | finished => trivial
  | cmmQueueing _ _ peers =>
    rcases peers with _ | ⟨p, peers⟩
    · trivial
    · cases hb : met.built <;> simp [resume, hb, Renewing]
  | _ => exact h.elim

/-- **When an unreachable peer is asked to call.** Over every run of the socket's threads, a pump that has come to its
scan for `cmm_pump` and builds its messages has, when it returns, queued a CallMeMaybe to every peer that is owed one,
exactly when each of them has a path to which pings went out and for `CMM_TRIGGER_AFTER` have not. A pump whose pings
all go out renews them first: at its scan no candidate's last ping is as old as `PING_INTERVAL`. -/
theorem cmm_fallback_iff (es : List MagicEvent) :
    ((∀ es₁, es₁ <+: es → ∀ (id : Nat) at', (courted es₁).world.tasks[id]? = some (Task.cmmScanning at') →
      ∀ n peer, Owed (courted es₁) at' n peer → ∀ inputs : List Met, (∀ met ∈ inputs, met.built.isSome) →
        (courted (es₁ ++ inputs.map (.resume id))).world.tasks[id]? = some .finished →
        (courted (es₁ ++ inputs.map (.resume id))).world.shared.AskedAt at' n) ↔
      ∀ es₁, es₁ <+: es → ∀ (id : Nat) at', (courted es₁).world.tasks[id]? = some (Task.cmmScanning at') →
        ∀ n peer, Owed (courted es₁) at' n peer → (courted es₁).Neglected at' n) ∧
    ∀ (id : Nat) at' (inputs : List Met), (courted es).world.tasks[id]? = some (Task.scanning at') →
      (∀ met ∈ inputs, met.sends = true) →
      let c := courted (es ++ inputs.map (.resume id))
      c.world.tasks[id]? = some (Task.cmmScanning at') → ∀ n peer, c.world.shared.peers.lookup n = some peer →
        ∀ a ∈ peer.endpoints, ∀ t, c.lastPing n a = some t → at' - t < pingInterval := by
  constructor
  · refine forall₂_congr fun es₁ _ => forall₃_congr fun id at' ht => forall₃_congr fun n peer ho => ?_
    have hasked := fun inputs : List Met => owed_asked_iff (sound_courted es₁) ht ho inputs
    simp only [courted_resumes]
    constructor
    · intro h
      obtain ⟨k, hk⟩ := scan_finishes ht { ord := byRank, built := some [] }
      have hb : ∀ met ∈ List.replicate k ({ ord := byRank, built := some [] } : Met), met.built.isSome :=
        fun met hm => by rw [List.eq_of_mem_replicate hm]; rfl
      exact (hasked _ hb hk).1 (h _ hb hk)
    · exact fun h inputs hb hend => (hasked inputs hb hend).2 h
  · intro id at' inputs ht hsends c hend n peer hp a ha t hping
    rw [← (sound_courted _).pings] at hping
    rw [courted_resumes] at hend hp hping
    have hfresh := World.alone_keeps magicsock (Renewing at') inputs
      (fun _ _ _ met hm => renewing_resume (hsends met hm)) (courted es).world
      (fun t' ht' => by cases ht.symm.trans ht'; exact rfl) _ hend
    exact (hfresh.2 n peer hp a ha t hping).resolve_right nofun

/-- **Nobody is asked after ten seconds.** A peer with one candidate that never answers is pumped once a second, and
every ping is sent. At 11 s no CallMeMaybe has been queued. -/
theorem silent_peer_not_asked :
    let met : Met := { ord := byRank, built := some [] }
    let pump : Nat → List MagicEvent := fun i => .call .pump :: List.replicate 6 (.resume i met)
    let c := courted ([.call (.upsertPeer byRank 1 7 [.v4 (Ipv4Addr.new 192 0 2 1) 41641]),
      .call (.setLocalEndpoints [.v4 (Ipv4Addr.new 198 51 100 1) 41641])] ++
      (List.range 11).flatMap (fun i => pump i ++ [.wait 1000]) ++ pump 11)
    let s := c.world.shared
    (c.world.clock = 11000 ∧ c.firstPing 1 = some 0 ∧ c.answered 1 = false) ∧
      (s.peers.lookup 1).map (fun p => p.endpoints.length) = some 1 ∧ s.localEndpoints.length = 1 ∧
      s.lastCmmSentAt.lookup 1 = none ∧ s.cmmPending = [] := by
  intro met pump c s
  exact ⟨by decide +kernel, by decide +kernel, by decide +kernel, by decide +kernel, by decide +kernel⟩

end TailscaleVita.Ms

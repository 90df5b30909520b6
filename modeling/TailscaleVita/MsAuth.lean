import TailscaleVita.MsPaths
/-!
# MsAuth — a live path was answered

A path is alive because of a pong, which came over that very path, opened under a key mapped to the node, and carried
the id of a ping sent there; each ping is answered once. The last is a balance: a ping sent is outstanding at its path,
or on its way to be recorded there, or answered, or lost.
-/
namespace TailscaleVita.Ms

open Ctl (NodeKey)
open MagicState List

theorem pong_comes_from {w : MagicWorld} {e : MagicEvent} {n : NodeKey} {a : SocketAddr} {at' : Instant}
    (hno : ¬ (w.shared.known n a).lastPongAt = some at')
    (hyes : ((w.step magicsock e).shared.known n a).lastPongAt = some at') :
    ∃ (id : Nat) (d : DiscoKey) (tx : TxId), w.tasks[id]? = some (.accepting at' d a tx) ∧
      w.shared.discoToNode.lookup d = some n ∧
      (w.shared.known n a).outstandingTxId = some tx ∧ (w.step magicsock e).log = w.log ++ [.answered n a tx] := by
  have hfades : ∀ s', Fades w.shared s' → (s'.known n a).lastPongAt ≠ some at' := fun s' hf he => by
    rcases hf.cases n a with hk | hk
    · exact hno (hk.2.1.symm.trans he)
    · rw [hk] at he
      cases he
  rcases w.step_cases magicsock e with ⟨d, hd⟩ | ⟨request, -, hr⟩ | ⟨id, t, met, -, hid, hr⟩
  · rw [hd] at hyes
    exact absurd hyes hno
  · rw [hr] at hyes
    exact absurd hyes (hfades _ (call_fades w.clock w.shared request))
  · rw [hr] at hyes ⊢
    have hdid : Did w.shared t (magicsock.resume w.clock id w.shared t met) := did w.clock id w.shared t met
    generalize magicsock.resume w.clock id w.shared t met = r at hdid hyes ⊢
    cases hdid with
    | sends => exact absurd hyes hno
    | records at'' m addr tx jobs after =>
      simp only [pong_recordPing] at hyes
      exact absurd hyes hno
    | answers at'' d src tx m hm =>
      obtain ⟨hd, hout, hknown⟩ := acceptPong_some hm
      simp only [hknown n a] at hyes
      split at hyes
      next hna =>
        obtain ⟨rfl, rfl⟩ := hna
        cases hyes
        exact ⟨id, d, tx, hid, hd, hout, rfl⟩
      · exact absurd hyes hno
    | passes at'' d src tx => exact absurd hyes (hfades _ (fades_returnPing w.shared at'' tx))
    | other hq => exact absurd hyes (hfades _ hq.fades)

/-! ## Each ping is answered once -/

section

variable (n : NodeKey) (a : SocketAddr) (tx : TxId)

def held (s : MagicState) : Nat := if (s.known n a).outstandingTxId = some tx then 1 else 0

def owed : Task → Nat
  | .recording _ n' a' tx' _ _ => if n' = n ∧ a' = a ∧ tx' = tx then 1 else 0
  | _ => 0

theorem owed_of_not_open {t : Task} (h : t.isOpen = false) : owed n a tx t = 0 := by
  cases t with
  | recording => cases h
  | _ => rfl

def pingsSent (log : List Observed) : Nat := log.count (.sent n a tx)

def pingsAnswered (log : List Observed) : Nat := log.count (.answered n a tx)

theorem held_of_fades {s s' : MagicState} (h : Fades s s') : held n a tx s' ≤ held n a tx s := by
  unfold held
  rcases h.cases n a with hk | hk
  · rw [hk.2.2]
  · rw [hk]
    simp

theorem held_recordPing (s : MagicState) (now : Instant) (m : NodeKey) (addr : SocketAddr) (tx' : TxId) :
    held n a tx (s.recordPing now m addr tx') ≤ held n a tx s + if m = n ∧ addr = a ∧ tx' = tx then 1 else 0 := by
  unfold held
  rw [known_recordPing]
  by_cases hna : (n = m ∧ a = addr) ∧ (s.peers.lookup m).isSome
  · rw [if_pos hna, hna.1.1, hna.1.2]
    by_cases htx : tx' = tx
    · simp [htx]
    · simp [htx]
  · rw [if_neg hna]
    omega

theorem held_acceptPong {s : MagicState} {now : Instant} {d : DiscoKey} {src : SocketAddr} {tx' : TxId} {m : NodeKey}
    (h : (s.acceptPong now d src tx').2 = some m) :
    held n a tx (s.acceptPong now d src tx').1 + pingsAnswered n a tx [.answered m src tx'] ≤ held n a tx s := by
  obtain ⟨-, hout, hknown⟩ := acceptPong_some h
  unfold held pingsAnswered
  rw [hknown n a]
  by_cases hna : n = m ∧ a = src
  · obtain ⟨rfl, rfl⟩ := hna
    rw [hout]
    by_cases htx : tx' = tx
    · simp [htx, PathState.answer]
    · simp [htx, PathState.answer]
  · rw [if_neg hna]
    have hother : Observed.answered m src tx' ≠ .answered n a tx := fun he => by
      cases he
      exact hna ⟨rfl, rfl⟩
    rw [count_singleton, beq_eq_false_iff_ne.2 hother]
    simp

theorem balanced_call (now : Nat) (s : MagicState) (request : Request) :
    held n a tx (call now s request).1 + (call now s request).2.1.elim 0 (owed n a tx) +
      pingsAnswered n a tx (call now s request).2.2 ≤ held n a tx s + pingsSent n a tx (call now s request).2.2 := by
  have hheld := held_of_fades n a tx (call_fades now s request)
  have hcalled := called now s request
  generalize (call now s request).2 = r at hcalled ⊢
  cases hcalled with
  | pong d src tx' =>
    have hno : pingsAnswered n a tx [.pong now src d tx'] = 0 := count_eq_zero.2 (by simp)
    simp only [Option.elim_some, owed]
    omega
  | @other started ht =>
    have howed : started.elim 0 (owed n a tx) = 0 := by
      cases started with
      | none => rfl
      | some t => exact owed_of_not_open n a tx (ht t rfl)
    simp only [howed, pingsAnswered, pingsSent, count_nil]
    omega

theorem balanced_resume (now id : Nat) (s : MagicState) (t : Task) (met : Met) :
    held n a tx (resume now id s t met).1 + owed n a tx (resume now id s t met).2.1 +
      pingsAnswered n a tx (resume now id s t met).2.2 ≤
      held n a tx s + owed n a tx t + pingsSent n a tx (resume now id s t met).2.2 := by
  have hdid := did now id s t met
  generalize resume now id s t met = r at hdid ⊢
  cases hdid with
  | sends at' m d addr jobs after tx' =>
    simp only [owed, pingsAnswered, pingsSent, count_singleton]
    by_cases hj : m = n ∧ addr = a ∧ tx' = tx
    · obtain ⟨rfl, rfl, rfl⟩ := hj
      simp
    · simp [hj]
  | records at' m addr tx' jobs after =>
    have hrec := held_recordPing n a tx s at' m addr tx'
    simp only [owed, pingsAnswered, pingsSent, count_nil]
    omega
  | answers at' d src tx' m hm =>
    have hacc := held_acceptPong n a tx hm
    simp only [owed]
    omega
  | passes at' d src tx' =>
    have hheld := held_of_fades n a tx (fades_returnPing s at' tx')
    simp only [owed, pingsAnswered, pingsSent, count_nil]
    omega
  | other hq ht hlog =>
    have hheld := held_of_fades n a tx hq.fades
    have howed := owed_of_not_open n a tx ht
    have hans : pingsAnswered n a tx r.2.2 = 0 := count_eq_zero.2 (hlog n a tx)
    omega

theorem answered_lt_sent (es : List MagicEvent) (h : ((socketAfter es).shared.known n a).outstandingTxId = some tx) :
    pingsAnswered n a tx (socketAfter es).log < pingsSent n a tx (socketAfter es).log := by
  have hbal : (socketAfter es).Balanced (held n a tx) (owed n a tx) (pingsAnswered n a tx) (pingsSent n a tx) :=
    run_keeps _ (World.balanced_step magicsock (held n a tx) (owed n a tx) (pingsAnswered n a tx) (pingsSent n a tx)
      (fun _ _ => count_append) (fun _ _ => count_append) (balanced_call n a tx) (balanced_resume n a tx))
      es bound (by simp [World.Balanced, bound, held, known, pingsAnswered])
  have hheld : held n a tx (socketAfter es).shared = 1 := if_pos h
  unfold World.Balanced at hbal
  omega

end

/-! ## The pong that is waited for did arrive -/

def PongLogged (clock : Nat) (log : List Observed) : Task → Prop
  | .ponged at' d src tx => .pong at' src d tx ∈ log ∧ at' ≤ clock
  | .accepting at' d src tx => .pong at' src d tx ∈ log ∧ at' ≤ clock
  | _ => True

theorem pongLogged_of_not_open {clock : Nat} {log : List Observed} {t : Task} (h : t.isOpen = false) :
    PongLogged clock log t := by
  cases t with
  | ponged | accepting => cases h
  | _ => trivial

theorem pongLogged_call (now : Nat) (s : MagicState) (log : List Observed) (request : Request) (t : Task)
    (ht : (call now s request).2.1 = some t) : PongLogged now (log ++ (call now s request).2.2) t := by
  have hcalled := called now s request
  generalize (call now s request).2 = r at hcalled ht ⊢
  cases hcalled with
  | pong d src tx =>
    cases ht
    exact ⟨mem_append_right _ (mem_singleton.2 rfl), Nat.le_refl now⟩
  | other hopen => exact pongLogged_of_not_open (hopen t ht)

theorem pongLogged_resume (now id : Nat) (s : MagicState) (log : List Observed) (t : Task) (met : Met)
    (h : PongLogged now log t) : PongLogged now (log ++ (resume now id s t met).2.2) (resume now id s t met).2.1 := by
  have hdid := did now id s t met
  generalize resume now id s t met = r at hdid ⊢
  cases hdid with
  | sends | records => trivial
  | passes at' d src tx => exact ⟨mem_append_left _ h.1, h.2⟩
  | answers => trivial
  | other _ ht => exact pongLogged_of_not_open ht

theorem pongLogged_after (es : List MagicEvent) :
    ∀ t ∈ (socketAfter es).tasks, PongLogged (socketAfter es).clock (socketAfter es).log t := by
  refine run_keeps (fun w : MagicWorld => ∀ t ∈ w.tasks, PongLogged w.clock w.log t)
    (World.tasks_keep magicsock PongLogged ?_ pongLogged_call pongLogged_resume) es bound nofun
  -- neither the clock nor a longer log undoes it
  intro c c' log more t hc h
  cases t with
  | ponged | accepting => exact ⟨mem_append_left _ h.1, Nat.le_trans h.2 hc⟩
  | _ => trivial

/-! ## The path that is selected -/

theorem pong_of_aliveEndpoint {s : MagicState} {ord : Orders} {now : Instant} {n : NodeKey} {a : SocketAddr}
    (h : s.aliveEndpoint ord now n = some a) : ∃ at', (s.known n a).lastPongAt = some at' ∧ now < at' + aliveTtl := by
  have hadd : ∀ x y z : Nat, x - y < z → x < y + z := fun x y z hlt => by omega
  unfold MagicState.aliveEndpoint at h
  cases hp : s.peers.lookup n with
  | none =>
    rw [hp] at h
    cases h
  | some peer =>
    rw [hp] at h
    have hmem := (mem_filter.1 (minByKey_mem _ h)).2
    rw [known_of_lookup hp, pathOrNew]
    cases hl : peer.paths.lookup a with
    | none =>
      rw [hl] at hmem
      cases hmem
    | some st =>
      rw [hl] at hmem
      simp only [Option.any_some, PathState.alive] at hmem
      rw [Option.getD_some]
      cases hpong : st.lastPongAt with
      | none =>
        rw [hpong] at hmem
        cases hmem
      | some at' =>
        rw [hpong] at hmem
        exact ⟨at', rfl, hadd _ _ _ (by simpa using hmem)⟩

theorem clock_le (es es' : List MagicEvent) : (socketAfter es).clock ≤ (socketAfter (es ++ es')).clock := by
  unfold socketAfter
  rw [run_append]
  refine run_keeps (fun w : MagicWorld => (run (World.step magicsock) bound es).clock ≤ w.clock) (fun w e h => ?_) es' _
    (Nat.le_refl _)
  rcases w.step_cases magicsock e with ⟨d, hd⟩ | ⟨request, -, hr⟩ | ⟨id, t, met, -, -, hr⟩
  · rw [hd]
    exact Nat.le_trans h (Nat.le_add_right _ _)
  · rwa [hr]
  · rwa [hr]

/-- **A direct path is authentic**: in every run of the socket, however its calls interleave, an endpoint that is
selected at `now` was answered. Before the section that took a pong for the answer, a datagram had come from that very
address, less than the time to live before `now`, and had opened as a pong; its sender's key was mapped to the node,
and more pings with its id had been sent to the address on account of the node than were answered. -/
theorem alive_endpoint_authentic (es : List MagicEvent) (ord : Orders) (now : Instant) (n : NodeKey) (a : SocketAddr)
    (h : (socketAfter es).shared.aliveEndpoint ord now n = some a) :
    ∃ es₁ e es₂ at' senderPub txId, es = es₁ ++ e :: es₂ ∧
      (.pong at' a senderPub txId ∈ (socketAfter es₁).log ∧ now < at' + aliveTtl ∧ at' ≤ (socketAfter es).clock) ∧
      (socketAfter es₁).shared.discoToNode.lookup senderPub = some n ∧
      pingsAnswered n a txId (socketAfter es₁).log < pingsSent n a txId (socketAfter es₁).log ∧
      ((socketAfter es₁).step magicsock e).log = (socketAfter es₁).log ++ [.answered n a txId] := by
  obtain ⟨at', hpong, hfresh⟩ := pong_of_aliveEndpoint h
  have hstart : ¬ (bound.shared.known n a).lastPongAt = some at' := fun hb => by cases hb
  -- the step at which the pong came to be known
  obtain ⟨es₁, e, es₂, rfl, hno, hyes⟩ := run_comes_about
    (fun w : MagicWorld => (w.shared.known n a).lastPongAt = some at') es bound hstart hpong
  obtain ⟨id, d, tx, htask, hmap, hout, hlog⟩ := pong_comes_from hno hyes
  obtain ⟨harrived, hle⟩ := pongLogged_after es₁ _ (mem_of_getElem? htask)
  refine ⟨es₁, e, es₂, at', d, tx, rfl, ⟨harrived, hfresh, ?_⟩, hmap, answered_lt_sent n a tx es₁ hout, hlog⟩
  exact Nat.le_trans hle (clock_le es₁ (e :: es₂))

def answeredRun (a : SocketAddr) : List MagicEvent :=
  [.call (.upsertPeer byRank 7 70 [a]), .call .pump, .resume 0 { ord := byRank },
   .resume 0 { ord := byRank, txId := 5 }, .resume 0 { ord := byRank }, .wait 40,
   .call (.datagram a (some (70, .pong 5))), .resume 1 { ord := byRank }, .resume 1 { ord := byRank }]

theorem alive_endpoint_authentic_answered :
    let a := SocketAddr.v4 0x0A000001 41641
    (socketAfter (answeredRun a)).shared.aliveEndpoint byRank 50 7 = some a ∧
      ∃ es₁ txId, pingsAnswered 7 a txId (socketAfter es₁).log < pingsSent 7 a txId (socketAfter es₁).log := by
  intro a
  have h : (socketAfter (answeredRun a)).shared.aliveEndpoint byRank 50 7 = some a := by decide +kernel
  obtain ⟨es₁, -, -, -, -, txId, -, -, -, hunanswered, -⟩ := alive_endpoint_authentic (answeredRun a) byRank 50 7 a h
  exact ⟨h, es₁, txId, hunanswered⟩

end TailscaleVita.Ms

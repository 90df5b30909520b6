import TailscaleVita.MsAuth
/-!
# MsPing — what `ping_now` reports (`ts-magicsock/src/lib.rs`)

`ping_now` picks an address and the peer's key, draws an id, and waits for whoever takes the id out of the table.
`handle_disco` does so for any pong that carries the id: it compares neither the source with the address pinged nor the
sender with the key sealed for.
-/
namespace TailscaleVita.Ms

open Ctl (NodeKey)
open MagicState List

/-! ## What a section does to the waiting calls -/

def Task.isAsked : Task → Bool
  | .sending .. => true
  | .awaiting .. => true
  | .givingUp .. => true
  | .returned .. => true
  | _ => false

/-- No call begins to wait, and none is told anything. -/
structure Waitless (s s' : MagicState) : Prop where
  out : ∀ tx f, s'.pingOutstanding.lookup tx = some f → s.pingOutstanding.lookup tx = some f
  channels : s'.channels = s.channels

theorem Waitless.of_eq {s s' : MagicState} (hout : s'.pingOutstanding = s.pingOutstanding)
    (hch : s'.channels = s.channels) : Waitless s s' := ⟨fun _ _ h => hout ▸ h, hch⟩

inductive Waits (now id : Nat) (s : MagicState) (met : Met) : Task → MagicState × Task × List Observed → Prop where
  | picks (n : NodeKey) (a : SocketAddr) (peer : PeerState) (hp : s.peers.lookup n = some peer) :
      Waits now id s met (.picking n) (s, .registering n a peer.discoPub, [])
  | registers (n : NodeKey) (a : SocketAddr) (d : DiscoKey) :
      Waits now id s met (.registering n a d) (s.registerPing now met.txId a id, .sending n a met.txId, [])
  | passes (at' : Instant) (d : DiscoKey) (src : SocketAddr) (tx : TxId) :
      Waits now id s met (.ponged at' d src tx) (s.returnPing at' tx, .accepting at' d src tx, [])
  | returns (tx : TxId) (result : SocketAddr × Nat) (hr : s.channels.lookup id = some result) :
      Waits now id s met (.awaiting tx) (s, .returned (.ok result), [])
  | other {t : Task} {r : MagicState × Task × List Observed} (hs : Waitless s r.1 := by exact .of_eq rfl rfl)
      (hnew : ∀ n a d, r.2.1 ≠ .registering n a d := by simp)
      (hasked : t.isAsked = true → r.2.1.isAsked = true := by simp [Task.isAsked])
      (hret : ∀ result, r.2.1 = .returned (.ok result) → t = .returned (.ok result) := by simp) : Waits now id s met t r

variable (s : MagicState)

theorem waitless_mergeEndpoints (d : DiscoKey) (advertised : List SocketAddr) :
    Waitless s (s.mergeEndpoints d advertised).1 := by
  unfold MagicState.mergeEndpoints
  split
  · exact .of_eq rfl rfl
  · split <;> exact .of_eq rfl rfl

variable (now : Instant)

theorem waitless_learnSource (n : NodeKey) (src : SocketAddr) : Waitless s (s.learnSource now n src) := by
  unfold MagicState.learnSource
  split
  · exact .of_eq rfl rfl
  · split
    · exact .of_eq rfl rfl
    · split <;> exact .of_eq rfl rfl

theorem waitless_recordPing (n : NodeKey) (a : SocketAddr) (tx : TxId) : Waitless s (s.recordPing now n a tx) := by
  unfold MagicState.recordPing
  split <;> exact .of_eq rfl rfl

theorem waitless_acceptPong (d : DiscoKey) (src : SocketAddr) (tx : TxId) :
    Waitless s (s.acceptPong now d src tx).1 := by
  unfold MagicState.acceptPong
  split
  · exact .of_eq rfl rfl
  · split
    · exact .of_eq rfl rfl
    · split
      · exact .of_eq rfl rfl
      · split <;> exact .of_eq rfl rfl

theorem waitless_call (s : MagicState) (request : Request) : Waitless s (call now s request).1 := by
  cases request with
  | removePeer n =>
    simp only [call, MagicState.removePeer]
    split <;> exact .of_eq rfl rfl
  | _ => exact .of_eq rfl rfl

theorem call_fresh (s : MagicState) (request : Request) (t : Task)
    (ht : (call now s request).2.1 = some t) :
    (∀ n a d, t ≠ .registering n a d) ∧ ∀ result, t ≠ .returned result := by
  cases request with
  | pump | pingNow n =>
    cases ht
    exact ⟨by simp, by simp⟩
  | datagram src opened =>
    rcases opened with _ | ⟨d, message⟩
    · cases ht
    · cases message <;> cases ht <;> exact ⟨by simp, by simp⟩
  | derpFrame opened =>
    rcases opened with _ | ⟨d, message⟩
    · cases ht
    · cases message with
      | callMeMaybe endpoints =>
        cases ht
        exact ⟨by simp, by simp⟩
      | _ => cases ht
  | _ => cases ht

variable {d : DiscoKey} {a : SocketAddr} {n : NodeKey}

theorem pickTarget_ok {s : MagicState} {ord : Orders} {now : Instant}
    (h : s.pickTarget ord now n = .ok (a, d)) : ∃ peer, s.peers.lookup n = some peer ∧ peer.discoPub = d := by
  unfold MagicState.pickTarget at h
  split at h
  · cases h
  next peer hp =>
    split at h
    · cases h
      exact ⟨peer, hp, rfl⟩
    · cases h

theorem waits (now id : Nat) (s : MagicState) (t : Task) (met : Met) :
    Waits now id s met t (resume now id s t met) := by
  cases t with simp only [resume]
  | picking n =>
    split
    next a d hpick =>
      obtain ⟨peer, hp, rfl⟩ := pickTarget_ok hpick
      exact .picks n a peer hp
    · exact .other
  | registering n a d => exact .registers n a d
  | ponged at' d src tx => exact .passes at' d src tx
  | awaiting tx =>
    split
    next result hr => exact .returns tx result hr
    · split <;> exact .other
  | givingUp tx e =>
    refine .other ⟨fun tx' f h => ?_, rfl⟩
    simp only [MagicState.unregisterPing, HashMap.lookup_erase_eq] at h
    split at h
    · cases h
    · exact h
  | returned | finished | scanning | cmmScanning => exact .other
  | pinging at' jobs after =>
    rcases jobs with _ | ⟨⟨n, d, a⟩, jobs⟩
    · cases after <;> simp only [AfterPings.task] <;> exact .other
    · simp only
      split <;> exact .other
  | cmmQueueing at' endpoints peers =>
    rcases peers with _ | ⟨⟨n, d⟩, peers⟩
    · exact .other
    · simp only
      split <;> exact .other
  | sending | pinged => split <;> exact .other
  | calledMaybe at' d advertised =>
    have hs := waitless_mergeEndpoints s d advertised
    split <;> exact .other hs
  | recording at' n a tx => exact .other (waitless_recordPing s at' n a tx)
  | learning at' n d src => exact .other (waitless_learnSource s at' n src)
  | accepting at' d src tx => exact .other (waitless_acceptPong s at' d src tx)

/-! ## The calls that asked -/

def Asked (es : List MagicEvent) (id : Nat) (n : NodeKey) (a : SocketAddr) (d : DiscoKey) (tx : TxId) : Prop :=
  ∃ es₁ met es₂, es = es₁ ++ .resume id met :: es₂ ∧ (socketAfter es₁).tasks[id]? = some (.registering n a d) ∧
    met.txId = tx

def Registered (es : List MagicEvent) (n : NodeKey) (d : DiscoKey) : Prop :=
  ∃ es₁ es₂ peer, es = es₁ ++ es₂ ∧ (socketAfter es₁).shared.peers.lookup n = some peer ∧ peer.discoPub = d

/-- The answer arrived: a pong with the id came from the address and opened under the key. -/
def Answered (es : List MagicEvent) (a : SocketAddr) (d : DiscoKey) (tx : TxId) : Prop :=
  ∃ at', .pong at' a d tx ∈ (socketAfter es).log

theorem socketAfter_snoc (es : List MagicEvent) (e : MagicEvent) :
    socketAfter (es ++ [e]) = (socketAfter es).step magicsock e := by
  unfold socketAfter
  rw [run_append]
  rfl

variable {es : List MagicEvent} {id : Nat}

theorem asked_snoc {e : MagicEvent} {tx : TxId} : Asked (es ++ [e]) id n a d tx ↔ Asked es id n a d tx ∨
      ∃ met, e = .resume id met ∧ (socketAfter es).tasks[id]? = some (.registering n a d) ∧ met.txId = tx := by
  constructor
  · rintro ⟨es1, met, es2, he, ht, htx⟩
    rcases eq_nil_or_concat es2 with rfl | ⟨es2, e', rfl⟩
    · obtain ⟨rfl, h⟩ := append_inj' he rfl
      exact .inr ⟨met, singleton_inj.1 h, ht, htx⟩
    · rw [concat_eq_append, ← cons_append, ← append_assoc] at he
      obtain ⟨rfl, -⟩ := append_inj' he rfl
      exact .inl ⟨es1, met, es2, rfl, ht, htx⟩
  · rintro (⟨es1, met, es2, rfl, ht, htx⟩ | ⟨met, rfl, ht, htx⟩)
    · exact ⟨es1, met, es2 ++ [e], by simp, ht, htx⟩
    · exact ⟨es, met, [], rfl, ht, htx⟩

theorem Registered.snoc (h : Registered es n d) (e : MagicEvent) : Registered (es ++ [e]) n d := by
  obtain ⟨es1, es2, peer, rfl, hp, hd⟩ := h
  exact ⟨es1, es2 ++ [e], peer, by simp, hp, hd⟩

theorem log_mono (es : List MagicEvent) (e : MagicEvent) : (socketAfter es).log ⊆ (socketAfter (es ++ [e])).log := by
  rw [socketAfter_snoc]
  rcases (socketAfter es).step_cases magicsock e with ⟨d, hd⟩ | ⟨request, -, hr⟩ | ⟨id, t, met, -, -, hr⟩
  · rw [hd]
    exact fun _ h => h
  · rw [hr]
    exact fun _ h => mem_append_left _ h
  · rw [hr]
    exact fun _ h => mem_append_left _ h

theorem Answered.snoc {tx : TxId} (h : Answered es a d tx) (e : MagicEvent) : Answered (es ++ [e]) a d tx := by
  obtain ⟨at', hp⟩ := h
  exact ⟨at', log_mono es e hp⟩

structure Tables (es : List MagicEvent) : Prop where
  past : ∀ id n a d tx, Asked es id n a d tx → ∃ t, (socketAfter es).tasks[id]? = some t ∧ t.isAsked = true
  waiting : ∀ tx f, (socketAfter es).shared.pingOutstanding.lookup tx = some f →
    ∃ n d, Asked es f.call n f.target d tx ∧ Registered es n d
  picked : ∀ (id : Nat) n a d, (socketAfter es).tasks[id]? = some (Task.registering n a d) → Registered es n d

theorem getElem?_set_cases {α : Type} {l : List α} {i j : Nat} {x y : α} (h : (l.set i x)[j]? = some y) :
    (j = i ∧ y = x) ∨ l[j]? = some y := by
  rw [getElem?_set] at h
  split at h
  next hij =>
    split at h
    · cases h
      exact .inl ⟨hij.symm, rfl⟩
    · cases h
  · exact .inr h

theorem getElem?_append_toList {α : Type} {l : List α} {o : Option α} {j : Nat} {y : α}
    (h : (l ++ o.toList)[j]? = some y) : o = some y ∨ l[j]? = some y := by
  rw [getElem?_append] at h
  split at h
  · exact .inr h
  · exact .inl (Option.mem_toList.1 (mem_of_getElem? h))

theorem isAsked_resume (now id : Nat) (s : MagicState) (t : Task) (met : Met) (hasked : t.isAsked = true) :
    (magicsock.resume now id s t met).2.1.isAsked = true := by
  have hwaits : Waits now id s met t (magicsock.resume now id s t met) := waits now id s t met
  generalize magicsock.resume now id s t met = r at hwaits ⊢
  cases hwaits with
  | picks | registers | passes => cases hasked
  | returns => rfl
  | other _ _ hkeep => exact hkeep hasked

theorem isAsked_step {w : MagicWorld} {t : Task} (ht : w.tasks[id]? = some t) (hasked : t.isAsked = true)
    (e : MagicEvent) : ∃ t', (w.step magicsock e).tasks[id]? = some t' ∧ t'.isAsked = true :=
  w.task_keeps magicsock (fun t => t.isAsked = true) (fun now s => isAsked_resume now id s) e ⟨t, ht, hasked⟩

variable {tx tx' : TxId}

theorem waiting_of_returnPing {s : MagicState} {now : Instant} {f : PingInflight}
    (h : (s.returnPing now tx).pingOutstanding.lookup tx' = some f) : s.pingOutstanding.lookup tx' = some f := by
  unfold MagicState.returnPing at h
  split at h
  · simp only [HashMap.lookup_erase_eq] at h
    split at h
    · cases h
    · exact h
  · exact h

theorem tables_past (h : Tables es) (e : MagicEvent) (id : Nat) (n : NodeKey) (a : SocketAddr) (d : DiscoKey)
    (tx : TxId) (hasked : Asked (es ++ [e]) id n a d tx) :
    ∃ t, (socketAfter (es ++ [e])).tasks[id]? = some t ∧ t.isAsked = true := by
  rw [socketAfter_snoc]
  rcases asked_snoc.1 hasked with hold | ⟨met, rfl, ht, -⟩
  · obtain ⟨t, ht, hpast⟩ := h.past id n a d tx hold
    exact isAsked_step ht hpast e
  · exact ⟨_, (World.step_resume magicsock ht met).2, rfl⟩

theorem tables_waiting (h : Tables es) (e : MagicEvent) (tx : TxId) (f : PingInflight)
    (hf : (socketAfter (es ++ [e])).shared.pingOutstanding.lookup tx = some f) :
    ∃ n d, Asked (es ++ [e]) f.call n f.target d tx ∧ Registered (es ++ [e]) n d := by
  have hold : (socketAfter es).shared.pingOutstanding.lookup tx = some f →
      ∃ n d, Asked (es ++ [e]) f.call n f.target d tx ∧ Registered (es ++ [e]) n d := fun hf => by
    obtain ⟨n, d, hasked, hreg⟩ := h.waiting tx f hf
    exact ⟨n, d, asked_snoc.2 (.inl hasked), hreg.snoc e⟩
  rw [socketAfter_snoc] at hf
  rcases (socketAfter es).step_cases magicsock e with ⟨d, hd⟩ | ⟨request, -, hr⟩ | ⟨id, t, met, he, hid, hr⟩
  · rw [hd] at hf
    exact hold hf
  · rw [hr] at hf
    exact hold ((waitless_call (socketAfter es).clock (socketAfter es).shared request).out tx f hf)
  · rw [hr] at hf
    have hwaits : Waits (socketAfter es).clock id (socketAfter es).shared met t
      (magicsock.resume (socketAfter es).clock id (socketAfter es).shared t met) := waits _ id _ t met
    generalize magicsock.resume (socketAfter es).clock id (socketAfter es).shared t met = r at hwaits hf
    cases hwaits with
    | picks => exact hold hf
    | registers n a d =>
      simp only [MagicState.registerPing, HashMap.lookup_insert_eq] at hf
      split at hf
      next htx =>
        cases hf
        exact ⟨n, d, asked_snoc.2 (.inr ⟨met, he, hid, htx.symm⟩), (h.picked id n a d hid).snoc e⟩
      · exact hold hf
    | passes => exact hold (waiting_of_returnPing hf)
    | returns => exact hold hf
    | other hs => exact hold (hs.out tx f hf)

theorem tables_picked (h : Tables es) (e : MagicEvent) (id : Nat) (n : NodeKey) (a : SocketAddr) (d : DiscoKey)
    (ht : (socketAfter (es ++ [e])).tasks[id]? = some (Task.registering n a d)) :
    Registered (es ++ [e]) n d := by
  rw [socketAfter_snoc] at ht
  rcases (socketAfter es).step_cases magicsock e with ⟨c, hc⟩ | ⟨request, -, hr⟩ | ⟨id', t, met, -, hid, hr⟩
  · rw [hc] at ht
    exact (h.picked id n a d ht).snoc e
  · rw [hr] at ht
    rcases getElem?_append_toList ht with hnew | ht
    · exact absurd rfl ((call_fresh _ _ request _ hnew).1 n a d)
    · exact (h.picked id n a d ht).snoc e
  · rw [hr] at ht
    rcases getElem?_set_cases ht with ⟨-, hnew⟩ | ht
    · have hwaits : Waits (socketAfter es).clock id' (socketAfter es).shared met t
        (magicsock.resume (socketAfter es).clock id' (socketAfter es).shared t met) := waits _ id' _ t met
      generalize magicsock.resume (socketAfter es).clock id' (socketAfter es).shared t met = r at hwaits hnew
      cases hwaits with
      | picks m b peer hp =>
        cases hnew
        exact ⟨es, [e], peer, rfl, hp, rfl⟩
      | registers | passes | returns => cases hnew
      | other _ hno => exact absurd hnew.symm (hno n a d)
    · exact (h.picked id n a d ht).snoc e

theorem tables_after (es : List MagicEvent) : Tables es := by
  induction es using List.reverseRecOn with
  | nil =>
    refine ⟨fun id n a d tx h => ?_, nofun, nofun⟩
    obtain ⟨es1, met, es2, he, -⟩ := h
    simp at he
  | append_singleton es e ih => exact ⟨tables_past ih e, tables_waiting ih e, tables_picked ih e⟩

theorem asked_unique {n n' : NodeKey} {a a' : SocketAddr} {d d' : DiscoKey} (h : Asked es id n a d tx)
    (h' : Asked es id n' a' d' tx') :
    n = n' ∧ a = a' ∧ d = d' ∧ tx = tx' := by
  induction es using List.reverseRecOn with
  | nil =>
    obtain ⟨es1, met, es2, he, -⟩ := h
    simp at he
  | append_singleton es e ih =>
    -- who asked before is no longer about to
    have hpast : ∀ {m b k x m' b' k'}, Asked es id m b k x →
        (socketAfter es).tasks[id]? ≠ some (.registering m' b' k') := fun hasked ht => by
      obtain ⟨t, ht', hisAsked⟩ := (tables_after es).past _ _ _ _ _ hasked
      cases Option.some.inj (ht'.symm.trans ht)
      cases hisAsked
    rcases asked_snoc.1 h with hold | ⟨met, he, ht, rfl⟩
    · rcases asked_snoc.1 h' with hold' | ⟨met', -, ht', -⟩
      · exact ih hold hold'
      · exact absurd ht' (hpast hold)
    · rcases asked_snoc.1 h' with hold' | ⟨met', he', ht', rfl⟩
      · exact absurd ht (hpast hold')
      · cases Option.some.inj (ht.symm.trans ht')
        cases he.symm.trans he'
        exact ⟨rfl, rfl, rfl, rfl⟩

/-! ## What the calls return -/

def Reported (answered : List MagicEvent → SocketAddr → DiscoKey → TxId → Prop) (es : List MagicEvent) (id : Nat)
    (a : SocketAddr) : Prop :=
  ∃ n d tx, Asked es id n a d tx ∧ Registered es n d ∧ answered es a d tx

structure Results (answered : List MagicEvent → SocketAddr → DiscoKey → TxId → Prop) (es : List MagicEvent) : Prop where
  sent : ∀ id a rtt, (socketAfter es).shared.channels.lookup id = some (a, rtt) → Reported answered es id a
  returned : ∀ (id : Nat) a rtt, (socketAfter es).tasks[id]? = some (Task.returned (.ok (a, rtt))) →
    Reported answered es id a

def Completes (answered : List MagicEvent → SocketAddr → DiscoKey → TxId → Prop) (es : List MagicEvent)
    (e : MagicEvent) : Prop :=
  ∀ id met at' src d' tx f n d, e = .resume id met → (socketAfter es).tasks[id]? = some (.ponged at' d' src tx) →
    (socketAfter es).shared.pingOutstanding.lookup tx = some f → Asked es f.call n f.target d tx →
    answered es f.target d tx

section

variable {answered : List MagicEvent → SocketAddr → DiscoKey → TxId → Prop}
  (hmono : ∀ {es a d tx}, answered es a d tx → ∀ e, answered (es ++ [e]) a d tx)
include hmono

variable {es : List MagicEvent}

theorem Reported.snoc {id : Nat} {a : SocketAddr} (h : Reported answered es id a)
    (e : MagicEvent) : Reported answered (es ++ [e]) id a := by
  obtain ⟨n, d, tx, hasked, hreg, hans⟩ := h
  exact ⟨n, d, tx, asked_snoc.2 (.inl hasked), hreg.snoc e, hmono hans e⟩

theorem results_sent (h : Results answered es) (e : MagicEvent) (hok : Completes answered es e) (id : Nat)
    (a : SocketAddr) (rtt : Nat) (hch : (socketAfter (es ++ [e])).shared.channels.lookup id = some (a, rtt)) :
    Reported answered (es ++ [e]) id a := by
  have hold : (socketAfter es).shared.channels.lookup id = some (a, rtt) → Reported answered (es ++ [e]) id a :=
    fun hch => (h.sent id a rtt hch).snoc hmono e
  rw [socketAfter_snoc] at hch
  rcases (socketAfter es).step_cases magicsock e with ⟨c, hc⟩ | ⟨request, -, hr⟩ | ⟨id', t, met, he, hid, hr⟩
  · rw [hc] at hch
    exact hold hch
  · rw [hr] at hch
    rw [← (waitless_call (socketAfter es).clock (socketAfter es).shared request).channels] at hold
    exact hold hch
  · rw [hr] at hch
    have hwaits : Waits (socketAfter es).clock id' (socketAfter es).shared met t
      (magicsock.resume (socketAfter es).clock id' (socketAfter es).shared t met) := waits _ id' _ t met
    generalize magicsock.resume (socketAfter es).clock id' (socketAfter es).shared t met = r at hwaits hch
    cases hwaits with
    | picks | registers => exact hold hch
    | passes at' d src tx =>
      simp only [MagicState.returnPing] at hch
      split at hch
      next f hf =>
        simp only [HashMap.lookup_insert_eq] at hch
        split at hch
        next hcall =>
          cases hch
          subst hcall
          obtain ⟨n, k, hasked, hreg⟩ := (tables_after es).waiting tx f hf
          have hans := hok id' met at' src d tx f n k he hid hf hasked
          exact ⟨n, k, tx, asked_snoc.2 (.inl hasked), hreg.snoc e, hmono hans e⟩
        · exact hold hch
      · exact hold hch
    | returns => exact hold hch
    | other hs => exact hold (by rw [← hs.channels]; exact hch)

theorem results_returned (h : Results answered es) (e : MagicEvent) (id : Nat) (a : SocketAddr) (rtt : Nat)
    (ht : (socketAfter (es ++ [e])).tasks[id]? = some (Task.returned (.ok (a, rtt)))) :
    Reported answered (es ++ [e]) id a := by
  rw [socketAfter_snoc] at ht
  rcases (socketAfter es).step_cases magicsock e with ⟨c, hc⟩ | ⟨request, -, hr⟩ | ⟨id', t, met, -, hid, hr⟩
  · rw [hc] at ht
    exact (h.returned id a rtt ht).snoc hmono e
  · rw [hr] at ht
    rcases getElem?_append_toList ht with hnew | ht
    · exact absurd rfl ((call_fresh _ _ request _ hnew).2 _)
    · exact (h.returned id a rtt ht).snoc hmono e
  · rw [hr] at ht
    rcases getElem?_set_cases ht with ⟨rfl, hnew⟩ | ht
    · have hwaits : Waits (socketAfter es).clock id (socketAfter es).shared met t
        (magicsock.resume (socketAfter es).clock id (socketAfter es).shared t met) := waits _ id _ t met
      generalize magicsock.resume (socketAfter es).clock id (socketAfter es).shared t met = r at hwaits hnew
      cases hwaits with
      | picks | registers | passes => cases hnew
      | returns tx result hres =>
        cases hnew
        exact (h.sent id a rtt hres).snoc hmono e
      | other _ _ _ hret =>
        cases hret _ hnew.symm
        exact (h.returned id a rtt hid).snoc hmono e
    · exact (h.returned id a rtt ht).snoc hmono e

theorem results_after (es : List MagicEvent)
    (hok : ∀ es1 e es2, es = es1 ++ e :: es2 → Completes answered es1 e) : Results answered es := by
  induction es using List.reverseRecOn with
  | nil => exact ⟨nofun, nofun⟩
  | append_singleton es e ih =>
    have hes : Results answered es := ih (fun es1 e' es2 he => hok es1 e' (es2 ++ [e]) (by simp [he]))
    exact ⟨results_sent hmono hes e (hok es e [] rfl), results_returned hmono hes e⟩

end

def PongArrived (es : List MagicEvent) (_ : SocketAddr) (_ : DiscoKey) (tx : TxId) : Prop :=
  ∃ at' src d, .pong at' src d tx ∈ (socketAfter es).log

theorem pongArrived_completes (es : List MagicEvent) (e : MagicEvent) : Completes PongArrived es e := by
  intro id met at' src d' tx f n d _ ht _ _
  obtain ⟨hlog, -⟩ := pongLogged_after es _ (mem_of_getElem? ht)
  exact ⟨at', src, d', hlog⟩

theorem append_pair (es : List MagicEvent) (e e' : MagicEvent) : es ++ [e, e'] = (es ++ [e]) ++ [e'] := by
  rw [append_assoc, singleton_append]

theorem returns_after_pong (met met' : Met) {at' : Instant} {src : SocketAddr} {f : PingInflight}
    (hpong : (socketAfter es).tasks[id]? = some (.ponged at' d src tx))
    (hwait : (socketAfter es).shared.pingOutstanding.lookup tx = some f)
    (hcall : (socketAfter es).tasks[f.call]? = some (.awaiting tx')) :
    (socketAfter (es ++ [.resume id met, .resume f.call met'])).tasks[f.call]? =
        some (.returned (.ok (f.target, at' - f.sentAt))) ∧
      (socketAfter (es ++ [.resume id met, .resume f.call met'])).log = (socketAfter es).log := by
  have hne : id ≠ f.call := fun h => by
    rw [h, hcall] at hpong
    cases hpong
  have hlt : f.call < (socketAfter es).tasks.length := (List.getElem?_eq_some_iff.1 hcall).1
  rw [append_pair, socketAfter_snoc, socketAfter_snoc]
  simp only [World.step, hpong, magicsock, resume, MagicState.returnPing, hwait, getElem?_set_ne hne, hcall,
    HashMap.lookup_insert_eq, if_true, append_nil]
  exact ⟨getElem?_set_self (by rw [length_set]; exact hlt), trivial⟩

theorem answered_of_log {es es' : List MagicEvent} (h : (socketAfter es').log = (socketAfter es).log) (a : SocketAddr)
    (d : DiscoKey) (tx : TxId) : Answered es' a d tx ↔ Answered es a d tx := by
  unfold Answered
  rw [h]

/-- **What `ping_now` reports**: in every run, a call that returned an address pinged that address, for a key its node
had, and some pong with its id arrived. If every pong that completes a call finds the answer arrived, from the address
and under the key, then so it is for every call that returned. A waiting call that a pong completes returns at its next
section; its answer has arrived by then exactly when that pong met the condition. -/
theorem ping_now_authentic_iff_completed_by_answer (es : List MagicEvent) :
    (∀ (id : Nat) a rtt, (socketAfter es).tasks[id]? = some (.returned (.ok (a, rtt))) →
      Reported PongArrived es id a) ∧
    ((∀ es₁ e es₂, es = es₁ ++ e :: es₂ → Completes Answered es₁ e) →
      ∀ (id : Nat) a rtt, (socketAfter es).tasks[id]? = some (.returned (.ok (a, rtt))) → Reported Answered es id a) ∧
    ∀ (id : Nat) met met' at' d src tx tx' f, (socketAfter es).tasks[id]? = some (.ponged at' d src tx) →
      (socketAfter es).shared.pingOutstanding.lookup tx = some f →
      (socketAfter es).tasks[f.call]? = some (.awaiting tx') →
      (socketAfter (es ++ [.resume id met, .resume f.call met'])).tasks[f.call]? =
          some (.returned (.ok (f.target, at' - f.sentAt))) ∧
        (Reported Answered (es ++ [.resume id met, .resume f.call met']) f.call f.target ↔
          Completes Answered es (.resume id met)) := by
  have harrived : ∀ {es a d tx}, PongArrived es a d tx → ∀ e, PongArrived (es ++ [e]) a d tx := fun h e => by
    obtain ⟨at', src, d, hp⟩ := h
    exact ⟨at', src, d, log_mono _ e hp⟩
  refine ⟨?_, ?_, ?_⟩
  · exact (results_after harrived es (fun es₁ e _ _ => pongArrived_completes es₁ e)).returned
  · intro hok
    exact (results_after (fun h e => h.snoc e) es hok).returned
  · intro id met met' at' d src tx tx' f hpong hwait hcall
    obtain ⟨hret, hlog⟩ := returns_after_pong met met' hpong hwait hcall
    refine ⟨hret, ?_⟩
    obtain ⟨n, k, hasked, hreg⟩ := (tables_after es).waiting tx f hwait
    have hasked' : Asked (es ++ ([.resume id met, .resume f.call met'] : List MagicEvent)) f.call n f.target k tx := by
      rw [append_pair]
      exact asked_snoc.2 (.inl (asked_snoc.2 (.inl hasked)))
    have hreg' : Registered (es ++ ([.resume id met, .resume f.call met'] : List MagicEvent)) n k := by
      rw [append_pair]
      exact (hreg.snoc _).snoc _
    constructor
    · rintro ⟨n', k', x, hasked'', -, hans⟩ id₀ met₀ at₀ src₀ d₀ tx₀ f₀ n₀ k₀ he ht hf hask
      cases he
      cases Option.some.inj (hpong.symm.trans ht)
      cases Option.some.inj (hwait.symm.trans hf)
      -- the call asked once, so both are the answer it waits for
      obtain ⟨-, -, rfl, rfl⟩ := asked_unique hasked' hasked''
      obtain ⟨-, -, rfl, -⟩ := asked_unique hasked hask
      exact (answered_of_log hlog _ _ _).1 hans
    · intro hcomp
      have hans := hcomp id met at' src d tx f n k rfl hpong hwait hasked
      exact ⟨n, k, tx, hasked', hreg', (answered_of_log hlog _ _ _).2 hans⟩

def pingedRun (a src : SocketAddr) (sender : DiscoKey) : List MagicEvent :=
  [.call (.upsertPeer byRank 7 70 [a]), .call (.pingNow 7), .resume 0 { ord := byRank },
   .resume 0 { ord := byRank, txId := 5 }, .resume 0 { ord := byRank }, .wait 40,
   .call (.datagram src (some (sender, .pong 5)))]

theorem ping_now_authentic_answered :
    let a := SocketAddr.v4 0x0A000001 41641
    (socketAfter (pingedRun a a 70 ++ [.resume 1 { ord := byRank }, .resume 0 { ord := byRank }])).tasks[0]? =
        some (.returned (.ok (a, 40))) ∧
      Reported Answered (pingedRun a a 70 ++ [.resume 1 { ord := byRank }, .resume 0 { ord := byRank }]) 0 a := by
  intro a
  obtain ⟨-, -, hexact⟩ := ping_now_authentic_iff_completed_by_answer (pingedRun a a 70)
  have hwait : (socketAfter (pingedRun a a 70)).shared.pingOutstanding.lookup 5 = some ⟨0, a, 0⟩ := by decide +kernel
  obtain ⟨hret, hiff⟩ := hexact 1 { ord := byRank } { ord := byRank } 40 70 a 5 5 ⟨0, a, 0⟩ rfl hwait rfl
  refine ⟨hret, hiff.2 ?_⟩
  have hasks : Asked (pingedRun a a 70) 0 7 a 70 5 :=
    ⟨[.call (.upsertPeer byRank 7 70 [a]), .call (.pingNow 7), .resume 0 { ord := byRank }],
      { ord := byRank, txId := 5 }, _, rfl, rfl, rfl⟩
  intro id met at' src d' tx f n d he ht hf hasked
  cases he
  cases Option.some.inj (ht.symm.trans rfl)
  cases Option.some.inj (hf.symm.trans hwait)
  obtain ⟨-, -, rfl, -⟩ := asked_unique hasks hasked
  exact ⟨40, by decide +kernel⟩

theorem ping_now_reports_stranger :
    let a := SocketAddr.v4 0x0A000001 41641
    let b := SocketAddr.v4 0xC0000209 7
    let es := pingedRun a b 99 ++ [.resume 1 { ord := byRank }, .resume 0 { ord := byRank }]
    (socketAfter es).tasks[0]? = some (.returned (.ok (a, 40))) ∧
      (∀ at' d tx, .pong at' a d tx ∉ (socketAfter es).log) ∧ ¬ Reported Answered es 0 a := by
  intro a b es
  have hlog : (socketAfter es).log = [.sent 7 a 5, .pong 40 b 99 5] := by decide +kernel
  have hnone : ∀ at' d tx, .pong at' a d tx ∉ (socketAfter es).log := by
    intro at' d tx h
    rw [hlog] at h
    simp [a, b] at h
  have hwait : (socketAfter (pingedRun a b 99)).shared.pingOutstanding.lookup 5 = some ⟨0, a, 0⟩ := by decide +kernel
  refine ⟨(returns_after_pong { ord := byRank } { ord := byRank } rfl hwait rfl).1, hnone, ?_⟩
  rintro ⟨n, d, tx, -, -, at', h⟩
  exact hnone at' d tx h

end TailscaleVita.Ms

import TailscaleVita.FtpPortScan
/-!
# FtpPassive — the data listeners of all sessions

The sessions of a server run on threads of their own, and share the port cursor and the network stack; they take turns
call by call, in any order. The stack gives a listener on a port that has one already, and the cursor comes round to
every port again, after as many claims as the range has ports (`passive_isolation_iff`).
-/
namespace TailscaleVita.Ftp

open List

abbrev Listens (ctx : Ctx) (held : Held) (m : FtpProg (Session × Bool)) : Prop :=
  m.Tracks (ports ctx) (fun held' r => r.1.pasv = held'.1) held

theorem turn_listens {ctx : Ctx} {s : Session} (line : Option Command) (last : Option (BitVec 16)) :
    Listens ctx (s.pasv, last) (s.turn ctx line) :=
  Prog.Tracks.weaken (p := s.turns ctx line) (fun _ _ h => ⟨h.2, fun _ => rfl⟩) (fun _ _ h => h.2)
    (turn_turns ctx s line last)

structure Thread where
  session : Session
  work : Option (FtpProg (Session × Bool)) := none
  ended : Bool := false

structure Server where
  cursor : BitVec 16
  table : List (Nat × BitVec 16) := []
  threads : List Thread := []
  claims : List Nat := []

/-- A control connection comes in, a session reads a line (or none any more), a thread makes its next call. `answer` is
what the call meets, where it is not the server that answers. -/
inductive ServerEvent where
  | connect (peer : IpAddr)
  | line (id : Nat) (line : Option Command)
  | resume (id : Nat) (answer : (c : FtpCall) → c.Answer)

def maxSessions : Nat := 8

namespace Server

def start (ctx : Ctx) : Server := { cursor := ctx.cfg.passivePortLo }

def handle (s : Server) (id : Nat) (answer : (c : FtpCall) → c.Answer) : (c : FtpCall) → c.Answer × Server
  | .claimPort lo hi => (s.cursor, { s with cursor := advanced lo hi s.cursor, claims := id :: s.claims })
  | .bindHandle port => (port ≠ 0, if port = 0 then s else { s with table := s.table ++ [(id, port)] })
  | .dropListener port => ((), { s with table := s.table.erase (id, port) })
  | c => (answer c, s)

def step (ctx : Ctx) (s : Server) : ServerEvent → Server
  | .connect peer =>
    if maxSessions ≤ (s.threads.filter (fun t => !t.ended)).length then s
    else { s with threads := s.threads ++ [{ session := Session.new ctx peer }] }
  | .line id line =>
    match s.threads[id]? with
    | some ⟨session, none, false⟩ =>
      { s with threads := s.threads.set id ⟨session, some (session.turn ctx line), false⟩ }
    | _ => s
  | .resume id answer =>
    match s.threads[id]? with
    | some ⟨_, some (.done (session, goesOn)), _⟩ => { s with threads := s.threads.set id ⟨session, none, !goesOn⟩ }
    | some ⟨session, some (.call c next), ended⟩ =>
      let (r, s) := s.handle id answer c
      { s with threads := s.threads.set id ⟨session, some (next r), ended⟩ }
    | _ => s

def portsOf (table : List (Nat × BitVec 16)) (id : Nat) : List (BitVec 16) :=
  (table.filter (fun l => decide (l.1 = id))).map Prod.snd

def Keeps (ctx : Ctx) (held : Held) (t : Thread) : Prop :=
  match t.work with
  | none => t.session.pasv = held.1
  | some m => Listens ctx held m

def since (s : Server) (id : Nat) : Nat := s.claims.idxOf id

def Claimed (ctx : Ctx) (s : Server) (l : Nat × BitVec 16) : Prop :=
  ctx.cfg.passivePortLo ≤ ctx.cfg.passivePortHi ∧ l.1 ∈ s.claims ∧
    l.2 = portAt ctx.cfg.passivePortLo ctx.cfg.passivePortHi ctx.cfg.passivePortLo (s.claims.length - 1 - s.since l.1)

structure Holds (ctx : Ctx) (s : Server) (id : Nat) (held : Held) : Prop where
  table : portsOf s.table id = held.1.toList
  bound : ∀ port, held.1 = some port → held.2 = some port
  claim : ∀ port, held.2 = some port → s.Claimed ctx (id, port)

structure Linked (ctx : Ctx) (s : Server) : Prop where
  known : ∀ l ∈ s.table, l.1 < s.threads.length
  round : ∀ k, portAt ctx.cfg.passivePortLo ctx.cfg.passivePortHi s.cursor k =
    portAt ctx.cfg.passivePortLo ctx.cfg.passivePortHi ctx.cfg.passivePortLo (s.claims.length + k)
  thread : ∀ id t, s.threads[id]? = some t → ∃ held, s.Holds ctx id held ∧ Keeps ctx held t

/-- No two sessions listen on one port, and a connection to the port a session has advertised comes to it. -/
def Isolated (s : Server) : Prop :=
  (∀ a ∈ s.table, ∀ b ∈ s.table, a.2 = b.2 → a.1 = b.1) ∧
  ∀ id t port, s.threads[id]? = some t → t.work = none → t.session.pasv = some port →
    (id, port) ∈ s.table ∧ ∀ owner, (owner, port) ∈ s.table → owner = id

def binding (s : Server) : ServerEvent → Option (Nat × BitVec 16)
  | .resume id _ =>
    match s.threads[id]? with
    | some ⟨_, some (.call (.bindHandle port) _), _⟩ => if port = 0 then none else some (id, port)
    | _ => none
  | .connect _ | .line _ _ => none

/-- Between the claim of a session that binds its port and those of the others that listen, the cursor has not gone
round the range a whole number of times. -/
def Unshared (ctx : Ctx) (s : Server) (e : ServerEvent) : Prop :=
  ∀ l ∈ s.binding e, ∀ other ∈ s.table, other.1 ≠ l.1 →
    ¬ Nat.ModEq (rangeSize ctx.cfg.passivePortLo ctx.cfg.passivePortHi) (s.since other.1) (s.since l.1)

variable {ctx : Ctx} {id : Nat}

theorem mem_portsOf {table : List (Nat × BitVec 16)} {port : BitVec 16} :
    port ∈ portsOf table id ↔ (id, port) ∈ table := by
  unfold portsOf
  simp

theorem portsOf_append (table : List (Nat × BitVec 16)) (id id' : Nat) (port : BitVec 16) :
    portsOf (table ++ [(id', port)]) id = portsOf table id ++ if id' = id then [port] else [] := by
  unfold portsOf
  rw [filter_append, map_append]
  by_cases h : id' = id <;> simp [h]

theorem portsOf_erase : ∀ (table : List (Nat × BitVec 16)) (id id' : Nat) (port : BitVec 16),
    portsOf (table.erase (id', port)) id = if id' = id then (portsOf table id).erase port else portsOf table id
  | [], id, id', port => by simp [portsOf]
  | (o, p) :: table, id, id', port => by
    have ih := portsOf_erase table id id' port
    unfold portsOf at ih ⊢
    by_cases he : (o, p) = (id', port)
    · obtain ⟨rfl, rfl⟩ := Prod.mk.inj he
      rw [erase_cons_head]
      by_cases ho : o = id <;> simp [ho]
    · rw [erase_cons_tail (by simpa using he), filter_cons, filter_cons]
      by_cases ho : o = id
      · subst ho
        by_cases hi : id' = o
        · subst hi
          have hp : p ≠ port := fun h => he (by rw [h])
          simp [ih, erase_cons_tail, hp]
        · simp [ih, hi]
      · simp [ih, ho]

variable {s : Server}

theorem isolated_iff (h : s.Linked ctx) : s.Isolated ↔ ∀ a ∈ s.table, ∀ b ∈ s.table, a.2 = b.2 → a.1 = b.1 := by
  refine ⟨And.left, fun hiso => ⟨hiso, fun id t port ht hw hp => ?_⟩⟩
  obtain ⟨⟨_, last⟩, hheld, hk⟩ := h.thread id t ht
  unfold Keeps at hk
  rw [hw, hp] at hk
  cases hk
  have hmem : (id, port) ∈ s.table := mem_portsOf.1 (by rw [hheld.table]; exact mem_singleton.2 rfl)
  exact ⟨hmem, fun owner ho => hiso _ ho _ hmem rfl⟩

theorem linked_set (h : s.Linked ctx) {t t' : Thread} (ht : s.threads[id]? = some t) {s' : Server}
    (held : Held) (hown : s'.Holds ctx id held) (hk : Keeps ctx held t')
    (hround : ∀ k, portAt ctx.cfg.passivePortLo ctx.cfg.passivePortHi s'.cursor k =
      portAt ctx.cfg.passivePortLo ctx.cfg.passivePortHi ctx.cfg.passivePortLo (s'.claims.length + k))
    (hothers : ∀ id' held, id ≠ id' → s.Holds ctx id' held → s'.Holds ctx id' held)
    (htable : ∀ l ∈ s'.table, l ∈ s.table ∨ l.1 = id) :
    Linked ctx { s' with threads := s.threads.set id t' } := by
  have hlt : id < s.threads.length := (List.getElem?_eq_some_iff.1 ht).1
  refine ⟨fun l hl => ?_, hround, fun id' u hu => ?_⟩
  · rw [length_set]
    rcases htable l hl with hl | rfl
    · exact h.known l hl
    · exact hlt
  · by_cases hid : id = id'
    · subst hid
      rw [getElem?_set_self hlt] at hu
      cases hu
      exact ⟨held, ⟨hown.table, hown.bound, hown.claim⟩, hk⟩
    · rw [getElem?_set_ne hid] at hu
      obtain ⟨held', hheld, hk'⟩ := h.thread id' u hu
      have hheld' := hothers id' held' hid hheld
      exact ⟨held', ⟨hheld'.table, hheld'.bound, hheld'.claim⟩, hk'⟩

theorem linked_thread (h : s.Linked ctx) {t t' : Thread} (ht : s.threads[id]? = some t) {held : Held}
    (hown : s.Holds ctx id held) (hk : Keeps ctx held t') :
    Linked ctx { s with threads := s.threads.set id t' } :=
  linked_set h ht held hown hk h.round (fun _ _ _ hheld => hheld) (fun _ hl => .inl hl)

theorem linked_start (ctx : Ctx) : (start ctx).Linked ctx :=
  ⟨fun l hl => (by cases hl), fun k => by rw [start, length_nil, Nat.zero_add], fun id t ht => by cases ht⟩

theorem linked_connect (h : s.Linked ctx) (session : Session) (hnew : session.pasv = none) :
    Linked ctx { s with threads := s.threads ++ [{ session := session }] } := by
  refine ⟨fun l hl => ?_, h.round, fun id t ht => ?_⟩
  · rw [length_append]
    exact Nat.lt_add_right _ (h.known l hl)
  · rcases Nat.lt_or_ge id s.threads.length with hid | hid
    · rw [getElem?_append_left hid] at ht
      obtain ⟨held, hheld, hk⟩ := h.thread id t ht
      exact ⟨held, ⟨hheld.table, hheld.bound, hheld.claim⟩, hk⟩
    · -- the new thread: nothing in the table is beyond the threads there were
      rw [getElem?_append_right hid, getElem?_singleton] at ht
      split at ht
      · cases ht
        refine ⟨(none, none), ⟨eq_nil_iff_forall_not_mem.2 (fun port hport => ?_), nofun, nofun⟩, hnew⟩
        exact absurd (h.known _ (mem_portsOf.1 hport)) (Nat.not_lt.2 hid)
      · cases ht

theorem handle_bind_zero (s : Server) (id : Nat) (answer : (c : FtpCall) → c.Answer) :
    s.handle id answer (.bindHandle 0) = (false, s) := rfl

theorem handle_bind (s : Server) (id : Nat) (answer : (c : FtpCall) → c.Answer) {port : BitVec 16} (hp : port ≠ 0) :
    s.handle id answer (.bindHandle port) = (true, { s with table := s.table ++ [(id, port)] }) := by
  show (decide (port ≠ 0), if port = 0 then s else _) = _
  rw [if_neg hp, decide_eq_true hp]

theorem claimed_claim (h : s.Linked ctx) (hrange : ctx.cfg.passivePortLo ≤ ctx.cfg.passivePortHi) (cursor : BitVec 16) :
    Claimed ctx { s with cursor := cursor, claims := id :: s.claims }
      (id, claimed ctx.cfg.passivePortLo ctx.cfg.passivePortHi s.cursor) := by
  refine ⟨hrange, mem_cons_self, ?_⟩
  rw [claimed_eq hrange, h.round 0, since, idxOf_cons_self, length_cons]
  rfl

theorem claimed_of_ne {l : Nat × BitVec 16} (hne : id ≠ l.1) (cursor : BitVec 16) (h : s.Claimed ctx l) :
    Claimed ctx { s with cursor := cursor, claims := id :: s.claims } l := by
  obtain ⟨hrange, hmem, hport⟩ := h
  refine ⟨hrange, mem_cons_of_mem _ hmem, hport.trans ?_⟩
  have hlt := idxOf_lt_length_iff.2 hmem
  have hsince : idxOf l.1 (id :: s.claims) = s.since l.1 + 1 := idxOf_cons_ne _ hne
  congr 1
  show _ = (id :: s.claims).length - 1 - idxOf l.1 (id :: s.claims)
  rw [hsince, length_cons]
  unfold since at hlt ⊢
  omega

theorem linked_handle (h : s.Linked ctx) {session : Session} {c : FtpCall}
    {next : c.Answer → FtpProg (Session × Bool)} {ended : Bool} (answer : (c : FtpCall) → c.Answer)
    (ht : s.threads[id]? = some ⟨session, some (.call c next), ended⟩) :
    Linked ctx { (s.handle id answer c).2 with
      threads := (s.handle id answer c).2.threads.set id ⟨session, some (next (s.handle id answer c).1), ended⟩ } := by
  obtain ⟨held, hheld, hk⟩ := h.thread id _ ht
  cases c with
  | bindHandle port =>
    obtain ⟨hnone, hnext⟩ := hk
    cases hnone
    by_cases hp : port = 0
    · subst hp
      rw [handle_bind_zero]
      exact linked_thread h ht hheld (hnext false)
    · rw [handle_bind s id answer hp]
      refine linked_set h ht (some port, some port) ⟨?_, fun _ hb => hb, hheld.claim⟩ (hnext true) h.round
        (fun id' _ hid hother => ⟨?_, hother.bound, hother.claim⟩) (fun l hl => ?_)
      · rw [portsOf_append, if_pos rfl, hheld.table]
        rfl
      · rw [portsOf_append, if_neg hid, append_nil, hother.table]
      · rcases mem_append.1 hl with hl | hl
        · exact .inl hl
        · exact .inr (by rw [mem_singleton.1 hl])
  | dropListener port =>
    obtain ⟨hsome, hnext⟩ := hk
    have hdrop : s.handle id answer (.dropListener port) = ((), { s with table := s.table.erase (id, port) }) := rfl
    rw [hdrop]
    refine linked_set h ht (none, held.2) ⟨?_, by nofun, hheld.claim⟩ (hnext ()) h.round
      (fun id' _ hid hother => ⟨?_, hother.bound, hother.claim⟩) (fun l hl => .inl (mem_of_mem_erase hl))
    · rw [portsOf_erase, if_pos rfl, hheld.table, hsome]
      simp
    · rw [portsOf_erase, if_neg hid, hother.table]
  | claimPort lo hi =>
    obtain ⟨⟨hnone, hrange, rfl, rfl⟩, hnext⟩ := hk
    refine linked_set h ht _ ⟨?_, by nofun, ?_⟩ (hnext s.cursor) (fun k => ?_)
      (fun _ _ hid hother => ⟨hother.table, hother.bound, fun port hp => claimed_of_ne hid _ (hother.claim port hp)⟩)
      (fun l hl => .inl hl)
    · exact hheld.table.trans (by rw [hnone]; rfl)
    · rintro _ ⟨⟩
      exact claimed_claim h hrange _
    · show portAt _ _ (advanced _ _ s.cursor) k = portAt _ _ _ ((id :: s.claims).length + k)
      rw [portAt_advanced hrange, h.round, length_cons, Nat.add_assoc, Nat.add_comm k 1]
  | _ => exact linked_thread h ht hheld (hk.2 (answer _))

theorem linked_step (h : s.Linked ctx) (e : ServerEvent) : (s.step ctx e).Linked ctx := by
  cases e with
  | connect peer =>
    simp only [step]
    split
    · exact h
    · exact linked_connect h (Session.new ctx peer) rfl
  | line id line =>
    simp only [step]
    split
    · next session ht =>
      obtain ⟨⟨_, last⟩, hheld, hk⟩ := h.thread id _ ht
      cases hk
      exact linked_thread h ht hheld (turn_listens line last)
    · exact h
  | resume id answer =>
    simp only [step]
    split
    · next ht =>
      obtain ⟨held, hheld, hk⟩ := h.thread id _ ht
      exact linked_thread h ht hheld hk
    · next ht => exact linked_handle h answer ht
    · exact h

/-! ## Isolation -/

theorem claimed_of_mem (h : s.Linked ctx) {l : Nat × BitVec 16} (hl : l ∈ s.table) : s.Claimed ctx l := by
  obtain ⟨held, hheld, -⟩ := h.thread l.1 _ (List.getElem?_eq_getElem (h.known l hl))
  have hmem : l.2 ∈ portsOf s.table l.1 := mem_portsOf.2 hl
  rw [hheld.table, Option.mem_toList] at hmem
  exact hheld.claim l.2 (hheld.bound l.2 hmem)

theorem claimed_of_binding (h : s.Linked ctx) {e : ServerEvent} {l : Nat × BitVec 16} (hl : s.binding e = some l) :
    s.Claimed ctx l := by
  unfold binding at hl
  split at hl
  · split at hl
    next ht =>
      obtain ⟨held, hheld, hk⟩ := h.thread _ _ ht
      split at hl
      · cases hl
      · cases hl
        exact hheld.claim _ (by rw [hk.1])
    · cases hl
  · cases hl
  · cases hl

theorem Claimed.same_port_iff {a b : Nat × BitVec 16} (ha : s.Claimed ctx a) (hb : s.Claimed ctx b) :
    a.2 = b.2 ↔
      Nat.ModEq (rangeSize ctx.cfg.passivePortLo ctx.cfg.passivePortHi) (s.since a.1) (s.since b.1) := by
  obtain ⟨hrange, hamem, hport⟩ := ha
  obtain ⟨-, hbmem, hport'⟩ := hb
  have halt := idxOf_lt_length_iff.2 hamem
  have hblt := idxOf_lt_length_iff.2 hbmem
  have hsum : s.claims.length - 1 - s.since a.1 + s.since a.1 = s.claims.length - 1 - s.since b.1 + s.since b.1 := by
    unfold since
    omega
  rw [hport, hport', portAt_eq_iff hrange]
  exact ⟨fun h => h.add_left_cancel (hsum ▸ rfl), fun h => h.add_right_cancel (hsum ▸ rfl)⟩

theorem step_table (ctx : Ctx) (s : Server) (e : ServerEvent) :
    (∃ l, s.binding e = some l ∧ (s.step ctx e).table = s.table ++ [l]) ∨
    s.binding e = none ∧ ∀ l ∈ (s.step ctx e).table, l ∈ s.table := by
  cases e with
  | connect peer | line id line =>
    refine .inr ⟨rfl, fun l hl => ?_⟩
    simp only [step] at hl
    split at hl <;> exact hl
  | resume id answer =>
    cases ht : s.threads[id]? with
    | none => simp [binding, step, ht]
    | some t =>
      obtain ⟨session, work, ended⟩ := t
      cases work with
      | none => simp [binding, step, ht]
      | some m =>
        cases m with
        | done r => simp [binding, step, ht]
        | call c next =>
          cases c with
          | bindHandle port =>
            by_cases hp : port = 0
            · subst hp
              exact .inr ⟨by simp only [binding, ht, if_pos],
                fun l hl => by simpa only [step, ht, handle_bind_zero] using hl⟩
            · refine .inl ⟨(id, port), by simp only [binding, ht, if_neg hp], ?_⟩
              simp [step, ht, handle_bind s id answer hp]
          | dropListener port =>
            refine .inr ⟨by simp only [binding, ht], fun l hl => ?_⟩
            simp only [step, ht, handle] at hl
            exact mem_of_mem_erase hl
          | _ => exact .inr ⟨by simp only [binding, ht], fun l hl => by simpa only [step, ht, handle] using hl⟩

theorem isolated_step (e : ServerEvent) (hlink : s.Linked ctx) (h : s.Isolated) :
    (s.step ctx e).Isolated ↔ s.Unshared ctx e := by
  obtain ⟨hiso, -⟩ := h
  rw [isolated_iff (linked_step hlink e)]
  obtain ⟨l, hl, htable⟩ | ⟨hl, htable⟩ := step_table ctx s e
  · rw [htable]
    unfold Unshared
    rw [hl]
    have hsame : ∀ a ∈ s.table, a.2 = l.2 ↔ _ := fun a ha =>
      (claimed_of_mem hlink ha).same_port_iff (claimed_of_binding hlink hl)
    constructor
    · rintro hall l' hl' other ho hne hround
      cases hl'
      exact hne (hall _ (mem_append_left _ ho) l (mem_append_right _ (mem_singleton.2 rfl)) ((hsame _ ho).2 hround))
    · intro hun a ha b hb hab
      have hnew : ∀ a ∈ s.table, a.2 = l.2 → a.1 = l.1 := fun a ha hp =>
        by_contra (fun hne => hun l rfl a ha hne ((hsame a ha).1 hp))
      rcases mem_append.1 ha with ha | ha <;> rcases mem_append.1 hb with hb | hb
      · exact hiso a ha b hb hab
      · rw [mem_singleton.1 hb] at hab ⊢
        exact hnew a ha hab
      · rw [mem_singleton.1 ha] at hab ⊢
        exact (hnew b hb hab.symm).symm
      · rw [mem_singleton.1 ha, mem_singleton.1 hb]
  · refine iff_of_true (fun a ha b hb => hiso a (htable a ha) b (htable b hb)) (fun l' hl' => ?_)
    rw [hl] at hl'
    cases hl'

/-- **When passive listeners are isolated**: in every interleaving of the sessions of a server, whatever the network,
the files and the clients do, exactly when no session binds a port while another one listens whose claim is a whole
number of rounds of the cursor away from its own. -/
theorem passive_isolation_iff (ctx : Ctx) (es : List ServerEvent) :
    (∀ es₁, es₁ <+: es → (run (step ctx) (start ctx) es₁).Isolated) ↔
      Along (step ctx) (Unshared ctx) (start ctx) es :=
  run_always_iff_of_inv (Linked ctx) (fun _ e h _ => linked_step h e) (fun _ e hl h => isolated_step e hl h) es _
    (linked_start ctx) ((isolated_iff (linked_start ctx)).2 nofun)

def Closes (m : FtpProg (Session × Bool)) : Prop := m.Meets (fun _ => True) (fun r => r.2 = false → r.1.pasv = none)

theorem meets_true {α : Type} : ∀ m : FtpProg α, m.Meets (fun _ => True) (fun _ => True)
  | .done _ => trivial
  | .call _ next => ⟨trivial, fun r => meets_true (next r)⟩

theorem turn_closes (ctx : Ctx) (session : Session) (line : Option Command) : Closes (session.turn ctx line) := by
  have hclose : ∀ session : Session, Closes session.close := by
    intro session
    unfold Session.close
    cases hp : session.pasv with
    | none => exact fun _ => hp
    | some port => exact ⟨trivial, fun _ _ => rfl⟩
  cases line with
  | none => exact hclose session
  | some cmd =>
    refine Prog.Meets.bind (meets_true _) fun r _ => ?_
    obtain ⟨session, _ | _⟩ := r
    · exact hclose session
    · exact fun h => by cases h

def Tidy (t : Thread) : Prop := (t.ended = true → t.work = none ∧ t.session.pasv = none) ∧ ∀ m ∈ t.work, Closes m

theorem tidy_step (ctx : Ctx) (h : ∀ t ∈ s.threads, Tidy t) (e : ServerEvent) :
    ∀ t ∈ (s.step ctx e).threads, Tidy t := by
  have hset : ∀ (id : Nat) {t' : Thread}, Tidy t' → ∀ t ∈ s.threads.set id t', Tidy t := fun _ _ ht' t ht =>
    (mem_or_eq_of_mem_set ht).elim (h t) (fun he => he ▸ ht')
  cases e with
  | connect peer =>
    simp only [step]
    split
    · exact h
    · exact forall_mem_append.2 ⟨h, forall_mem_singleton.2 ⟨nofun, nofun⟩⟩
  | line id line =>
    simp only [step]
    split
    next session ht =>
      refine hset id ⟨nofun, ?_⟩
      rintro _ ⟨⟩
      exact turn_closes ctx session line
    · exact h
  | resume id answer =>
    simp only [step]
    split
    next session goesOn ht =>
      have hdone := (h _ (mem_of_getElem? ht)).2 _ rfl
      exact hset id ⟨fun hended => ⟨rfl, hdone (by simpa using hended)⟩, nofun⟩
    next session c next ended ht =>
      obtain ⟨hended, hwork⟩ := h _ (mem_of_getElem? ht)
      have hthreads : (s.handle id answer c).2.threads = s.threads := by
        unfold handle
        repeat' split
        all_goals rfl
      rw [hthreads]
      refine hset id ⟨fun he => ?_, ?_⟩
      · cases (hended he).1
      · rintro _ ⟨⟩
        exact (hwork _ rfl).2 _
    · exact h

/-- **No listener is left behind**: in every interleaving, whatever fails, each listener is a session's; outside its
turns a session has exactly the one that it keeps for the next transfer, and none once it is over. -/
theorem passive_listeners_kept (ctx : Ctx) (es : List ServerEvent) :
    let s := run (step ctx) (start ctx) es
    (∀ l ∈ s.table, l.1 < s.threads.length) ∧
      (∀ (id : Nat) (t : Thread), s.threads[id]? = some t → t.work = none →
        portsOf s.table id = t.session.pasv.toList) ∧
      ∀ (id : Nat) (t : Thread), s.threads[id]? = some t → t.ended = true → portsOf s.table id = [] := by
  intro s
  have h : s.Linked ctx := run_keeps (Linked ctx) (fun _ e h => linked_step h e) es _ (linked_start ctx)
  have htidy : ∀ t ∈ s.threads, Tidy t :=
    run_keeps (fun s : Server => ∀ t ∈ s.threads, Tidy t) (fun _ e h => tidy_step ctx h e) es _ nofun
  have hkept : ∀ (id : Nat) (t : Thread), s.threads[id]? = some t → t.work = none →
      portsOf s.table id = t.session.pasv.toList := by
    intro id t ht hw
    obtain ⟨held, hheld, hk⟩ := h.thread id t ht
    unfold Keeps at hk
    rw [hw] at hk
    rw [hheld.table, hk]
  refine ⟨h.known, hkept, fun id t ht hended => ?_⟩
  obtain ⟨hw, hpasv⟩ := (htidy t (mem_of_getElem? ht)).1 hended
  rw [hkept id t ht hw, hpasv]
  rfl

def obliging : (c : FtpCall) → c.Answer
  | .reply _ _ | .replyMultiline _ _ _ _ | .bindHandle _ | .dataWriteAll _ => true
  | .fs (.readDir _) | .fs (.read _) => some []
  | .fs (.write _ _) | .fs (.append _ _) | .fs (.rename _ _) | .fs (.removeFile _) | .fs (.createDirAll _) => true
  | .tailnetIp | .acceptTimeout _ => none
  | .claimPort _ _ | .partialSeq => 0
  | .dataRead _ => some []
  | .dropListener _ | .dataClose => ()

def commands (id : Nat) (cmd : Command) : List ServerEvent :=
  .line id (some cmd) :: List.replicate 6 (.resume id obliging)

def defaultServer : Ctx where
  cfg := { root := "ux0:".toList, username := "vita".toList, password := "pw".toList }
  hasUsername := by decide
  hasPassword := by decide
  hasLimit := by decide

/-- Session 2 asks for a port ten times, and is given the one that session 1 has. -/
theorem passive_isolation_shared :
    let login := fun id => commands id (.user "vita".toList) ++ commands id (.pass "pw".toList)
    let s := run (step defaultServer) (start defaultServer)
      (.connect (.v4 1) :: .connect (.v4 2) :: (login 0 ++ login 1 ++ commands 0 (.epsv none) ++
        (List.replicate 10 (commands 1 (.epsv none))).flatten))
    s.table = [(0, 30000), (1, 30000)] ∧ s.threads.map (fun t => t.session.pasv) = [some 30000, some 30000] ∧
      ¬ s.Isolated := by
  intro login s
  have htable : s.table = [(0, 30000), (1, 30000)] := by decide +kernel
  refine ⟨htable, by decide +kernel, fun h => ?_⟩
  have hsame := h.1 (0, 30000) (by rw [htable]; decide) (1, 30000) (by rw [htable]; decide) rfl
  cases hsame

end Server
end TailscaleVita.Ftp

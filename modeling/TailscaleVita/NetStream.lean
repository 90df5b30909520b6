import Mathlib.Data.List.Induction
import TailscaleVita.NetSocket
/-!
# NetStream — `TcpStream`: reads, writes, shutdown and drop

A blocking call is the looks it takes at the socket: `wait` is a look after which it sleeps, or gives up. `drop` runs
on after the caller is done with the stream, and waits for states in which our side of the close is complete. In two of
those it counts, `Closing` and `LastAck`, it is not (`graceful_drop_iff`). And one flag `closed` stands for both
directions (`half_close_iff`).
-/
namespace TailscaleVita.Net

def closeDrainTimeout : Nat := 2000

def rstEmitTimeout : Nat := 250

inductive Shutdown where
  | read
  | write
  | both
deriving DecidableEq

inductive Phase where
  | live
  | draining (deadline : Nat)
  | timedOut
  | resetting (deadline : Nat)
  | removing
  | gone
deriving DecidableEq

structure Stream where
  clock : Nat
  sock : Socket
  closed : Bool := false
  phase : Phase := .live
  drainBy : Nat := 0
  eof : Bool := false
  shutRead : Bool := false
  shutWrite : Bool := false
  closeIssued : Bool := false
deriving DecidableEq

inductive Outcome where
  | read (bs : Bytes)
  | wrote (n : Nat)
  | brokenPipe
  | wait
  | done
deriving DecidableEq

inductive StreamEvent where
  | wire (w : Wire)
  | tick (ms : Nat)
  | read (len : Nat)
  | write (buf : Bytes)
  | shutdown (how : Shutdown)
  | drop
  | look
deriving DecidableEq

namespace Stream

def read (s : Stream) (len : Nat) : Outcome × Stream :=
  if s.closed then (.read [], s)
  else if 0 < s.sock.rx.length then
    let (bs, sock) := s.sock.recvSlice len
    (if 0 < bs.length then .read bs else .wait, { s with sock := sock })
  else if !s.sock.mayRecv then
    (.read [], { s with closed := true, eof := s.eof || s.sock.finReceived && !s.sock.reset })
  else (.wait, s)

def write (s : Stream) (buf : Bytes) : Outcome × Stream :=
  if s.closed then (.brokenPipe, s)
  else if !s.sock.maySend then (.brokenPipe, { s with closed := true })
  else if s.sock.canSend then
    let (n, sock) := s.sock.sendSlice buf
    (if 0 < n then .wrote n else .wait, { s with sock := sock })
  else (.wait, s)

/-- `TcpStream::shutdown`, which does not look at `how`; the record does. -/
def shutdown (s : Stream) (how : Shutdown) : Stream :=
  { s with
    sock := s.sock.close
    closed := true
    shutRead := s.shutRead || how ≠ .write
    shutWrite := s.shutWrite || how ≠ .read
    closeIssued := true }

def startDrop (s : Stream) : Stream :=
  let s := if s.closed then s else s.shutdown .both
  { s with phase := .draining (s.clock + closeDrainTimeout), drainBy := s.clock + closeDrainTimeout }

def look (s : Stream) : Stream :=
  match s.phase with
  | .live | .gone => s
  | .draining deadline =>
    if s.sock.state.drained then { s with phase := .removing }
    else if deadline ≤ s.clock then { s with phase := .timedOut }
    else s
  | .timedOut =>
    -- the lock is held from here to the abort, or to the removal
    if s.sock.state = .closed then { s with phase := .gone }
    else { s with sock := s.sock.abort, phase := .resetting (s.clock + rstEmitTimeout) }
  | .resetting deadline =>
    if s.sock.state = .closed || deadline ≤ s.clock then { s with phase := .removing } else s
  | .removing => { s with phase := .gone }

/-- A step: the caller's calls end with `drop`, the wire's with the socket. -/
def step (s : Stream) (e : StreamEvent) : Outcome × Stream :=
  match e with
  | .wire w => (.done, if s.phase = .gone then s else { s with sock := s.sock.wire w })
  | .tick ms => (.done, { s with clock := s.clock + ms })
  | .look => (.done, s.look)
  | .read len => if s.phase = .live then s.read len else (.done, s)
  | .write buf => if s.phase = .live then s.write buf else (.done, s)
  | .shutdown how => (.done, if s.phase = .live then s.shutdown how else s)
  | .drop => (.done, if s.phase = .live then s.startDrop else s)

def next (s : Stream) (e : StreamEvent) : Stream := (s.step e).2

def established (clock : Nat) : Stream := { clock := clock, sock := .fresh }

section

variable {s : Stream}

theorem read_data (hc : s.closed = false) (hrx : s.sock.rx ≠ []) {len : Nat} (hlen : 0 < len) :
    s.read len = (.read (s.sock.rx.take len), { s with sock := { s.sock with rx := s.sock.rx.drop len } }) := by
  have hpos : 0 < s.sock.rx.length := List.length_pos_iff.2 hrx
  have htake : 0 < (s.sock.rx.take len).length := by rw [List.length_take]; omega
  unfold read
  rw [if_neg (by rw [hc]; exact Bool.false_ne_true), if_pos hpos]
  exact Prod.ext (if_pos htake) rfl

theorem read_end (hc : s.closed = false) (hrx : s.sock.rx = []) (hm : s.sock.mayRecv = false) (len : Nat) :
    s.read len =
      (.read [], { s with closed := true, eof := s.eof || s.sock.finReceived && !s.sock.reset }) := by
  simp [read, hc, hrx, hm]

theorem read_wait (hc : s.closed = false) (hrx : s.sock.rx = []) (hm : s.sock.mayRecv = true) (len : Nat) :
    s.read len = (.wait, s) := by
  simp [read, hc, hrx, hm]

end

/-! ## What has reached the peer when the socket goes -/

/-- A removal that loses nothing: every accepted byte is acknowledged and our FIN queued, or the peer has reset the
connection, or the drain has timed out and a RST is queued. -/
def Delivered (s : Stream) : Prop :=
  s.sock.unacked = 0 ∧ s.sock.finQueued = true ∨ s.sock.reset = true ∨ s.drainBy ≤ s.clock ∧ s.sock.rstQueued = true

instance (s : Stream) : Decidable s.Delivered := inferInstanceAs (Decidable (_ ∨ _ ∨ _))

/-- A socket our side of whose close is not complete, though `wait_for_drain` takes it to be. -/
def Undrained (s : Stream) : Prop := (s.sock.state = .closing ∨ s.sock.state = .lastAck) ∧ 0 < s.sock.unacked

instance (s : Stream) : Decidable s.Undrained := inferInstanceAs (Decidable (_ ∧ _))

def PhaseOk (s : Stream) : Prop :=
  match s.phase with
  | .live => s.sock.rstQueued = false
  | .draining deadline => s.sock.rstQueued = false ∧ deadline = s.drainBy
  | .timedOut => s.sock.rstQueued = false ∧ s.drainBy ≤ s.clock
  | .resetting _ => s.sock.state = .closed ∧ s.drainBy ≤ s.clock
  | .removing => s.sock.state.drained = true ∧ (s.sock.rstQueued = true → s.drainBy ≤ s.clock)
  | .gone => True

structure Inv (s : Stream) : Prop where
  connected : s.sock.Connected
  phase : s.PhaseOk

variable (clock : Nat)

theorem inv_established : (established clock).Inv := ⟨Socket.connected_fresh, rfl⟩

variable {s : Stream}

theorem delivered_iff_of_drained (h : s.sock.Connected) (hd : s.sock.state.drained = true)
    (hr : s.sock.rstQueued = true → s.drainBy ≤ s.clock) : s.Delivered ↔ ¬ s.Undrained := by
  unfold Delivered Undrained
  unfold Socket.Connected at h
  cases hs : s.sock.state with
  | finWait2 | timeWait => rw [hs] at h; simp [h.1, h.2.1]
  | closed =>
    rw [hs] at h
    obtain h | h | ⟨hf, hu⟩ := h
    · simp [h]
    · simp [h, hr h]
    · simp [hf, hu]
  | closing | lastAck => rw [hs] at h; simp [h.1, h.2.1, h.2.2]
  | _ => rw [hs] at hd; cases hd

theorem read_sock (s : Stream) (len : Nat) :
    (s.read len).2.sock = s.sock ∨ (s.read len).2.sock = (s.sock.recvSlice len).2 := by
  unfold read
  split
  · exact .inl rfl
  · split
    · exact .inr rfl
    · split <;> exact .inl rfl

theorem read_phase (s : Stream) (len : Nat) : (s.read len).2.phase = s.phase := by
  unfold read
  split
  · rfl
  · split
    · rfl
    · split <;> rfl

theorem write_sock (s : Stream) (buf : Bytes) :
    (s.write buf).2.sock = s.sock ∨ s.sock.maySend = true ∧ (s.write buf).2.sock = (s.sock.sendSlice buf).2 := by
  unfold write
  split
  · exact .inl rfl
  · split
    · exact .inl rfl
    · split
      · next hc _ => exact .inr ⟨by simpa using hc, rfl⟩
      · exact .inl rfl

theorem write_phase (s : Stream) (buf : Bytes) : (s.write buf).2.phase = s.phase := by
  unfold write
  split
  · rfl
  · split
    · rfl
    · split <;> rfl

theorem inv_live (hp : s.phase = .live) (hc : s.sock.Connected) (hr : s.sock.rstQueued = false) : s.Inv :=
  ⟨hc, by unfold PhaseOk; rw [hp]; exact hr⟩

theorem inv_read (h : s.Inv) (hp : s.phase = .live) (hr : s.sock.rstQueued = false) (len : Nat) :
    (s.read len).2.Inv := by
  refine inv_live ((read_phase s len).trans hp) ?_ ?_ <;> obtain he | he := read_sock s len <;> rw [he]
  · exact h.connected
  · exact Socket.connected_recvSlice h.connected len
  · exact hr
  · exact hr

theorem inv_write (h : s.Inv) (hp : s.phase = .live) (hr : s.sock.rstQueued = false) (buf : Bytes) :
    (s.write buf).2.Inv := by
  refine inv_live ((write_phase s buf).trans hp) ?_ ?_ <;> obtain he | ⟨hs, he⟩ := write_sock s buf <;> rw [he]
  · exact h.connected
  · exact Socket.connected_sendSlice h.connected hs buf
  · exact hr
  · exact hr

theorem inv_startDrop (h : s.Inv) (hr : s.sock.rstQueued = false) : s.startDrop.Inv := by
  unfold startDrop
  by_cases hc : s.closed
  · rw [if_pos hc]
    exact ⟨h.connected, hr, rfl⟩
  · rw [if_neg hc]
    exact ⟨Socket.connected_close h.connected, (Socket.rstQueued_close s.sock).trans hr, rfl⟩

theorem inv_look (h : s.Inv) : s.look.Inv := by
  have hph := h.phase
  unfold PhaseOk at hph
  unfold look
  cases hp : s.phase with
  | live | gone => exact h
  | draining deadline =>
    rw [hp] at hph
    dsimp only
    split
    · next hd => exact ⟨h.connected, hd, fun hr => absurd (hph.1.symm.trans hr) Bool.false_ne_true⟩
    · split
      · next hle => exact ⟨h.connected, hph.1, hph.2 ▸ hle⟩
      · exact h
  | timedOut =>
    rw [hp] at hph
    dsimp only
    split
    · exact ⟨h.connected, trivial⟩
    · exact ⟨Socket.connected_abort s.sock, rfl, hph.2⟩
  | resetting deadline =>
    rw [hp] at hph
    dsimp only
    split
    · exact ⟨h.connected, by rw [hph.1]; rfl, fun _ => hph.2⟩
    · exact h
  | removing => exact ⟨h.connected, trivial⟩

theorem inv_wire (h : s.Inv) (w : Wire) : Inv { s with sock := s.sock.wire w } := by
  refine ⟨Socket.connected_wire h.connected w, ?_⟩
  have hph := h.phase
  have hr := Socket.rstQueued_wire s.sock w
  unfold PhaseOk at hph ⊢
  cases hp : s.phase with
  | live => rw [hp] at hph; exact hr.trans hph
  | draining deadline | timedOut => rw [hp] at hph; exact ⟨hr.trans hph.1, hph.2⟩
  | resetting deadline => rw [hp] at hph; exact ⟨Socket.closed_wire hph.1 w, hph.2⟩
  | removing => rw [hp] at hph; exact ⟨Socket.drained_wire hph.1 w, fun h' => hph.2 (hr.symm.trans h')⟩
  | gone => trivial

theorem inv_tick (h : s.Inv) (ms : Nat) : Inv { s with clock := s.clock + ms } := by
  refine ⟨h.connected, ?_⟩
  have hph := h.phase
  unfold PhaseOk at hph ⊢
  cases hp : s.phase with
  | live | draining deadline => rw [hp] at hph; exact hph
  | timedOut | resetting deadline => rw [hp] at hph; exact ⟨hph.1, Nat.le_add_right_of_le hph.2⟩
  | removing => rw [hp] at hph; exact ⟨hph.1, fun h' => Nat.le_add_right_of_le (hph.2 h')⟩
  | gone => trivial

theorem inv_next (h : s.Inv) (e : StreamEvent) : (s.next e).Inv := by
  have hlive : s.phase = .live → s.sock.rstQueued = false := fun hp => by
    have hph := h.phase
    unfold PhaseOk at hph
    rwa [hp] at hph
  unfold next step
  cases e with
  | wire w =>
    dsimp only
    split
    · exact h
    · exact inv_wire h w
  | tick ms => exact inv_tick h ms
  | look => exact inv_look h
  | read len =>
    dsimp only
    split
    · next hp => exact inv_read h hp (hlive hp) len
    · exact h
  | write buf =>
    dsimp only
    split
    · next hp => exact inv_write h hp (hlive hp) buf
    · exact h
  | shutdown how =>
    dsimp only
    split
    · next hp =>
      exact inv_live hp (Socket.connected_close h.connected) ((Socket.rstQueued_close s.sock).trans (hlive hp))
    · exact h
  | drop =>
    dsimp only
    split
    · next hp => exact inv_startDrop h (hlive hp)
    · exact h

theorem phase_next (s : Stream) {e : StreamEvent} (he : e ≠ .look) :
    (s.next e).phase = s.phase ∨ ∃ deadline, (s.next e).phase = .draining deadline := by
  cases e with
  | look => exact absurd rfl he
  | tick ms => exact .inl rfl
  | wire w | shutdown how =>
    left
    simp only [next, step]
    split <;> rfl
  | read len =>
    left
    simp only [next, step]
    split
    · exact read_phase s len
    · rfl
  | write buf =>
    left
    simp only [next, step]
    split
    · exact write_phase s buf
    · rfl
  | drop =>
    simp only [next, step]
    split
    · exact .inr ⟨_, rfl⟩
    · exact .inl rfl

theorem next_gone {e : StreamEvent} (hs : s.phase ≠ .gone) (h : (s.next e).phase = .gone) :
    e = .look ∧ s.next .look = { s with phase := .gone } ∧
      (s.phase = .timedOut ∧ s.sock.state = .closed ∨ s.phase = .removing) := by
  by_cases he : e = .look
  · subst he
    refine ⟨rfl, ?_⟩
    simp only [next, step, look] at h ⊢
    cases hp : s.phase with
    | live => simp [hp] at h
    | gone => exact absurd hp hs
    | draining deadline =>
      simp only [hp] at h
      split at h
      · cases h
      · split at h
        · cases h
        · exact absurd h hs
    | timedOut =>
      simp only [hp] at h
      by_cases hc : s.sock.state = .closed
      · simp [hc]
      · simp [hc] at h
    | resetting deadline =>
      simp only [hp] at h
      split at h
      · cases h
      · exact absurd h hs
    | removing => exact ⟨rfl, .inr rfl⟩
  · rcases phase_next s he with hsame | ⟨deadline, hd⟩
    · exact absurd (hsame.symm.trans h) hs
    · cases hd.symm.trans h

theorem next_removing {e : StreamEvent} (h : (s.next e).phase = .removing) :
    s.phase = .removing ∧ e ≠ .look ∨
      e = .look ∧ s.next .look = { s with phase := .removing } ∧
        ((∃ deadline, s.phase = .draining deadline) ∨ ∃ deadline, s.phase = .resetting deadline) := by
  by_cases he : e = .look
  · subst he
    refine .inr ⟨rfl, ?_⟩
    simp only [next, step, look] at h ⊢
    cases hp : s.phase with
    | live | gone => simp [hp] at h
    | draining deadline =>
      simp only [hp] at h ⊢
      split
      · exact ⟨rfl, .inl ⟨deadline, rfl⟩⟩
      next hd =>
        rw [if_neg hd] at h
        split at h
        · cases h
        · cases hp.symm.trans h
    | timedOut =>
      simp only [hp] at h
      split at h <;> cases h
    | resetting deadline =>
      simp only [hp] at h ⊢
      split
      · exact ⟨rfl, .inr ⟨deadline, rfl⟩⟩
      next hd =>
        rw [if_neg hd] at h
        cases hp.symm.trans h
    | removing => simp [hp] at h
  · rcases phase_next s he with hsame | ⟨deadline, hd⟩
    · exact .inl ⟨hsame.symm.trans h, he⟩
    · cases hd.symm.trans h

theorem delivered_gone (hp : s.phase = .gone) (h : s.Delivered) (e : StreamEvent) : (s.next e).Delivered := by
  cases e with
  | tick ms => exact h.imp_right (Or.imp_right (And.imp_left Nat.le_add_right_of_le))
  | _ => simpa [next, step, look, hp] using h

theorem delivered_timedOut (h : s.Inv) (hp : s.phase = .timedOut) (hc : s.sock.state = .closed) : s.Delivered := by
  have hph := h.phase
  unfold PhaseOk at hph
  rw [hp] at hph
  have hcon := h.connected
  unfold Socket.Connected at hcon
  rw [hc] at hcon
  obtain hr | hr | hf := hcon
  · exact .inr (.inl hr)
  · exact absurd (hph.1.symm.trans hr) Bool.false_ne_true
  · exact .inl hf.symm

def WaitsForAck (s : Stream) (e : StreamEvent) : Prop := e = .look → s.phase = .removing → ¬ s.Undrained

theorem delivered_next (e : StreamEvent) (hi : s.Inv) (hg : s.phase = .gone → s.Delivered) :
    ((s.next e).phase = .gone → (s.next e).Delivered) ↔ s.WaitsForAck e := by
  by_cases hp : s.phase = .gone
  · refine ⟨fun _ _ hr => ?_, fun _ _ => delivered_gone hp (hg hp) e⟩
    rw [hp] at hr
    cases hr
  · constructor
    · rintro hd rfl hr
      have hgone : s.next .look = { s with phase := .gone } := by simp only [next, step, look, hr]
      have hph := hi.phase
      unfold PhaseOk at hph
      rw [hr] at hph
      rw [hgone] at hd
      exact (delivered_iff_of_drained hi.connected hph.1 hph.2).1 (hd rfl)
    · intro hw hgone
      obtain ⟨rfl, he, ⟨ht, hc⟩ | hr⟩ := next_gone hp hgone
      · have hd : s.Delivered := delivered_timedOut hi ht hc
        rwa [he]
      · have hph := hi.phase
        unfold PhaseOk at hph
        rw [hr] at hph
        rw [he]
        exact (delivered_iff_of_drained hi.connected hph.1 hph.2).2 (hw rfl hr)

/-! ## What `wait_for_drain` sees, and what is acknowledged after it -/

def ackedBytes (ws : List StreamEvent) : Nat :=
  (ws.map fun
    | .wire (.ack n) => n
    | _ => 0).sum

/-- The peer acknowledges `n` bytes or our FIN, or resets the connection. -/
def Acknowledged (n : Nat) (ws : List StreamEvent) : Prop :=
  n ≤ ackedBytes ws ∨ .wire .ackFin ∈ ws ∨ .wire .rst ∈ ws

theorem acknowledged_cons (n : Nat) (e : StreamEvent) (ws : List StreamEvent) :
    Acknowledged n (e :: ws) ↔
      match e with
      | .wire (.ack k) => Acknowledged (n - k) ws
      | .wire .ackFin | .wire .rst => True
      | _ => Acknowledged n ws := by
  unfold Acknowledged ackedBytes
  cases e with
  | wire w =>
    cases w with
    | ack k => simp [Nat.sub_le_iff_le_add, Nat.add_comm]
    | _ => simp
  | _ => simp

theorem undrained_wire (s : Stream) (hd : s.sock.state.drained = true) (w : Wire) (ws : List StreamEvent) :
    Undrained { s with sock := s.sock.wire w } ∧ ¬ Acknowledged (s.sock.wire w).unacked ws ↔
      s.Undrained ∧ ¬ Acknowledged s.sock.unacked (.wire w :: ws) := by
  rw [acknowledged_cons]
  cases w with
  | ack k =>
    simp only [Undrained, Socket.wire]
    refine ⟨fun h => ⟨⟨h.1.1, by omega⟩, h.2⟩, fun h => ⟨⟨h.1.1, ?_⟩, h.2⟩⟩
    by_contra hzero
    exact h.2 (.inl (by omega))
  | _ => cases hs : s.sock.state <;> simp_all [Undrained, Socket.wire, State.drained]

theorem undrained_run : ∀ (ws : List StreamEvent) (s : Stream), s.phase = .removing → s.sock.state.drained = true →
    .look ∉ ws → (run next s ws).phase = .removing ∧
      ((run next s ws).Undrained ↔ s.Undrained ∧ ¬ Acknowledged s.sock.unacked ws)
  | [], s, hp, _, _ => by
    refine ⟨hp, ?_⟩
    simp only [run_nil, Acknowledged, ackedBytes, List.map_nil, List.sum_nil, List.not_mem_nil, or_false, Undrained]
    exact ⟨fun h => ⟨h, by omega⟩, fun h => h.1⟩
  | e :: ws, s, hp, hd, hlook => by
    obtain ⟨he, hws⟩ := not_or.1 (mt List.mem_cons.2 hlook)
    rw [run_cons]
    cases e with
    | look => exact absurd rfl he
    | wire w =>
      have hnext : s.next (.wire w) = { s with sock := s.sock.wire w } := by simp [next, step, hp]
      rw [hnext, ← undrained_wire s hd w ws]
      exact undrained_run ws { s with sock := s.sock.wire w } hp (Socket.drained_wire hd w) hws
    | tick ms =>
      rw [acknowledged_cons]
      exact undrained_run ws { s with clock := s.clock + ms } hp hd hws
    | _ =>
      rw [acknowledged_cons, show s.next _ = s by simp [next, step, hp]]
      exact undrained_run ws s hp hd hws

variable (es : List StreamEvent)

theorem removing_since
    (h : (run next (established clock) es).phase = .removing) :
    ∃ es₁ ws, es = es₁ ++ .look :: ws ∧ .look ∉ ws ∧
      let s := run next (established clock) es₁
      s.next .look = { s with phase := .removing } ∧
        ((∃ deadline, s.phase = .draining deadline) ∨ ∃ deadline, s.phase = .resetting deadline) := by
  induction es using List.reverseRecOn with
  | nil => cases h
  | append_singleton es e ih =>
    rw [run_append] at h
    rcases next_removing h with ⟨hp, he⟩ | ⟨rfl, hnext, hbefore⟩
    · obtain ⟨es₁, ws, rfl, hws, hlook⟩ := ih hp
      exact ⟨es₁, ws ++ [e], by simp, by simp [hws, Ne.symm he], hlook⟩
    · exact ⟨es, [], by simp, by simp, hnext, hbefore⟩

/-- What a look of `wait_for_drain` wrongly takes for drained is acknowledged before the next look removes the
socket. -/
def AckedInTime (clock : Nat) (es : List StreamEvent) : Prop :=
  ∀ es₁ ws es₂, es = es₁ ++ .look :: ws ++ .look :: es₂ → .look ∉ ws →
    let s := run next (established clock) es₁
    (∃ deadline, s.phase = .draining deadline) → s.Undrained → Acknowledged s.sock.unacked ws

theorem inv_run : (run next (established clock) es).Inv :=
  run_keeps Inv (fun _ e h => inv_next h e) es _ (inv_established clock)

theorem waitsForAck_iff :
    Along next WaitsForAck (established clock) es ↔ AckedInTime clock es := by
  constructor
  · rintro h es₁ ws es₂ rfl hws s ⟨deadline, hp⟩ hu
    have hdrained : s.sock.state.drained = true := by rcases hu.1 with hs | hs <;> rw [hs] <;> rfl
    have hnext : s.next .look = { s with phase := .removing } := by simp only [next, step, look, hp, if_pos hdrained]
    obtain ⟨hphase, hrun⟩ := undrained_run ws { s with phase := .removing } rfl hdrained hws
    have hat := ((along_append _ _ _).1 h).2.1 rfl
    rw [run_append, run_cons, hnext] at hat
    by_contra hack
    exact hat hphase (hrun.2 ⟨hu, hack⟩)
  · intro h
    refine along_of_split es _ fun es₁ e es₂ hes he hp hu => ?_
    subst he
    obtain ⟨es₀, ws, rfl, hws, hnext, hbefore⟩ := removing_since clock es₁ hp
    have hph := (inv_run clock (es₀ ++ [.look])).phase
    rw [run_append, run_cons, hnext, run_nil] at hph
    rw [run_append, run_cons, hnext] at hu
    obtain ⟨hseen, hack⟩ := (undrained_run ws _ rfl hph.1 hws).2.1 hu
    rcases hbefore with hdraining | ⟨deadline, hresetting⟩
    · exact hack (h es₀ ws es₂ hes hws hdraining hseen)
    · have hclosed := (inv_run clock es₀).phase
      unfold PhaseOk at hclosed
      rw [hresetting] at hclosed
      rcases hseen.1 with hs | hs <;> cases hs.symm.trans hclosed.1

/-- **When a drop delivers**: over every run of a stream, whatever its caller and its peer do, every removal of the
socket comes after the acknowledgement, or a reset, or the timeout with its RST, exactly when what a look of
`wait_for_drain` finds unacknowledged in `Closing` or `LastAck` is acknowledged before the removal. -/
theorem graceful_drop_iff (clock : Nat) (es : List StreamEvent) :
    (∀ es₁, es₁ <+: es → (run next (established clock) es₁).phase = .gone →
      (run next (established clock) es₁).Delivered) ↔ AckedInTime clock es :=
  (run_always_iff_of_inv Inv (fun _ e h _ => inv_next h e) (fun _ e h hg => delivered_next e h hg) es _
    (inv_established clock) nofun).trans (waitsForAck_iff clock es)

/-- The peer closes its side, two bytes are written, the stream is dropped: the socket goes with both bytes
unacknowledged. -/
theorem graceful_drop_lost :
    let s := run next (established 0) [.wire .fin, .write [104, 105], .drop, .look, .look]
    s.phase = .gone ∧ s.sock.unacked = 2 ∧ s.sock.rstQueued = false ∧ s.clock < s.drainBy ∧ ¬ s.Delivered := by
  decide +kernel

/-! ## The two directions of a stream -/

def HalfClose (s : Stream) (e : StreamEvent) : Prop :=
  s.phase = .live →
  match e with
  | .write buf =>
    (s.eof = true ∧ s.sock.maySend = true → (s.step (.write buf)).1 ≠ .brokenPipe) ∧
    (s.shutRead = true ∧ s.shutWrite = false ∧ s.sock.reset = false → (s.step (.write buf)).1 ≠ .brokenPipe)
  | .read len =>
    -- an empty read is the end of the stream; with nothing received yet a read waits
    s.shutWrite = true ∧ s.shutRead = false ∧ s.sock.mayRecv = true ∧ 0 < len → (s.step (.read len)).1 ≠ .read []
  | .drop => s.eof = true → (s.next .drop).closeIssued = true
  | .wire _ | .tick _ | .shutdown _ | .look => True

instance decidableHalfClose (s : Stream) : (e : StreamEvent) → Decidable (s.HalfClose e)
  | .write _ => inferInstanceAs (Decidable (_ → (_ ∧ _ → ¬ _) ∧ (_ ∧ _ ∧ _ → ¬ _)))
  | .read _ => inferInstanceAs (Decidable (_ → _ ∧ _ ∧ _ ∧ _ → ¬ _))
  | .drop => inferInstanceAs (Decidable (_ → _ → _))
  | .wire _ | .tick _ | .shutdown _ | .look => isTrue fun _ => trivial

def OneWay (s : Stream) (e : StreamEvent) : Prop :=
  s.phase = .live →
  match e with
  | .write _ =>
    ¬ (s.eof = true ∧ s.sock.maySend = true) ∧ ¬ (s.shutRead = true ∧ s.shutWrite = false ∧ s.sock.reset = false)
  | .read len => ¬ (s.shutWrite = true ∧ s.shutRead = false ∧ s.sock.mayRecv = true ∧ 0 < len)
  | .drop => s.eof = true → s.closeIssued = true
  | .wire _ | .tick _ | .shutdown _ | .look => True

def Flagged (s : Stream) : Prop := s.eof = true ∨ s.shutRead = true ∨ s.shutWrite = true → s.closed = true

theorem flagged_read (h : s.Flagged) (len : Nat) : (s.read len).2.Flagged := by
  unfold read
  split
  · exact h
  · split
    · exact h
    · split
      · exact fun _ => rfl
      · exact h

theorem flagged_write (h : s.Flagged) (buf : Bytes) : (s.write buf).2.Flagged := by
  unfold write
  split
  · exact h
  · split
    · exact fun _ => rfl
    · split <;> exact h

theorem flagged_startDrop (h : s.Flagged) : s.startDrop.Flagged := by
  unfold startDrop
  by_cases hc : s.closed
  · rwa [if_pos hc]
  · rw [if_neg hc]
    exact fun _ => rfl

theorem flagged_look (h : s.Flagged) : s.look.Flagged := by
  unfold look
  split
  · exact h
  · exact h
  · split
    · exact h
    · split <;> exact h
  · split <;> exact h
  · split <;> exact h
  · exact h

theorem flagged_next (h : s.Flagged) (e : StreamEvent) : (s.next e).Flagged := by
  unfold next step
  cases e with
  | wire w => dsimp only; split <;> exact h
  | tick ms => exact h
  | look => exact flagged_look h
  | read len =>
    dsimp only
    split
    · exact flagged_read h len
    · exact h
  | write buf =>
    dsimp only
    split
    · exact flagged_write h buf
    · exact h
  | shutdown how =>
    dsimp only
    split
    · exact fun _ => rfl
    · exact h
  | drop =>
    dsimp only
    split
    · exact flagged_startDrop h
    · exact h

theorem write_closed (hp : s.phase = .live) (hc : s.closed = true) (buf : Bytes) :
    (s.step (.write buf)).1 = .brokenPipe := by
  simp [step, if_pos hp, write, if_pos hc]

theorem read_closed (hp : s.phase = .live) (hc : s.closed = true) (len : Nat) : (s.step (.read len)).1 = .read [] := by
  simp [step, if_pos hp, read, if_pos hc]

theorem drop_closed (hp : s.phase = .live) (hc : s.closed = true) : (s.next .drop).closeIssued = s.closeIssued := by
  simp [next, step, if_pos hp, startDrop, if_pos hc]

theorem halfClose_iff_oneWay (e : StreamEvent) (h : s.Flagged) : s.HalfClose e ↔ s.OneWay e := by
  refine forall_congr' fun hp => ?_
  cases e with
  | write buf =>
    refine and_congr (forall_congr' fun hc => ?_) (forall_congr' fun hc => ?_)
    · simp [write_closed hp (h (.inl hc.1))]
    · simp [write_closed hp (h (.inr (.inl hc.1)))]
  | read len =>
    refine forall_congr' fun hc => ?_
    simp [read_closed hp (h (.inr (.inr hc.1)))]
  | drop =>
    refine forall_congr' fun he => ?_
    rw [drop_closed hp (h (.inl he))]
  | _ => exact Iff.rfl

/-- **When the two directions are independent**: over every run of a stream, exactly when no call needs the one after
the other has ended. -/
theorem half_close_iff (clock : Nat) (es : List StreamEvent) :
    Along next HalfClose (established clock) es ↔ Along next OneWay (established clock) es :=
  along_iff_of_inv Flagged (fun _ e h => flagged_next h e) (fun _ e h => halfClose_iff_oneWay e h) es _
    (by rintro (h | h | h) <;> cases h)

/-- After the peer's end a write fails and a drop does not close; after `shutdown(Write)` a read reports the end, before
the peer has sent anything and when its byte is there; after `shutdown(Read)` our byte is not written. -/
theorem half_close_broken :
    ¬ Along next HalfClose (established 0) [.wire .fin, .read 1, .write [104]] ∧
    ¬ Along next HalfClose (established 0) [.wire .fin, .read 1, .drop] ∧
    ¬ Along next HalfClose (established 0) [.shutdown .write, .read 100] ∧
    ¬ Along next HalfClose (established 0) [.shutdown .write, .wire (.data 104 []), .read 1] ∧
    ¬ Along next HalfClose (established 0) [.shutdown .read, .write [104]] := by
  decide +kernel

end Stream

/-! ## Local ports

The counter is of sixteen bits and runs into the ports below the floor when it wraps. The call that finds it there
gives out the floor and sets the counter to it, so that the next call gives out the floor again: the ports come round
every 16385 calls, not every 16384.
-/

def ephemeralFloor : BitVec 16 := 49152

def allocLocalPort (next : BitVec 16) : BitVec 16 × BitVec 16 :=
  (if next < ephemeralFloor then ephemeralFloor else next, if next < ephemeralFloor then ephemeralFloor else next + 1)

def portCounter : Nat → BitVec 16
  | 0 => ephemeralFloor
  | n + 1 => (allocLocalPort (portCounter n)).2

def nthPort (n : Nat) : BitVec 16 := (allocLocalPort (portCounter n)).1

theorem toNat_allocLocalPort (next : BitVec 16) :
    ((allocLocalPort next).1.toNat = if next.toNat < 49152 then 49152 else next.toNat) ∧
    ((allocLocalPort next).2.toNat = if next.toNat < 49152 then 49152 else (next.toNat + 1) % 65536) := by
  simp only [allocLocalPort, BitVec.lt_def, show ephemeralFloor.toNat = 49152 from rfl]
  split
  · exact ⟨rfl, rfl⟩
  · exact ⟨rfl, BitVec.toNat_add next 1⟩

theorem toNat_portCounter (n : Nat) : (portCounter n).toNat = (49152 + n % 16385) % 65536 := by
  induction n with
  | zero => rfl
  | succ n ih =>
    rw [portCounter, (toNat_allocLocalPort _).2, ih]
    -- at the last of 16385 calls the counter has wrapped to 0
    split <;> omega

theorem toNat_nthPort (n : Nat) : (nthPort n).toNat = if n % 16385 = 16384 then 49152 else 49152 + n % 16385 := by
  rw [nthPort, (toNat_allocLocalPort _).1, toNat_portCounter]
  split <;> split <;> omega

/-- **Ephemeral ports.**  Whatever was allocated before, all ports are from 49152 to 65535; and 16384 in a row are
different exactly when the first of them is also the first, or the second, of a round of 16385. -/
theorem ephemeral_ports_iff (n : Nat) :
    (∀ i < 16384, 49152 ≤ (nthPort (n + i)).toNat ∧ (nthPort (n + i)).toNat ≤ 65535) ∧
    ((∀ i j, i < j → j < 16384 → nthPort (n + i) ≠ nthPort (n + j)) ↔ n % 16385 ≤ 1) := by
  refine ⟨fun i _ => ?_, fun h => ?_, fun h i j hij hj he => ?_⟩
  · rw [toNat_nthPort]
    split <;> omega
  · by_contra hlate
    refine h (16384 - n % 16385) (16385 - n % 16385) (by omega) (by omega) (BitVec.eq_of_toNat_eq ?_)
    rw [toNat_nthPort, toNat_nthPort, if_pos (by omega), if_neg (by omega)]
    omega
  · have hports := congrArg BitVec.toNat he
    rw [toNat_nthPort, toNat_nthPort] at hports
    split at hports <;> split at hports <;> omega

/-- **The same port twice in a row**, after two allocations: the last two of the next 16384. -/
theorem ephemeral_port_repeated : nthPort (2 + 16382) = nthPort (2 + 16383) := by
  apply BitVec.eq_of_toNat_eq
  rw [toNat_nthPort, toNat_nthPort]
  rfl

end TailscaleVita.Net

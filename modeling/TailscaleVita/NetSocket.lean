import TailscaleVita.Run
/-!
# NetSocket — a TCP socket of `smoltcp`

The socket as its users see it: the state of RFC 793, what was received and not read yet, how much of what was accepted
is not acknowledged, and whether a FIN or a RST was queued. `wire` is what the peer and the clock do to it.
-/
namespace TailscaleVita.Net

abbrev Bytes := List (BitVec 8)

inductive State where
  | closed
  | listen
  | synSent
  | synReceived
  | established
  | finWait1
  | finWait2
  | closeWait
  | closing
  | lastAck
  | timeWait
deriving DecidableEq

structure Socket where
  state : State
  rx : Bytes := []
  unacked : Nat := 0
  finQueued : Bool := false
  rstQueued : Bool := false
  finReceived : Bool := false
  reset : Bool := false
deriving DecidableEq

def txCapacity : Nat := 16 * 1024

inductive Wire where
  | data (b : BitVec 8) (bs : Bytes)
  | ack (n : Nat)
  | ackFin
  | fin
  | rst
  | timeWaitOver
deriving DecidableEq

def State.drained : State → Bool
  | .finWait2 | .closing | .timeWait | .lastAck | .closed => true
  | .listen | .synSent | .synReceived | .established | .finWait1 | .closeWait => false

namespace Socket

def maySend (s : Socket) : Bool := s.state = .established || s.state = .closeWait

def mayRecv (s : Socket) : Bool :=
  s.state = .established || s.state = .finWait1 || s.state = .finWait2 || !s.rx.isEmpty

def canSend (s : Socket) : Bool := s.maySend && s.unacked < txCapacity

def sendSlice (s : Socket) (buf : Bytes) : Nat × Socket :=
  let n := min buf.length (txCapacity - s.unacked)
  (n, { s with unacked := s.unacked + n })

def recvSlice (s : Socket) (len : Nat) : Bytes × Socket := (s.rx.take len, { s with rx := s.rx.drop len })

def close (s : Socket) : Socket :=
  match s.state with
  | .listen | .synSent => { s with state := .closed }
  | .synReceived | .established => { s with state := .finWait1, finQueued := true }
  | .closeWait => { s with state := .lastAck, finQueued := true }
  | .finWait1 | .finWait2 | .closing | .lastAck | .timeWait | .closed => s

def abort (s : Socket) : Socket := { s with state := .closed, rstQueued := true }

def wire (s : Socket) : Wire → Socket
  | .data b bs =>
    match s.state with
    | .established | .finWait1 | .finWait2 => { s with rx := s.rx ++ b :: bs }
    | _ => s
  | .ack n => { s with unacked := s.unacked - n }
  | .ackFin =>
    match s.state with
    | .finWait1 => { s with state := .finWait2, unacked := 0 }
    | .closing => { s with state := .timeWait, unacked := 0 }
    | .lastAck => { s with state := .closed, unacked := 0 }
    | _ => s
  | .fin =>
    match s.state with
    | .established => { s with state := .closeWait, finReceived := true }
    | .finWait1 => { s with state := .closing, finReceived := true }
    | .finWait2 => { s with state := .timeWait, finReceived := true }
    | _ => s
  | .rst =>
    match s.state with
    | .closed | .listen => s
    | _ => { s with state := .closed, reset := true }
  | .timeWaitOver =>
    match s.state with
    -- the expired socket is reset, with what it still holds
    | .timeWait => { s with state := .closed, rx := [] }
    | _ => s

def Connected (s : Socket) : Prop :=
  match s.state with
  | .listen | .synSent | .synReceived => False
  | .established | .closeWait => s.finQueued = false ∧ s.reset = false ∧ s.rstQueued = false
  | .finWait1 | .closing | .lastAck => s.finQueued = true ∧ s.reset = false ∧ s.rstQueued = false
  | .finWait2 | .timeWait => s.finQueued = true ∧ s.unacked = 0 ∧ s.reset = false ∧ s.rstQueued = false
  | .closed => s.reset = true ∨ s.rstQueued = true ∨ s.finQueued = true ∧ s.unacked = 0

def fresh : Socket := { state := .established }

theorem connected_fresh : fresh.Connected := ⟨rfl, rfl, rfl⟩

variable {s : Socket}

theorem connected_close (h : s.Connected) : s.close.Connected := by
  obtain ⟨state, rx, unacked, finQueued, rstQueued, finReceived, reset⟩ := s
  cases state with
  | listen | synSent | synReceived => exact absurd h id
  | established | closeWait => exact ⟨rfl, h.2⟩
  | _ => exact h

theorem rstQueued_close (s : Socket) : s.close.rstQueued = s.rstQueued := by
  unfold close
  split <;> rfl

theorem rstQueued_wire (s : Socket) (e : Wire) : (s.wire e).rstQueued = s.rstQueued := by
  cases e with
  | ack n => rfl
  | _ => simp only [wire]; split <;> rfl

theorem connected_wire (h : s.Connected) (e : Wire) : (s.wire e).Connected := by
  obtain ⟨state, rx, unacked, finQueued, rstQueued, finReceived, reset⟩ := s
  cases e with
  | ack n =>
    have h0 : unacked = 0 → unacked - n = 0 := by omega
    cases state with
    | finWait2 | timeWait => exact ⟨h.1, h0 h.2.1, h.2.2⟩
    | closed => exact h.imp_right (Or.imp_right (And.imp_right h0))
    | _ => exact h
  | _ => cases state <;> simp_all [Connected, wire]

theorem drained_wire (h : s.state.drained = true) (e : Wire) : (s.wire e).state.drained = true := by
  obtain ⟨state, rx, unacked, finQueued, rstQueued, finReceived, reset⟩ := s
  cases e with
  | ack n => exact h
  | _ => cases state <;> first | rfl | cases h

theorem closed_wire (h : s.state = .closed) (e : Wire) : (s.wire e).state = .closed := by
  cases e with
  | ack n => exact h
  | _ => simp [wire, h]

theorem connected_recvSlice (h : s.Connected) (len : Nat) : (s.recvSlice len).2.Connected := h

theorem connected_sendSlice (h : s.Connected) (hs : s.maySend = true) (buf : Bytes) :
    (s.sendSlice buf).2.Connected := by
  obtain ⟨state, rx, unacked, finQueued, rstQueued, finReceived, reset⟩ := s
  cases state with
  | established | closeWait => exact h
  | _ => simp [maySend] at hs

theorem connected_abort (s : Socket) : s.abort.Connected := .inr (.inl rfl)

end Socket

end TailscaleVita.Net

import Mathlib.Data.List.Induction
import TailscaleVita.DerpMux
/-!
# DerpIo — the I/O thread of a relay connection (`ts-derp/src/conn.rs`)

The thread takes everything off its channel, writes the pongs of what it took before the rest, reads at most one frame,
and starts again. Callers queue messages at any time, and so does the thread itself, a pong for each ping.
-/
namespace TailscaleVita.Derp

open List

def keepaliveDeadline : Nat := 125 * 1000

/-! ## Frames that come in -/

def parsePing (payload : Bytes) : Option Bytes := if payload.length < 8 then none else some (payload.take 8)

def parseRecvPacket (payload : Bytes) : Option (Bytes × Bytes) :=
  if payload.length < 32 then none else some (payload.take 32, payload.drop 32)

def parseRestarting (payload : Bytes) : Option (Nat × Nat) :=
  if payload.length < 8 then none else some (beNat (payload.take 4), beNat ((payload.drop 4).take 4))

structure Handled where
  pong : Option DerpTx := none
  rx : Option (Bytes × Bytes) := none
  restart : Option Nat := none
deriving DecidableEq

def handleFrame : FrameType → Bytes → Handled
  | .recvPacket, payload => { rx := parseRecvPacket payload }
  | .ping, payload => { pong := (parsePing payload).map .pong }
  | .restarting, payload => { restart := (parseRestarting payload).map Prod.fst }
  | .keepAlive, _ | .peerGone, _ | .health, _ => {}
  | .serverKey, _ | .serverInfo, _ | .clientInfo, _ => {}
  | .peerPresent, _ | .forwardPacket, _ | .watchConns, _ | .closePeer, _ | .pong, _ | .sendPacket, _
  | .notePreferred, _ => {}

/-! ## Messages that go out -/

def DerpTx.isPong : DerpTx → Bool
  | .pong _ => true
  | .sendPacket .. | .notePreferred _ => false

def DerpTx.frame : DerpTx → Frame
  | .sendPacket dstPubkey wgBytes => (.sendPacket, beBytes 32 dstPubkey.toNat ++ wgBytes)
  | .notePreferred home => (.notePreferred, [if home then 0x01 else 0x00])
  | .pong payload => (.pong, payload)

def writeOutbound (io : Except DerpError Unit) (msg : DerpTx) : Except DerpError Bytes := do
  let bytes ← writeFrame msg.frame.1 msg.frame.2
  io
  return bytes

structure Queued where
  msg : DerpTx
  own : Bool
deriving DecidableEq

def Queued.isPong (m : Queued) : Bool := m.msg.isPong

/-! ## The loop -/

inductive IoEnd where
  | shutdown
  | writeError (e : DerpError)
  | flushError (e : DerpError)
  | readError (e : DerpError)
  | restarted
  | watchdog
deriving DecidableEq

inductive IoPhase where
  | top
  /-- Before a `try_recv`; `batch` is what came off the channel, in its order. -/
  | draining (batch pongs others : List Queued)
  /-- Before a write, or the flush that follows the last one of a batch that is not empty. -/
  | writing (flush : Bool) (rest : List Queued)
  | polling
  | watching
  | sleeping (wake : Nat)
  | ended (how : IoEnd)
deriving DecidableEq

/-- The thread and its channel, with a record of what was put on the channel, what each turn took off it, what was
written and which frames came in. -/
structure IoLoop where
  stream : List Arrival
  clock : Nat := 0
  queue : List Queued := []
  shutdown : Bool := false
  reader : FrameReader := FrameReader.new
  lastRx : Nat := 0
  lastUsed : Nat := 0
  rxSink : List (Bytes × Bytes) := []
  wire : Bytes := []
  phase : IoPhase := .top
  queued : List Queued := []
  batches : List (List Queued) := []
  written : List Queued := []
  received : List Frame := []

structure IoMet where
  write : Except DerpError Unit := .ok ()
  flush : Except DerpError Unit := .ok ()

inductive IoEvent where
  | send (msg : DerpTx)
  | shutdown
  | wait (elapsed : Nat)
  | step (met : IoMet)

namespace IoLoop

def new (stream : List Arrival) : IoLoop := { stream }

def push (s : IoLoop) (m : Queued) : IoLoop :=
  match s.phase with
  | .ended _ => s
  | _ => { s with queue := s.queue ++ [m], queued := s.queued ++ [m] }

def handle (s : IoLoop) (frame : Frame) : IoLoop :=
  let h := handleFrame frame.1 frame.2
  let phase := h.restart.elim .watching (fun delay => .sleeping (s.clock + delay))
  let s := { s with phase, lastRx := s.clock, received := s.received ++ [frame], rxSink := s.rxSink ++ h.rx.toList }
  match h.pong with
  | some pong => s.push ⟨pong, true⟩
  | none => s

def step (s : IoLoop) (met : IoMet) : IoLoop :=
  match s.phase with
  | .top => { s with phase := if s.shutdown then .ended .shutdown else .draining [] [] [] }
  | .draining batch pongs others =>
    match s.queue with
    | [] => { s with phase := .writing (!(pongs ++ others).isEmpty) (pongs ++ others), batches := s.batches ++ [batch] }
    | m :: queue =>
      if m.isPong then { s with queue, phase := .draining (batch ++ [m]) (pongs ++ [m]) others }
      else { s with queue, phase := .draining (batch ++ [m]) pongs (others ++ [m]) }
  | .writing flush (m :: rest) =>
    match writeOutbound met.write m.msg with
    | .error e => { s with phase := .ended (.writeError e) }
    | .ok bytes => { s with wire := s.wire ++ bytes, written := s.written ++ [m], phase := .writing flush rest }
  | .writing true [] =>
    match met.flush with
    | .error e => { s with phase := .ended (.flushError e) }
    | .ok () => { s with lastUsed := s.clock, phase := .polling }
  | .writing false [] => { s with phase := .polling }
  | .polling =>
    match s.reader.pollFrame s.stream with
    | (.error e, reader, stream) => { s with reader, stream, phase := .ended (.readError e) }
    | (.ok none, reader, stream) => { s with reader, stream, phase := .watching }
    | (.ok (some frame), reader, stream) => { s with reader, stream }.handle frame
  | .watching => { s with phase := if keepaliveDeadline < s.clock - s.lastRx then .ended .watchdog else .top }
  | .sleeping wake => if s.clock < wake then s else { s with phase := .ended .restarted }
  | .ended _ => s

end IoLoop

def ioStep (s : IoLoop) : IoEvent → IoLoop
  | .send msg => s.push ⟨msg, false⟩
  | .shutdown => { s with shutdown := true }
  | .wait elapsed => { s with clock := s.clock + elapsed }
  | .step met => s.step met

/-! ## What a turn does with its batch -/

def reorder (batch : List Queued) : List Queued := batch.filter Queued.isPong ++ batch.filter (fun m => !m.isPong)

theorem reorder_perm (batch : List Queued) : (reorder batch).Perm batch := filter_append_perm _ _

theorem filter_reorder (batch : List Queued) (pong : Bool) :
    (reorder batch).filter (fun m => m.isPong == pong) = batch.filter (fun m => m.isPong == pong) := by
  unfold reorder
  rw [filter_append, filter_filter, filter_filter]
  cases pong <;> simp

namespace IoPhase

def drained : IoPhase → List Queued
  | .draining batch _ _ => batch
  | _ => []

def unwritten : IoPhase → List Queued
  | .writing _ rest => rest
  | _ => []

def failed : IoPhase → Bool
  | .ended (.writeError _) | .ended (.flushError _) => true
  | _ => false

def Sorted : IoPhase → Prop
  | .draining batch pongs others =>
    pongs = batch.filter Queued.isPong ∧ others = batch.filter (fun m => !m.isPong)
  | _ => True

structure Idle (p : IoPhase) : Prop where
  drained : p.drained = []
  unwritten : p.unwritten = []
  failed : p.failed = false
  sorted : p.Sorted

end IoPhase

/-! ## What a step does -/

def IoLoop.unparsed (s : IoLoop) : Bytes := s.reader.buf ++ unread s.stream

inductive Polled (b : Bytes) : Except DerpError (Option Frame) × FrameReader × List Arrival → Prop where
  | frame {frame reader stream} (h : frames.frames b = (frame :: (frames.frames (reader.buf ++ unread stream)).1,
      (frames.frames (reader.buf ++ unread stream)).2)) : Polled b (.ok (some frame), reader, stream)
  | nothing {reader stream} (h : reader.buf ++ unread stream = b) : Polled b (.ok none, reader, stream)
  | failed {e reader stream} (h : reader.buf ++ unread stream = b) : Polled b (.error e, reader, stream)

theorem polled_buffer (b : Bytes) (as : List Arrival) :
    Polled (b ++ unread as) ((FrameReader.tryExtract ⟨b⟩).1, (FrameReader.tryExtract ⟨b⟩).2, as) := by
  rw [tryExtract_eq]
  cases hx : extract b with
  | more => exact .nothing rfl
  | fail e => exact .failed rfl
  | frame frame rest => exact .frame (frames.frames_of_frame (frames.frame_append hx (unread as)))

theorem polled (r : FrameReader) (as : List Arrival) : Polled (r.buf ++ unread as) (r.pollFrame as) := by
  have hbuffer := polled_buffer r.buf as
  unfold FrameReader.pollFrame
  rw [show r.tryExtract = FrameReader.tryExtract ⟨r.buf⟩ from rfl]
  rw [tryExtract_eq] at hbuffer ⊢
  cases hx : extract r.buf with
  | fail e => exact .failed rfl
  | frame frame rest =>
    rwa [hx] at hbuffer
  | more =>
    have hrecv := recv_spec (n := 8192) (by decide) as
    generalize recv 8192 as = got at hrecv ⊢
    cases hrecv with
    | eof => exact .failed rfl
    | timedOut as' => exact .nothing rfl
    | @got _ as' c cs hn hu hw =>
      rw [hu, ← append_assoc]
      exact polled_buffer (r.buf ++ c :: cs) as'

theorem writeFrame_of_outbound {io : Except DerpError Unit} {msg : DerpTx} {bytes : Bytes}
    (h : writeOutbound io msg = .ok bytes) : writeFrame msg.frame.1 msg.frame.2 = .ok bytes := by
  unfold writeOutbound at h
  cases hw : writeFrame msg.frame.1 msg.frame.2 with
  | error e =>
    rw [hw] at h
    cases h
  | ok bytes' =>
    rw [hw] at h
    cases io with
    | error e => cases h
    | ok u => exact h

theorem handle_received (s : IoLoop) (frame : Frame) :
    (s.handle frame).queued = s.queued ++
      ((handleFrame frame.1 frame.2).pong.map (fun pong => Queued.mk pong true)).toList ∧
    (s.handle frame).written = s.written ∧ (s.handle frame).wire = s.wire ∧
    (s.handle frame).received = s.received ++ [frame] ∧ (s.handle frame).unparsed = s.unparsed ∧
    (s.handle frame).batches = s.batches := by
  unfold IoLoop.handle
  generalize handleFrame frame.1 frame.2 = handled
  obtain ⟨pong, rx, restart⟩ := handled
  cases pong with
  | none => exact ⟨(append_nil _).symm, rfl, rfl, rfl, rfl, rfl⟩
  | some pong => cases restart <;> exact ⟨rfl, rfl, rfl, rfl, rfl, rfl⟩

inductive Did (s : IoLoop) : IoLoop → Prop where
  | stays : Did s s
  | moves {phase : IoPhase} {reader : FrameReader} {stream : List Arrival} {lastUsed : Nat} (hi : s.phase.Idle)
      (hi' : phase.Idle) (hunparsed : reader.buf ++ unread stream = s.unparsed) :
      Did s { s with phase, reader, stream, lastUsed }
  | takes {batch pongs others queue : List Queued} {m : Queued} (hphase : s.phase = .draining batch pongs others)
      (hqueue : s.queue = m :: queue) : Did s { s with
        queue
        phase := if m.isPong then .draining (batch ++ [m]) (pongs ++ [m]) others
          else .draining (batch ++ [m]) pongs (others ++ [m]) }
  | closes {batch pongs others : List Queued} (flush : Bool) (hphase : s.phase = .draining batch pongs others)
      (hqueue : s.queue = []) :
      Did s { s with phase := .writing flush (pongs ++ others), batches := s.batches ++ [batch] }
  | writes {flush : Bool} {m : Queued} {rest : List Queued} {bytes : Bytes}
      (hphase : s.phase = .writing flush (m :: rest)) (hbytes : writeFrame m.msg.frame.1 m.msg.frame.2 = .ok bytes) :
      Did s { s with wire := s.wire ++ bytes, written := s.written ++ [m], phase := .writing flush rest }
  | fails {how : IoEnd} (hd : s.phase.drained = []) (hf : (IoPhase.ended how).failed = true) :
      Did s { s with phase := .ended how }
  | receives {frame : Frame} {reader : FrameReader} {stream : List Arrival} (hi : s.phase.Idle)
      (hframes : frames.frames s.unparsed = (frame :: (frames.frames (reader.buf ++ unread stream)).1,
        (frames.frames (reader.buf ++ unread stream)).2)) : Did s ({ s with reader, stream }.handle frame)

theorem did (s : IoLoop) (met : IoMet) : Did s (s.step met) := by
  unfold IoLoop.step
  split
  next hphase =>
    refine .moves (by rw [hphase]; exact ⟨rfl, rfl, rfl, trivial⟩) ?_ rfl
    split
    · exact ⟨rfl, rfl, rfl, trivial⟩
    · exact ⟨rfl, rfl, rfl, rfl, rfl⟩
  next batch pongs others hphase =>
    split
    next hqueue => exact .closes _ hphase hqueue
    next m queue hqueue =>
      have htakes := Did.takes hphase hqueue
      split
      next hpong => rwa [if_pos hpong] at htakes
      next hpong => rwa [if_neg hpong] at htakes
  next flush m rest hphase =>
    split
    · exact .fails (by rw [hphase]; rfl) rfl
    next bytes hbytes => exact .writes hphase (writeFrame_of_outbound hbytes)
  next hphase =>
    have hi : s.phase.Idle := by rw [hphase]; exact ⟨rfl, rfl, rfl, trivial⟩
    split
    · exact .fails hi.drained rfl
    · exact .moves hi ⟨rfl, rfl, rfl, trivial⟩ rfl
  next hphase => exact .moves (by rw [hphase]; exact ⟨rfl, rfl, rfl, trivial⟩) ⟨rfl, rfl, rfl, trivial⟩ rfl
  next hphase =>
    have hi : s.phase.Idle := by rw [hphase]; exact ⟨rfl, rfl, rfl, trivial⟩
    have hpoll := polled s.reader s.stream
    generalize s.reader.pollFrame s.stream = r at hpoll
    cases hpoll with
    | frame h => exact .receives hi h
    | nothing h | failed h => exact .moves hi ⟨rfl, rfl, rfl, trivial⟩ h
  next hphase =>
    refine .moves (by rw [hphase]; exact ⟨rfl, rfl, rfl, trivial⟩) ?_ rfl
    split <;> exact ⟨rfl, rfl, rfl, trivial⟩
  next wake hphase =>
    split
    · exact .stays
    · exact .moves (by rw [hphase]; exact ⟨rfl, rfl, rfl, trivial⟩) ⟨rfl, rfl, rfl, trivial⟩ rfl
  · exact .stays

/-! ## The batches -/

structure Accounted (s : IoLoop) : Prop where
  queued : s.queued = s.batches.flatten ++ s.phase.drained ++ s.queue
  sorted : s.phase.Sorted
  written : s.phase.failed = false → s.written ++ s.phase.unwritten = s.batches.flatMap reorder

variable {s : IoLoop}

theorem accounted_push (h : Accounted s) (m : Queued) : Accounted (s.push m) := by
  unfold IoLoop.push
  split
  · exact h
  · refine ⟨?_, h.sorted, h.written⟩
    rw [h.queued, append_assoc]

theorem Accounted.moves (h : Accounted s) (hi : s.phase.Idle) {phase : IoPhase} (hi' : phase.Idle) :
    Accounted { s with phase } := by
  have hqueued := h.queued
  have hwritten := h.written hi.failed
  rw [hi.drained, ← hi'.drained] at hqueued
  rw [hi.unwritten, ← hi'.unwritten] at hwritten
  exact ⟨hqueued, hi'.sorted, fun _ => hwritten⟩

theorem accounted_handle (h : Accounted s) (hi : s.phase.Idle) (frame : Frame) : Accounted (s.handle frame) := by
  unfold IoLoop.handle
  simp only
  generalize handleFrame frame.1 frame.2 = handled
  generalize hphase : handled.restart.elim IoPhase.watching (fun delay => .sleeping (s.clock + delay)) = phase
  have hidle : phase.Idle := by
    rw [← hphase]
    cases handled.restart <;> exact ⟨rfl, rfl, rfl, trivial⟩
  have hmoved := h.moves hi hidle
  have harrived : Accounted { s with
      phase, lastRx := s.clock, received := s.received ++ [frame], rxSink := s.rxSink ++ handled.rx.toList } :=
    ⟨hmoved.queued, hmoved.sorted, hmoved.written⟩
  split
  · exact accounted_push harrived _
  · exact harrived

theorem accounted_take (h : Accounted s) {batch pongs others queue : List Queued} {m : Queued}
    (hphase : s.phase = .draining batch pongs others) (hqueue : s.queue = m :: queue) : Accounted { s with
      queue
      phase := if m.isPong then .draining (batch ++ [m]) (pongs ++ [m]) others
        else .draining (batch ++ [m]) pongs (others ++ [m]) } := by
  obtain ⟨hqueued, hsorted, hwritten⟩ := h
  rw [hphase] at hqueued hsorted hwritten
  obtain ⟨rfl, rfl⟩ := hsorted
  have htaken : s.queued = s.batches.flatten ++ (batch ++ [m]) ++ queue := by
    rw [hqueued, hqueue]
    simp [IoPhase.drained]
  cases hpong : m.isPong with
  | true | false => exact ⟨htaken, ⟨by simp [filter_append, hpong], by simp [filter_append, hpong]⟩, hwritten⟩

theorem accounted_close (h : Accounted s) {batch pongs others : List Queued} (flush : Bool)
    (hphase : s.phase = .draining batch pongs others) :
    Accounted { s with phase := .writing flush (pongs ++ others), batches := s.batches ++ [batch] } := by
  obtain ⟨hqueued, hsorted, hwritten⟩ := h
  rw [hphase] at hqueued hsorted hwritten
  obtain ⟨rfl, rfl⟩ := hsorted
  have hwritten : s.written ++ [] = s.batches.flatMap reorder := hwritten rfl
  refine ⟨?_, trivial, fun _ => ?_⟩
  · show s.queued = (s.batches ++ [batch]).flatten ++ [] ++ s.queue
    rw [hqueued]
    simp [IoPhase.drained]
  · show s.written ++ reorder batch = (s.batches ++ [batch]).flatMap reorder
    rw [flatMap_append, ← hwritten]
    simp

theorem accounted_step (h : Accounted s) (met : IoMet) : Accounted (s.step met) := by
  have hdid := did s met
  generalize s.step met = s' at hdid ⊢
  cases hdid with
  | stays => exact h
  | moves hi hi' =>
    have hmoved := h.moves hi hi'
    exact ⟨hmoved.queued, hmoved.sorted, hmoved.written⟩
  | takes hphase hqueue => exact accounted_take h hphase hqueue
  | closes flush hphase => exact accounted_close h flush hphase
  | @writes flush m rest bytes hphase =>
    obtain ⟨hqueued, -, hwritten⟩ := h
    rw [hphase] at hqueued hwritten
    have hwritten : s.written ++ m :: rest = s.batches.flatMap reorder := hwritten rfl
    refine ⟨hqueued, trivial, fun _ => ?_⟩
    rwa [append_assoc]
  | fails hd hf =>
    have hqueued := h.queued
    rw [hd] at hqueued
    exact ⟨hqueued, trivial, fun hno => absurd (hf.symm.trans hno) (by decide)⟩
  | @receives frame reader stream hi =>
    exact accounted_handle (s := { s with reader, stream }) ⟨h.queued, h.sorted, h.written⟩ hi frame

/-! ## What came in, and what went out -/

def pongFor (frame : Frame) : Option DerpTx := (handleFrame frame.1 frame.2).pong

theorem pongFor_eq_some {frame : Frame} {msg : DerpTx} :
    pongFor frame = some msg ↔ frame.1 = .ping ∧ 8 ≤ frame.2.length ∧ msg = .pong (frame.2.take 8) := by
  obtain ⟨ty, payload⟩ := frame
  cases ty with
  | ping =>
    simp only [pongFor, handleFrame, parsePing, true_and]
    by_cases hlen : payload.length < 8
    · simp [hlen, Nat.not_le.2 hlen]
    · simp [hlen, Nat.not_lt.1 hlen, eq_comm]
  | _ => simp [pongFor, handleFrame]

theorem frames_writeFrame {ty : FrameType} {payload bytes : Bytes} (h : writeFrame ty payload = .ok bytes) :
    frames.frames bytes = ([(ty, payload)], .short []) := by
  unfold writeFrame at h
  split at h
  · cases h
  next hle =>
    cases h
    have hx : extract (ty.toByte :: beBytes 4 payload.length ++ payload ++ []) = .frame (ty, payload) [] :=
      extract_writeFrame (Nat.not_lt.1 hle) []
    rw [append_nil] at hx
    rw [frames.frames_of_frame hx]
    rfl

/-- What the relay reads and what it gets for it: the wire holds what was written, frame by frame; the frames that
came in are the first of the stream; and the thread has queued one pong for each ping among them, and nothing else. -/
structure Answered (stream : List Arrival) (s : IoLoop) : Prop where
  wire : frames.frames s.wire = (s.written.map (fun m => m.msg.frame), .short [])
  received : (frames.frames (unread stream)).1 = s.received ++ (frames.frames s.unparsed).1
  own : (s.queued.filter Queued.own).map Queued.msg = s.received.filterMap pongFor

variable {stream : List Arrival}

theorem answered_step (h : Answered stream s) (met : IoMet) : Answered stream (s.step met) := by
  have hdid := did s met
  generalize s.step met = s' at hdid ⊢
  cases hdid with
  | stays | takes | closes | fails => exact ⟨h.wire, h.received, h.own⟩
  | moves _ _ hunparsed =>
    refine ⟨h.wire, ?_, h.own⟩
    rw [h.received, ← hunparsed]
    rfl
  | writes _ hbytes =>
    refine ⟨?_, h.received, h.own⟩
    rw [frames.frames_append h.wire, frames_writeFrame hbytes, map_append]
    rfl
  | @receives frame reader stream' _ hframes =>
    obtain ⟨hqueued, hwritten, hwire, hreceived, hunparsed, -⟩ :=
      handle_received { s with reader, stream := stream' } frame
    refine ⟨?_, ?_, ?_⟩
    · rw [hwire, hwritten]
      exact h.wire
    · rw [h.received, hreceived, hunparsed, hframes, append_assoc]
      rfl
    · rw [hqueued, hreceived, filter_append, map_append, h.own, filterMap_append]
      congr 1
      unfold pongFor
      cases hpong : (handleFrame frame.1 frame.2).pong with
      | none | some pong => simp [hpong]

theorem answered_push (h : Answered stream s) (msg : DerpTx) : Answered stream (s.push ⟨msg, false⟩) := by
  unfold IoLoop.push
  split
  · exact h
  · refine ⟨h.wire, h.received, ?_⟩
    rw [filter_append, ← h.own]
    simp

structure IoInv (stream : List Arrival) (s : IoLoop) : Prop where
  accounted : Accounted s
  answered : Answered stream s

theorem ioInv_step (stream : List Arrival) (s : IoLoop) (e : IoEvent) (h : IoInv stream s) :
    IoInv stream (ioStep s e) := by
  obtain ⟨hacc, hans⟩ := h
  cases e with
  | send msg => exact ⟨accounted_push hacc _, answered_push hans msg⟩
  | shutdown | wait =>
    exact ⟨⟨hacc.queued, hacc.sorted, hacc.written⟩, ⟨hans.wire, hans.received, hans.own⟩⟩
  | step met => exact ⟨accounted_step hacc met, answered_step hans met⟩

theorem ioInv_run (stream : List Arrival) (es : List IoEvent) : IoInv stream (run ioStep (IoLoop.new stream) es) :=
  run_keeps (IoInv stream) (ioInv_step stream) es _ ⟨⟨rfl, trivial, fun _ => rfl⟩, ⟨rfl, rfl, rfl⟩⟩

def smooth : IoMet := {}

def IoLoop.left (s : IoLoop) : Nat :=
  match s.phase with
  | .top => 2 * s.queue.length + 3
  | .draining _ pongs others => 2 * s.queue.length + (pongs ++ others).length + 2
  | .writing _ rest => rest.length + 1
  | _ => 0

def IoLoop.Turning (s : IoLoop) : Prop :=
  match s.phase with
  | .top => s.shutdown = false ∧ ∀ m ∈ s.queue, m.msg.frame.2.length ≤ maxPayload
  | .draining _ pongs others => ∀ m ∈ pongs ++ others ++ s.queue, m.msg.frame.2.length ≤ maxPayload
  | .writing _ rest => s.queue = [] ∧ ∀ m ∈ rest, m.msg.frame.2.length ≤ maxPayload
  | .polling => s.queue = []
  | _ => False

theorem turning_step (h : s.Turning) (hp : s.phase ≠ .polling) :
    (s.step smooth).Turning ∧ (s.step smooth).left + 1 = s.left ∧ (s.step smooth).queued = s.queued := by
  unfold IoLoop.Turning at h
  unfold IoLoop.left IoLoop.step
  split at h
  next hphase =>
    simp only [hphase, h.1]
    exact ⟨h.2, rfl, trivial⟩
  next batch pongs others hphase =>
    cases hqueue : s.queue with
    | nil =>
      simp only [hphase]
      exact ⟨⟨rfl, fun m hm => h m (mem_append_left _ hm)⟩, by simp, trivial⟩
    | cons m queue =>
      rw [hqueue] at h
      simp only [hphase]
      split <;> refine ⟨fun m' hm' => h m' (by simp at hm' ⊢; tauto), by simp; omega, rfl⟩
  next flush rest hphase =>
    obtain ⟨hqueue, hfit⟩ := h
    rcases rest with _ | ⟨m, rest⟩
    · cases flush <;> simp only [hphase, smooth] <;> exact ⟨hqueue, rfl, trivial⟩
    · have hle : ¬ maxPayload < m.msg.frame.2.length := Nat.not_lt.2 (hfit m mem_cons_self)
      simp only [hphase, writeOutbound, writeFrame, if_neg hle]
      exact ⟨⟨hqueue, fun m' hm' => hfit m' (mem_cons_of_mem m hm')⟩, rfl, rfl⟩
  next hphase => exact absurd hphase hp
  · exact h.elim

theorem turning_run : ∀ (n : Nat) {s : IoLoop}, s.Turning → s.left = n →
    let s' := run ioStep s (List.replicate n (.step smooth))
    s'.phase = .polling ∧ s'.queue = [] ∧ s'.queued = s.queued
  | 0, s, h, hn => by
    unfold IoLoop.Turning at h
    unfold IoLoop.left at hn
    split at h
    · simp_all
    · simp_all
    · simp_all
    next hphase => exact ⟨hphase, h, rfl⟩
    · exact h.elim
  | n + 1, s, h, hn => by
    have hp : s.phase ≠ .polling := fun hp => by simp [IoLoop.left, hp] at hn
    obtain ⟨hnext, hleft, hqueued⟩ := turning_step h hp
    obtain ⟨hpolling, hqueue, hsame⟩ := turning_run n hnext (by omega)
    exact ⟨hpolling, hqueue, hsame.trans hqueued⟩

/-! ## The order of what is sent -/

def IoLoop.inOrder (s : IoLoop) : List Queued := s.written ++ s.phase.unwritten ++ s.phase.drained ++ s.queue

theorem perm_flatMap_reorder : ∀ batches : List (List Queued), (batches.flatMap reorder).Perm batches.flatten
  | [] => List.Perm.refl _
  | batch :: batches => (reorder_perm batch).append (perm_flatMap_reorder batches)

theorem filter_flatMap_reorder (pong : Bool) : ∀ batches : List (List Queued),
    (batches.flatMap reorder).filter (fun m => m.isPong == pong) = batches.flatten.filter (fun m => m.isPong == pong)
  | [] => rfl
  | batch :: batches => by
    rw [flatMap_cons, flatten_cons, filter_append, filter_append, filter_reorder, filter_flatMap_reorder pong batches]

theorem Accounted.perm (h : Accounted s) (hok : s.phase.failed = false) : s.inOrder.Perm s.queued := by
  unfold IoLoop.inOrder
  rw [h.written hok, h.queued]
  exact ((perm_flatMap_reorder s.batches).append_right _).append_right _

theorem Accounted.filter (h : Accounted s) (hok : s.phase.failed = false) (pong : Bool) :
    s.inOrder.filter (fun m => m.isPong == pong) = s.queued.filter (fun m => m.isPong == pong) := by
  unfold IoLoop.inOrder
  rw [h.written hok, h.queued, filter_append, filter_append, filter_flatMap_reorder, filter_append, filter_append]

theorem Answered.isPong (h : Answered stream s) {m : Queued} (hm : m ∈ s.queued)
    (hown : m.own = true) : m.isPong = true := by
  have hmem : m.msg ∈ (s.queued.filter Queued.own).map Queued.msg := mem_map_of_mem (mem_filter.2 ⟨hm, hown⟩)
  rw [h.own] at hmem
  obtain ⟨frame, -, hpong⟩ := mem_filterMap.1 hmem
  obtain ⟨-, -, hmsg⟩ := pongFor_eq_some.1 hpong
  unfold Queued.isPong
  rw [hmsg]
  rfl

theorem IoInv.own (h : IoInv stream s) (hok : s.phase.failed = false) :
    (s.inOrder.filter Queued.own).map Queued.msg = s.received.filterMap pongFor := by
  have hpongs : ∀ l : List Queued, (∀ m ∈ l, m ∈ s.queued) →
      l.filter Queued.own = (l.filter (fun m => m.isPong == true)).filter Queued.own := by
    intro l hl
    rw [filter_filter]
    refine filter_congr (fun m hm => ?_)
    cases hown : m.own with
    | false => simp
    | true => simp [h.answered.isPong (hl m hm) hown]
  have hperm := h.accounted.perm hok
  rw [hpongs s.inOrder (fun m hm => hperm.mem_iff.1 hm), h.accounted.filter hok true,
    ← hpongs s.queued (fun _ hm => hm), h.answered.own]

theorem Accounted.written_perm_iff (h : Accounted s) (hok : s.phase.failed = false) :
    s.written.Perm s.queued ↔ s.phase.unwritten = [] ∧ s.phase.drained = [] ∧ s.queue = [] := by
  have hperm := h.perm hok
  constructor
  · intro hall
    have hlen := (hall.trans hperm.symm).length_eq
    simp only [IoLoop.inOrder, length_append] at hlen
    refine ⟨?_, ?_, ?_⟩ <;> apply eq_nil_of_length_eq_zero <;> omega
  · rintro ⟨hunwritten, hdrained, hqueue⟩
    unfold IoLoop.inOrder at hperm
    rwa [hunwritten, hdrained, hqueue, append_nil, append_nil, append_nil] at hperm

/-- Whatever was queued was queued before the loop last found its channel empty. -/
def QueuedInTime (stream : List Arrival) (es : List IoEvent) : Prop :=
  ∀ es₁, es₁ <+: es →
    (run ioStep (IoLoop.new stream) es₁).batches = (run ioStep (IoLoop.new stream) es).batches →
    (run ioStep (IoLoop.new stream) es₁).queued = (run ioStep (IoLoop.new stream) es).queued

theorem queued_step (s : IoLoop) (e : IoEvent) : s.queued <+: (ioStep s e).queued := by
  cases e with
  | shutdown | wait => exact prefix_rfl
  | send msg =>
    simp only [ioStep, IoLoop.push]
    split
    · exact prefix_rfl
    · exact prefix_append _ _
  | step met =>
    have hdid := did s met
    show _ <+: (s.step met).queued
    generalize s.step met = s' at hdid ⊢
    cases hdid with
    | @receives frame reader stream => exact (handle_received { s with reader, stream } frame).1 ▸ prefix_append _ _
    | _ => exact prefix_rfl

theorem batches_push (s : IoLoop) (m : Queued) : (s.push m).batches = s.batches := by
  unfold IoLoop.push
  split <;> rfl

theorem batches_step (h : Accounted s) (met : IoMet) :
    (s.step met).batches = s.batches ∨ (s.step met).queued = (s.step met).batches.flatten := by
  have hdid := did s met
  generalize s.step met = s' at hdid ⊢
  cases hdid with
  | closes flush hphase hqueue =>
    right
    rw [(accounted_close h flush hphase).queued]
    simp [IoPhase.drained, hqueue]
  | @receives frame reader stream => exact .inl (handle_received { s with reader, stream } frame).2.2.2.2.2
  | _ => exact .inl rfl

theorem last_drain (stream : List Arrival) (es : List IoEvent) : ∃ es₁, es₁ <+: es ∧
    (run ioStep (IoLoop.new stream) es₁).batches = (run ioStep (IoLoop.new stream) es).batches ∧
    (run ioStep (IoLoop.new stream) es₁).queued = (run ioStep (IoLoop.new stream) es).batches.flatten := by
  induction es using List.reverseRecOn with
  | nil => exact ⟨[], prefix_refl _, rfl, rfl⟩
  | append_singleton es e ih =>
    obtain ⟨es₁, hpre, hbatches, hqueued⟩ := ih
    have hsnoc : run ioStep (IoLoop.new stream) (es ++ [e]) = ioStep (run ioStep (IoLoop.new stream) es) e := by
      rw [run_append]
      rfl
    have hkept : (ioStep (run ioStep (IoLoop.new stream) es) e).batches = (run ioStep (IoLoop.new stream) es).batches ∨
        (ioStep (run ioStep (IoLoop.new stream) es) e).queued =
          (ioStep (run ioStep (IoLoop.new stream) es) e).batches.flatten := by
      cases e with
      | send msg => exact .inl (batches_push _ _)
      | shutdown | wait => exact .inl rfl
      | step met => exact batches_step (ioInv_run stream es).accounted met
    rw [← hsnoc] at hkept
    rcases hkept with hsame | hclosed
    · exact ⟨es₁, hpre.trans (prefix_append es [e]), by rw [hbatches, hsame], by rw [hqueued, hsame]⟩
    · exact ⟨es ++ [e], prefix_refl _, rfl, hclosed⟩

theorem queue_empty_iff {es : List IoEvent} {how : IoEnd}
    (hend : (run ioStep (IoLoop.new stream) es).phase = .ended how) :
    (run ioStep (IoLoop.new stream) es).queue = [] ↔ QueuedInTime stream es := by
  have hqueued := (ioInv_run stream es).accounted.queued
  rw [hend, show (IoPhase.ended how).drained = [] from rfl, append_nil] at hqueued
  constructor
  · rintro hempty es₁ ⟨es₂, rfl⟩ hbatches
    have hearlier := (ioInv_run stream es₁).accounted.queued
    have hpre : (run ioStep (IoLoop.new stream) es₁).queued <+:
        (run ioStep (IoLoop.new stream) (es₁ ++ es₂)).queued := by
      rw [run_append]
      exact run_keeps (fun s : IoLoop => (run ioStep (IoLoop.new stream) es₁).queued <+: s.queued)
        (fun s e h => h.trans (queued_step s e)) es₂ _ (prefix_refl _)
    -- both are made of the same batches, and the later one of nothing else
    refine hpre.eq_of_length (Nat.le_antisymm hpre.length_le ?_)
    rw [hqueued, hempty, hearlier, hbatches]
    simp only [length_append, length_nil]
    omega
  · intro htime
    obtain ⟨es₁, hpre, hbatches, hdrained⟩ := last_drain stream es
    have hall := (htime es₁ hpre hbatches).symm.trans hdrained
    rw [hqueued] at hall
    exact append_right_eq_self.1 hall

/-- **The order of what is sent.** However callers and the thread interleave, and whatever the relay sends, as long as
no write has failed: the messages are written batch after batch, the pongs of a batch first, and both the pongs and the
others keep the order they were queued in; the relay reads just that; each ping of at least eight bytes is answered by
one pong with its first eight, and nothing else is. Once the thread has ended, everything queued was written if and
only if nothing was queued after it last drained its channel; a turn that has begun writes all it finds there. -/
theorem derp_send_order_iff (stream : List Arrival) (es : List IoEvent)
    (hok : (run ioStep (IoLoop.new stream) es).phase.failed = false) :
    let s := run ioStep (IoLoop.new stream) es
    (s.queued = s.batches.flatten ++ s.phase.drained ++ s.queue ∧
      s.written ++ s.phase.unwritten = s.batches.flatMap reorder) ∧
    (∀ pong, s.inOrder.filter (fun m => m.isPong == pong) = s.queued.filter (fun m => m.isPong == pong)) ∧
    frames.frames s.wire = (s.written.map (fun m => m.msg.frame), .short []) ∧
    (s.received <+: (frames.frames (unread stream)).1 ∧
      (s.inOrder.filter Queued.own).map Queued.msg = s.received.filterMap pongFor) ∧
    (∀ how, s.phase = .ended how → (s.written.Perm s.queued ↔ QueuedInTime stream es)) ∧
    (s.phase = .top → s.shutdown = false → (∀ m ∈ s.queue, m.msg.frame.2.length ≤ maxPayload) →
      let s' := run ioStep s (List.replicate (2 * s.queue.length + 3) (.step smooth))
      s'.queued = s.queued ∧ s'.written.Perm s.queued) := by
  intro s
  have h : IoInv stream s := ioInv_run stream es
  refine ⟨⟨h.accounted.queued, h.accounted.written hok⟩, h.accounted.filter hok, h.answered.wire,
    ⟨⟨_, h.answered.received.symm⟩, h.own hok⟩, fun how hend => ?_, fun hphase hrun hfit => ?_⟩
  · rw [h.accounted.written_perm_iff hok, ← queue_empty_iff hend, hend]
    exact ⟨fun hleft => hleft.2.2, fun hempty => ⟨rfl, rfl, hempty⟩⟩
  · intro s'
    have hturning : s.Turning := by
      unfold IoLoop.Turning
      rw [hphase]
      exact ⟨hrun, hfit⟩
    obtain ⟨hpolling, hqueue, hqueued⟩ := turning_run _ hturning (by unfold IoLoop.left; rw [hphase])
    have hlater : Accounted s' := (run_keeps (IoInv stream) (ioInv_step stream) _ s h).accounted
    have hleft : s'.phase.unwritten = [] ∧ s'.phase.drained = [] ∧ s'.queue = [] := by
      rw [show s'.phase = .polling from hpolling]
      exact ⟨rfl, rfl, hqueue⟩
    have hall := (hlater.written_perm_iff (by rw [show s'.phase = .polling from hpolling]; rfl)).2 hleft
    rw [show s'.queued = s.queued from hqueued] at hall
    exact ⟨hqueued, hall⟩

theorem derp_send_order_pong_first :
    let ping : List Arrival := [.data 0x12 [0, 0, 0, 8, 1, 2, 3, 4, 5, 6, 7, 8]]
    let steps : Nat → List IoEvent := fun n => List.replicate n (.step smooth)
    let sends : List IoEvent := [.send (.sendPacket 7 [9]), .send (.notePreferred true)]
    let es := steps 3 ++ sends ++ steps 12
    let s := run ioStep (IoLoop.new ping) es
    s.written.map Queued.msg = [.pong [1, 2, 3, 4, 5, 6, 7, 8], .sendPacket 7 [9], .notePreferred true] ∧
      s.phase = .ended (.readError (.io "derp connection closed by peer")) ∧ s.written.Perm s.queued := by
  intro ping steps sends es s
  have hok : s.phase.failed = false := by decide +kernel
  have hend : s.phase = .ended (.readError (.io "derp connection closed by peer")) := by decide +kernel
  refine ⟨by decide +kernel, hend, ((derp_send_order_iff ping es hok).2.2.2.2.1 _ hend).2 fun es₁ hpre => ?_⟩
  have hall : ∀ es₁ ∈ es.inits, (run ioStep (IoLoop.new ping) es₁).batches = s.batches →
      (run ioStep (IoLoop.new ping) es₁).queued = s.queued := by decide +kernel
  exact hall es₁ ((mem_inits _ _).2 hpre)

/-- **A message that is queued and not written, with no failed write**: it is queued while the thread waits for a
frame, and the frame says that the relay restarts. -/
theorem derp_message_left_behind :
    let restarting : List Arrival := [.data 0x15 [0, 0, 0, 8, 0, 0, 0, 0, 0, 0, 0, 0]]
    let steps : Nat → List IoEvent := fun n => List.replicate n (.step smooth)
    let waiting := run ioStep (IoLoop.new restarting) (steps 3)
    let s := run ioStep waiting (.send (.sendPacket 7 [9]) :: steps 2)
    s.phase = .ended .restarted ∧ s.queued = [⟨.sendPacket 7 [9], false⟩] ∧ s.written = [] := by
  intro restarting steps waiting s
  exact ⟨by decide +kernel, by decide +kernel, by decide +kernel⟩

end TailscaleVita.Derp

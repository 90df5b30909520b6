import TailscaleVita.CtlFramer
import TailscaleVita.Run
/-!
# CtlGzip — a gzip map stream and its worker (`ts-control/src/map.rs`)

In gzip mode `next_frame` hands the chunks to a worker thread and takes what the worker has decompressed so far,
without waiting for it. A run is any interleaving of the channel operations of the two. The decompressor is an oracle.
-/
namespace TailscaleVita.Ctl

open List

inductive Demand (σ : Type) where
  | input (n : Nat) (resume : Bytes → σ)
  | output (bytes : Bytes) (rest : σ)
  | eof
  | fail (e : Text)

/-- A decompressor, with what it puts out in all when a byte string and then the end is its input, however that is
cut. -/
structure Inflater where
  State : Type
  start : State
  next : State → Demand State
  output : State → Bytes → Bytes
  room : ∀ {s n resume}, next s = .input n resume → 0 < n
  output_input : ∀ {s n resume}, next s = .input n resume → ∀ b bs rest, (b :: bs).length ≤ n →
    output s (b :: bs ++ rest) = output (resume (b :: bs)) rest
  output_end : ∀ {s n resume}, next s = .input n resume → output s [] = output (resume []) []
  output_output : ∀ {s bytes s'}, next s = .output bytes s' → ∀ rest, output s rest = bytes ++ output s' rest
  output_eof : ∀ {s}, next s = .eof → ∀ rest, output s rest = []
  output_fail : ∀ {s e}, next s = .fail e → ∀ rest, output s rest = []

inductive ReaderPc where
  | idle
  | draining (atEof : Bool)
  | polling
deriving DecidableEq

/-- The reading thread, the worker and the channels between them; `inputOpen` is that `compressed_tx` is there, `done`
that the worker has returned. -/
structure GzipFramer (I : Inflater) where
  framer : Framer := Framer.new .gzip
  pc : ReaderPc := .idle
  arrivals : List ChunkArrival
  log : List (Except FrameError FrameOutcome) := []
  inputOpen : Bool := true
  toWorker : List Bytes := []
  leftover : Bytes := []
  decoder : I.State := I.start
  done : Bool := false
  fromWorker : List (Except Text Bytes) := []

inductive GzipThread where
  | reader
  | worker
deriving DecidableEq

namespace GzipFramer

variable {I : Inflater}

def returns (s : GzipFramer I) (r : Except FrameError FrameOutcome) : GzipFramer I :=
  { s with pc := .idle, log := s.log ++ [r] }

def feedWorker (s : GzipFramer I) (chunk : Bytes) : GzipFramer I :=
  if !s.inputOpen then s.returns (.error (.mapDecode "gzip worker closed".toList))
  else if s.done then s.returns (.error (.mapDecode "gzip worker recv side closed".toList))
  else { s with toWorker := s.toWorker ++ [chunk], pc := .draining false }

def drainStep (d : Decoders) (atEof : Bool) (s : GzipFramer I) : GzipFramer I :=
  match s.fromWorker with
  | .ok chunk :: rest =>
    { s with framer := { s.framer with gzipBuf := s.framer.gzipBuf ++ chunk }, fromWorker := rest }
  | .error e :: rest => { s with fromWorker := rest }.returns (.error (.mapDecode e))
  | [] =>
    match s.framer.tryExtract d with
    | (.error e, f) => { s with framer := f }.returns (.error e)
    | (.ok (some resp), f) => { s with framer := f }.returns (.ok (.frame resp))
    | (.ok none, f) =>
      if atEof then { s with framer := f }.returns (.ok .eof) else { s with framer := f, pc := .polling }

def pollStep (s : GzipFramer I) : GzipFramer I :=
  match s.arrivals with
  | .timeout :: as => { s with arrivals := as }.returns (.ok .timeout)
  | .chunk c :: as => { s with arrivals := as }.feedWorker c
  | [] => { s with inputOpen := false, pc := .draining true }

def readerStep (d : Decoders) (s : GzipFramer I) : GzipFramer I :=
  match s.pc with
  | .idle => { s with pc := .draining false }
  | .draining atEof => s.drainStep d atEof
  | .polling => s.pollStep

def workerStep (s : GzipFramer I) : GzipFramer I :=
  if s.done then s
  else
    match I.next s.decoder with
    | .input n resume =>
      match s.leftover with
      | b :: bs => { s with decoder := resume ((b :: bs).take n), leftover := (b :: bs).drop n }
      | [] =>
        match s.toWorker with
        | c :: rest => { s with leftover := c, toWorker := rest }
        | [] => if s.inputOpen then s else { s with decoder := resume [] }
    | .output bytes rest => { s with decoder := rest, fromWorker := s.fromWorker ++ [.ok bytes] }
    | .eof => { s with done := true }
    | .fail e => { s with done := true, fromWorker := s.fromWorker ++ [.error ("gzip: ".toList ++ e)] }

def step (d : Decoders) (s : GzipFramer I) : GzipThread → GzipFramer I
  | .reader => s.readerStep d
  | .worker => s.workerStep

end GzipFramer

def framesOf (log : List (Except FrameError FrameOutcome)) : List MapResponseWire :=
  log.filterMap (fun | .ok (.frame resp) => some resp | _ => none)

section

variable {I : Inflater} (d : Decoders)

def handedOver (q : List (Except Text Bytes)) : Bytes := q.flatMap (fun | .ok bytes => bytes | .error _ => [])

def GzipFramer.unsent (s : GzipFramer I) : Bytes := I.output s.decoder (s.leftover ++ s.toWorker.flatten)

def GzipFramer.pending (s : GzipFramer I) : Bytes :=
  handedOver s.fromWorker ++ I.output s.decoder (s.leftover ++ (s.toWorker.flatten ++ received s.arrivals))

structure GzipInv (stream : Bytes) (s : GzipFramer I) : Prop where
  gzip : s.framer.compression = .gzip
  closed : s.inputOpen = false → s.arrivals = []
  atEof : s.pc = .draining true → s.inputOpen = false
  done : s.done = true → ∀ rest, I.output s.decoder rest = []
  frames : (mapFrames d .gzip).frames (I.output I.start stream) =
    (framesOf s.log ++ ((mapFrames d .gzip).frames (s.framer.buffer ++ s.pending)).1,
      ((mapFrames d .gzip).frames (s.framer.buffer ++ s.pending)).2)

def AboutToEnd (s : GzipFramer I) : Prop :=
  s.pc = .draining true ∧ s.fromWorker = [] ∧ extractFrame d .gzip s.framer.buffer = .more

inductive Logs (s : GzipFramer I) (t : GzipThread) : GzipFramer I → Prop where
  | quiet {s'} (hlog : s'.log = s.log) (hnot : ¬ (t = .reader ∧ AboutToEnd d s)) : Logs s t s'
  | returned {s'} {r : Except FrameError FrameOutcome} (hr : r ≠ .ok .eof) (hlog : s'.log = s.log ++ [r])
      (hnot : ¬ (t = .reader ∧ AboutToEnd d s)) : Logs s t s'
  | ended {s'} (ht : t = .reader) (hend : AboutToEnd d s) (hlog : s'.log = s.log ++ [.ok .eof]) : Logs s t s'

theorem framesOf_append (log : List (Except FrameError FrameOutcome)) (r : Except FrameError FrameOutcome) :
    framesOf (log ++ [r]) = framesOf log ++ framesOf [r] := by
  simp [framesOf]

theorem buffer_gzip {f : Framer} (h : f.compression = .gzip) : f.buffer = f.gzipBuf := by
  simp [Framer.buffer, Framer.hasDecoder, h]

variable {d}

variable {stream : Bytes}

theorem GzipInv.moved {s s' : GzipFramer I} (h : GzipInv d stream s)
    (hgzip : s'.framer.compression = .gzip) (hclosed : s'.inputOpen = false → s'.arrivals = [])
    (hatEof : s'.pc = .draining true → s'.inputOpen = false)
    (hdone : s'.done = true → ∀ rest, I.output s'.decoder rest = [])
    (hbytes : s'.framer.buffer ++ s'.pending = s.framer.buffer ++ s.pending)
    (hlog : framesOf s'.log = framesOf s.log) : GzipInv d stream s' :=
  ⟨hgzip, hclosed, hatEof, hdone, by rw [hbytes, hlog]; exact h.frames⟩

variable {s : GzipFramer I}

theorem GzipInv.returns (h : GzipInv d stream s)
    {r : Except FrameError FrameOutcome} (hr : framesOf [r] = []) : GzipInv d stream (s.returns r) := by
  refine h.moved h.gzip h.closed nofun h.done rfl ?_
  rw [GzipFramer.returns, framesOf_append, hr, append_nil]

theorem logs_worker (s : GzipFramer I) : s.workerStep.log = s.log := by
  unfold GzipFramer.workerStep
  repeat' split
  all_goals rfl

theorem inv_worker (h : GzipInv d stream s) : GzipInv d stream s.workerStep := by
  unfold GzipFramer.workerStep
  by_cases hdone : s.done = true
  · rwa [if_pos hdone]
  · rw [if_neg hdone]
    cases hnext : I.next s.decoder with
    | input n resume =>
      cases hleft : s.leftover with
      | cons b bs =>
        -- the decompressor takes from the chunk it is reading
        obtain ⟨n, rfl⟩ : ∃ m, n = m + 1 := ⟨n - 1, by have := I.room hnext; omega⟩
        have hsplit : b :: bs = (b :: bs.take n) ++ bs.drop n := by rw [cons_append, take_append_drop]
        have hout := I.output_input hnext b (bs.take n) (bs.drop n ++ (s.toWorker.flatten ++ received s.arrivals)) (by
          rw [length_cons, length_take]
          omega)
        refine h.moved h.gzip h.closed h.atEof (fun hd => absurd hd hdone) ?_ rfl
        simp only [GzipFramer.pending, hleft]
        rw [take_succ_cons, drop_succ_cons, hsplit, append_assoc, ← hout]
      | nil =>
        cases hchan : s.toWorker with
        | cons c rest =>
          refine h.moved h.gzip h.closed h.atEof (fun hd => absurd hd hdone) ?_ rfl
          simp [GzipFramer.pending, hleft, hchan]
        | nil =>
          by_cases hopen : s.inputOpen = true
          · simp only [hopen, if_true]
            exact h
          · have hnone : s.arrivals = [] := h.closed (Bool.eq_false_iff.2 hopen)
            simp only [hopen, Bool.false_eq_true, if_false]
            refine h.moved h.gzip (fun _ => hnone) (fun _ => rfl) (fun hd => absurd hd hdone) ?_ rfl
            simp only [GzipFramer.pending, hleft, hchan, hnone, flatten_nil, received, flatMap_nil,
              nil_append, ← I.output_end hnext]
    | output bytes rest =>
      refine h.moved h.gzip h.closed h.atEof (fun hd => absurd hd hdone) ?_ rfl
      simp only [GzipFramer.pending, handedOver, flatMap_append, flatMap_cons, flatMap_nil,
        append_nil, append_assoc, I.output_output hnext]
    | eof => exact h.moved h.gzip h.closed h.atEof (fun _ => I.output_eof hnext) rfl rfl
    | fail e =>
      refine h.moved h.gzip h.closed h.atEof (fun _ => I.output_fail hnext) ?_ rfl
      simp only [GzipFramer.pending, handedOver, flatMap_append, flatMap_cons, flatMap_nil, append_nil]

theorem inv_poll (h : GzipInv d stream s) (hpc : s.pc = .polling) :
    GzipInv d stream s.pollStep ∧ Logs d s .reader s.pollStep := by
  have hnot : ¬ (GzipThread.reader = .reader ∧ AboutToEnd d s) := fun hend => by
    rw [AboutToEnd, hpc] at hend
    cases hend.2.1
  unfold GzipFramer.pollStep
  cases has : s.arrivals with
  | nil =>
    refine ⟨h.moved h.gzip (fun _ => rfl) (fun _ => rfl) h.done ?_ rfl, .quiet rfl hnot⟩
    simp [GzipFramer.pending, has]
  | cons a as =>
    have hopen : s.inputOpen = true := by
      cases hopen : s.inputOpen with
      | true => rfl
      | false => rw [h.closed hopen] at has; cases has
    cases a with
    | timeout =>
      have hpast : GzipInv d stream { s with arrivals := as } := by
        refine h.moved h.gzip (fun hc => absurd hopen (Bool.eq_false_iff.1 hc)) h.atEof h.done ?_ rfl
        simp only [GzipFramer.pending, has]
        rfl
      exact ⟨hpast.returns rfl, .returned (by nofun) rfl hnot⟩
    | chunk c =>
      simp only [GzipFramer.feedWorker, hopen, Bool.not_true, Bool.false_eq_true, if_false]
      by_cases hdone : s.done = true
      · -- nobody takes the chunk, and nobody would have read it
        rw [if_pos hdone]
        have hpast : GzipInv d stream { s with arrivals := as } := by
          refine h.moved h.gzip (fun hc => absurd hopen (Bool.eq_false_iff.1 hc)) h.atEof h.done ?_ rfl
          simp [GzipFramer.pending, h.done hdone]
        rw [hopen] at hpast
        exact ⟨hpast.returns (r := .error _) rfl, .returned (by nofun) rfl hnot⟩
      · rw [if_neg hdone]
        refine ⟨h.moved h.gzip (by nofun) (by nofun) h.done ?_ rfl, .quiet rfl hnot⟩
        simp [GzipFramer.pending, has, received, ChunkArrival.bytes]

theorem GzipInv.frame (h : GzipInv d stream s) {resp : MapResponseWire} {rest : Bytes}
    (hx : extractFrame d .gzip s.framer.buffer = .frame resp rest) :
    GzipInv d stream ({ s with framer := s.framer.setBuffer rest }.returns (.ok (.frame resp))) where
  gzip := (s.framer.compression_setBuffer rest).trans h.gzip
  closed := h.closed
  atEof := nofun
  done := h.done
  frames := by
    have hframes := h.frames
    rw [(mapFrames d .gzip).frames_of_frame ((mapFrames d .gzip).frame_append hx s.pending)] at hframes
    rw [hframes]
    simp only [GzipFramer.returns, GzipFramer.pending, Framer.buffer_setBuffer, framesOf_append]
    rw [append_assoc]
    rfl

theorem inv_drain (h : GzipInv d stream s) {atEof : Bool} (hpc : s.pc = .draining atEof) :
    GzipInv d stream (s.drainStep d atEof) ∧ Logs d s .reader (s.drainStep d atEof) := by
  unfold GzipFramer.drainStep
  cases hq : s.fromWorker with
  | cons m rest =>
    have hnot : ¬ (GzipThread.reader = .reader ∧ AboutToEnd d s) := fun hend => by
      rw [AboutToEnd, hq] at hend
      cases hend.2.2.1
    cases m with
    | ok chunk =>
      refine ⟨h.moved h.gzip h.closed h.atEof h.done ?_ rfl, .quiet rfl hnot⟩
      rw [buffer_gzip h.gzip, buffer_gzip (by exact h.gzip)]
      simp [GzipFramer.pending, hq, handedOver]
    | error e =>
      have hpast : GzipInv d stream { s with fromWorker := rest } := by
        refine h.moved h.gzip h.closed h.atEof h.done ?_ rfl
        simp [GzipFramer.pending, hq, handedOver]
      exact ⟨hpast.returns rfl, .returned (by nofun) rfl hnot⟩
  | nil =>
    have htry := tryExtract_eq d s.framer
    have hnot : extractFrame d .gzip s.framer.buffer ≠ .more → ¬ (GzipThread.reader = .reader ∧ AboutToEnd d s) :=
      fun hx hend => hx hend.2.2.2
    rw [h.gzip] at htry
    cases hx : extractFrame d .gzip s.framer.buffer with
    | fail e =>
      rw [hx] at htry hnot
      simp only [htry]
      have hfailed : GzipInv d stream (s.returns (.error e)) := h.returns rfl
      rw [GzipFramer.returns, hq] at hfailed
      exact ⟨hfailed, .returned (by nofun) rfl (hnot (by nofun))⟩
    | frame resp rest =>
      rw [hx] at htry hnot
      simp only [htry]
      have hframe := h.frame hx
      rw [hq] at hframe
      exact ⟨hframe, .returned (by nofun) rfl (hnot (by nofun))⟩
    | more =>
      rw [hx] at htry
      simp only [htry]
      cases atEof with
      | true =>
        have hended : GzipInv d stream (s.returns (.ok .eof)) := h.returns rfl
        rw [GzipFramer.returns, hq] at hended
        exact ⟨hended, .ended rfl ⟨hpc, hq, hx⟩ rfl⟩
      | false =>
        refine ⟨h.moved h.gzip h.closed (by nofun) h.done ?_ rfl, .quiet rfl (fun hend => ?_)⟩
        · simp [GzipFramer.pending, hq]
        · have heof := hend.2.1
          rw [hpc] at heof
          cases heof

theorem inv_step (h : GzipInv d stream s) (t : GzipThread) :
    GzipInv d stream (s.step d t) ∧ Logs d s t (s.step d t) := by
  cases t with
  | worker => exact ⟨inv_worker h, .quiet (logs_worker s) (fun hend => by cases hend.1)⟩
  | reader =>
    unfold GzipFramer.step GzipFramer.readerStep
    cases hpc : s.pc with
    | idle =>
      refine ⟨h.moved h.gzip h.closed nofun h.done rfl rfl, .quiet rfl (fun hend => ?_)⟩
      rw [AboutToEnd, hpc] at hend
      cases hend.2.1
    | polling => exact inv_poll h hpc
    | draining atEof => exact inv_drain h hpc

variable (I d)

def GzipFramer.start (as : List ChunkArrival) : GzipFramer I := { arrivals := as }

def mapFramesIn (as : List ChunkArrival) : List MapResponseWire :=
  ((mapFrames d .gzip).frames (I.output I.start (received as))).1

def ReturnsAll (as : List ChunkArrival) (log : List (Except FrameError FrameOutcome)) : Prop :=
  ∀ pre post, log = pre ++ .ok .eof :: post → framesOf pre = mapFramesIn I d as

def Flushed (s : GzipFramer I) (t : GzipThread) : Prop :=
  t = .reader → AboutToEnd d s → ((mapFrames d .gzip).frames (s.framer.buffer ++ s.unsent)).1 = []

variable {I d}

theorem inv_start (as : List ChunkArrival) : GzipInv d (received as) (GzipFramer.start I as) where
  gzip := rfl
  closed := nofun
  atEof := nofun
  done := nofun
  frames := rfl

theorem snoc_eq_eof {log pre post : List (Except FrameError FrameOutcome)} {r : Except FrameError FrameOutcome}
    (h : log ++ [r] = pre ++ .ok .eof :: post) :
    (r = .ok .eof ∧ log = pre) ∨ ∃ post', log = pre ++ .ok .eof :: post' := by
  rcases eq_nil_or_concat post with rfl | ⟨post', r', rfl⟩
  · obtain ⟨h1, h2⟩ := append_inj' h rfl
    cases h2
    exact .inl ⟨rfl, h1⟩
  · have h' : log ++ [r] = (pre ++ .ok .eof :: post') ++ [r'] := by simpa using h
    exact .inr ⟨post', (append_inj' h' rfl).1⟩

variable {as : List ChunkArrival}

theorem frames_at_end (h : GzipInv d (received as) s) (hend : AboutToEnd d s) :
    mapFramesIn I d as = framesOf s.log ++ ((mapFrames d .gzip).frames (s.framer.buffer ++ s.unsent)).1 := by
  have hpend : s.pending = s.unsent := by
    simp [GzipFramer.pending, GzipFramer.unsent, hend.2.1, handedOver, h.closed (h.atEof hend.1), received]
  rw [mapFramesIn, h.frames, hpend]

theorem log_grows : ∀ (sched : List GzipThread) (s : GzipFramer I), GzipInv d (received as) s →
    ∃ more, (run (GzipFramer.step d) s sched).log = s.log ++ more
  | [], s, _ => ⟨[], (append_nil _).symm⟩
  | t :: sched, s, h => by
    obtain ⟨h', hlogs⟩ := inv_step h t
    obtain ⟨more, hmore⟩ := log_grows sched (s.step d t) h'
    rw [run_cons, hmore]
    cases hlogs with
    | quiet hlog => exact ⟨more, by rw [hlog]⟩
    | returned hr hlog | ended ht hend hlog => exact ⟨_, by rw [hlog, append_assoc]⟩

theorem returnsAll_iff : ∀ (sched : List GzipThread) (s : GzipFramer I),
    GzipInv d (received as) s → ReturnsAll I d as s.log →
      (ReturnsAll I d as (run (GzipFramer.step d) s sched).log ↔ Along (GzipFramer.step d) (Flushed I d) s sched)
  | [], s, _, hall => ⟨fun _ => trivial, fun _ => hall⟩
  | t :: sched, s, h, hall => by
    obtain ⟨h', hlogs⟩ := inv_step h t
    rw [run_cons, Along]
    cases hlogs with
    | quiet hlog hnot =>
      rw [returnsAll_iff sched (s.step d t) h' (by rwa [hlog])]
      exact ⟨fun ha => ⟨fun ht hend => absurd ⟨ht, hend⟩ hnot, ha⟩, And.right⟩
    | returned hr hlog hnot =>
      have hall' : ReturnsAll I d as (s.step d t).log := fun pre post heq => by
        rcases snoc_eq_eof (hlog.symm.trans heq) with ⟨he, -⟩ | ⟨post', heq'⟩
        · exact absurd he hr
        · exact hall pre post' heq'
      rw [returnsAll_iff sched (s.step d t) h' hall']
      exact ⟨fun ha => ⟨fun ht hend => absurd ⟨ht, hend⟩ hnot, ha⟩, And.right⟩
    | ended ht hend hlog =>
      have hframes := frames_at_end h hend
      constructor
      · intro hrun
        -- the end that this step reports is still in the log of the whole run
        obtain ⟨more, hmore⟩ := log_grows sched (s.step d t) h'
        have hret := hrun s.log more (by rw [hmore, hlog, append_assoc]; rfl)
        have hnone : ((mapFrames d .gzip).frames (s.framer.buffer ++ s.unsent)).1 = [] := by
          rw [← hret] at hframes
          exact self_eq_append_right.1 hframes
        have hall' : ReturnsAll I d as (s.step d t).log := fun pre post heq => by
          rcases snoc_eq_eof (hlog.symm.trans heq) with ⟨-, rfl⟩ | ⟨post', heq'⟩
          · exact hret
          · exact hall pre post' heq'
        exact ⟨fun _ _ => hnone, (returnsAll_iff sched (s.step d t) h' hall').1 hrun⟩
      · rintro ⟨hflushed, halong⟩
        rw [hflushed ht hend, append_nil] at hframes
        refine (returnsAll_iff sched (s.step d t) h' (fun pre post heq => ?_)).2 halong
        rcases snoc_eq_eof (hlog.symm.trans heq) with ⟨-, rfl⟩ | ⟨post', heq'⟩
        · exact hframes.symm
        · exact hall pre post' heq'

theorem flushed_of_done (h : GzipInv d (received as) s) {t : GzipThread}
    (hdone : t = .reader → AboutToEnd d s → s.done = true) : Flushed I d s t := fun ht hend => by
  have hx : (mapFrames d .gzip).extract s.framer.buffer = .more := hend.2.2
  rw [GzipFramer.unsent, h.done (hdone ht hend), append_nil, (mapFrames d .gzip).frames_of_more hx]

theorem along_flushed_of_done : ∀ (sched : List GzipThread) (s : GzipFramer I),
    GzipInv d (received as) s →
      Along (GzipFramer.step d) (fun s t => t = .reader → AboutToEnd d s → s.done = true) s sched →
        Along (GzipFramer.step d) (Flushed I d) s sched
  | [], _, _, _ => trivial
  | t :: sched, s, h, hdone =>
    ⟨flushed_of_done h hdone.1, along_flushed_of_done sched (s.step d t) (inv_step h t).1 hdone.2⟩

end

/-- **When a gzip stream loses no frame at its end**: in a run over any chunks, whatever the interleaving, every frame
of what they decompress to is returned before the end is reported, exactly when the worker never owes a frame when the
reader, after the end of the stream, finds the channel empty. -/
theorem gzip_frames_before_eof_iff (I : Inflater) (d : Decoders) (as : List ChunkArrival) (sched : List GzipThread) :
    (ReturnsAll I d as (run (GzipFramer.step d) (GzipFramer.start I as) sched).log ↔
      Along (GzipFramer.step d) (Flushed I d) (GzipFramer.start I as) sched) ∧
    (Along (GzipFramer.step d) (fun s t => t = .reader → AboutToEnd d s → s.done = true) (GzipFramer.start I as) sched →
      ReturnsAll I d as (run (GzipFramer.step d) (GzipFramer.start I as) sched).log) := by
  have hiff := returnsAll_iff (I := I) (d := d) sched (GzipFramer.start I as) (inv_start as)
    (fun pre post h => by cases pre <;> cases h)
  exact ⟨hiff, fun hdone => hiff.2 (along_flushed_of_done sched _ (inv_start as) hdone)⟩

/-- **No frame is made up, repeated or passed over**: over any chunks and however the two threads interleave, the frames
returned so far are the first ones of what the chunks decompress to. -/
theorem gzip_frames_in_order (I : Inflater) (d : Decoders) (as : List ChunkArrival) (sched : List GzipThread) :
    framesOf (run (GzipFramer.step d) (GzipFramer.start I as) sched).log <+: mapFramesIn I d as := by
  have h := run_keeps (GzipInv d (received as)) (fun _ t h => (inv_step h t).1) sched (GzipFramer.start I as)
    (inv_start as)
  unfold mapFramesIn
  rw [h.frames]
  exact prefix_append _ _

def stored : Inflater where
  State := Option (Option Bytes)
  start := some none
  next
    | some none => .input 32768 (fun x => if x = [] then none else some (some x))
    | some (some x) => .output x (some none)
    | none => .eof
  output
    | some none, rest => rest
    | some (some x), rest => x ++ rest
    | none, _ => []
  room {s n resume} h := by
    rcases s with _ | _ | x <;> cases h
    decide
  output_input {s n resume} h b bs rest hlen := by
    rcases s with _ | _ | x <;> cases h
    rfl
  output_end {s n resume} h := by
    rcases s with _ | _ | x <;> cases h
    rfl
  output_output {s bytes s'} h rest := by
    rcases s with _ | _ | x <;> cases h
    rfl
  output_eof {s} h rest := by
    rcases s with _ | _ | x <;> cases h
    rfl
  output_fail {s e} h rest := by
    rcases s with _ | _ | x <;> cases h

def anyBody : Decoders := { zstd := .ok, json := fun _ => .ok {} }

theorem gzip_frames_before_eof_worker_first :
    let as : List ChunkArrival := [.chunk (framed [0x7b, 0x7d])]
    let sched := List.replicate 5 .reader ++ List.replicate 5 .worker ++ List.replicate 7 .reader
    let s := run (GzipFramer.step anyBody) (GzipFramer.start stored as) sched
    ReturnsAll stored anyBody as s.log ∧ (framesOf s.log).length = 1 ∧ s.log.length = 2 := by
  intro as sched s
  have hdone : Along (GzipFramer.step anyBody)
      (fun s t => t = .reader → s.pc = .draining true ∧ s.fromWorker = [] → s.done = true)
      (GzipFramer.start stored as) sched := by decide +kernel
  refine ⟨(gzip_frames_before_eof_iff stored anyBody as sched).2 ?_, by decide +kernel⟩
  exact along_mono (fun s t h ht hend => h ht ⟨hend.1, hend.2.1⟩) sched _ hdone

/-- **The end of the stream overtakes the worker**: a whole frame was received, the worker has not run yet, and the end
is reported without the frame. -/
theorem gzip_eof_overtakes_worker :
    let as : List ChunkArrival := [.chunk (framed [0x7b, 0x7d])]
    let s := run (GzipFramer.step anyBody) (GzipFramer.start stored as) (List.replicate 6 .reader)
    s.log = [.ok .eof] ∧ mapFramesIn stored anyBody as = [{}] ∧ ¬ ReturnsAll stored anyBody as s.log := by
  intro as s
  have hframes : mapFramesIn stored anyBody as = [{}] := rfl
  refine ⟨rfl, hframes, fun h => ?_⟩
  have hnone := h [] [] rfl
  rw [hframes] at hnone
  cases hnone

end TailscaleVita.Ctl

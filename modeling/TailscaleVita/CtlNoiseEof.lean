import TailscaleVita.CtlAsync
/-!
# CtlNoiseEof — what a read that returns nothing means (`ts-control/src/record.rs`, `async_io.rs`)

The callers of `NoiseStream::read` take `Ok(0)` for the end of the stream, which the stream itself reports as an error;
the one way to `Ok(0)` is a record that holds nothing.
-/
namespace TailscaleVita
namespace Noise

abbrev Reading := NoiseStream × List Arrival

def readStep (c : Cipher) (n : Nat) (w : Reading) : Reading := (w.1.read c n w.2).2

def Honest (c : Cipher) (n : Nat) (w : Reading) : Prop := (w.1.read c n w.2).1 = .ok [] → (readStep c n w).1.eof = true

structure Follows (c : Cipher) (w : Reading) (ps : List Bytes) : Prop where
  sized : ∀ p ∈ ps, p.length ≤ noiseMaxRecordPayload
  wire : w.1.rxBuf ++ unread w.2 <+: records c w.1.noise.received ps
  ended : w.1.eof = true → w.2 = [] ∧ w.1.rxPlain = [] ∧
    ∀ p ps', ps = p :: ps' → w.1.rxBuf.length < (record c w.1.noise.received p).length

inductive DidRead (c : Cipher) (n : Nat) (w : Reading) (ps : List Bytes) : Except IoError Bytes × Reading → Prop where
  | plain {w'} (hplain : w.1.rxPlain ≠ []) (hnoise : w'.1.noise = w.1.noise) (h : Follows c w' ps) :
      DidRead c n w ps (.ok (w.1.rxPlain.take n), w')
  | opened {w' p ps'} (hps : ps = p :: ps') (hnoise : w'.1.noise.received = w.1.noise.received + 1)
      (heof : w'.1.eof = false) (h : Follows c w' ps') : DidRead c n w ps (.ok (p.take n), w')
  | timedOut {w'} (hnoise : w'.1.noise = w.1.noise) (h : Follows c w' ps) : DidRead c n w ps (.error .timedOut, w')
  | ended {w'} (hnoise : w'.1.noise = w.1.noise) (heof : w'.1.eof = true) (h : Follows c w' ps) :
      DidRead c n w ps (.error NoiseStream.eofMidRecord, w')

variable {c : Cipher}

theorem didRead {w : Reading} {ps : List Bytes} (h : Follows c w ps) (n : Nat) :
    DidRead c n w ps (w.1.read c n w.2) := by
  obtain ⟨s, as⟩ := w
  unfold NoiseStream.read
  by_cases hplain : s.rxPlain = []
  · simp only [if_pos hplain]
    have hdrain := drained (fun he => (h.ended he).1) h.sized h.wire
    generalize s.drainOneRecord c as = r at hdrain ⊢
    cases hdrain with
    | @timedOut buf as' hbytes hw =>
      refine .timedOut rfl ⟨h.sized, ?_, fun he => ?_⟩
      · simpa only [hbytes] using h.wire
      · -- a stream that has ended does not time out
        rw [(h.ended he).1] at hw
        exact absurd hw (Nat.not_lt_zero _)
    | eof hshort =>
      refine .ended rfl rfl ⟨h.sized, ?_, fun _ => ⟨rfl, hplain, hshort⟩⟩
      simpa using h.wire
    | @opened p ps' buf as' hps hbytes hw =>
      subst hps
      have hopen : s.eof = false := by
        by_contra he
        obtain ⟨hnil, -, hshort⟩ := h.ended (by simpa using he)
        have hlen := congrArg List.length hbytes
        rw [show as = [] from hnil] at hlen
        have hlt := hshort p ps' rfl
        simp at hlen hlt
        omega
      simp only [hplain, List.nil_append]
      refine .opened rfl rfl hopen ⟨fun q hq => h.sized q (List.mem_cons_of_mem p hq), ?_, fun he => ?_⟩
      · have hwire := h.wire
        rw [← hbytes, records] at hwire
        exact (List.prefix_append_right_inj _).1 hwire
      · cases hopen.symm.trans he
  · simp only [if_neg hplain]
    exact .plain hplain rfl ⟨h.sized, h.wire, fun he => absurd (h.ended he).2.1 hplain⟩

theorem honest_iff {w : Reading} {ps : List Bytes} (h : Follows c w ps) {n : Nat} (hn : 0 < n) :
    ∃ opened rest, ps = opened ++ rest ∧ Follows c (readStep c n w) rest ∧
      (readStep c n w).1.noise.received = w.1.noise.received + opened.length ∧
      (Honest c n w ↔ ∀ p ∈ opened, p ≠ []) := by
  have hdid := didRead h n
  unfold Honest readStep
  generalize w.1.read c n w.2 = r at hdid
  cases hdid with
  | plain hplain hnoise h' =>
    refine ⟨[], ps, rfl, h', by rw [hnoise]; rfl, nofun, fun _ hnil => ?_⟩
    rw [Except.ok.injEq, List.take_eq_nil_iff] at hnil
    rcases hnil with hzero | hnil
    · omega
    · exact absurd hnil hplain
  | @opened w' p ps' hps hnoise heof h' =>
    refine ⟨[p], ps', hps, h', hnoise, ?_⟩
    simp only [heof, List.mem_singleton, forall_eq, Except.ok.injEq, List.take_eq_nil_iff]
    constructor
    · intro hhonest hnil
      exact absurd (hhonest (.inr hnil)) (by decide)
    · rintro hp (hzero | hnil)
      · omega
      · exact absurd hnil hp
  | timedOut hnoise h' | ended hnoise heof h' =>
    exact ⟨[], ps, rfl, h', by rw [hnoise]; rfl, nofun, fun _ hok => by cases hok⟩

theorem honest_run {σ ε : Type} {step : σ → ε → σ} {ok : σ → ε → Prop} (view : σ → Reading)
    (hstep : ∀ w e ps, Follows c (view w) ps → (view (step w e) = view w ∧ ok w e) ∨
      ∃ n, 0 < n ∧ view (step w e) = readStep c n (view w) ∧ (ok w e ↔ Honest c n (view w))) :
    ∀ (es : List ε) (w : σ) (ps : List Bytes), Follows c (view w) ps →
      ∃ opened rest, ps = opened ++ rest ∧
        (view (run step w es)).1.noise.received = (view w).1.noise.received + opened.length ∧
        (Along step ok w es ↔ ∀ p ∈ opened, p ≠ [])
  | [], w, ps, _ => ⟨[], ps, rfl, rfl, nofun, fun _ => trivial⟩
  | e :: es, w, ps, h => by
    rcases hstep w e ps h with ⟨hview, hok⟩ | ⟨n, hn, hview, hok⟩
    · obtain ⟨opened, rest, hps, hreceived, halong⟩ := honest_run view hstep es (step w e) ps (by rw [hview]; exact h)
      rw [hview] at hreceived
      exact ⟨opened, rest, hps, hreceived, (and_iff_right hok).trans halong⟩
    · obtain ⟨opened, rest, rfl, hfollows, hreceived, hhonest⟩ := honest_iff h hn
      rw [← hview] at hfollows hreceived
      obtain ⟨opened', rest', rfl, hreceived', halong⟩ := honest_run view hstep es (step w e) rest hfollows
      refine ⟨opened ++ opened', rest', (List.append_assoc _ _ _).symm, ?_, ?_⟩
      · rw [run_cons, hreceived', hreceived, List.length_append, Nat.add_assoc]
      · rw [List.forall_mem_append]
        exact and_congr (hok.trans hhonest) halong

end Noise

namespace AsyncIo

open Noise

structure Pumped where
  state : State := {}
  reading : Reading

def PumpIo.ofRead : Except IoError Bytes → PumpIo
  | .ok data => { data }
  | .error e => { error := some e }

def pumpedStep (c : Cipher) (w : Pumped) : Step → Pumped
  | .pump io =>
    if w.state.pump = .read then
      { state := w.state.pumpStep (.ofRead (w.reading.1.read c 8192 w.reading.2).1)
        reading := readStep c 8192 w.reading }
    else { w with state := w.state.pumpStep io }
  | e => { w with state := step w.state e }

def ClosesAtEnd (c : Cipher) (w : Pumped) : Step → Prop
  | .pump io => w.state.pump = .read →
    ∀ message, (pumpedStep c w (.pump io)).state.pump = .failed (.unexpectedEof message) →
      (pumpedStep c w (.pump io)).reading.1.eof = true
  | .call _ | .owner => True

theorem failed_of_read {s : State} (hpump : s.pump = .read) (r : Except IoError Bytes) (message : Text) :
    (s.pumpStep (.ofRead r)).pump = .failed (.unexpectedEof message) ↔
      (r = .ok [] ∧ message = "noise eof".toList) ∨ r = .error (.unexpectedEof message) := by
  cases r with
  | ok data =>
    by_cases hdata : data = []
    · simp [State.pumpStep, hpump, PumpIo.ofRead, hdata, eq_comm]
    · simp [State.pumpStep, hpump, PumpIo.ofRead, hdata]
  | error e => cases e <;> simp [State.pumpStep, hpump, PumpIo.ofRead]

theorem closesAtEnd_iff {c : Cipher} {w : Pumped} {ps : List Bytes} (h : Follows c w.reading ps)
    (hpump : w.state.pump = .read) (io : PumpIo) : ClosesAtEnd c w (.pump io) ↔ Honest c 8192 w.reading := by
  have hdid := didRead h 8192
  unfold ClosesAtEnd Honest
  simp only [pumpedStep, if_pos hpump, failed_of_read hpump, readStep]
  generalize w.reading.1.read c 8192 w.reading.2 = r at hdid ⊢
  constructor
  · intro hcloses hnil
    exact hcloses hpump "noise eof".toList (.inl ⟨hnil, rfl⟩)
  · rintro hhonest - message (⟨hnil, -⟩ | herr)
    · exact hhonest hnil
    · cases hdid with
      | plain | opened => cases herr
      | timedOut => cases herr
      | ended hnoise heof h' => exact heof

theorem pumped_reads {c : Cipher} (w : Pumped) (e : Step) (ps : List Bytes) (h : Follows c w.reading ps) :
    ((pumpedStep c w e).reading = w.reading ∧ ClosesAtEnd c w e) ∨
    ∃ n, 0 < n ∧ (pumpedStep c w e).reading = readStep c n w.reading ∧
      (ClosesAtEnd c w e ↔ Honest c n w.reading) := by
  cases e with
  | pump io =>
    by_cases hpump : w.state.pump = .read
    · refine .inr ⟨8192, by decide, ?_, closesAtEnd_iff h hpump io⟩
      simp [pumpedStep, if_pos hpump]
    · refine .inl ⟨?_, fun hread => absurd hread hpump⟩
      simp [pumpedStep, if_neg hpump]
  | call | owner => exact .inl ⟨rfl, trivial⟩

/-- **When `Ok(0)` is the end of the stream.** For every cipher and every sequence of records, however they arrive: a
reader with room for a byte gets `Ok(0)` only at the end of the stream, and the pump takes the stream for ended only at
its end, if and only if no record that was opened is empty. -/
theorem noise_read_honest_iff (c : Cipher) (noise : NoiseTransport) (leftover : Bytes) (as : List Arrival)
    (ps : List Bytes) (hsized : ∀ p ∈ ps, p.length ≤ noiseMaxRecordPayload)
    (hwire : leftover ++ unread as <+: records c noise.received ps) :
    let w : Reading := (NoiseStream.new noise leftover, as)
    (∀ sizes : List Nat,
      let reader := fun w n => readStep c (n + 1) w
      Along reader (fun w n => Honest c (n + 1) w) w sizes ↔
        ∀ p ∈ ps.take ((run reader w sizes).1.noise.received - noise.received), p ≠ []) ∧
    ∀ es : List Step,
      let start : Pumped := { reading := w }
      Along (pumpedStep c) (ClosesAtEnd c) start es ↔
        ∀ p ∈ ps.take ((run (pumpedStep c) start es).reading.1.noise.received - noise.received), p ≠ [] := by
  intro w
  have hfollows : Follows c w ps := ⟨hsized, hwire, fun he => by cases he⟩
  have htake : ∀ {opened rest : List Bytes} {received : Nat}, ps = opened ++ rest →
      received = noise.received + opened.length → ps.take (received - noise.received) = opened := by
    intro opened rest received hps hreceived
    rw [hreceived, Nat.add_sub_cancel_left, hps, List.take_left]
  constructor
  · intro sizes reader
    have hreads : ∀ (w : Reading) (n : Nat) (ps : List Bytes), Follows c (id w) ps →
        (id (reader w n) = id w ∧ Honest c (n + 1) w) ∨
        ∃ m, 0 < m ∧ id (reader w n) = readStep c m (id w) ∧ (Honest c (n + 1) w ↔ Honest c m (id w)) :=
      fun w n _ _ => .inr ⟨n + 1, Nat.succ_pos n, rfl, Iff.rfl⟩
    obtain ⟨opened, rest, hps, hreceived, halong⟩ := honest_run id hreads sizes w ps hfollows
    exact (htake hps hreceived : ps.take ((run reader w sizes).1.noise.received - noise.received) = opened) ▸ halong
  · intro es start
    obtain ⟨opened, rest, hps, hreceived, halong⟩ := honest_run Pumped.reading pumped_reads es start ps hfollows
    rwa [htake hps hreceived]

theorem noise_read_honest_two_records :
    let wire := records markCipher 0 [[1], [2]]
    let as : List Arrival := [.data 4 ((wire.drop 1).take 30), .timeout, .data 1 (wire.drop 32)]
    wire = unread as ∧ Along (fun w n => readStep markCipher (n + 1) w) (fun w n => Honest markCipher (n + 1) w)
      (NoiseStream.new {} [], as) [7, 7, 7, 7] := by
  intro wire as
  have hwire : wire = unread as := by decide +kernel
  have hpre : [] ++ unread as <+: records markCipher 0 [[1], [2]] := ⟨[], (List.append_nil _).trans hwire.symm⟩
  have hsized : ∀ p ∈ ([[1], [2]] : List Bytes), p.length ≤ noiseMaxRecordPayload := by decide
  refine ⟨hwire, ((noise_read_honest_iff markCipher {} [] as [[1], [2]] hsized hpre).1 [7, 7, 7, 7]).2 ?_⟩
  intro p hp
  have hmem := List.mem_of_mem_take hp
  simp at hmem
  rcases hmem with rfl | rfl <;> decide

/-- **A record that holds nothing passes for the end of the stream**: the read returns `Ok(0)`, the pump fails with
`noise eof`, and the stream, on which another record has arrived, has not ended. -/
theorem empty_record_closes :
    let wire := records markCipher 0 [[], [2]]
    let as : List Arrival := [.data 4 (wire.drop 1)]
    wire = unread as ∧ ((NoiseStream.new {} []).read markCipher 8192 as).1 = .ok [] ∧
      (let w := run (pumpedStep markCipher) { reading := (NoiseStream.new {} [], as) } (List.replicate 4 (.pump {}))
      w.state.pump = .failed (.unexpectedEof "noise eof".toList) ∧ w.reading.1.eof = false ∧
        (w.reading.1.read markCipher 8192 w.reading.2).1 = .ok [2]) := by
  intro wire as
  refine ⟨by decide +kernel, by decide +kernel, ?_, ?_, ?_⟩ <;> decide +kernel

end AsyncIo
end TailscaleVita

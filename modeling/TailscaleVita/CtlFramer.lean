import TailscaleVita.CtlNetmap
import TailscaleVita.Framing
import TailscaleVita.LittleEndian
/-!
# CtlFramer — the frames of a map stream (`ts-control/src/map.rs`)

The body of a map response is a sequence of little-endian lengths, each followed by as many bytes: JSON, or JSON in one
zstd frame. `Framer` keeps what has arrived and takes whole frames off the front. The decoders are oracles.
-/
namespace TailscaleVita.Ctl

open List

def maxFrameSize : Nat := 4 * 1024 * 1024

inductive FrameError where
  | mapFrameTooLarge (len cap : Nat)
  | mapDecode (message : Text)
deriving DecidableEq

inductive Compression where
  | plain
  | gzip
  | zstd
deriving DecidableEq

/-- `decompress_zstd_frame` and `serde_json::from_slice`. -/
structure Decoders where
  zstd : Bytes → Except Text Bytes
  json : Bytes → Except Text MapResponseWire

/-- The body of a frame; in gzip mode it was decompressed before it was framed. -/
def Decoders.body (d : Decoders) (compression : Compression) (body : Bytes) : Except FrameError MapResponseWire :=
  match compression with
  | .zstd =>
    match d.zstd body with
    | .error e => .error (.mapDecode e)
    | .ok decoded =>
      match d.json decoded with
      | .error e => .error (.mapDecode ("json (zstd): ".toList ++ e))
      | .ok resp => .ok resp
  | .plain | .gzip =>
    match d.json body with
    | .error e => .error (.mapDecode ("json: ".toList ++ e))
    | .ok resp => .ok resp

structure Framer where
  compression : Compression
  plainBuf : Bytes := []
  gzipBuf : Bytes := []
deriving DecidableEq

inductive FrameOutcome where
  | frame (resp : MapResponseWire)
  | eof
  | timeout

namespace Framer

def new (compression : Compression) : Framer := { compression }

def hasDecoder (f : Framer) : Bool := decide (f.compression = .gzip)

def buffer (f : Framer) : Bytes := if f.hasDecoder then f.gzipBuf else f.plainBuf

def setBuffer (f : Framer) (buf : Bytes) : Framer :=
  if f.hasDecoder then { f with gzipBuf := buf } else { f with plainBuf := buf }

def tryExtract (d : Decoders) (f : Framer) : Except FrameError (Option MapResponseWire) × Framer :=
  match f.buffer with
  | b₀ :: b₁ :: b₂ :: b₃ :: rest =>
    let len := leNat [b₀, b₁, b₂, b₃]
    if maxFrameSize < len then (.error (.mapFrameTooLarge len maxFrameSize), f)
    else if rest.length < len then (.ok none, f)
    else
      match d.body f.compression (rest.take len) with
      | .error e => (.error e, f)
      | .ok resp => (.ok (some resp), f.setBuffer (rest.drop len))
  | _ => (.ok none, f)

def feed (f : Framer) (chunk : Bytes) : Framer := { f with plainBuf := f.plainBuf ++ chunk }

end Framer

inductive ChunkArrival where
  | chunk (bytes : Bytes)
  | timeout
deriving DecidableEq

def ChunkArrival.bytes : ChunkArrival → Bytes
  | .chunk bytes => bytes
  | .timeout => []

def received (as : List ChunkArrival) : Bytes := as.flatMap ChunkArrival.bytes

abbrev NextFrame := Except FrameError FrameOutcome × Framer × List ChunkArrival

def extractOr (d : Decoders) (f : Framer) (as : List ChunkArrival) (next : Framer → NextFrame) : NextFrame :=
  match f.tryExtract d with
  | (.error e, f) => (.error e, f, as)
  | (.ok (some resp), f) => (.ok (.frame resp), f, as)
  | (.ok none, f) => next f

def nextFrame (d : Decoders) : Framer → List ChunkArrival → NextFrame
  | f, .chunk c :: as => extractOr d f (.chunk c :: as) (fun f => nextFrame d (f.feed c) as)
  | f, .timeout :: as => extractOr d f (.timeout :: as) (fun f => (.ok .timeout, f, as))
  -- at the end of the stream it looks once more
  | f, [] => extractOr d f [] (fun f => extractOr d f [] (fun f => (.ok .eof, f, [])))

/-- `next_frame` until the end of the stream or an error: the frames, which of the two it was, and what was not looked
at. -/
def nextFrames (d : Decoders) : (calls : Nat) → Framer → List ChunkArrival →
    List MapResponseWire × Option (Except FrameError Unit) × List ChunkArrival
  | 0, _, as => ([], none, as)
  | calls + 1, f, as =>
    match nextFrame d f as with
    | (.error e, _, as) => ([], some (.error e), as)
    | (.ok .eof, _, as) => ([], some (.ok ()), as)
    | (.ok .timeout, f, as) => nextFrames d calls f as
    | (.ok (.frame resp), f, as) =>
      let r := nextFrames d calls f as
      (resp :: r.1, r.2)

section

variable (d : Decoders) (c : Compression)

def extractFrame (b : Bytes) : Extracted MapResponseWire FrameError :=
  match b with
  | b₀ :: b₁ :: b₂ :: b₃ :: rest =>
    if maxFrameSize < leNat [b₀, b₁, b₂, b₃] then .fail (.mapFrameTooLarge (leNat [b₀, b₁, b₂, b₃]) maxFrameSize)
    else if rest.length < leNat [b₀, b₁, b₂, b₃] then .more
    else
      match d.body c (rest.take (leNat [b₀, b₁, b₂, b₃])) with
      | .error e => .fail e
      | .ok resp => .frame resp (rest.drop (leNat [b₀, b₁, b₂, b₃]))
  | _ => .more

theorem tryExtract_eq (f : Framer) : f.tryExtract d =
    match extractFrame d f.compression f.buffer with
    | .more => (.ok none, f)
    | .fail e => (.error e, f)
    | .frame resp rest => (.ok (some resp), f.setBuffer rest) := by
  unfold Framer.tryExtract extractFrame
  split
  next b0 b1 b2 b3 rest hb =>
    by_cases hcap : maxFrameSize < leNat [b0, b1, b2, b3]
    · simp [if_pos hcap]
    · by_cases hlen : rest.length < leNat [b0, b1, b2, b3]
      · simp [if_neg hcap, if_pos hlen]
      · simp only [if_neg hcap, if_neg hlen]
        cases d.body f.compression (rest.take (leNat [b0, b1, b2, b3])) <;> rfl
  · rfl

inductive Holds : Bytes → Extracted MapResponseWire FrameError → Prop where
  | frame {b₀ b₁ b₂ b₃ : BitVec 8} {body rest : Bytes} {resp : MapResponseWire}
      (hlen : leNat [b₀, b₁, b₂, b₃] = body.length) (hcap : body.length ≤ maxFrameSize)
      (hbody : d.body c body = .ok resp) : Holds (b₀ :: b₁ :: b₂ :: b₃ :: (body ++ rest)) (.frame resp rest)
  | undecodable {b₀ b₁ b₂ b₃ : BitVec 8} {body rest : Bytes} {e : FrameError}
      (hlen : leNat [b₀, b₁, b₂, b₃] = body.length) (hcap : body.length ≤ maxFrameSize)
      (hbody : d.body c body = .error e) : Holds (b₀ :: b₁ :: b₂ :: b₃ :: (body ++ rest)) (.fail e)
  | tooLarge {b₀ b₁ b₂ b₃ : BitVec 8} {rest : Bytes} (hcap : maxFrameSize < leNat [b₀, b₁, b₂, b₃]) :
      Holds (b₀ :: b₁ :: b₂ :: b₃ :: rest) (.fail (.mapFrameTooLarge (leNat [b₀, b₁, b₂, b₃]) maxFrameSize))
  | more {b : Bytes} : Holds b .more

theorem holds (b : Bytes) : Holds d c b (extractFrame d c b) := by
  unfold extractFrame
  split
  next b0 b1 b2 b3 rest =>
    split
    next hcap => exact .tooLarge hcap
    · split
      · exact .more
      next hcap hlen =>
        have htake : leNat [b0, b1, b2, b3] = (rest.take (leNat [b0, b1, b2, b3])).length := by
          rw [length_take]
          omega
        have hsplit := take_append_drop (leNat [b0, b1, b2, b3]) rest
        split
        next e hbody =>
          rw [← hsplit]
          exact .undecodable htake (by omega) hbody
        next resp hbody =>
          have h : Holds d c (b0 :: b1 :: b2 :: b3 :: (_ ++ rest.drop (leNat [b0, b1, b2, b3]))) _ :=
            .frame htake (by omega) hbody
          rwa [hsplit] at h
  · exact .more

theorem extractFrame_body {b0 b1 b2 b3 : BitVec 8} {body : Bytes} (hlen : leNat [b0, b1, b2, b3] = body.length)
    (hcap : body.length ≤ maxFrameSize) (rest : Bytes) : extractFrame d c (b0 :: b1 :: b2 :: b3 :: (body ++ rest)) =
      match d.body c body with
      | .error e => .fail e
      | .ok resp => .frame resp rest := by
  rw [extractFrame, hlen, if_neg (by omega), if_neg (by rw [length_append]; omega), take_left, drop_left]

theorem extractFrame_tooLarge {b0 b1 b2 b3 : BitVec 8} (hcap : maxFrameSize < leNat [b0, b1, b2, b3]) (rest : Bytes) :
    extractFrame d c (b0 :: b1 :: b2 :: b3 :: rest) =
      .fail (.mapFrameTooLarge (leNat [b0, b1, b2, b3]) maxFrameSize) := by
  rw [extractFrame, if_pos hcap]

def mapFrames : Extractor MapResponseWire FrameError where
  extract := extractFrame d c
  frame_append {b a rest} h more := by
    have hholds := holds d c b
    rw [h] at hholds
    cases hholds with
    | frame hlen hcap hbody =>
      simp only [List.cons_append, List.append_assoc]
      rw [extractFrame_body d c hlen hcap, hbody]
  fail_append {b e} h more := by
    have hholds := holds d c b
    rw [h] at hholds
    cases hholds with
    | undecodable hlen hcap hbody =>
      simp only [List.cons_append, List.append_assoc]
      rw [extractFrame_body d c hlen hcap, hbody]
    | tooLarge hcap =>
      simp only [List.cons_append]
      exact extractFrame_tooLarge d c hcap _
  shrinks {b a rest} h := by
    have hholds := holds d c b
    rw [h] at hholds
    cases hholds with
    | frame hlen hcap hbody =>
      simp only [List.length_cons, List.length_append]
      omega

end

/-! ## The calls of `next_frame` -/

section

variable {d : Decoders} {f : Framer}

theorem nextFrames_of_fail {e : FrameError} (hx : extractFrame d f.compression f.buffer = .fail e) (calls : Nat)
    (as : List ChunkArrival) : nextFrames d (calls + 1) f as = ([], some (.error e), as) := by
  have htry := tryExtract_eq d f
  rw [hx] at htry
  rcases as with _ | ⟨_ | _, as⟩ <;> simp only [nextFrames, nextFrame, extractOr, htry]

theorem nextFrames_of_frame {resp : MapResponseWire} {rest : Bytes}
    (hx : extractFrame d f.compression f.buffer = .frame resp rest) (calls : Nat) (as : List ChunkArrival) :
    nextFrames d (calls + 1) f as = (resp :: (nextFrames d calls (f.setBuffer rest) as).1,
      (nextFrames d calls (f.setBuffer rest) as).2) := by
  have htry := tryExtract_eq d f
  rw [hx] at htry
  rcases as with _ | ⟨_ | _, as⟩ <;> simp only [nextFrames, nextFrame, extractOr, htry]

section

variable (hx : extractFrame d f.compression f.buffer = .more) (calls : Nat)

include hx

theorem nextFrames_eof : nextFrames d (calls + 1) f [] = ([], some (.ok ()), []) := by
  have htry := tryExtract_eq d f
  rw [hx] at htry
  simp [nextFrames, nextFrame, extractOr, htry]

theorem nextFrames_timeout (as : List ChunkArrival) :
    nextFrames d (calls + 1) f (.timeout :: as) = nextFrames d calls f as := by
  have htry := tryExtract_eq d f
  rw [hx] at htry
  simp [nextFrames, nextFrame, extractOr, htry]

theorem nextFrames_chunk (c : Bytes) (as : List ChunkArrival) :
    nextFrames d (calls + 1) f (.chunk c :: as) = nextFrames d (calls + 1) (f.feed c) as := by
  have htry := tryExtract_eq d f
  rw [hx] at htry
  have hnext : nextFrame d f (.chunk c :: as) = nextFrame d (f.feed c) as := by
    simp [nextFrame, extractOr, htry]
  simp [nextFrames, hnext]

end

theorem Framer.buffer_setBuffer (f : Framer) (buf : Bytes) : (f.setBuffer buf).buffer = buf := by
  cases hd : f.hasDecoder with
  | true =>
    have hd' : ({ f with gzipBuf := buf } : Framer).hasDecoder = true := hd
    simp [setBuffer, buffer, hd, hd']
  | false =>
    have hd' : ({ f with plainBuf := buf } : Framer).hasDecoder = false := hd
    simp [setBuffer, buffer, hd, hd']

theorem Framer.compression_setBuffer (f : Framer) (buf : Bytes) : (f.setBuffer buf).compression = f.compression := by
  unfold setBuffer
  split <;> rfl

theorem Framer.buffer_feed (hgz : f.compression ≠ .gzip) (c : Bytes) : (f.feed c).buffer = f.buffer ++ c := by
  simp [buffer, feed, hasDecoder, hgz]

def pending : List ChunkArrival → Nat
  | [] => 0
  | .chunk c :: as => c.length + pending as
  | .timeout :: as => pending as + 1

theorem nextFrames_eq (later : List ChunkArrival) :
    ∀ (calls : Nat) (f : Framer) (as : List ChunkArrival), f.compression ≠ .gzip →
      f.buffer.length + pending as < calls →
        match (mapFrames d f.compression).frames (f.buffer ++ received as) with
        | (resps, .fail e) => ∃ as', nextFrames d calls f (as ++ later) = (resps, some (.error e), as' ++ later)
        | (resps, .short _) => nextFrames d calls f as = (resps, some (.ok ()), [])
  | calls + 1, f, as, hgz, hcalls => by
    cases hx : extractFrame d f.compression f.buffer with
    | fail e =>
      rw [(mapFrames d _).frames_of_fail ((mapFrames d _).fail_append hx (received as))]
      exact ⟨as, nextFrames_of_fail hx calls _⟩
    | frame resp rest =>
      have hlt : rest.length < f.buffer.length := (mapFrames d f.compression).shrinks hx
      have ih := nextFrames_eq later calls (f.setBuffer rest) as (by rwa [Framer.compression_setBuffer])
        (by rw [Framer.buffer_setBuffer]; omega)
      rw [Framer.buffer_setBuffer, Framer.compression_setBuffer] at ih
      rw [(mapFrames d _).frames_of_frame ((mapFrames d _).frame_append hx (received as))]
      generalize (mapFrames d f.compression).frames (rest ++ received as) = r at ih ⊢
      obtain ⟨resps, rest' | e⟩ := r
      · simp only at ih ⊢
        rw [nextFrames_of_frame hx, ih]
      · obtain ⟨as', ih⟩ := ih
        refine ⟨as', ?_⟩
        rw [nextFrames_of_frame hx, ih]
    | more =>
      match as with
      | [] =>
        have hnil : f.buffer ++ received [] = f.buffer := append_nil _
        rw [hnil, (mapFrames d _).frames_of_more hx]
        exact nextFrames_eof hx calls
      | .timeout :: as =>
        simp only [pending] at hcalls
        have ih := nextFrames_eq later calls f as hgz (by omega)
        simp only [cons_append, nextFrames_timeout hx]
        exact ih
      | .chunk c :: as =>
        simp only [pending] at hcalls
        have ih := nextFrames_eq later (calls + 1) (f.feed c) as hgz (by
          rw [Framer.buffer_feed hgz, length_append]
          omega)
        rw [Framer.buffer_feed hgz, append_assoc] at ih
        simp only [cons_append, nextFrames_chunk hx]
        exact ih
termination_by calls _ as => (calls, as.length)

end

/-! ## Frames as they are sent -/

section

variable (d : Decoders) (c : Compression)

def framed (body : Bytes) : Bytes := leBytes 4 body.length ++ body

def decodeAll : List Bytes → List MapResponseWire × Except FrameError Unit
  | [] => ([], .ok ())
  | body :: bodies =>
    match d.body c body with
    | .error e => ([], .error e)
    | .ok resp => (resp :: (decodeAll bodies).1, (decodeAll bodies).2)

theorem Decoders.body_ne_tooLarge {body : Bytes} {len cap : Nat} :
    d.body c body ≠ .error (.mapFrameTooLarge len cap) := by
  intro h
  unfold Decoders.body at h
  repeat' split at h
  all_goals cases h

theorem decodeAll_ne_tooLarge (len cap : Nat) :
    ∀ bodies : List Bytes, (decodeAll d c bodies).2 ≠ .error (.mapFrameTooLarge len cap)
  | [] => by simp [decodeAll]
  | body :: bodies => by
    unfold decodeAll
    cases hbody : d.body c body with
    | error e =>
      intro h
      cases h
      exact d.body_ne_tooLarge c hbody
    | ok resp => exact decodeAll_ne_tooLarge len cap bodies

theorem exists_leBytes_four {n : Nat} (h : n < 2 ^ 32) :
    ∃ b0 b1 b2 b3, leBytes 4 n = [b0, b1, b2, b3] ∧ leNat [b0, b1, b2, b3] = n := by
  refine ⟨_, _, _, _, rfl, ?_⟩
  have hval := leNat_leBytes 4 n
  rwa [Nat.mod_eq_of_lt (by omega)] at hval

theorem extractFrame_framed {body : Bytes} (h : body.length ≤ maxFrameSize) (rest : Bytes) :
    extractFrame d c (framed body ++ rest) =
      match d.body c body with
      | .error e => .fail e
      | .ok resp => .frame resp rest := by
  obtain ⟨b0, b1, b2, b3, hb, hlen⟩ := exists_leBytes_four (n := body.length) (by unfold maxFrameSize at h; omega)
  rw [framed, hb, append_assoc]
  exact extractFrame_body d c hlen h rest

theorem frames_framed (more : Bytes) : ∀ bodies : List Bytes, (∀ body ∈ bodies, body.length ≤ maxFrameSize) →
    (mapFrames d c).frames (bodies.flatMap framed ++ more) =
      match decodeAll d c bodies with
      | (resps, .error e) => (resps, .fail e)
      | (resps, .ok ()) => (resps ++ ((mapFrames d c).frames more).1, ((mapFrames d c).frames more).2)
  | [], _ => rfl
  | body :: bodies, h => by
    have ih := frames_framed more bodies (fun b hb => h b (mem_cons_of_mem _ hb))
    have hx : (mapFrames d c).extract (framed body ++ (bodies.flatMap framed ++ more)) = _ :=
      extractFrame_framed d c (h body mem_cons_self) (bodies.flatMap framed ++ more)
    rw [flatMap_cons, append_assoc]
    unfold decodeAll
    cases hbody : d.body c body with
    | error e =>
      simp only [hbody] at hx
      rw [(mapFrames d c).frames_of_fail hx]
    | ok resp =>
      simp only [hbody] at hx
      rw [(mapFrames d c).frames_of_frame hx, ih]
      obtain ⟨resps, e | ⟨⟩⟩ := decodeAll d c bodies <;> rfl

theorem frames_tooLarge {len : Nat} (hcap : maxFrameSize < len) (hlen : len < 2 ^ 32) (more : Bytes) :
    (mapFrames d c).frames (leBytes 4 len ++ more) = ([], .fail (.mapFrameTooLarge len maxFrameSize)) := by
  obtain ⟨b0, b1, b2, b3, hb, hval⟩ := exists_leBytes_four hlen
  have hx : extractFrame d c (b0 :: b1 :: b2 :: b3 :: more) = _ := extractFrame_tooLarge d c (by rwa [hval]) more
  rw [hval] at hx
  rw [hb]
  exact (mapFrames d c).frames_of_fail hx

end

/-- **Map framing does not depend on how the stream arrives**: without gzip, for frames of at most 4 MiB cut into any
chunks, `next_frame` gives the decoded bodies in order up to the end of the stream, or up to a body that does not
decode. A length above 4 MiB behind them is an error after all of them, before anything later is looked at. -/
theorem map_framing_chunking_independent (d : Decoders) (c : Compression) (hc : c ≠ .gzip) (bodies : List Bytes)
    (hbodies : ∀ body ∈ bodies, body.length ≤ maxFrameSize) (as : List ChunkArrival) (calls : Nat)
    (hcalls : pending as < calls) :
    (received as = bodies.flatMap framed →
      (∃ rest, nextFrames d calls (Framer.new c) as = ((decodeAll d c bodies).1, some (decodeAll d c bodies).2, rest)) ∧
        ∀ len cap, (decodeAll d c bodies).2 ≠ .error (.mapFrameTooLarge len cap)) ∧
    ∀ (len : Nat) (more : Bytes) (later : List ChunkArrival), maxFrameSize < len → len < 2 ^ 32 →
      received as = bodies.flatMap framed ++ (leBytes 4 len ++ more) →
        ∃ rest, nextFrames d calls (Framer.new c) (as ++ later) = ((decodeAll d c bodies).1,
          some (do (decodeAll d c bodies).2; .error (.mapFrameTooLarge len maxFrameSize)), rest ++ later) := by
  have hempty : (Framer.new c).buffer = [] := by unfold Framer.buffer; split <;> rfl
  have hrun : ∀ later, _ := fun later =>
    nextFrames_eq (d := d) later calls (Framer.new c) as hc (by rwa [hempty, length_nil, Nat.zero_add])
  simp only [hempty, nil_append] at hrun
  refine ⟨fun hrec => ⟨?_, fun len cap => decodeAll_ne_tooLarge d c len cap bodies⟩,
    fun len more later hcap hlen hrec => ?_⟩
  · have hframes := frames_framed d c [] bodies hbodies
    rw [append_nil, ← hrec] at hframes
    have h := hrun []
    rw [show (Framer.new c).compression = c from rfl, hframes] at h
    generalize decodeAll d c bodies = r at h ⊢
    obtain ⟨resps, e | ⟨⟩⟩ := r
    · obtain ⟨rest, h⟩ := h
      rw [append_nil] at h
      exact ⟨_, h⟩
    · simp only [show (mapFrames d c).frames [] = ([], .short []) from rfl, append_nil] at h
      exact ⟨[], h⟩
  · have hframes := frames_framed d c (leBytes 4 len ++ more) bodies hbodies
    rw [frames_tooLarge d c hcap hlen, ← hrec] at hframes
    have h := hrun later
    rw [show (Framer.new c).compression = c from rfl, hframes] at h
    generalize decodeAll d c bodies = r at h ⊢
    obtain ⟨resps, e | ⟨⟩⟩ := r
    · exact h
    · simp only [append_nil] at h
      exact h

theorem map_framing_cut_zstd :
    let d : Decoders := { zstd := fun b => .ok (b.drop 1), json := fun _ => .ok {} }
    let as : List ChunkArrival := [.chunk [2, 0], .timeout, .chunk [0, 0, 9], .chunk [], .chunk [0x7b, 0, 0, 0x50, 0]]
    Compression.zstd ≠ .gzip ∧ received as = framed [9, 0x7b] ++ (leBytes 4 0x500000 ++ []) ∧
      ∃ rest, nextFrames d 12 (Framer.new .zstd) (as ++ [.chunk [1, 2]]) =
        ([{}], some (.error (.mapFrameTooLarge 0x500000 maxFrameSize)), rest ++ [.chunk [1, 2]]) := by
  intro d as
  have hrec : received as = framed [9, 0x7b] ++ (leBytes 4 0x500000 ++ []) := by decide +kernel
  refine ⟨by decide, hrec, ?_⟩
  exact (map_framing_chunking_independent d .zstd (by decide) [[9, 0x7b]] (by decide) as 12 (by decide)).2
    0x500000 [] [.chunk [1, 2]] (by decide) (by decide) hrec

end TailscaleVita.Ctl

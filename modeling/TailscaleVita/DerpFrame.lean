import TailscaleVita.Framing
import TailscaleVita.Octets
/-!
# DerpFrame — the DERP frame codec (`ts-derp/src/frame.rs`)

A frame is a type byte, a big-endian length and a payload. `readFrame` reads one off a blocking stream; `FrameReader`
keeps what has arrived across timeouts. Both give the same frames however the stream arrives.
-/
namespace TailscaleVita.Derp

open List

abbrev Bytes := List (BitVec 8)

def frameHeaderLen : Nat := 5

def maxPayload : Nat := 64 * 1024

inductive DerpError where
  | io (message : String)
  | badFrameType (byte : BitVec 8)
  | frameTooLarge (len cap : Nat)
  | unknownRegion (region : BitVec 16)
  | capExceededHome (cap : Nat) (home : BitVec 16)
  | connDied (message : String)
  | handshake (message : String)
deriving DecidableEq

inductive FrameType where
  | serverKey | clientInfo | serverInfo | sendPacket | recvPacket | keepAlive | notePreferred | peerGone | peerPresent
  | forwardPacket | watchConns | closePeer | ping | pong | health | restarting
deriving DecidableEq

def FrameType.toByte : FrameType → BitVec 8
  | .serverKey => 0x01
  | .clientInfo => 0x02
  | .serverInfo => 0x03
  | .sendPacket => 0x04
  | .recvPacket => 0x05
  | .keepAlive => 0x06
  | .notePreferred => 0x07
  | .peerGone => 0x08
  | .peerPresent => 0x09
  | .forwardPacket => 0x0a
  | .watchConns => 0x10
  | .closePeer => 0x11
  | .ping => 0x12
  | .pong => 0x13
  | .health => 0x14
  | .restarting => 0x15

def FrameType.all : List FrameType :=
  [.serverKey, .clientInfo, .serverInfo, .sendPacket, .recvPacket, .keepAlive, .notePreferred, .peerGone, .peerPresent,
   .forwardPacket, .watchConns, .closePeer, .ping, .pong, .health, .restarting]

def FrameType.fromByte (b : BitVec 8) : Except DerpError FrameType :=
  match FrameType.all.find? (fun ty => ty.toByte == b) with
  | some ty => .ok ty
  | none => .error (.badFrameType b)

theorem FrameType.fromByte_toByte (ty : FrameType) : FrameType.fromByte ty.toByte = .ok ty := by
  cases ty <;> decide

abbrev Frame := FrameType × Bytes

def writeFrame (ty : FrameType) (payload : Bytes) : Except DerpError Bytes :=
  if maxPayload < payload.length then .error (.frameTooLarge payload.length maxPayload)
  else .ok (ty.toByte :: beBytes 4 payload.length ++ payload)

def readExact (n : Nat) (s : Bytes) : Except DerpError (Bytes × Bytes) :=
  if n ≤ s.length then .ok (s.take n, s.drop n) else .error (.io "failed to fill whole buffer")

def readFrame (s : Bytes) : Except DerpError (Frame × Bytes) := do
  let (hdr, s) ← readExact frameHeaderLen s
  let ty ← FrameType.fromByte (hdr.getD 0 0)
  let len := beNat (hdr.drop 1)
  if maxPayload < len then .error (.frameTooLarge len maxPayload)
  else
    let (payload, s) ← readExact len s
    return ((ty, payload), s)

def readFrames : (calls : Nat) → Bytes → List Frame × Option DerpError
  | 0, _ => ([], none)
  | calls + 1, s =>
    match readFrame s with
    | .error e => ([], some e)
    | .ok (frame, s) =>
      let r := readFrames calls s
      (frame :: r.1, r.2)

/-! ## The resumable reader -/

structure FrameReader where
  buf : Bytes
deriving DecidableEq

namespace FrameReader

def new : FrameReader := ⟨[]⟩

def tryExtract (r : FrameReader) : Except DerpError (Option Frame) × FrameReader :=
  match r.buf with
  | b₀ :: b₁ :: b₂ :: b₃ :: b₄ :: body =>
    match FrameType.fromByte b₀ with
    | .error e => (.error e, r)
    | .ok ty =>
      let len := beNat [b₁, b₂, b₃, b₄]
      if maxPayload < len then (.error (.frameTooLarge len maxPayload), r)
      -- the payload has not fully arrived yet
      else if body.length < len then (.ok none, r)
      else (.ok (some (ty, body.take len)), ⟨body.drop len⟩)
  | _ => (.ok none, r)

def pollFrame (r : FrameReader) (as : List Arrival) :
    Except DerpError (Option Frame) × FrameReader × List Arrival :=
  match r.tryExtract with
  | (.error e, r) => (.error e, r, as)
  | (.ok (some frame), r) => (.ok (some frame), r, as)
  | (.ok none, r) =>
    match recv 8192 as with
    | (.ok [], as) => (.error (.io "derp connection closed by peer"), r, as)
    | (.ok bytes, as) =>
      let t := tryExtract ⟨r.buf ++ bytes⟩
      (t.1, t.2, as)
    | (.timedOut, as) => (.ok none, r, as)

def pollFrames : (calls : Nat) → FrameReader → List Arrival → List Frame × Option DerpError
  | 0, _, _ => ([], none)
  | calls + 1, r, as =>
    match r.pollFrame as with
    | (.error e, _, _) => ([], some e)
    | (.ok frame, r, as) =>
      let t := pollFrames calls r as
      (frame.toList ++ t.1, t.2)

end FrameReader

/-! ## One frame off the same bytes -/

def extract (b : Bytes) : Extracted Frame DerpError :=
  match FrameReader.tryExtract ⟨b⟩ with
  | (.error e, _) => .fail e
  | (.ok none, _) => .more
  | (.ok (some frame), r) => .frame frame r.buf

theorem extract_header (b0 b1 b2 b3 b4 : BitVec 8) (body : Bytes) :
    extract (b0 :: b1 :: b2 :: b3 :: b4 :: body) =
      match FrameType.fromByte b0 with
      | .error e => .fail e
      | .ok ty =>
        if maxPayload < beNat [b1, b2, b3, b4] then .fail (.frameTooLarge (beNat [b1, b2, b3, b4]) maxPayload)
        else if body.length < beNat [b1, b2, b3, b4] then .more
        else .frame (ty, body.take (beNat [b1, b2, b3, b4])) (body.drop (beNat [b1, b2, b3, b4])) := by
  simp only [extract, FrameReader.tryExtract]
  cases hty : FrameType.fromByte b0 with
  | error e => rfl
  | ok ty =>
    by_cases hcap : maxPayload < beNat [b1, b2, b3, b4]
    · simp [if_pos hcap]
    · by_cases hlen : body.length < beNat [b1, b2, b3, b4]
      · simp [if_neg hcap, if_pos hlen]
      · simp [if_neg hcap, if_neg hlen]

variable {b : Bytes}

theorem extract_short (h : b.length < frameHeaderLen) : extract b = .more := by
  unfold frameHeaderLen at h
  match b, h with
  | [], _ => rfl
  | [_], _ => rfl
  | [_, _], _ => rfl
  | [_, _, _], _ => rfl
  | [_, _, _, _], _ => rfl
  | _ :: _ :: _ :: _ :: _ :: _, h => simp at h; omega

theorem header_cases (b : Bytes) : b.length < frameHeaderLen ∨
    ∃ b0 b1 b2 b3 b4 body, b = b0 :: b1 :: b2 :: b3 :: b4 :: body := by
  match b with
  | [] => exact .inl (by simp [frameHeaderLen])
  | [_] => exact .inl (by simp [frameHeaderLen])
  | [_, _] => exact .inl (by simp [frameHeaderLen])
  | [_, _, _] => exact .inl (by simp [frameHeaderLen])
  | [_, _, _, _] => exact .inl (by simp [frameHeaderLen])
  | b0 :: b1 :: b2 :: b3 :: b4 :: body => exact .inr ⟨b0, b1, b2, b3, b4, body, rfl⟩

theorem extract_frame_iff {b rest payload : Bytes} {ty : FrameType} :
    extract b = .frame (ty, payload) rest ↔ ∃ b0 b1 b2 b3 b4, b = b0 :: b1 :: b2 :: b3 :: b4 :: (payload ++ rest) ∧
      FrameType.fromByte b0 = .ok ty ∧ beNat [b1, b2, b3, b4] = payload.length ∧ payload.length ≤ maxPayload := by
  constructor
  · intro h
    rcases header_cases b with hs | ⟨b0, b1, b2, b3, b4, body, rfl⟩
    · rw [extract_short hs] at h
      cases h
    · rw [extract_header] at h
      cases hty : FrameType.fromByte b0 with
      | error e =>
        rw [hty] at h
        cases h
      | ok ty' =>
        rw [hty] at h
        simp only at h
        split at h
        · cases h
        · split at h
          · cases h
          · cases h
            refine ⟨b0, b1, b2, b3, b4, by rw [take_append_drop], hty, ?_, ?_⟩ <;>
              (rw [length_take]; omega)
  · rintro ⟨b0, b1, b2, b3, b4, rfl, hty, hlen, hcap⟩
    rw [extract_header, hty, hlen]
    simp only
    rw [if_neg (by omega), if_neg (by rw [length_append]; omega), take_left, drop_left]

theorem extract_fail_iff {e : DerpError} :
    extract b = .fail e ↔ ∃ b0 b1 b2 b3 b4 body, b = b0 :: b1 :: b2 :: b3 :: b4 :: body ∧
      (FrameType.fromByte b0 = .error e ∨ (∃ ty, FrameType.fromByte b0 = .ok ty) ∧
        maxPayload < beNat [b1, b2, b3, b4] ∧ e = .frameTooLarge (beNat [b1, b2, b3, b4]) maxPayload) := by
  constructor
  · intro h
    rcases header_cases b with hs | ⟨b0, b1, b2, b3, b4, body, rfl⟩
    · rw [extract_short hs] at h
      cases h
    · refine ⟨b0, b1, b2, b3, b4, body, rfl, ?_⟩
      rw [extract_header] at h
      cases hty : FrameType.fromByte b0 with
      | error e' =>
        rw [hty] at h
        cases h
        exact .inl rfl
      | ok ty =>
        rw [hty] at h
        simp only at h
        split at h
        next hcap =>
          cases h
          exact .inr ⟨⟨ty, rfl⟩, hcap, rfl⟩
        · split at h <;> cases h
  · rintro ⟨b0, b1, b2, b3, b4, body, rfl, hty | ⟨⟨ty, hty⟩, hcap, rfl⟩⟩
    · rw [extract_header, hty]
    · rw [extract_header, hty]
      simp [if_pos hcap]

/-- DERP frames, as an extractor: what it says of a buffer it says of every longer one. -/
def frames : Extractor Frame DerpError where
  extract := extract
  frame_append {b a rest} h more := by
    obtain ⟨b₀, b₁, b₂, b₃, b₄, rfl, hrest⟩ := extract_frame_iff.1 h
    exact extract_frame_iff.2 ⟨b₀, b₁, b₂, b₃, b₄, by simp, hrest⟩
  fail_append {b e} h more := by
    obtain ⟨b₀, b₁, b₂, b₃, b₄, body, rfl, he⟩ := extract_fail_iff.1 h
    exact extract_fail_iff.2 ⟨b₀, b₁, b₂, b₃, b₄, body ++ more, by simp, he⟩
  shrinks {b a rest} h := by
    obtain ⟨b₀, b₁, b₂, b₃, b₄, rfl, -⟩ := extract_frame_iff.1 h
    simp only [List.length_cons, List.length_append]
    omega

/-! ## The two readers -/

def endError (eof : DerpError) : Ending DerpError → DerpError
  | .short _ => eof
  | .fail e => e

theorem readFrame_eq (s : Bytes) : readFrame s =
    match extract s with
    | .more => .error (.io "failed to fill whole buffer")
    | .fail e => .error e
    | .frame frame rest => .ok (frame, rest) := by
  rcases header_cases s with hs | ⟨b0, b1, b2, b3, b4, body, rfl⟩
  · rw [extract_short hs]
    simp [readFrame, readExact, Nat.not_le.2 hs, bind, Except.bind]
  · have hhdr : readExact frameHeaderLen (b0 :: b1 :: b2 :: b3 :: b4 :: body) = .ok ([b0, b1, b2, b3, b4], body) := by
      simp [readExact, frameHeaderLen]
    rw [extract_header, readFrame, hhdr]
    simp only [bind, Except.bind, getD_cons_zero, drop_succ_cons, drop_zero]
    cases hty : FrameType.fromByte b0 with
    | error e => rfl
    | ok ty =>
      by_cases hcap : maxPayload < beNat [b1, b2, b3, b4]
      · simp [if_pos hcap]
      · by_cases hlen : body.length < beNat [b1, b2, b3, b4]
        · simp [if_neg hcap, if_pos hlen, readExact, if_neg (Nat.not_le.2 hlen)]
        · simp only [if_neg hcap, if_neg hlen, readExact, if_pos (Nat.not_lt.1 hlen)]
          rfl

theorem readFrames_eq : ∀ (calls : Nat) (s : Bytes), s.length < calls →
    readFrames calls s = ((frames.frames s).1, some (endError (.io "failed to fill whole buffer") (frames.frames s).2))
  | calls + 1, s, h => by
    unfold readFrames
    rw [readFrame_eq]
    cases hx : extract s with
    | more =>
      rw [frames.frames_of_more hx]
      rfl
    | fail e =>
      rw [frames.frames_of_fail hx]
      rfl
    | frame frame rest =>
      have hlt : rest.length < s.length := frames.shrinks hx
      rw [frames.frames_of_frame hx]
      simp [readFrames_eq calls rest (by omega)]

theorem tryExtract_eq (b : Bytes) : FrameReader.tryExtract ⟨b⟩ =
    match extract b with
    | .more => (.ok none, ⟨b⟩)
    | .fail e => (.error e, ⟨b⟩)
    | .frame frame rest => (.ok (some frame), ⟨rest⟩) := by
  unfold extract FrameReader.tryExtract
  split
  next b0 b1 b2 b3 b4 body hb =>
    cases FrameType.fromByte b0 with
    | error e => rfl
    | ok ty =>
      by_cases hcap : maxPayload < beNat [b1, b2, b3, b4]
      · simp [if_pos hcap]
      · by_cases hlen : body.length < beNat [b1, b2, b3, b4]
        · simp [if_neg hcap, if_pos hlen]
        · simp [if_neg hcap, if_neg hlen]
  · rfl

def toPoll (r : FrameReader) (as : List Arrival) : Nat := r.buf.length + 2 * weight as

theorem pollFrames_of_fail {e : DerpError} (hx : extract b = .fail e) (calls : Nat) (as : List Arrival) :
    (FrameReader.mk b).pollFrames (calls + 1) as = ([], some e) := by
  unfold FrameReader.pollFrames FrameReader.pollFrame
  rw [tryExtract_eq]
  simp [hx]

theorem pollFrames_of_frame {b rest : Bytes} {frame : Frame} (hx : extract b = .frame frame rest) (calls : Nat)
    (as : List Arrival) : (FrameReader.mk b).pollFrames (calls + 1) as =
      (frame :: ((FrameReader.mk rest).pollFrames calls as).1, ((FrameReader.mk rest).pollFrames calls as).2) := by
  conv_lhs => unfold FrameReader.pollFrames FrameReader.pollFrame
  simp only [tryExtract_eq, hx]
  rfl

theorem pollFrames_of_read {b bs : Bytes} {c : BitVec 8} {as as' : List Arrival} (hx : extract b = .more)
    (hrecv : recv 8192 as = (.ok (c :: bs), as')) (hx' : extract (b ++ c :: bs) ≠ .more) (calls : Nat) :
    (FrameReader.mk b).pollFrames (calls + 1) as = (FrameReader.mk (b ++ c :: bs)).pollFrames (calls + 1) as' := by
  unfold FrameReader.pollFrames FrameReader.pollFrame
  simp only [tryExtract_eq, hx, hrecv]
  cases hnew : extract (b ++ c :: bs) with
  | more => exact absurd hnew hx'
  | fail e | frame frame rest => rfl

theorem pollFrames_eq : ∀ (calls : Nat) (r : FrameReader) (as : List Arrival), toPoll r as < calls →
    r.pollFrames calls as = ((frames.frames (r.buf ++ unread as)).1,
      some (endError (.io "derp connection closed by peer") (frames.frames (r.buf ++ unread as)).2))
  | calls + 1, ⟨b⟩, as, h => by
    -- a buffer that holds a frame, or something wrong
    have hextracts : ∀ (b : Bytes) (as : List Arrival), extract b ≠ .more → toPoll ⟨b⟩ as < calls + 1 →
        (FrameReader.mk b).pollFrames (calls + 1) as = ((frames.frames (b ++ unread as)).1,
          some (endError (.io "derp connection closed by peer") (frames.frames (b ++ unread as)).2)) := by
      intro b as hmore h
      cases hx : extract b with
      | more => exact absurd hx hmore
      | fail e =>
        rw [pollFrames_of_fail hx, frames.frames_of_fail (frames.fail_append hx (unread as))]
        rfl
      | frame frame rest =>
        have hlt : rest.length < b.length := frames.shrinks hx
        have ih := pollFrames_eq calls ⟨rest⟩ as (by unfold toPoll at h ⊢; simp only at h ⊢; omega)
        rw [pollFrames_of_frame hx, frames.frames_of_frame (frames.frame_append hx (unread as)), ih]
    by_cases hx : extract b = .more
    · have hrecv := recv_spec (n := 8192) (by decide) as
      unfold toPoll at h
      simp only at h ⊢
      generalize hgot : recv 8192 as = got at hrecv
      cases hrecv with
      | eof =>
        unfold FrameReader.pollFrames FrameReader.pollFrame
        simp only [tryExtract_eq, hx, hgot]
        rw [unread_nil, append_nil, frames.frames_of_more hx]
        rfl
      | timedOut as' =>
        simp only [weight] at h
        have ih := pollFrames_eq calls ⟨b⟩ as' (by unfold toPoll; simp only; omega)
        unfold FrameReader.pollFrames FrameReader.pollFrame
        simp only [tryExtract_eq, hx, hgot, ih, unread_timeout]
        rfl
      | @got _ as' c cs hn hu hw =>
        -- the bytes have moved from the stream to the buffer
        have hmoved : b ++ unread as = (b ++ c :: cs) ++ unread as' := by rw [hu, append_assoc]
        have hpoll : toPoll ⟨b ++ c :: cs⟩ as' < calls := by
          unfold toPoll
          simp only [length_append, length_cons] at hw ⊢
          omega
        rw [hmoved]
        by_cases hx' : extract (b ++ c :: cs) = .more
        · have ih := pollFrames_eq calls ⟨b ++ c :: cs⟩ as' hpoll
          unfold FrameReader.pollFrames FrameReader.pollFrame
          simp only [tryExtract_eq, hx, hgot, hx', ih]
          rfl
        · rw [pollFrames_of_read hx hgot hx']
          exact hextracts _ as' hx' (Nat.lt_succ_of_lt hpoll)
    · exact hextracts b as hx h

theorem extract_writeFrame {ty : FrameType} {payload : Bytes} (h : payload.length ≤ maxPayload) (rest : Bytes) :
    extract (ty.toByte :: beBytes 4 payload.length ++ payload ++ rest) = .frame (ty, payload) rest := by
  have hlen : (beBytes 4 payload.length).length = 4 := length_beBytes 4 _
  have hnat : beNat (beBytes 4 payload.length) = payload.length := by
    unfold maxPayload at h
    rw [beNat_beBytes]
    omega
  match hb : beBytes 4 payload.length, hlen with
  | [b1, b2, b3, b4], _ =>
    rw [hb] at hnat
    exact extract_frame_iff.2 ⟨ty.toByte, b1, b2, b3, b4, by simp, FrameType.fromByte_toByte ty, hnat, h⟩

theorem frames_written : ∀ (l : List Frame), (∀ f ∈ l, f.2.length ≤ maxPayload) →
    ∃ written, l.mapM (fun f => writeFrame f.1 f.2) = .ok written ∧ frames.frames written.flatten = (l, .short [])
  | [], _ => ⟨[], rfl, rfl⟩
  | (ty, payload) :: l, h => by
    obtain ⟨written, hw, hframes⟩ := frames_written l (fun f hf => h f (mem_cons_of_mem _ hf))
    have hle : payload.length ≤ maxPayload := h (ty, payload) mem_cons_self
    refine ⟨(ty.toByte :: beBytes 4 payload.length ++ payload) :: written, ?_, ?_⟩
    · rw [mapM_cons, hw]
      simp only [writeFrame, if_neg (Nat.not_lt.2 hle)]
      rfl
    · rw [flatten_cons, frames.frames_of_frame (extract_writeFrame hle written.flatten), hframes]

/-- **DERP framing does not depend on how the stream arrives**: for every stream, however it is delivered, `poll_frame`
until it fails gives the frames that `read_frame` until it fails gives, and fails at the same frame, for the same
reason unless the stream ended there. What was written reads back. -/
theorem derp_framing_chunking_independent :
    (∀ (as : List Arrival) (polls reads : Nat), 2 * weight as < polls → (unread as).length < reads →
      ∃ l e e', FrameReader.new.pollFrames polls as = (l, some e) ∧ readFrames reads (unread as) = (l, some e') ∧
        (e = e' ∨ e = .io "derp connection closed by peer" ∧ e' = .io "failed to fill whole buffer")) ∧
    ∀ l : List Frame, (∀ f ∈ l, f.2.length ≤ maxPayload) →
      ∃ written, l.mapM (fun f => writeFrame f.1 f.2) = .ok written ∧
        (∀ reads, written.flatten.length < reads →
          readFrames reads written.flatten = (l, some (.io "failed to fill whole buffer"))) ∧
        ∀ (as : List Arrival) (polls : Nat), unread as = written.flatten → 2 * weight as < polls →
          FrameReader.new.pollFrames polls as = (l, some (.io "derp connection closed by peer")) := by
  refine ⟨fun as polls reads hp hr => ?_, fun l hl => ?_⟩
  · have hpoll := pollFrames_eq polls FrameReader.new as (by simpa [toPoll, FrameReader.new] using hp)
    have hread := readFrames_eq reads (unread as) hr
    refine ⟨_, _, _, hpoll, hread, ?_⟩
    simp only [FrameReader.new, nil_append]
    cases (frames.frames (unread as)).2 with
    | short rest => exact .inr ⟨rfl, rfl⟩
    | fail e => exact .inl rfl
  · obtain ⟨written, hw, hframes⟩ := frames_written l hl
    refine ⟨written, hw, fun reads hr => ?_, fun as polls hu hp => ?_⟩
    · rw [readFrames_eq reads _ hr, hframes]
      rfl
    · rw [pollFrames_eq polls FrameReader.new as (by simpa [toPoll, FrameReader.new] using hp), hu]
      simp only [FrameReader.new, nil_append, hframes]
      rfl

theorem derp_framing_cut_pong :
    let as : List Arrival := [.data 0x13 [0, 0], .timeout, .data 0 [2, 7], .data 8 [0xff], .data 0 [0, 0, 0, 0]]
    ∃ l e, FrameReader.new.pollFrames 33 as = (l, some e) ∧ readFrames 14 (unread as) = (l, some e) ∧
      l = [(.pong, [7, 8])] ∧ e = .badFrameType 0xff := by
  intro as
  obtain ⟨l, e, e', hpoll, hread, hsame⟩ := derp_framing_chunking_independent.1 as 33 14 (by decide) (by decide)
  have hval : FrameReader.new.pollFrames 33 as = ([(.pong, [7, 8])], some (.badFrameType 0xff)) := by decide +kernel
  cases hval.symm.trans hpoll
  rcases hsame with rfl | ⟨h, -⟩
  · exact ⟨_, _, hval, hread, rfl, rfl⟩
  · cases h

end TailscaleVita.Derp

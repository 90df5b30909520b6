import TailscaleVita.Framing
import TailscaleVita.Octets
import TailscaleVita.StdText
/-!
# CtlNoise — the record stream over the control socket (`ts-control/src/record.rs`)

A record is a type byte, the length of its ciphertext in two bytes and the ciphertext, sealed under a counter of each
side. `write` cuts a buffer into records; `read` gives out plaintext and, when it has none, fills its buffer up to one
whole record. The cipher is an oracle.
-/
namespace TailscaleVita.Noise

open List

/-- The cipher of one direction: what it sealed under a counter it opens under that counter. -/
structure Cipher where
  encrypt : Nat → Bytes → Bytes
  decrypt : Nat → Bytes → Option Bytes
  decrypt_encrypt : ∀ n plaintext, decrypt n (encrypt n plaintext) = some plaintext
  length_encrypt : ∀ n plaintext, (encrypt n plaintext).length = plaintext.length + 16

def msgTypeRecord : BitVec 8 := 0x04

def headerLen : Nat := 3

def noiseMaxRecordPayload : Nat := 65535 - 16

inductive IoError where
  | unexpectedEof (message : Text)
  | timedOut
  | other (message : Text)
deriving DecidableEq

structure NoiseTransport where
  sent : Nat := 0
  received : Nat := 0
deriving DecidableEq

def NoiseTransport.writeRecord (c : Cipher) (t : NoiseTransport) (plaintext : Bytes) :
    Except Text (Bytes × NoiseTransport) :=
  if noiseMaxRecordPayload < plaintext.length then
    .error ("noise: plaintext ".toList ++ (toString plaintext.length).toList ++ " > max ".toList ++
      (toString noiseMaxRecordPayload).toList)
  else
    let ct := c.encrypt t.sent plaintext
    .ok (msgTypeRecord :: beBytes 2 (ct.length % 2 ^ 16) ++ ct, { t with sent := t.sent + 1 })

def NoiseTransport.decryptRecord (c : Cipher) (t : NoiseTransport) (payload : Bytes) :
    Except Text (Bytes × NoiseTransport) :=
  match c.decrypt t.received payload with
  | none => .error "snow read transport: decrypt error".toList
  | some out => .ok (out, { t with received := t.received + 1 })

structure NoiseStream where
  noise : NoiseTransport
  rxPlain : Bytes := []
  rxBuf : Bytes := []
  eof : Bool := false
deriving DecidableEq

namespace NoiseStream

def new (noise : NoiseTransport) (leftover : Bytes) : NoiseStream := { noise, rxBuf := leftover }

def eofMidRecord : IoError := .unexpectedEof "noise stream eof mid-record".toList

def fill (required : Nat) : (fuel : Nat) → NoiseStream → List Arrival →
    Except IoError Unit × NoiseStream × List Arrival
  | 0, s, as => (.ok (), s, as)
  | fuel + 1, s, as =>
    if required ≤ s.rxBuf.length then (.ok (), s, as)
    else if s.eof then (.error eofMidRecord, s, as)
    else
      match recv 4096 as with
      | (.ok [], as) => (.error eofMidRecord, { s with eof := true }, as)
      | (.ok bytes, as) => fill required fuel { s with rxBuf := s.rxBuf ++ bytes } as
      | (.timedOut, as) => (.error .timedOut, s, as)

def fillUntil (required : Nat) (s : NoiseStream) (as : List Arrival) :
    Except IoError Unit × NoiseStream × List Arrival :=
  fill required (required - s.rxBuf.length) s as

def drainOneRecord (c : Cipher) (s : NoiseStream) (as : List Arrival) :
    Except IoError Unit × NoiseStream × List Arrival :=
  match s.fillUntil headerLen as with
  | (.error e, s, as) => (.error e, s, as)
  | (.ok (), s, as) =>
    if s.rxBuf.getD 0 0 ≠ msgTypeRecord then
      (.error (.other ("noise: unexpected msg type 0x".toList ++ Nat.toDigits 16 (s.rxBuf.getD 0 0).toNat)), s, as)
    else
      let total := headerLen + beNat [s.rxBuf.getD 1 0, s.rxBuf.getD 2 0]
      match s.fillUntil total as with
      | (.error e, s, as) => (.error e, s, as)
      | (.ok (), s, as) =>
        match s.noise.decryptRecord c ((s.rxBuf.take total).drop headerLen) with
        | .error e => (.error (.other ("noise decrypt: transport: ".toList ++ e)), s, as)
        | .ok (out, noise) =>
          (.ok (), { s with noise, rxBuf := s.rxBuf.drop total, rxPlain := s.rxPlain ++ out }, as)

def read (c : Cipher) (n : Nat) (s : NoiseStream) (as : List Arrival) :
    Except IoError Bytes × NoiseStream × List Arrival :=
  match if s.rxPlain = [] then s.drainOneRecord c as else (.ok (), s, as) with
  | (.error e, s, as) => (.error e, s, as)
  | (.ok (), s, as) => (.ok (s.rxPlain.take n), { s with rxPlain := s.rxPlain.drop n }, as)

def writeChunks (c : Cipher) : NoiseStream → List Bytes → Except IoError Nat × NoiseStream × Bytes
  | s, [] => (.ok 0, s, [])
  | s, chunk :: rest =>
    match s.noise.writeRecord c chunk with
    | .error e => (.error (.other ("noise encrypt: transport: ".toList ++ e)), s, [])
    | .ok (record, noise) =>
      match writeChunks c { s with noise } rest with
      | (.error e, s, wire) => (.error e, s, record ++ wire)
      | (.ok totalIn, s, wire) => (.ok (chunk.length + totalIn), s, record ++ wire)

def write (c : Cipher) (s : NoiseStream) (buf : Bytes) : Except IoError Nat × NoiseStream × Bytes :=
  s.writeChunks c (chunks noiseMaxRecordPayload buf)

def writes (c : Cipher) : NoiseStream → List Bytes → List (Except IoError Nat) × NoiseStream × Bytes
  | s, [] => ([], s, [])
  | s, buf :: bufs =>
    let r := s.write c buf
    let t := writes c r.2.1 bufs
    (r.1 :: t.1, t.2.1, r.2.2 ++ t.2.2)

def reads (c : Cipher) : NoiseStream → List Nat → List Arrival →
    List (Except IoError Bytes) × NoiseStream × List Arrival
  | s, [], as => ([], s, as)
  | s, n :: sizes, as =>
    let r := s.read c n as
    let t := reads c r.2.1 sizes r.2.2
    (r.1 :: t.1, t.2)

end NoiseStream

def okBytes (results : List (Except IoError Bytes)) : Bytes :=
  results.flatMap (fun | .ok bytes => bytes | .error _ => [])

/-! ## What goes out -/

section

variable (c : Cipher)

def record (n : Nat) (plaintext : Bytes) : Bytes :=
  msgTypeRecord :: beBytes 2 (c.encrypt n plaintext).length ++ c.encrypt n plaintext

def records : Nat → List Bytes → Bytes
  | _, [] => []
  | n, plaintext :: rest => record c n plaintext ++ records (n + 1) rest

theorem records_append (qs : List Bytes) : ∀ (ps : List Bytes) (n : Nat),
    records c n (ps ++ qs) = records c n ps ++ records c (n + ps.length) qs
  | [], _ => rfl
  | p :: ps, n => by
    rw [cons_append, records, records, records_append qs ps, append_assoc, length_cons,
      Nat.add_right_comm, Nat.add_assoc]

variable {c}

variable {p : Bytes}

theorem length_encrypt_lt (h : p.length ≤ noiseMaxRecordPayload) (n : Nat) : (c.encrypt n p).length < 2 ^ 16 := by
  rw [c.length_encrypt]
  unfold noiseMaxRecordPayload at h
  omega

theorem writeRecord_eq (h : p.length ≤ noiseMaxRecordPayload) (t : NoiseTransport) :
    t.writeRecord c p = .ok (record c t.sent p, { t with sent := t.sent + 1 }) := by
  have hmod : (c.encrypt t.sent p).length % 2 ^ 16 = (c.encrypt t.sent p).length :=
    Nat.mod_eq_of_lt (length_encrypt_lt h t.sent)
  rw [NoiseTransport.writeRecord, if_neg (by omega)]
  simp only [hmod, record]

theorem writeChunks_eq : ∀ (ps : List Bytes) (s : NoiseStream), (∀ p ∈ ps, p.length ≤ noiseMaxRecordPayload) →
    s.writeChunks c ps = (.ok ps.flatten.length,
      { s with noise := { s.noise with sent := s.noise.sent + ps.length } }, records c s.noise.sent ps)
  | [], _, _ => rfl
  | p :: ps, s, h => by
    have hp := writeRecord_eq (c := c) (h p mem_cons_self) s.noise
    have ih := writeChunks_eq ps { s with noise := { s.noise with sent := s.noise.sent + 1 } }
      (fun q hq => h q (mem_cons_of_mem _ hq))
    rw [NoiseStream.writeChunks, hp]
    simp only [ih, flatten_cons, length_append, length_cons, records]
    rw [Nat.add_right_comm, Nat.add_assoc]

def pieces (bufs : List Bytes) : List Bytes := bufs.flatMap (chunks noiseMaxRecordPayload)

theorem flatten_pieces : ∀ bufs : List Bytes, (pieces bufs).flatten = bufs.flatten
  | [] => rfl
  | buf :: bufs => by
    have hbuf : (chunks noiseMaxRecordPayload buf).flatten = buf := flatten_chunks (by decide) buf
    have ih := flatten_pieces bufs
    unfold pieces at ih ⊢
    rw [flatMap_cons, flatten_append, hbuf, ih, flatten_cons]

theorem mem_pieces {bufs : List Bytes} (h : p ∈ pieces bufs) : p ≠ [] ∧ p.length ≤ noiseMaxRecordPayload := by
  obtain ⟨buf, -, hp⟩ := mem_flatMap.1 h
  exact mem_chunks (by decide) hp

theorem writes_eq : ∀ (bufs : List Bytes) (s : NoiseStream),
    (s.writes c bufs).1 = bufs.map (fun buf => .ok buf.length) ∧
    (s.writes c bufs).2.2 = records c s.noise.sent (pieces bufs)
  | [], _ => ⟨rfl, rfl⟩
  | buf :: bufs, s => by
    have hbuf : (chunks noiseMaxRecordPayload buf).flatten = buf := flatten_chunks (by decide) buf
    have hw : s.write c buf = _ := writeChunks_eq (c := c) (chunks noiseMaxRecordPayload buf) s
      (fun p hp => (mem_chunks (by decide) hp).2)
    rw [hbuf] at hw
    obtain ⟨ih1, ih2⟩ := writes_eq bufs (s.write c buf).2.1
    have hpieces : pieces (buf :: bufs) = chunks noiseMaxRecordPayload buf ++ pieces bufs := rfl
    rw [NoiseStream.writes, hpieces, records_append]
    rw [ih1, ih2, hw]
    exact ⟨rfl, rfl⟩

theorem records_fit : ∀ (ps : List Bytes) (n : Nat), (∀ p ∈ ps, p.length ≤ noiseMaxRecordPayload) →
    ∃ cts : List Bytes, records c n ps = cts.flatMap (fun ct => msgTypeRecord :: beBytes 2 ct.length ++ ct) ∧
      ∀ ct ∈ cts, ct.length < 2 ^ 16
  | [], _, _ => ⟨[], rfl, by simp⟩
  | p :: ps, n, h => by
    obtain ⟨cts, hcts, hfit⟩ := records_fit ps (n + 1) (fun q hq => h q (mem_cons_of_mem _ hq))
    refine ⟨c.encrypt n p :: cts, ?_, ?_⟩
    · rw [records, hcts, flatMap_cons]
      rfl
    · intro ct hct
      rcases mem_cons.1 hct with rfl | hct
      · exact length_encrypt_lt (h p mem_cons_self) n
      · exact hfit ct hct

end

/-! ## What comes in -/

inductive Filled (required : Nat) (s : NoiseStream) (as : List Arrival) :
    Except IoError Unit × NoiseStream × List Arrival → Prop where
  | full {buf : Bytes} {as' : List Arrival} (hlen : required ≤ buf.length)
      (hbytes : buf ++ unread as' = s.rxBuf ++ unread as) (hw : weight as' ≤ weight as) :
      Filled required s as (.ok (), { s with rxBuf := buf }, as')
  | timedOut {buf : Bytes} {as' : List Arrival} (hbytes : buf ++ unread as' = s.rxBuf ++ unread as)
      (hw : weight as' < weight as) : Filled required s as (.error .timedOut, { s with rxBuf := buf }, as')
  | eof (hlen : (s.rxBuf ++ unread as).length < required) : Filled required s as
      (.error NoiseStream.eofMidRecord, { s with rxBuf := s.rxBuf ++ unread as, eof := true }, [])

theorem filled_fill (required : Nat) : ∀ (fuel : Nat) (s : NoiseStream) (as : List Arrival),
    (s.eof = true → as = []) → required ≤ fuel + s.rxBuf.length → Filled required s as (s.fill required fuel as)
  | 0, s, as, _, hfuel => .full (by omega) rfl (Nat.le_refl _)
  | fuel + 1, s, as, heof, hfuel => by
    unfold NoiseStream.fill
    split
    next hlen => exact .full hlen rfl (Nat.le_refl _)
    next hlen =>
      have hend : Filled required s [] (.error NoiseStream.eofMidRecord, { s with eof := true }, []) := by
        have h := @Filled.eof required s [] (by simpa using hlen)
        rwa [unread_nil, append_nil] at h
      split
      next hs =>
        cases heof hs
        rwa [← hs] at hend
      next hs =>
        have hrecv := recv_spec (n := 4096) (by decide) as
        generalize recv 4096 as = got at hrecv ⊢
        cases hrecv with
        | eof => exact hend
        | timedOut as' => exact .timedOut rfl (by simp [weight])
        | @got _ as' b bs hn hu hw =>
          -- the bytes have moved from the stream to the buffer
          have hmoved : (s.rxBuf ++ b :: bs) ++ unread as' = s.rxBuf ++ unread as := by rw [hu, append_assoc]
          rw [length_cons] at hw
          have ih := filled_fill required fuel { s with rxBuf := s.rxBuf ++ b :: bs } as' (fun h => absurd h hs) (by
            simp only [length_append, length_cons]
            omega)
          simp only
          generalize NoiseStream.fill required fuel { s with rxBuf := s.rxBuf ++ b :: bs } as' = r at ih ⊢
          cases ih with
          | full hlen' hbytes hw' => exact .full hlen' (hbytes.trans hmoved) (by omega)
          | timedOut hbytes hw' => exact .timedOut (hbytes.trans hmoved) (by omega)
          | eof hlen' =>
            simp only [hmoved] at hlen' ⊢
            exact .eof hlen'

variable {as : List Arrival} {ps : List Bytes} {s : NoiseStream} {whole : Prop}

theorem filled (required : Nat) (heof : s.eof = true → as = []) :
    Filled required s as (s.fillUntil required as) := filled_fill required _ s as heof (by omega)

theorem header_of_prefix {c : Cipher} {n : Nat} {p buf rest : Bytes} (hp : p.length ≤ noiseMaxRecordPayload)
    (hpre : buf <+: record c n p ++ rest) (hlen : headerLen ≤ buf.length) :
    buf.getD 0 0 = msgTypeRecord ∧
    headerLen + beNat [buf.getD 1 0, buf.getD 2 0] = (record c n p).length := by
  obtain ⟨b1, b2, hb⟩ : ∃ b1 b2, beBytes 2 (c.encrypt n p).length = [b1, b2] := ⟨_, _, rfl⟩
  have hnat : beNat [b1, b2] = (c.encrypt n p).length := by
    rw [← hb, beNat_beBytes, Nat.mod_eq_of_lt]
    exact length_encrypt_lt hp n
  unfold record at hpre ⊢
  rw [hb] at hpre ⊢
  unfold headerLen at hlen ⊢
  obtain ⟨more, hmore⟩ := hpre
  match buf, hlen, hmore with
  | x :: y :: z :: buf, _, hmore =>
    simp only [cons_append, List.cons.injEq] at hmore
    obtain ⟨rfl, rfl, rfl, -⟩ := hmore
    refine ⟨rfl, ?_⟩
    simp only [getD_cons_succ, getD_cons_zero, hnat, cons_append, nil_append, length_cons]
    omega

theorem length_record_lt {c : Cipher} {n : Nat} {p : Bytes} : headerLen < (record c n p).length := by
  simp only [record, headerLen, length_append, length_cons, length_beBytes, c.length_encrypt]
  omega

theorem drop_record (c : Cipher) (n : Nat) (p : Bytes) : (record c n p).drop headerLen = c.encrypt n p := rfl

/-- What draining a record does, when what was received is a prefix of the records of `ps`: it opens the first of
them, nothing came in time, or the stream ended before the record did. -/
inductive Drained (c : Cipher) (s : NoiseStream) (as : List Arrival) (ps : List Bytes) :
    Except IoError Unit × NoiseStream × List Arrival → Prop where
  | opened {p : Bytes} {ps' : List Bytes} {buf : Bytes} {as' : List Arrival} (hps : ps = p :: ps')
      (hbytes : record c s.noise.received p ++ (buf ++ unread as') = s.rxBuf ++ unread as)
      (hw : weight as' ≤ weight as) :
      Drained c s as ps (.ok (),
        { s with noise.received := s.noise.received + 1, rxBuf := buf, rxPlain := s.rxPlain ++ p }, as')
  | timedOut {buf : Bytes} {as' : List Arrival} (hbytes : buf ++ unread as' = s.rxBuf ++ unread as)
      (hw : weight as' < weight as) : Drained c s as ps (.error .timedOut, { s with rxBuf := buf }, as')
  | eof (hshort : ∀ p ps', ps = p :: ps' → (s.rxBuf ++ unread as).length < (record c s.noise.received p).length) :
      Drained c s as ps (.error NoiseStream.eofMidRecord, { s with rxBuf := s.rxBuf ++ unread as, eof := true }, [])

theorem weight_eq_zero (h : weight as = 0) : as = [] := by
  match as, h with
  | [], _ => rfl
  | .data b bs :: as, h => simp [weight] at h
  | .timeout :: as, h => simp [weight] at h

theorem drained {c : Cipher} (heof : s.eof = true → as = []) (hps : ∀ p ∈ ps, p.length ≤ noiseMaxRecordPayload)
    (hpre : s.rxBuf ++ unread as <+: records c s.noise.received ps) : Drained c s as ps (s.drainOneRecord c as) := by
  unfold NoiseStream.drainOneRecord
  have hfill := filled headerLen heof
  generalize s.fillUntil headerLen as = r at hfill ⊢
  cases hfill with
  | timedOut hbytes hw => exact .timedOut hbytes hw
  | eof hlen => exact .eof (fun p ps' _ => Nat.lt_trans hlen length_record_lt)
  | @full buf as' hlen hbytes hw =>
    match ps, hps, hpre with
    | [], _, hpre =>
      -- three bytes, of a wire that is empty
      rw [← hbytes, records, prefix_nil] at hpre
      have hnil : buf = [] := (append_eq_nil_iff.1 hpre).1
      rw [hnil] at hlen
      exact absurd hlen (by decide)
    | p :: ps, hps, hpre =>
      have hp := hps p mem_cons_self
      rw [records, ← hbytes] at hpre
      obtain ⟨htype, htotal⟩ := header_of_prefix hp ((prefix_append buf (unread as')).trans hpre) hlen
      simp only [htype, ne_eq, not_true_eq_false, if_false, htotal]
      have heof' : s.eof = true → as' = [] := fun h => by
        rw [heof h] at hw
        exact weight_eq_zero (Nat.le_zero.1 hw)
      have hfill' := filled (record c s.noise.received p).length (s := { s with rxBuf := buf }) heof'
      generalize NoiseStream.fillUntil (record c s.noise.received p).length { s with rxBuf := buf } as' = r at hfill' ⊢
      cases hfill' with
      | timedOut hbytes' hw' => exact .timedOut (hbytes'.trans hbytes) (by omega)
      | eof hlen' =>
        simp only [hbytes] at hlen' ⊢
        refine .eof (fun q qs hq => ?_)
        cases hq
        exact hlen'
      | @full buf' as'' hlen' hbytes' hw' =>
        rw [← hbytes'] at hpre
        obtain ⟨rest, hrest⟩ : record c s.noise.received p <+: buf' :=
          prefix_of_prefix_length_le (prefix_append _ _) ((prefix_append buf' _).trans hpre) hlen'
        have hopen : s.noise.decryptRecord c (c.encrypt s.noise.received p) =
            .ok (p, { s.noise with received := s.noise.received + 1 }) := by
          rw [NoiseTransport.decryptRecord, c.decrypt_encrypt]
        rw [← hrest] at hbytes' ⊢
        simp only [take_left, drop_left, drop_record, hopen]
        refine .opened rfl ?_ (Nat.le_trans hw' hw)
        rw [← append_assoc, hbytes', hbytes]

/-! ## Reads -/

structure Awaits (c : Cipher) (whole : Prop) (s : NoiseStream) (as : List Arrival) (ps : List Bytes) : Prop where
  eof : s.eof = true → as = []
  sized : ∀ p ∈ ps, p ≠ [] ∧ p.length ≤ noiseMaxRecordPayload
  wire : s.rxBuf ++ unread as <+: records c s.noise.received ps
  whole : whole → s.rxBuf ++ unread as = records c s.noise.received ps

theorem Awaits.moved {c : Cipher} {as' : List Arrival}
    (h : Awaits c whole s as ps) {buf : Bytes} {eof : Bool} (hbytes : buf ++ unread as' = s.rxBuf ++ unread as)
    (heof : eof = true → as' = []) : Awaits c whole { s with rxBuf := buf, eof := eof } as' ps where
  eof := heof
  sized := h.sized
  wire := by simpa only [hbytes] using h.wire
  whole := by simpa only [hbytes] using h.whole

inductive Got (c : Cipher) (whole : Prop) (n : Nat) (s : NoiseStream) (as : List Arrival) (ps : List Bytes) :
    Except IoError Bytes × NoiseStream × List Arrival → Prop where
  | ok {out : Bytes} {s' : NoiseStream} {as' : List Arrival} {ps' : List Bytes} (h : Awaits c whole s' as' ps')
      (hout : out ++ (s'.rxPlain ++ ps'.flatten) = s.rxPlain ++ ps.flatten) (hsome : 0 < n → 0 < out.length)
      (hw : weight as' ≤ weight as) : Got c whole n s as ps (.ok out, s', as')
  | timedOut {s' : NoiseStream} {as' : List Arrival} (h : Awaits c whole s' as' ps) (hplain : s'.rxPlain = s.rxPlain)
      (hnoise : s'.noise = s.noise) (hbytes : s'.rxBuf ++ unread as' = s.rxBuf ++ unread as)
      (hw : weight as' < weight as) : Got c whole n s as ps (.error .timedOut, s', as')
  | eof {s' : NoiseStream} (h : Awaits c whole s' [] ps) (hplain : s'.rxPlain = s.rxPlain)
      (hread : whole → s.rxPlain = [] ∧ ps = []) : Got c whole n s as ps (.error NoiseStream.eofMidRecord, s', [])

theorem got_of_plain {c : Cipher} (h : Awaits c whole s as ps) (hplain : s.rxPlain ≠ []) (n : Nat) :
    Got c whole n s as ps (.ok (s.rxPlain.take n), { s with rxPlain := s.rxPlain.drop n }, as) := by
  have hrest : Awaits c whole { s with rxPlain := s.rxPlain.drop n } as ps := ⟨h.eof, h.sized, h.wire, h.whole⟩
  refine .ok hrest ?_ (fun hn => ?_) (Nat.le_refl _)
  · rw [← append_assoc, take_append_drop]
  · have hlen := length_pos_iff.2 hplain
    rw [length_take]
    omega

theorem read_spec {c : Cipher} (h : Awaits c whole s as ps) (n : Nat) : Got c whole n s as ps (s.read c n as) := by
  unfold NoiseStream.read
  by_cases hplain : s.rxPlain = []
  · rw [if_pos hplain]
    have hdrain := drained h.eof (fun p hp => (h.sized p hp).2) h.wire
    generalize s.drainOneRecord c as = r at hdrain ⊢
    cases hdrain with
    | timedOut hbytes hw =>
      refine .timedOut (h.moved hbytes (fun he => ?_)) rfl rfl hbytes hw
      rw [h.eof he] at hw
      exact absurd hw (Nat.not_lt_zero _)
    | eof hshort =>
      refine .eof (h.moved (append_nil _) (fun _ => rfl)) rfl (fun hall => ⟨hplain, ?_⟩)
      match ps, hshort, h.whole hall with
      | [], _, _ => rfl
      | p :: ps, hshort, hall =>
        have hlt := hshort p ps rfl
        rw [hall, records, length_append] at hlt
        omega
    | @opened p ps' buf as' hps hbytes hw =>
      subst hps
      have hp := h.sized p mem_cons_self
      have hnext : Awaits c whole
          { s with noise.received := s.noise.received + 1, rxBuf := buf, rxPlain := s.rxPlain ++ p } as' ps' := by
        refine ⟨fun he => ?_, fun q hq => h.sized q (mem_cons_of_mem _ hq), ?_, fun hall => ?_⟩
        · rw [h.eof he] at hw
          exact weight_eq_zero (Nat.le_zero.1 hw)
        · have hwire := h.wire
          rw [← hbytes, records] at hwire
          exact (prefix_append_right_inj _).1 hwire
        · have hwhole := h.whole hall
          rw [← hbytes, records] at hwhole
          exact append_cancel_left hwhole
      have hgot := got_of_plain hnext (by simp [hp.1]) n
      cases hgot with
      | ok h' hout hsome hw' =>
        refine .ok h' (hout.trans ?_) hsome (Nat.le_trans hw' hw)
        rw [flatten_cons, append_assoc]
  · rw [if_neg hplain]
    exact got_of_plain h hplain n

theorem reads_spec {c : Cipher} : ∀ (sizes : List Nat) {s : NoiseStream} {as : List Arrival}
    {ps : List Bytes}, Awaits c whole s as ps →
      ∃ ps', Awaits c whole (s.reads c sizes as).2.1 (s.reads c sizes as).2.2 ps' ∧
        okBytes (s.reads c sizes as).1 ++ ((s.reads c sizes as).2.1.rxPlain ++ ps'.flatten) = s.rxPlain ++ ps.flatten
  | [], s, as, ps, h => ⟨ps, h, rfl⟩
  | n :: sizes, s, as, ps, h => by
    have hgot := read_spec h n
    unfold NoiseStream.reads
    generalize s.read c n as = r at hgot ⊢
    cases hgot with
    | ok h' hout hsome hw =>
      obtain ⟨ps', hps', ih⟩ := reads_spec sizes h'
      refine ⟨ps', hps', ?_⟩
      rw [okBytes, flatMap_cons, append_assoc]
      exact (congrArg _ ih).trans hout
    | timedOut h' hplain hnoise hbytes hw | eof h' hplain hread =>
      obtain ⟨ps', hps', ih⟩ := reads_spec sizes h'
      exact ⟨ps', hps', by rw [hplain] at ih; exact ih⟩

theorem reads_all {c : Cipher} : ∀ (sizes : List Nat) {s : NoiseStream} {as : List Arrival} {ps : List Bytes},
    Awaits c True s as ps → (s.rxPlain ++ ps.flatten).length + weight as ≤ (sizes.filter (0 < ·)).length →
      okBytes (s.reads c sizes as).1 = s.rxPlain ++ ps.flatten
  | [], s, as, ps, h, hlen => by
    rw [filter_nil, length_nil] at hlen
    have hnil : s.rxPlain ++ ps.flatten = [] := length_eq_zero_iff.1 (by omega)
    rw [hnil]
    rfl
  | n :: sizes, s, as, ps, h, hlen => by
    have hcount : ((n :: sizes).filter (0 < ·)).length ≤ (sizes.filter (0 < ·)).length + 1 := by
      rw [filter_cons]
      split <;> simp
    have hgot := read_spec h n
    unfold NoiseStream.reads
    generalize s.read c n as = r at hgot ⊢
    cases hgot with
    | @ok out s' as' ps' h' hout hsome hw =>
      have hsplit := congrArg List.length hout
      rw [length_append] at hsplit
      have hzero : n = 0 → ((n :: sizes).filter (0 < ·)).length = (sizes.filter (0 < ·)).length := fun hn => by
        rw [filter_cons_of_neg (by simp [hn])]
      have ih := reads_all sizes h' (by
        by_cases hn : n = 0
        · rw [hzero hn] at hlen
          omega
        · have := hsome (Nat.pos_of_ne_zero hn)
          omega)
      rw [okBytes, flatMap_cons]
      exact (congrArg _ ih).trans hout
    | timedOut h' hplain hnoise hbytes hw =>
      have ih := reads_all sizes h' (by rw [hplain]; omega)
      rwa [hplain] at ih
    | eof h' hplain hread =>
      -- nothing was left, so no later read returns anything
      obtain ⟨hnil, rfl⟩ := hread trivial
      obtain ⟨ps', -, hrest⟩ := reads_spec sizes h'
      rw [hplain, hnil] at hrest
      rw [hnil]
      exact (append_eq_nil_iff.1 hrest).1

/-- **A record stream loses nothing and reorders nothing**: however the buffers were cut into `write` calls, and
however the wire arrives, what the reads return is a prefix of what was written; a read that times out leaves every
byte in place; with the whole wire delivered, enough reads return it all. Every record's length fits its sixteen bits.
-/
theorem noise_stream_delivers (c : Cipher) (sender : NoiseStream) (bufs : List Bytes) :
    (sender.writes c bufs).1 = bufs.map (fun buf => .ok buf.length) ∧
    (∃ cts : List Bytes,
      (sender.writes c bufs).2.2 = cts.flatMap (fun ct => msgTypeRecord :: beBytes 2 ct.length ++ ct) ∧
        ∀ ct ∈ cts, ct.length < 2 ^ 16) ∧
    ∀ (noise : NoiseTransport) (leftover : Bytes) (as : List Arrival) (sizes : List Nat),
      noise.received = sender.noise.sent → leftover ++ unread as <+: (sender.writes c bufs).2.2 →
        okBytes ((NoiseStream.new noise leftover).reads c sizes as).1 <+: bufs.flatten ∧
        (∀ n s' as' s'' as'', ((NoiseStream.new noise leftover).reads c sizes as).2 = (s', as') →
          s'.read c n as' = (.error .timedOut, s'', as'') →
            s''.rxPlain = s'.rxPlain ∧ s''.noise = s'.noise ∧ s''.rxBuf ++ unread as'' = s'.rxBuf ++ unread as') ∧
        (leftover ++ unread as = (sender.writes c bufs).2.2 →
          bufs.flatten.length + weight as ≤ (sizes.filter (0 < ·)).length →
            okBytes ((NoiseStream.new noise leftover).reads c sizes as).1 = bufs.flatten) := by
  obtain ⟨htaken, hwire⟩ := writes_eq (c := c) bufs sender
  rw [hwire]
  refine ⟨htaken, records_fit _ _ (fun p hp => (mem_pieces hp).2), fun noise leftover as sizes hcount hpre => ?_⟩
  rw [← hcount] at hpre ⊢
  have hawaits : ∀ whole : Prop, (whole → leftover ++ unread as = records c noise.received (pieces bufs)) →
      Awaits c whole (NoiseStream.new noise leftover) as (pieces bufs) := fun whole hw =>
    ⟨nofun, fun p hp => mem_pieces hp, hpre, hw⟩
  have hplain : (NoiseStream.new noise leftover).rxPlain ++ (pieces bufs).flatten = bufs.flatten := flatten_pieces bufs
  obtain ⟨ps', hps', hrun⟩ := reads_spec sizes (hawaits False False.elim)
  refine ⟨?_, fun n s' as' s'' as'' hs htimed => ?_, fun hall hlen => ?_⟩
  · rw [hplain] at hrun
    exact ⟨_, hrun⟩
  · rw [hs] at hps'
    have hgot := read_spec hps' n
    rw [htimed] at hgot
    cases hgot with
    | timedOut h hplain hnoise hbytes hw => exact ⟨hplain, hnoise, hbytes⟩
  · have hread := reads_all sizes (hawaits True (fun _ => hall)) (by rwa [hplain])
    rwa [hplain] at hread

def markCipher : Cipher where
  encrypt n plaintext := List.replicate 16 (BitVec.ofNat 8 n) ++ plaintext
  decrypt n ct := if ct.take 16 = List.replicate 16 (BitVec.ofNat 8 n) then some (ct.drop 16) else none
  decrypt_encrypt n plaintext := by
    rw [List.take_left' List.length_replicate, List.drop_left' List.length_replicate, if_pos rfl]
  length_encrypt n plaintext := by
    rw [List.length_append, List.length_replicate, Nat.add_comm]

theorem noise_stream_delivers_cut_header :
    let sender : NoiseStream := { noise := {} }
    let wire := (sender.writes markCipher [[1, 2, 3], [], [4]]).2.2
    let as : List Arrival := [.timeout, .data 19 (wire.drop 3)]
    wire.take 2 ++ unread as = wire ∧
      okBytes ((NoiseStream.new {} (wire.take 2)).reads markCipher (0 :: List.replicate 60 2) as).1 = [1, 2, 3, 4] := by
  intro sender wire as
  have hall : wire.take 2 ++ unread as = wire := by decide +kernel
  have hpre : wire.take 2 ++ unread as <+: wire := ⟨[], by rw [hall, append_nil]⟩
  have h := (noise_stream_delivers markCipher sender [[1, 2, 3], [], [4]]).2.2 {} (wire.take 2) as
    (0 :: List.replicate 60 2) rfl hpre
  exact ⟨hall, h.2.2 hall (by decide +kernel)⟩

end TailscaleVita.Noise

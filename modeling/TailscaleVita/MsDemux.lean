import TailscaleVita.DiscoPacket
import TailscaleVita.MsWorld
import TailscaleVita.WgPump
/-!
# MsDemux — who is given a datagram (`ts-magicsock/src/lib.rs`, `ts-magicsock/src/stun.rs`)

A datagram with the STUN cookie in its second word is taken for STUN, one with the disco magic for disco, anything else
is WireGuard's. The second word of a WireGuard message is an index, chosen at random by one side: nothing keeps it from
being the cookie.
-/
namespace TailscaleVita.Ms

/-! ## The recognisers -/

def stunMagicCookie : Nat := 0x2112A442

def stunHeaderLen : Nat := 20

def looksLikeStun (bytes : Bytes) : Bool :=
  decide (stunHeaderLen ≤ bytes.length) && decide (beNat ((bytes.drop 4).take 4) = stunMagicCookie)

def readMessage (senderPub : DiscoKey) (plaintext : Disco.Packet .plaintext) : Opened :=
  match plaintext.ty with
  | some .ping => (plaintext.asMsg Disco.Ping).map (fun ping => (senderPub, .ping ping.txId.get))
  | some .pong => (plaintext.asMsg Disco.Pong).map (fun pong => (senderPub, .pong pong.txId.get))
  | some .callMeMaybe => (plaintext.asMsg Disco.CallMeMaybe).map (fun cmm =>
      (senderPub, .callMeMaybe (cmm.endpoints.map Disco.Endpoint.socketAddr)))
  | _ => none

def openDatagram (box : Disco.SalsaBox) (ourDiscoPriv : Octets 32) (bytes : Bytes) : Opened :=
  match Disco.Packet.fromEncryptedBytesMut bytes with
  | .error _ => none
  | .ok encrypted =>
    match encrypted.decryptInPlace box ourDiscoPriv with
    | .error _ => none
    | .ok plaintext => readMessage encrypted.header.senderPub.get plaintext

/-! ## The demultiplexer -/

structure NonDiscoChannel where
  cap : Option Nat
  receivers : Nat
  queue : List (SocketAddr × Bytes)
deriving DecidableEq

def NonDiscoChannel.hasRoom (ch : NonDiscoChannel) : Bool :=
  decide (0 < ch.receivers) && (match ch.cap with
    | some cap => decide (ch.queue.length < cap)
    | none => true)

def NonDiscoChannel.push (ch : NonDiscoChannel) (packet : SocketAddr × Bytes) : NonDiscoChannel :=
  { ch with queue := ch.queue ++ [packet] }

def NonDiscoChannel.trySend (ch : NonDiscoChannel) (packet : SocketAddr × Bytes) : NonDiscoChannel :=
  if ch.hasRoom then ch.push packet else ch

inductive Consumer where
  | stun (bytes : Bytes) (src : SocketAddr)
  | disco (request : Request)

def handleRecv (box : Disco.SalsaBox) (ourDiscoPriv : Octets 32) (bytes : Bytes) (src : SocketAddr)
    (nonDiscoTx : NonDiscoChannel) : NonDiscoChannel × Option Consumer :=
  if looksLikeStun bytes then (nonDiscoTx, some (.stun bytes src))
  else if !Disco.isDiscoMessage bytes then (nonDiscoTx.trySend (src, bytes), none)
  else (nonDiscoTx, some (.disco (.datagram src (openDatagram box ourDiscoPriv bytes))))

def cookieBytes : Bytes := [0x21, 0x12, 0xA4, 0x42]

variable {b : Bytes}

theorem looksLikeStun_iff (h : stunHeaderLen ≤ b.length) :
    looksLikeStun b = true ↔ (b.drop 4).take 4 = cookieBytes := by
  have hword : ((b.drop 4).take 4).length = 4 := by
    unfold stunHeaderLen at h
    rw [List.length_take, List.length_drop]
    omega
  simp only [looksLikeStun, h, decide_true, Bool.true_and, decide_eq_true_eq]
  constructor
  · intro hcookie
    have hbytes := beBytes_beNat ((b.drop 4).take 4)
    rw [hword, hcookie] at hbytes
    rw [← hbytes]
    decide
  · intro hcookie
    rw [hcookie]
    decide

/-! ## WireGuard messages -/

def wgLength (msgType : BitVec 32) (n : Nat) : Bool :=
  decide (msgType = Wg.handshakeInit ∧ n = 148 ∨ msgType = Wg.handshakeResp ∧ n = 92 ∨
    msgType = Wg.cookieReply ∧ n = 64 ∨ msgType = Wg.packetData ∧ 32 ≤ n)

/-- A WireGuard message: a type of 1..4 and a length for it, everything else arbitrary. -/
def isWireGuard (b : Bytes) : Bool := wgLength (Wg.u32At b 0) b.length

theorem le_length_of_isWireGuard (h : isWireGuard b = true) : 32 ≤ b.length := by
  simp only [isWireGuard, wgLength, decide_eq_true_eq] at h
  omega

theorem type_of_isWireGuard (h : isWireGuard b = true) : (Wg.u32At b 0).toNat ≤ 4 := by
  simp only [isWireGuard, wgLength, decide_eq_true_eq] at h
  rcases h with h | h | h | h <;> rw [h.1] <;> decide

theorem head_le_of_isWireGuard (h : isWireGuard b = true) : ∃ x rest, b = x :: rest ∧ x.toNat ≤ 4 := by
  have hlen := le_length_of_isWireGuard h
  have htype := type_of_isWireGuard h
  match b with
  | [] => simp at hlen
  | x :: rest =>
    refine ⟨x, rest, rfl, ?_⟩
    simp only [Wg.u32At, fromLeBytes, List.drop_zero, BitVec.toNat_ofNat] at htype
    rw [show (x :: rest).take 4 = x :: rest.take 3 from rfl, leNat] at htype
    omega

theorem head_of_isDiscoMessage {x : BitVec 8} {rest : Bytes} (h : Disco.isDiscoMessage (x :: rest) = true) :
    x = 0x54 := by
  unfold Disco.isDiscoMessage Disco.Header.fromBytes at h
  cases hr : Disco.Header.read (x :: rest) with
  | none => simp [hr] at h
  | some p =>
    obtain ⟨hd, tail⟩ := p
    by_cases hm : hd.magic = Disco.Header.magicBytes
    · simp only [Disco.Header.read, Option.bind_eq_bind, Option.bind_eq_some_iff, Prod.exists, Option.pure_def] at hr
      obtain ⟨magic, b1, h1, pub, b2, h2, nonce, b3, h3, hhd⟩ := hr
      cases hhd
      have hb := Octets.eq_append_of_split h1
      rw [show magic = Disco.Header.magicBytes from hm] at hb
      exact (List.cons.inj hb).1
    · simp [hr, Disco.Header.validate, hm, Except.map] at h

theorem isDiscoMessage_of_isWireGuard (h : isWireGuard b = true) : Disco.isDiscoMessage b = false := by
  obtain ⟨x, rest, rfl, hx⟩ := head_le_of_isWireGuard h
  cases hd : Disco.isDiscoMessage (x :: rest) with
  | false => rfl
  | true =>
    rw [head_of_isDiscoMessage hd] at hx
    exact absurd hx (by decide)

/-- **Who is given a WireGuard message**: from every source, a message is handed over unchanged when there is room, and
to nobody else, exactly when its index is not the STUN cookie; otherwise the STUN handler has it. The disco handler
never does. -/
theorem wireguard_handed_over_iff (box : Disco.SalsaBox) (ourDiscoPriv : Octets 32) (b : Bytes) (src : SocketAddr)
    (ch : NonDiscoChannel) (hwg : isWireGuard b = true) (hroom : ch.hasRoom = true) :
    (handleRecv box ourDiscoPriv b src ch = (ch.push (src, b), none) ↔ (b.drop 4).take 4 ≠ cookieBytes) ∧
      ((b.drop 4).take 4 = cookieBytes → handleRecv box ourDiscoPriv b src ch = (ch, some (.stun b src))) ∧
      ∀ request, (handleRecv box ourDiscoPriv b src ch).2 ≠ some (.disco request) := by
  have hstun := looksLikeStun_iff (Nat.le_trans (by decide) (le_length_of_isWireGuard hwg))
  have hdisco := isDiscoMessage_of_isWireGuard hwg
  by_cases hcookie : (b.drop 4).take 4 = cookieBytes
  · simp [handleRecv, hstun.2 hcookie, hcookie]
  · have hno : looksLikeStun b = false := Bool.eq_false_iff.2 (fun h => hcookie (hstun.1 h))
    simp [handleRecv, hno, hdisco, NonDiscoChannel.trySend, hroom, hcookie]

def initiation (index : Bytes) : Bytes := [1, 0, 0, 0] ++ (index ++ List.replicate 140 0)

theorem wireguard_handed_over_initiation :
    let ch : NonDiscoChannel := ⟨none, 1, []⟩
    let src := SocketAddr.v4 0x0A000001 41641
    handleRecv Disco.clearBox (Octets.new 0) (initiation [7, 0, 0, 0]) src ch =
      (ch.push (src, initiation [7, 0, 0, 0]), none) := by
  intro ch src
  exact (wireguard_handed_over_iff Disco.clearBox (Octets.new 0) (initiation [7, 0, 0, 0]) src ch (by decide +kernel)
    (by decide)).1.2 (by decide)

/-- The engine never sees an initiation with the index `0x42A41221`. -/
theorem initiation_taken_for_stun :
    let ch : NonDiscoChannel := ⟨none, 1, []⟩
    let src := SocketAddr.v4 0x0A000001 41641
    let b := initiation [0x21, 0x12, 0xA4, 0x42]
    isWireGuard b = true ∧ ch.hasRoom = true ∧
      handleRecv Disco.clearBox (Octets.new 0) b src ch = (ch, some (.stun b src)) := by
  intro ch src b
  have hstun : looksLikeStun b = true := by decide +kernel
  exact ⟨by decide +kernel, rfl, by simp only [handleRecv, hstun, if_true]⟩

end TailscaleVita.Ms

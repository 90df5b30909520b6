import Mathlib.Data.Fin.VecNotation
import Mathlib.Data.Fintype.Basic
import Mathlib.Tactic.FinCases
import TailscaleVita.Octets
import TailscaleVita.StdNet
/-!
# DiscoPacket — the disco wire format (`ts-disco`)

A packet is a header (magic, sender, nonce), a tag and a payload; opened, the payload is a type byte, a version byte
and a message. The source reads and writes all of this in place, by casting a buffer. The cipher is a `SalsaBox`: what
was sealed for a key opens under it.
-/
namespace TailscaleVita.Disco

open Octets BitVec

inductive Error where
  | cryptoFailed
  | wrongMagic
  | unknownVersion
  | tooShort
deriving DecidableEq

/-! ## Endpoints -/

def ipv6New (s : Fin 8 → BitVec 16) : Ipv6Addr := s 0 ++ s 1 ++ s 2 ++ s 3 ++ s 4 ++ s 5 ++ s 6 ++ s 7

def segments (ip : Ipv6Addr) (i : Fin 8) : BitVec 16 := (ip >>> (16 * (7 - i.val))).setWidth 16

def toIpv6Mapped (ip : Ipv4Addr) : Ipv6Addr := 0xffff#96 ++ ip

def toIpv4Mapped (ip : Ipv6Addr) : Option Ipv4Addr := if ip >>> 32 = 0xffff then some (ip.setWidth 32) else none

structure Endpoint where
  segs : Fin 8 → Octets 2
  portBytes : Octets 2
deriving DecidableEq

namespace Endpoint

def addrV6 (e : Endpoint) : Ipv6Addr := ipv6New (fun i => (e.segs i).get)

def port (e : Endpoint) : BitVec 16 := e.portBytes.get

/-- `addr` and `socket_addr`: an IPv4 address is unwrapped; there is no flow label and no scope. -/
def socketAddr (e : Endpoint) : SocketAddr :=
  match toIpv4Mapped e.addrV6 with
  | some v4 => .v4 v4 e.port
  | none => .v6 e.addrV6 e.port 0 0

def fromV6Segments (s : Fin 8 → BitVec 16) (port : BitVec 16) : Endpoint where
  segs i := new (n := 2) (s i)
  portBytes := new (n := 2) port

def fromSocketAddr : SocketAddr → Endpoint
  | .v4 ip port => fromV6Segments (segments (toIpv6Mapped ip)) port
  | .v6 ip port _ _ => fromV6Segments (segments ip) port

end Endpoint

theorem toNat_append_add {v w : Nat} (x : BitVec v) (y : BitVec w) : (x ++ y).toNat = x.toNat * 2 ^ w + y.toNat := by
  rw [toNat_append, ← Nat.shiftLeft_add_eq_or_of_lt y.isLt, Nat.shiftLeft_eq]

theorem ipv6New_segments (ip : Ipv6Addr) : ipv6New (segments ip) = ip := by
  apply eq_of_toNat_eq
  simp only [ipv6New, toNat_append_add, segments, toNat_setWidth, toNat_ushiftRight,
    Nat.shiftRight_eq_div_pow, Fin.isValue, Fin.coe_ofNat_eq_mod, Nat.zero_mod, Nat.sub_zero, Nat.reduceMul,
    Nat.reducePow, Nat.one_mod, Nat.add_one_sub_one, Nat.reduceMod, Nat.reduceSub, Nat.mul_one, Nat.mod_succ,
    Nat.sub_self, Nat.mul_zero, Nat.pow_zero, Nat.div_one]
  omega

theorem toIpv4Mapped_toIpv6Mapped (ip : Ipv4Addr) : toIpv4Mapped (toIpv6Mapped ip) = some ip := by
  have hhigh : toIpv6Mapped ip >>> 32 = 0xffff := by
    apply eq_of_toNat_eq
    rw [toNat_ushiftRight, toIpv6Mapped, toNat_append_add, Nat.shiftRight_eq_div_pow]
    simp only [toNat_ofNat, Nat.reducePow, Nat.reduceMod, Nat.reduceMul, ofNat_eq_ofNat]
    omega
  have hlow : (toIpv6Mapped ip).setWidth 32 = ip := by
    apply eq_of_toNat_eq
    rw [toNat_setWidth, toIpv6Mapped, toNat_append_add]
    omega
  rw [toIpv4Mapped, if_pos hhigh, hlow]

theorem addrV6_fromV6Segments (ip : Ipv6Addr) (port : BitVec 16) :
    (Endpoint.fromV6Segments (segments ip) port).addrV6 = ip := by
  unfold Endpoint.addrV6 Endpoint.fromV6Segments
  simp only [get_new]
  exact ipv6New_segments ip

theorem port_fromV6Segments (s : Fin 8 → BitVec 16) (port : BitVec 16) :
    (Endpoint.fromV6Segments s port).port = port := get_new (n := 2) port

/-- `IpAddr::to_canonical` of the address, with its port, flow label and scope. -/
def toCanonical : SocketAddr → SocketAddr
  | .v4 ip port => .v4 ip port
  | .v6 ip port flowinfo scopeId =>
    match toIpv4Mapped ip with
    | some v4 => .v4 v4 port
    | none => .v6 ip port flowinfo scopeId

def unscoped : SocketAddr → SocketAddr
  | .v4 ip port => .v4 ip port
  | .v6 ip port _ _ => .v6 ip port 0 0

theorem socketAddr_fromSocketAddr (a : SocketAddr) :
    (Endpoint.fromSocketAddr a).socketAddr = unscoped (toCanonical a) := by
  cases a with
  | v4 ip port =>
    simp only [Endpoint.fromSocketAddr, Endpoint.socketAddr, addrV6_fromV6Segments, port_fromV6Segments,
      toIpv4Mapped_toIpv6Mapped, toCanonical, unscoped]
  | v6 ip port flowinfo scopeId =>
    simp only [Endpoint.fromSocketAddr, Endpoint.socketAddr, addrV6_fromV6Segments, port_fromV6Segments, toCanonical]
    cases toIpv4Mapped ip <;> rfl

def viewEndpoint (bs : Bytes) : Option Endpoint := do
  let (s₀, bs) ← split 2 bs
  let (s₁, bs) ← split 2 bs
  let (s₂, bs) ← split 2 bs
  let (s₃, bs) ← split 2 bs
  let (s₄, bs) ← split 2 bs
  let (s₅, bs) ← split 2 bs
  let (s₆, bs) ← split 2 bs
  let (s₇, bs) ← split 2 bs
  let port ← exact 2 bs
  return ⟨![s₀, s₁, s₂, s₃, s₄, s₅, s₆, s₇], port⟩

def endpointBytes (e : Endpoint) : Bytes :=
  (e.segs 0).1 ++ ((e.segs 1).1 ++ ((e.segs 2).1 ++ ((e.segs 3).1 ++ ((e.segs 4).1 ++ ((e.segs 5).1 ++
    ((e.segs 6).1 ++ ((e.segs 7).1 ++ e.portBytes.1)))))))

theorem viewEndpoint_endpointBytes (e : Endpoint) : viewEndpoint (endpointBytes e) = some e := by
  have hsegs : ![e.segs 0, e.segs 1, e.segs 2, e.segs 3, e.segs 4, e.segs 5, e.segs 6, e.segs 7] = e.segs := by
    funext i
    fin_cases i <;> rfl
  simp only [viewEndpoint, endpointBytes, split_append, exact_val, Option.bind_eq_bind,
    Option.bind_some, Option.pure_def, hsegs]

theorem endpointBytes_of_viewEndpoint {bs : Bytes} {e : Endpoint} (h : viewEndpoint bs = some e) :
    endpointBytes e = bs := by
  simp only [viewEndpoint, Option.bind_eq_bind, Option.bind_eq_some_iff, Prod.exists, Option.pure_def] at h
  obtain ⟨s0, b0, h0, s1, b1, h1, s2, b2, h2, s3, b3, h3, h⟩ := h
  obtain ⟨s4, b4, h4, s5, b5, h5, s6, b6, h6, s7, b7, h7, p, hp, he⟩ := h
  cases he
  rw [eq_append_of_split h0, eq_append_of_split h1, eq_append_of_split h2,
    eq_append_of_split h3, eq_append_of_split h4, eq_append_of_split h5,
    eq_append_of_split h6, eq_append_of_split h7, eq_of_exact hp]
  rfl

def endpointSize : Nat := 18

theorem length_endpointBytes (e : Endpoint) : (endpointBytes e).length = endpointSize := by
  simp only [endpointBytes, List.length_append, (e.segs _).2, e.portBytes.2]
  rfl

theorem exists_viewEndpoint {bs : Bytes} (h : bs.length = endpointSize) : ∃ e, viewEndpoint bs = some e := by
  unfold endpointSize at h
  obtain ⟨s0, b0, h0, l0⟩ := exists_split 2 bs (by omega)
  obtain ⟨s1, b1, h1, l1⟩ := exists_split 2 b0 (by omega)
  obtain ⟨s2, b2, h2, l2⟩ := exists_split 2 b1 (by omega)
  obtain ⟨s3, b3, h3, l3⟩ := exists_split 2 b2 (by omega)
  obtain ⟨s4, b4, h4, l4⟩ := exists_split 2 b3 (by omega)
  obtain ⟨s5, b5, h5, l5⟩ := exists_split 2 b4 (by omega)
  obtain ⟨s6, b6, h6, l6⟩ := exists_split 2 b5 (by omega)
  obtain ⟨s7, b7, h7, l7⟩ := exists_split 2 b6 (by omega)
  obtain ⟨p, hp⟩ := exists_exact 2 b7 (by omega)
  refine ⟨⟨![s0, s1, s2, s3, s4, s5, s6, s7], p⟩, ?_⟩
  simp [viewEndpoint, h0, h1, h2, h3, h4, h5, h6, h7, hp]

instance : ByteView Endpoint where
  view := viewEndpoint
  bytes := endpointBytes
  view_bytes := viewEndpoint_endpointBytes
  bytes_view := endpointBytes_of_viewEndpoint
  exists_view {_ a} h := exists_viewEndpoint (h.trans (length_endpointBytes a))

/-! ## Messages -/

inductive MessageType where
  | ping
  | pong
  | callMeMaybe
  | bindUdpRelayEndpoint
  | bindUdpRelayEndpointChallenge
  | bindUdpRelayEndpointAnswer
  | callMeMaybeVia
  | allocateUdpRelayEndpointsRequest
  | allocateUdpRelayEndpointsResponse
deriving DecidableEq

def MessageType.toU8 : MessageType → BitVec 8
  | .ping => 1
  | .pong => 2
  | .callMeMaybe => 3
  | .bindUdpRelayEndpoint => 4
  | .bindUdpRelayEndpointChallenge => 5
  | .bindUdpRelayEndpointAnswer => 6
  | .callMeMaybeVia => 7
  | .allocateUdpRelayEndpointsRequest => 8
  | .allocateUdpRelayEndpointsResponse => 9

def MessageType.all : List MessageType :=
  [.ping, .pong, .callMeMaybe, .bindUdpRelayEndpoint, .bindUdpRelayEndpointChallenge, .bindUdpRelayEndpointAnswer,
   .callMeMaybeVia, .allocateUdpRelayEndpointsRequest, .allocateUdpRelayEndpointsResponse]

def MessageType.ofU8 (b : BitVec 8) : Option MessageType := MessageType.all.find? (fun t => t.toU8 == b)

theorem MessageType.ofU8_toU8 (t : MessageType) : MessageType.ofU8 t.toU8 = some t := by
  cases t <;> decide

/-- A message: its type byte, and its bytes read in place. -/
class Message (M : Type) extends ByteView M where
  messageType : MessageType

structure Ping where
  txId : Octets 12
  nodeKey : Octets 32
  padding : Bytes
deriving DecidableEq

structure Pong where
  txId : Octets 12
  src : Endpoint
deriving DecidableEq

structure CallMeMaybe where
  endpoints : List Endpoint
deriving DecidableEq

instance : Message Ping where
  messageType := .ping
  view bs := do
    let (txId, bs) ← split 12 bs
    let (nodeKey, padding) ← split 32 bs
    return ⟨txId, nodeKey, padding⟩
  bytes m := m.txId.1 ++ (m.nodeKey.1 ++ m.padding)
  view_bytes m := by simp
  bytes_view {bs m} h := by
    simp only [Option.bind_eq_bind, Option.bind_eq_some_iff, Prod.exists, Option.pure_def] at h
    obtain ⟨tx, b, htx, key, padding, hkey, hm⟩ := h
    cases hm
    rw [eq_append_of_split htx, eq_append_of_split hkey]
  exists_view {bs m} h := by
    simp only [List.length_append, m.txId.2, m.nodeKey.2] at h
    obtain ⟨tx, b, htx, hb⟩ := exists_split 12 bs (by omega)
    obtain ⟨key, padding, hkey, -⟩ := exists_split 32 b (by omega)
    simp [htx, hkey]

instance : Message Pong where
  messageType := .pong
  view bs := do
    let (txId, bs) ← split 12 bs
    let src ← ByteView.view bs
    return ⟨txId, src⟩
  bytes m := m.txId.1 ++ ByteView.bytes m.src
  view_bytes m := by simp [ByteView.view_bytes]
  bytes_view {bs m} h := by
    simp only [Option.bind_eq_bind, Option.bind_eq_some_iff, Prod.exists, Option.pure_def] at h
    obtain ⟨tx, b, htx, src, hsrc, hm⟩ := h
    cases hm
    rw [eq_append_of_split htx, ← ByteView.bytes_view hsrc]
  exists_view {bs m} h := by
    simp only [List.length_append, m.txId.2] at h
    obtain ⟨tx, b, htx, hb⟩ := exists_split 12 bs (by omega)
    have hsize : b.length = (ByteView.bytes m.src).length := by omega
    obtain ⟨src, hsrc⟩ := ByteView.exists_view hsize
    simp [htx, hsrc]

instance : Message CallMeMaybe where
  messageType := .callMeMaybe
  view bs := (viewSlice endpointSize bs).map CallMeMaybe.mk
  bytes m := m.endpoints.flatMap ByteView.bytes
  view_bytes m := by
    rw [viewSlice_flatMap endpointSize length_endpointBytes (by decide)]
    rfl
  bytes_view {bs m} h := by
    obtain ⟨l, hl, rfl⟩ := Option.map_eq_some_iff.1 h
    exact flatMap_of_viewSlice endpointSize hl
  exists_view {bs m} h := by
    rw [length_flatMap_bytes endpointSize length_endpointBytes] at h
    have hview : ∃ l : List Endpoint, viewSlice endpointSize bs = some l := by
      rw [viewSlice, h, Nat.mul_mod_left, if_pos rfl, Nat.mul_div_cancel _ (by decide)]
      exact exists_viewElements endpointSize length_endpointBytes (.fromV6Segments (fun _ => 0) 0) _ h
    obtain ⟨l, hl⟩ := hview
    exact ⟨⟨l⟩, by rw [hl]; rfl⟩

/-! ## Packets -/

structure Header where
  magic : Octets 6
  senderPub : Octets 32
  nonce : Octets 24
deriving DecidableEq

namespace Header

def magicBytes : Octets 6 := ⟨[0x54, 0x53, 0xf0, 0x9f, 0x92, 0xac], rfl⟩

def new (senderPub : Octets 32) (nonce : Octets 24) : Header := ⟨magicBytes, senderPub, nonce⟩

def read (bs : Bytes) : Option (Header × Bytes) := do
  let (magic, bs) ← split 6 bs
  let (senderPub, bs) ← split 32 bs
  let (nonce, bs) ← split 24 bs
  return (⟨magic, senderPub, nonce⟩, bs)

def bytes (h : Header) : Bytes := h.magic.1 ++ (h.senderPub.1 ++ h.nonce.1)

def validate (h : Header) : Except Error Unit := if h.magic = magicBytes then .ok () else .error .wrongMagic

def fromBytes (bs : Bytes) : Except Error (Header × Bytes) :=
  match read bs with
  | none => .error .tooShort
  | some (h, rest) => (h.validate).map (fun _ => (h, rest))

theorem read_bytes (h : Header) (rest : Bytes) : read (h.bytes ++ rest) = some (h, rest) := by
  simp [read, bytes, List.append_assoc]

theorem exists_read (bs : Bytes) (h : 62 ≤ bs.length) :
    ∃ hd rest, read bs = some (hd, rest) ∧ rest.length = bs.length - 62 := by
  obtain ⟨magic, b1, h1, l1⟩ := exists_split 6 bs (by omega)
  obtain ⟨pub, b2, h2, l2⟩ := exists_split 32 b1 (by omega)
  obtain ⟨nonce, b3, h3, l3⟩ := exists_split 24 b2 (by omega)
  exact ⟨⟨magic, pub, nonce⟩, b3, by simp [read, h1, h2, h3], by omega⟩

end Header

inductive CryptState where
  | encrypted
  | plaintext

structure Packet (σ : CryptState) where
  header : Header
  tag : Octets 16
  payload : Bytes

structure Plaintext where
  ty : BitVec 8
  version : BitVec 8
  message : Bytes

def Plaintext.ofBytes : Bytes → Option Plaintext
  | ty :: version :: message => some ⟨ty, version, message⟩
  | _ => none

def Plaintext.bytes (pt : Plaintext) : Bytes := pt.ty :: pt.version :: pt.message

/-- `crypto_box::SalsaBox` as an oracle: what was sealed for a key opens under it. -/
structure SalsaBox where
  publicKey : Octets 32 → Octets 32
  encryptDetached : (receiver secret : Octets 32) → (nonce : Octets 24) → Bytes → Bytes × Octets 16
  decryptDetached : (sender secret : Octets 32) → (nonce : Octets 24) → Bytes → Octets 16 → Option Bytes
  decrypt_encrypt : ∀ mine theirs nonce m, decryptDetached (publicKey mine) theirs nonce
    (encryptDetached (publicKey theirs) mine nonce m).1 (encryptDetached (publicKey theirs) mine nonce m).2 = some m

namespace Packet

variable {σ : CryptState}

def ofBytes (bs : Bytes) : Except Error (Packet σ) :=
  match Header.read bs with
  | none => .error .tooShort
  | some (header, bs) =>
    match split 16 bs with
    | none => .error .tooShort
    | some (tag, payload) => .ok ⟨header, tag, payload⟩

def bytes (p : Packet σ) : Bytes := p.header.bytes ++ (p.tag.1 ++ p.payload)

def sizeForMessage (messageSize : Nat) : Nat := 62 + (16 + (2 + messageSize))

def validate (p : Packet .plaintext) : Except Error Unit :=
  match Plaintext.ofBytes p.payload with
  | none => .error .tooShort
  | some pt => if pt.version = 0 then .ok () else .error .unknownVersion

def initFromBytes {M : Type} [Message M] (b : Bytes) (initMsg : M → M) : Except Error (Packet .plaintext) := do
  let s : Packet .plaintext ← ofBytes b
  match Plaintext.ofBytes s.payload with
  | none => .error .tooShort
  | some pt =>
    match (ByteView.view pt.message : Option M) with
    | none => .error .tooShort
    | some msg =>
      let p : Packet .plaintext :=
        { s with payload := Plaintext.bytes ⟨(Message.messageType M).toU8, 0, ByteView.bytes (initMsg msg)⟩ }
      p.validate
      return p

def encryptInPlace (p : Packet .plaintext) (box : SalsaBox) (secret receiver : Octets 32) (nonce : Octets 24) :
    Packet .encrypted :=
  let sealed := box.encryptDetached receiver secret nonce p.payload
  ⟨Header.new (box.publicKey secret) nonce, sealed.2, sealed.1⟩

def fromEncryptedBytesMut (b : Bytes) : Except Error (Packet .encrypted) := do
  let p ← ofBytes b
  p.header.validate
  return p

def decryptInPlace (p : Packet .encrypted) (box : SalsaBox) (secret : Octets 32) : Except Error (Packet .plaintext) :=
  match box.decryptDetached p.header.senderPub secret p.header.nonce p.payload p.tag with
  | none => .error .cryptoFailed
  | some payload => do
    let ret : Packet .plaintext := ⟨p.header, p.tag, payload⟩
    ret.validate
    return ret

def ty (p : Packet .plaintext) : Option MessageType :=
  (Plaintext.ofBytes p.payload).bind (fun pt => MessageType.ofU8 pt.ty)

def asMsg (M : Type) [Message M] (p : Packet .plaintext) : Option M :=
  match Plaintext.ofBytes p.payload with
  | none => none
  | some pt => if MessageType.ofU8 pt.ty = some (Message.messageType M) then ByteView.view pt.message else none

/-! ## The round trip -/

theorem ofBytes_bytes {τ : CryptState} (p : Packet σ) :
    (ofBytes p.bytes : Except Error (Packet τ)) = .ok ⟨p.header, p.tag, p.payload⟩ := by
  simp [ofBytes, bytes, Header.read_bytes]

theorem exists_ofBytes (bs : Bytes) (h : 78 ≤ bs.length) :
    ∃ p : Packet σ, ofBytes bs = .ok p ∧ p.payload.length = bs.length - 78 := by
  obtain ⟨hd, rest, hread, hrest⟩ := Header.exists_read bs (by omega)
  obtain ⟨tag, payload, hsplit, hlen⟩ := exists_split 16 rest (by omega)
  have hpayload : payload.length = bs.length - 78 := by omega
  exact ⟨⟨hd, tag, payload⟩, by rw [ofBytes, hread]; simp only [hsplit], hpayload⟩

theorem validate_plaintext (header : Header) (tag : Octets 16) (ty : BitVec 8) (message : Bytes) :
    validate ⟨header, tag, Plaintext.bytes ⟨ty, 0, message⟩⟩ = .ok () := rfl

theorem initFromBytes_ok {M : Type} [Message M] (m : M) (b : Bytes)
    (hb : b.length = sizeForMessage (ByteView.bytes m).length) (initMsg : M → M)
    (hinit : ∀ m0, (ByteView.bytes m0).length = (ByteView.bytes m).length → initMsg m0 = m) :
    ∃ p, initFromBytes b initMsg = .ok p ∧
      p.payload = Plaintext.bytes ⟨(Message.messageType M).toU8, 0, ByteView.bytes m⟩ := by
  unfold sizeForMessage at hb
  obtain ⟨s, hs, hlen⟩ : ∃ s : Packet .plaintext, ofBytes b = .ok s ∧ s.payload.length = b.length - 78 :=
    exists_ofBytes b (by omega)
  obtain ⟨header, tag, payload⟩ := s
  match payload, hlen with
  | [], hlen => simp at hlen; omega
  | [_], hlen => simp at hlen; omega
  | ty :: version :: message, hlen =>
    simp only [List.length_cons] at hlen
    have hsize : message.length = (ByteView.bytes m).length := by omega
    obtain ⟨m0, hm0⟩ := ByteView.exists_view hsize
    have hinit0 : initMsg m0 = m := hinit m0 (by rw [ByteView.bytes_view hm0]; exact hsize)
    refine ⟨⟨header, tag, Plaintext.bytes ⟨(Message.messageType M).toU8, 0, ByteView.bytes m⟩⟩, ?_, rfl⟩
    simp only [initFromBytes, hs, Plaintext.ofBytes, hm0, hinit0, Except.bind, bind, validate_plaintext, pure,
      Except.pure]

theorem fromEncryptedBytesMut_encrypt (box : SalsaBox) (p : Packet .plaintext) (secret receiver : Octets 32)
    (nonce : Octets 24) : fromEncryptedBytesMut (p.encryptInPlace box secret receiver nonce).bytes =
      .ok (p.encryptInPlace box secret receiver nonce) := by
  simp [fromEncryptedBytesMut, ofBytes_bytes, encryptInPlace, Header.new, Header.validate, bind, Except.bind, pure,
    Except.pure]

theorem decryptInPlace_encrypt (box : SalsaBox) (p : Packet .plaintext) (secret receiver : Octets 32)
    (nonce : Octets 24) (ty : BitVec 8) (message : Bytes) (hp : p.payload = Plaintext.bytes ⟨ty, 0, message⟩) :
    ∃ p', (p.encryptInPlace box secret (box.publicKey receiver) nonce).decryptInPlace box receiver = .ok p' ∧
      p'.header = Header.new (box.publicKey secret) nonce ∧ p'.payload = p.payload := by
  refine ⟨⟨Header.new (box.publicKey secret) nonce,
    (box.encryptDetached (box.publicKey receiver) secret nonce p.payload).2, p.payload⟩, ?_, rfl, rfl⟩
  simp only [decryptInPlace, encryptInPlace, Header.new, box.decrypt_encrypt, hp, validate_plaintext, bind,
    Except.bind, pure, Except.pure]

/-- Messages of a type survive the wire: built in any buffer of its size, sealed for any receiver, copied, parsed
and opened, a message has the same type and fields, and is no message of another type. -/
def RoundTrips (M : Type) [Message M] : Prop :=
  ∀ (box : SalsaBox) (secret receiver : Octets 32) (nonce : Octets 24) (m : M) (b : Bytes) (initMsg : M → M),
    b.length = sizeForMessage (ByteView.bytes m).length →
    (∀ m₀, (ByteView.bytes m₀).length = (ByteView.bytes m).length → initMsg m₀ = m) →
    ∃ p e p', initFromBytes b initMsg = .ok p ∧
      fromEncryptedBytesMut (p.encryptInPlace box secret (box.publicKey receiver) nonce).bytes = .ok e ∧
      e.decryptInPlace box receiver = .ok p' ∧ p'.header = Header.new (box.publicKey secret) nonce ∧
      p'.ty = some (Message.messageType M) ∧ p'.asMsg M = some m ∧
      ∀ (N : Type) [Message N], Message.messageType N ≠ Message.messageType M → p'.asMsg N = none

theorem roundTrips (M : Type) [Message M] : RoundTrips M := by
  intro box secret receiver nonce m b initMsg hb hinit
  obtain ⟨p, hp, hpayload⟩ := initFromBytes_ok m b hb initMsg hinit
  obtain ⟨p', hp', hheader, hpayload'⟩ := decryptInPlace_encrypt box p secret receiver nonce _ _ hpayload
  rw [hpayload] at hpayload'
  refine ⟨p, _, p', hp, fromEncryptedBytesMut_encrypt box p secret _ nonce, hp', hheader, ?_, ?_, ?_⟩
  · simp [ty, hpayload', Plaintext.bytes, Plaintext.ofBytes, MessageType.ofU8_toU8]
  · simp [asMsg, hpayload', Plaintext.bytes, Plaintext.ofBytes, MessageType.ofU8_toU8, ByteView.view_bytes]
  · intro N _ hne
    simp [asMsg, hpayload', Plaintext.bytes, Plaintext.ofBytes, MessageType.ofU8_toU8, hne.symm]

end Packet

/-- **The wire round trip**: each of the three messages survives the wire, and an endpoint gives back the address it was
made from, canonical, without the flow label and the scope, for which the format has no room. -/
theorem disco_wire_round_trip :
    Packet.RoundTrips Ping ∧ Packet.RoundTrips Pong ∧ Packet.RoundTrips CallMeMaybe ∧
      ∀ a, (Endpoint.fromSocketAddr a).socketAddr = unscoped (toCanonical a) :=
  ⟨Packet.roundTrips Ping, Packet.roundTrips Pong, Packet.roundTrips CallMeMaybe, socketAddr_fromSocketAddr⟩

def clearBox : SalsaBox where
  publicKey k := k
  encryptDetached _ _ _ m := (m, new 0)
  decryptDetached _ _ _ m _ := some m
  decrypt_encrypt _ _ _ _ := rfl

theorem disco_wire_round_trip_callMeMaybe :
    let m : CallMeMaybe := ⟨[.fromSocketAddr (.v4 0x7f000001 41641), .fromSocketAddr (.v6 0x1 53 0 0)]⟩
    ∃ p e p', Packet.initFromBytes (List.replicate 116 0) (fun _ => m) = .ok p ∧
      Packet.fromEncryptedBytesMut (p.encryptInPlace clearBox (new 1) (new 2) (new 3)).bytes =
        .ok e ∧
      e.decryptInPlace clearBox (new 2) = .ok p' ∧ p'.asMsg CallMeMaybe = some m ∧ p'.asMsg Ping = none := by
  intro m
  obtain ⟨-, -, h, -⟩ := disco_wire_round_trip
  obtain ⟨p, e, p', hp, he, hp', -, -, hm, hother⟩ :=
    h clearBox (new 1) (new 2) (new 3) m (List.replicate 116 0) (fun _ => m) rfl (fun _ _ => rfl)
  exact ⟨p, e, p', hp, he, hp', hm, hother Ping (by decide)⟩

/-- The scope of a link-local address is lost. -/
theorem endpoint_loses_scope :
    let a := SocketAddr.v6 0xfe800000000000000000000000000001 41641 0 3
    toCanonical a = a ∧ (Endpoint.fromSocketAddr a).socketAddr ≠ a := by
  decide +kernel

def isDiscoMessage (buf : Bytes) : Bool :=
  match Header.fromBytes buf with
  | .ok _ => true
  | .error _ => false

end TailscaleVita.Disco

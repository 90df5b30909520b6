import TailscaleVita.StdNet
/-!
# WgPeer — peers, their routes and their addresses (`wg-engine/src/peer.rs`)

An `Arc<Peer>` is shared by three indices. Its immutable fields are copied into `Peer`; `ptr` is the identity of the
allocation. The fields behind `ArcSwap` and `Mutex` are the `PeerCells` the engine's heap keeps at that identity.
-/
namespace TailscaleVita.Wg

open BitVec

/-- `[u8; 32]`: a WireGuard public key. -/
abbrev PublicKey := BitVec 256

abbrev Instant := Nat

inductive TransportAddr where
  | udp (addr : SocketAddr)
  | derp (region : BitVec 16) (peerPubkey : PublicKey)
deriving DecidableEq

def TransportAddr.isDerp : TransportAddr → Bool
  | .derp _ _ => true
  | .udp _ => false

/-- A `prefixLen`-bit IPv4 network. Every constructor of the source refuses more than 32 bits. -/
@[ext] structure Ipv4Cidr where
  addr : Ipv4Addr
  prefixLen : Nat
  le32 : prefixLen ≤ 32

instance : DecidableEq Ipv4Cidr := fun _ _ => decidable_of_iff _ Ipv4Cidr.ext_iff.symm

def Ipv4Cidr.mask (c : Ipv4Cidr) : BitVec 32 :=
  if c.prefixLen = 0 then 0 else BitVec.allOnes 32 <<< (32 - c.prefixLen)

def Ipv4Cidr.contains (c : Ipv4Cidr) (ip : Ipv4Addr) : Bool :=
  let net := c.addr &&& c.mask
  (ip &&& c.mask) == net

theorem Ipv4Cidr.contains_iff (c : Ipv4Cidr) (ip : Ipv4Addr) :
    c.contains ip = true ↔ ip >>> (32 - c.prefixLen) = c.addr >>> (32 - c.prefixLen) := by
  simp only [contains, mask, beq_iff_eq]
  by_cases h0 : c.prefixLen = 0
  · rw [if_pos h0, h0]
    constructor
    · intro _
      apply eq_of_getLsbD_eq
      intro i hi
      simp only [getLsbD_ushiftRight]
      rw [getLsbD_of_ge _ _ (by omega), getLsbD_of_ge _ _ (by omega)]
    · intro _
      simp
  · rw [if_neg h0]
    constructor
    · intro h
      apply eq_of_getLsbD_eq
      intro i hi
      have hbit := congrArg (fun b : BitVec 32 => b.getLsbD (32 - c.prefixLen + i)) h
      simp only [getLsbD_and, getLsbD_shiftLeft, getLsbD_allOnes] at hbit
      simp only [getLsbD_ushiftRight]
      by_cases hi' : 32 - c.prefixLen + i < 32
      · simpa [hi', show ¬ 32 - c.prefixLen + i < 32 - c.prefixLen by omega, show i < 32 by omega] using hbit
      · rw [getLsbD_of_ge _ _ (by omega), getLsbD_of_ge _ _ (by omega)]
    · intro h
      apply eq_of_getLsbD_eq
      intro i hi
      simp only [getLsbD_and, getLsbD_shiftLeft, getLsbD_allOnes]
      by_cases hi' : i < 32 - c.prefixLen
      · simp [hi']
      · have hbit := congrArg (fun b : BitVec 32 => b.getLsbD (i - (32 - c.prefixLen))) h
        simp only [getLsbD_ushiftRight] at hbit
        rw [show 32 - c.prefixLen + (i - (32 - c.prefixLen)) = i by omega] at hbit
        rw [hbit]

structure PeerConfig where
  pubkey : PublicKey
  presharedKey : Option (BitVec 256)
  persistentKeepaliveSecs : Option (BitVec 16)
  allowedIps : List Ipv4Cidr
  initialEndpoint : Option TransportAddr

structure PeerStats where
  rxBytes : Nat
  txBytes : Nat
  lastRx : Option Instant
deriving DecidableEq

/-- One `Arc<Peer>`: its identity and the fields fixed at construction. -/
structure Peer where
  ptr : Nat
  pubkey : PublicKey
  ourIndex : BitVec 32
  allowedIps : List Ipv4Cidr
deriving DecidableEq

structure PeerCells (τ : Type) where
  transportAddr : Option TransportAddr
  authSrc : Option (TransportAddr × Instant)
  tunn : τ
  stats : PeerStats

def authSrcTrust : Nat := 6500

namespace PeerCells

variable {τ : Type}

def setTransportAddr (c : PeerCells τ) (addr : TransportAddr) : PeerCells τ := { c with transportAddr := some addr }

def setAuthSrc (c : PeerCells τ) (addr : TransportAddr) (now : Instant) : PeerCells τ :=
  { c with authSrc := some (addr, now) }

def authSrcFresh (c : PeerCells τ) (now : Instant) : Option TransportAddr :=
  c.authSrc.bind (fun p => if now - p.2 < authSrcTrust then some p.1 else none)

end PeerCells

end TailscaleVita.Wg

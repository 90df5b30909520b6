import TailscaleVita.LittleEndian
import TailscaleVita.WgEngine
/-!
# WgPump — dispatch and the pump (`wg-engine/src/dispatch.rs`, `wg-engine/src/pump.rs`)

A datagram is routed by its receiver index, or offered to every peer when it is a handshake initiation. Each peer's
part of the work reads and writes that peer's cells only, so `handleInbound` and `tickTimers` are loops over cells.
-/
namespace TailscaleVita.Wg

inductive InboundRoute where
  | singlePeer (peer : Peer)
  | broadcast
  | junk
deriving DecidableEq

def handshakeInit : BitVec 32 := 1
def handshakeResp : BitVec 32 := 2
def cookieReply : BitVec 32 := 3
def packetData : BitVec 32 := 4

def u32At (datagram : Bytes) (i : Nat) : BitVec 32 := fromLeBytes 32 ((datagram.drop i).take 4)

def routeByIndex (idx : Indices) (peerIdx : BitVec 32) : InboundRoute :=
  match idx.byIdx.lookup peerIdx with
  | some p => .singlePeer p
  | none => .junk

def routeInbound (idx : Indices) (datagram : Bytes) : InboundRoute :=
  if datagram.length < 4 then .junk
  else
    let msgType := u32At datagram 0
    if msgType = handshakeInit then .broadcast
    else if msgType = handshakeResp ∨ msgType = cookieReply ∨ msgType = packetData then
      let recvIdxOffset := if msgType = handshakeResp then 8 else 4
      if datagram.length < recvIdxOffset + 4 then .junk
      else
        let recvIdx := u32At datagram recvIdxOffset
        -- BoringTun uses the lower 8 bits as session id within the peer
        routeByIndex idx (recvIdx >>> 8)
    else .junk

def peerForIp (idx : Indices) (dst : Ipv4Addr) : Option Peer := idx.byIp.lookup dst

def parseIpv4Dst (pkt : Bytes) : Option Ipv4Addr :=
  if pkt.length < 20 then none
  else if pkt.getD 0 0 >>> 4 ≠ 4 then none
  else some (Ipv4Addr.new (pkt.getD 16 0) (pkt.getD 17 0) (pkt.getD 18 0) (pkt.getD 19 0))

structure Ipv4Meta where
  src : Ipv4Addr
  dst : Ipv4Addr
  protocol : BitVec 8
  dstPort : Option (BitVec 16)
deriving DecidableEq

def parseIpv4Meta (pkt : Bytes) : Option Ipv4Meta :=
  if pkt.length < 20 ∨ pkt.getD 0 0 >>> 4 ≠ 4 then none
  else
    let ihl := (pkt.getD 0 0 &&& 0x0f).toNat * 4
    if ihl < 20 ∨ pkt.length < ihl then none
    else
      let protocol := pkt.getD 9 0
      let src := Ipv4Addr.new (pkt.getD 12 0) (pkt.getD 13 0) (pkt.getD 14 0) (pkt.getD 15 0)
      let dst := Ipv4Addr.new (pkt.getD 16 0) (pkt.getD 17 0) (pkt.getD 18 0) (pkt.getD 19 0)
      if protocol = 6 ∨ protocol = 17 then
        if ihl + 4 ≤ pkt.length then
          some ⟨src, dst, protocol, some (pkt.getD (ihl + 2) 0 ++ pkt.getD (ihl + 3) 0)⟩
        else none
      else some ⟨src, dst, protocol, none⟩

/-- `DirectPathHint`, asked through `alive_endpoint`. -/
abbrev DirectPathHint := PublicKey → Option SocketAddr

inductive PumpOutput where
  | send (addr : TransportAddr) (bytes : Bytes)
  | tunRx (peer : Peer) (plaintext : Bytes)
deriving DecidableEq

section

variable {τ : Type} (b : Boringtun τ)

def pickAddr (peer : Peer) (c : PeerCells τ) (hint : Option DirectPathHint) (now : Instant) : Option TransportAddr :=
  match c.authSrcFresh now with
  | some auth => some auth
  | none =>
    match hint with
    | some h =>
      match h peer.pubkey with
      | some udp => some (.udp udp)
      | none => c.transportAddr
    | none => c.transportAddr

structure TunnOutputs where
  net : List Bytes
  tun : List Bytes

def drain : (fuel : Nat) → τ → TunnOutputs → τ × TunnOutputs
  | 0, t, o => (t, o)
  | fuel + 1, t, o =>
    let r := b.decapsulate t []
    match Outcome.ofResult r.2 with
    | .done => (r.1, o)
    | .network x => drain fuel r.1 { o with net := o.net ++ [x] }
    | .tunnelV4 x => drain fuel r.1 { o with tun := o.tun ++ [x] }
    | .tunnelV6 => drain fuel r.1 o

def decapsulateAll (t : τ) (datagram : Bytes) : τ × TunnOutputs :=
  let r := b.decapsulate t datagram
  match Outcome.ofResult r.2 with
  | .done => (r.1, ⟨[], []⟩)
  | .network x => drain b (b.pending r.1 + 1) r.1 ⟨[x], []⟩
  | .tunnelV4 x => (r.1, ⟨[], [x]⟩)
  | .tunnelV6 => (r.1, ⟨[], []⟩)

def admits (policy : InboundPolicy) (peer : Peer) (plaintext : Bytes) : Bool :=
  match parseIpv4Meta plaintext with
  | none => false
  | some m =>
    peer.allowedIps.any (fun cidr => cidr.contains m.src) && policy.allows m.src m.dst m.protocol m.dstPort

def PeerStats.recordRx (now : Instant) (s : PeerStats) (plaintext : Bytes) : PeerStats :=
  { s with rxBytes := s.rxBytes + plaintext.length, lastRx := some now }

def inboundPeer (policy : InboundPolicy) (srcAddr : TransportAddr) (datagram : Bytes) (now : Instant) (peer : Peer)
    (c : PeerCells τ) : PeerCells τ × List PumpOutput :=
  -- the address of a DERP arrival is stored before the `Tunn` has seen the datagram
  let c₁ := if srcAddr.isDerp then c.setTransportAddr srcAddr else c
  let d := decapsulateAll b c₁.tunn datagram
  let o := d.2
  let c₂ := { c₁ with tunn := d.1 }
  let c₃ := if (!o.net.isEmpty || !o.tun.isEmpty) && !srcAddr.isDerp then c₂.setAuthSrc srcAddr now else c₂
  let accepted := o.tun.filter (admits policy peer)
  ({ c₃ with stats := accepted.foldl (PeerStats.recordRx now) c₃.stats },
    o.net.map (fun bytes => .send srcAddr bytes) ++ accepted.map (fun plaintext => .tunRx peer plaintext))

def routedPeers (ix : Indices) (ord : HashOrder PublicKey) (datagram : Bytes) : List Peer :=
  match routeInbound ix datagram with
  | .singlePeer p => [p]
  | .broadcast => ord.values ix.byPubkey
  | .junk => []

def handleInbound (e : Engine τ) (ord : HashOrder PublicKey) (srcAddr : TransportAddr) (datagram : Bytes)
    (now : Instant) : Engine τ × List PumpOutput :=
  let r := visit Peer.ptr (inboundPeer b e.inboundPolicy srcAddr datagram now) e.heap
    (routedPeers e.indices ord datagram)
  ({ e with heap := r.1 }, r.2)

def outboundPeer (hint : Option DirectPathHint) (plaintext : Bytes) (now : Instant) (peer : Peer) (c : PeerCells τ) :
    PeerCells τ × List PumpOutput :=
  match pickAddr peer c hint now with
  | none => (c, [])
  | some addr =>
    let r := b.encapsulate c.tunn plaintext
    match Outcome.ofResult r.2 with
    | .network bytes =>
      ({ c with tunn := r.1, stats := { c.stats with txBytes := c.stats.txBytes + plaintext.length } },
        [.send addr bytes])
    -- `Done`; encapsulating never writes to the tunnel
    | _ => ({ c with tunn := r.1 }, [])

def handleOutbound (e : Engine τ) (hint : Option DirectPathHint) (plaintext : Bytes) (now : Instant) :
    Engine τ × List PumpOutput :=
  match parseIpv4Dst plaintext with
  | none => (e, [])
  | some dst =>
    match peerForIp e.indices dst with
    | none => (e, [])
    | some peer =>
      let r := visit Peer.ptr (outboundPeer b hint plaintext now) e.heap [peer]
      ({ e with heap := r.1 }, r.2)

def tickPeer (hint : Option DirectPathHint) (now : Instant) (peer : Peer) (c : PeerCells τ) :
    PeerCells τ × List PumpOutput :=
  if c.stats.lastRx.isNone then (c, [])
  else
    match pickAddr peer c hint now with
    | none => (c, [])
    | some addr =>
      let r := b.updateTimers c.tunn
      match Outcome.ofResult r.2 with
      | .network bytes => ({ c with tunn := r.1 }, [.send addr bytes])
      | _ => ({ c with tunn := r.1 }, [])

def tickTimers (e : Engine τ) (ord : HashOrder PublicKey) (hint : Option DirectPathHint) (now : Instant) :
    Engine τ × List PumpOutput :=
  let r := visit Peer.ptr (tickPeer b hint now) e.heap (ord.values e.indices.byPubkey)
  ({ e with heap := r.1 }, r.2)

inductive EngineEvent where
  | upsertPeer (cfg : PeerConfig)
  | removePeer (pubkey : PublicKey)
  | setEndpoint (pubkey : PublicKey) (endpoint : TransportAddr)
  | setInboundPolicy (policy : InboundPolicy)
  | inbound (ord : HashOrder PublicKey) (srcAddr : TransportAddr) (datagram : Bytes) (now : Instant)
  | outbound (hint : Option DirectPathHint) (plaintext : Bytes) (now : Instant)
  | tick (ord : HashOrder PublicKey) (hint : Option DirectPathHint) (now : Instant)

def EngineEvent.isPump : EngineEvent → Bool
  | .inbound .. => true
  | .outbound .. => true
  | .tick .. => true
  | _ => false

def Engine.step (e : Engine τ) : EngineEvent → Engine τ
  | .upsertPeer cfg => e.upsertPeer b cfg
  | .removePeer k => e.removePeer k
  | .setEndpoint k a => e.setEndpoint k a
  | .setInboundPolicy p => e.setInboundPolicy p
  | .inbound ord src d now => (handleInbound b e ord src d now).1
  | .outbound hint p now => (handleOutbound b e hint p now).1
  | .tick ord hint now => (tickTimers b e ord hint now).1

end

def clearTunn : Boringtun Unit where
  new _ _ _ _ _ := ()
  decapsulate t d := (t, if u32At d 0 = packetData then some (.writeToTunnelV4 (d.drop 8)) else some .done)
  encapsulate t p := (t, some (.writeToNetwork p))
  updateTimers t := (t, some .done)
  authenticates _ d := u32At d 0 == packetData
  pending _ := 0
  authenticates_of_output t d h := by
    by_cases hd : u32At d 0 = packetData
    · rw [hd]
      rfl
    · simp only [if_neg hd] at h
      exact absurd rfl h
  pending_lt t h := absurd rfl h

end TailscaleVita.Wg

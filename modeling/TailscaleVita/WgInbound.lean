import TailscaleVita.WgReach
/-!
# WgInbound — what an inbound datagram delivers, and which addresses it moves

Delivery asks that the sending peer lists a route over the inner source; the table's longest-prefix match is not
consulted. A DERP source is stored for every peer the datagram is offered to, before any of them has authenticated it.
-/
namespace TailscaleVita.Wg

section

variable {τ : Type} (b : Boringtun τ)

theorem tunRx_mem_inboundPeer (policy : InboundPolicy) (src : TransportAddr) (d : Bytes) (now : Instant) (p q : Peer)
    (c : PeerCells τ) (pkt : Bytes) (h : .tunRx q pkt ∈ (inboundPeer b policy src d now p c).2) :
    q = p ∧ admits policy p pkt = true := by
  simp only [inboundPeer, List.mem_append, List.mem_map] at h
  rcases h with ⟨bytes, -, he⟩ | ⟨pkt', hm, he⟩
  · cases he
  · cases he
    exact ⟨rfl, (List.mem_filter.1 hm).2⟩

theorem exists_meta_of_admits {policy : InboundPolicy} {p : Peer} {pkt : Bytes} (h : admits policy p pkt = true) :
    ∃ m, parseIpv4Meta pkt = some m ∧ (∃ c ∈ p.allowedIps, c.contains m.src = true) ∧
      policy.allows m.src m.dst m.protocol m.dstPort = true := by
  unfold admits at h
  cases hm : parseIpv4Meta pkt with
  | none =>
    rw [hm] at h
    cases h
  | some m =>
    rw [hm] at h
    simp only [Bool.and_eq_true, List.any_eq_true] at h
    exact ⟨m, rfl, h.1, h.2⟩

theorem delivered_of_mem {e : Engine τ} (hw : e.Wf) {ord : HashOrder PublicKey} {src : TransportAddr} {d : Bytes}
    {now : Instant} {p : Peer} {pkt : Bytes} (h : .tunRx p pkt ∈ (handleInbound b e ord src d now).2) :
    e.indices.Live p ∧ ∃ m, parseIpv4Meta pkt = some m ∧ (∃ c ∈ p.allowedIps, c.contains m.src = true) ∧
      e.inboundPolicy.allows m.src m.dst m.protocol m.dstPort = true := by
  simp only [handleInbound] at h
  rw [mem_visit _ _ _ _ (nodup_ptr_routedPeers hw.coherent ord d)] at h
  obtain ⟨q, hq, c, -, hout⟩ := h
  obtain ⟨rfl, hadm⟩ := tunRx_mem_inboundPeer b _ _ _ _ _ _ _ _ hout
  exact ⟨live_of_mem_routedPeers hw.coherent ord d hq, exists_meta_of_admits hadm⟩

/-- **Who owns the source of a delivered packet**: the sender owns it in the table exactly when every other live
peer's route over it loses to one of the sender's, by length or, at equal length, by age. -/
theorem delivered_source_owned_iff (secret : BitVec 256) (peers : List PeerConfig) (es : List EngineEvent)
    (ord : HashOrder PublicKey) (src : TransportAddr) (d : Bytes) (now : Instant) (p : Peer) (pkt : Bytes)
    (h : .tunRx p pkt ∈ (handleInbound b (reached b secret peers es) ord src d now).2) :
    ∃ m, parseIpv4Meta pkt = some m ∧
      ((reached b secret peers es).indices.byIp.lookup m.src = some p ↔
        ∀ q, (reached b secret peers es).indices.Live q → q ≠ p → ∀ c ∈ q.allowedIps, c.contains m.src = true →
          ∃ r ∈ p.allowedIps, r.contains m.src = true ∧
            (c.prefixLen < r.prefixLen ∨ (c.prefixLen = r.prefixLen ∧ p.ptr < q.ptr))) := by
  have hw := wf_reached b secret peers es
  obtain ⟨hlive, m, hm, hown, -⟩ := delivered_of_mem b hw h
  refine ⟨m, hm, ?_⟩
  rw [lookup_eq_some_iff hw.coherent]
  constructor
  · rintro ⟨-, hbeat⟩
    exact hbeat
  · intro hbeat
    exact ⟨⟨hlive, hown⟩, hbeat⟩

end

def keyOrder : HashOrder PublicKey := HashOrder.byRank BitVec.toNat (fun _ _ h => BitVec.eq_of_toNat_eq h)

def icmpPacket (a b c d : BitVec 8) : Bytes := [0x45, 0, 0, 20, 0, 0, 0, 0, 64, 1, 0, 0, a, b, c, d, 100, 64, 0, 1]

def subnetRouters : List PeerConfig :=
  [⟨1, none, none, [⟨Ipv4Addr.new 10 0 0 0, 8, by decide⟩], none⟩,
   ⟨2, none, none, [⟨Ipv4Addr.new 10 1 0 0, 16, by decide⟩], none⟩]

theorem delivered_source_owned_iff_outside :
    let e := reached clearTunn 0 subnetRouters [.setInboundPolicy .allowAll]
    let p : Peer := ⟨0, 1, 1, [⟨Ipv4Addr.new 10 0 0 0, 8, by decide⟩]⟩
    let d := wireDatagram packetData [] (receiverIndex 1 0) (icmpPacket 10 2 0 3)
    .tunRx p (icmpPacket 10 2 0 3) ∈ (handleInbound clearTunn e keyOrder (.derp 1 1) d 0).2 ∧
      e.indices.byIp.lookup (Ipv4Addr.new 10 2 0 3) = some p ∧
      ∀ q, e.indices.Live q → q ≠ p → ∀ c ∈ q.allowedIps, c.contains (Ipv4Addr.new 10 2 0 3) = true →
        ∃ r ∈ p.allowedIps, r.contains (Ipv4Addr.new 10 2 0 3) = true ∧
          (c.prefixLen < r.prefixLen ∨ (c.prefixLen = r.prefixLen ∧ p.ptr < q.ptr)) := by
  intro e p d
  have hmem : .tunRx p (icmpPacket 10 2 0 3) ∈ (handleInbound clearTunn e keyOrder (.derp 1 1) d 0).2 := by decide
  have hown : e.indices.byIp.lookup (Ipv4Addr.new 10 2 0 3) = some p := by decide
  have hmeta : parseIpv4Meta (icmpPacket 10 2 0 3) =
      some ⟨Ipv4Addr.new 10 2 0 3, Ipv4Addr.new 100 64 0 1, 1, none⟩ := by decide
  obtain ⟨m, hm, hiff⟩ := delivered_source_owned_iff clearTunn 0 subnetRouters [.setInboundPolicy .allowAll] keyOrder
    (.derp 1 1) d 0 p (icmpPacket 10 2 0 3) hmem
  rw [hmeta] at hm
  cases hm
  exact ⟨hmem, hown, hiff.1 hown⟩

/-- **The wider router speaks for the narrower network**: its packet from 10.1.2.3 is delivered. -/
theorem delivered_source_not_owned :
    let e := reached clearTunn 0 subnetRouters [.setInboundPolicy .allowAll]
    let p : Peer := ⟨0, 1, 1, [⟨Ipv4Addr.new 10 0 0 0, 8, by decide⟩]⟩
    let d := wireDatagram packetData [] (receiverIndex 1 0) (icmpPacket 10 1 2 3)
    .tunRx p (icmpPacket 10 1 2 3) ∈ (handleInbound clearTunn e keyOrder (.derp 1 1) d 0).2 ∧
      ∃ m, parseIpv4Meta (icmpPacket 10 1 2 3) = some m ∧ e.indices.byIp.lookup m.src ≠ some p := by
  intro e p d
  exact ⟨by decide, ⟨Ipv4Addr.new 10 1 2 3, Ipv4Addr.new 100 64 0 1, 1, none⟩, by decide, by decide⟩

end TailscaleVita.Wg

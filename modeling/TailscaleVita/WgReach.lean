import TailscaleVita.WgPump
/-!
# WgReach — every engine reached is well formed, and routes by its indices

The pump keeps the indices; the control thread's calls keep them coherent. A receiver index is `ourIndex` shifted over
the session byte, which loses nothing while fewer than 2 ^ 24 peers have been built.
-/
namespace TailscaleVita.Wg

section

variable {τ : Type} (b : Boringtun τ)

variable {e : Engine τ}

theorem wf_handleInbound (h : e.Wf) (ord : HashOrder PublicKey) (src : TransportAddr) (d : Bytes)
    (now : Instant) : (handleInbound b e ord src d now).1.Wf := by
  refine ⟨?_, ?_⟩
  · simp only [handleInbound, length_visit]
    exact h.coherent
  · simp only [handleInbound, length_visit]
    exact h.next

theorem wf_handleOutbound (h : e.Wf) (hint : Option DirectPathHint) (p : Bytes) (now : Instant) :
    (handleOutbound b e hint p now).1.Wf := by
  unfold handleOutbound
  split
  · exact h
  · split
    · exact h
    · refine ⟨?_, ?_⟩
      · simp only [length_visit]
        exact h.coherent
      · simp only [length_visit]
        exact h.next

theorem wf_tickTimers (h : e.Wf) (ord : HashOrder PublicKey) (hint : Option DirectPathHint)
    (now : Instant) : (tickTimers b e ord hint now).1.Wf := by
  refine ⟨?_, ?_⟩
  · simp only [tickTimers, length_visit]
    exact h.coherent
  · simp only [tickTimers, length_visit]
    exact h.next

theorem wf_step (e : Engine τ) (ev : EngineEvent) (h : e.Wf) : (e.step b ev).Wf := by
  cases ev with
  | upsertPeer cfg => exact Engine.wf_upsertPeer b h cfg
  | removePeer k => exact Engine.wf_removePeer h k
  | setEndpoint k a => exact Engine.wf_setEndpoint h k a
  | setInboundPolicy p => exact ⟨h.coherent, h.next⟩
  | inbound ord src d now => exact wf_handleInbound b h ord src d now
  | outbound hint p now => exact wf_handleOutbound b h hint p now
  | tick ord hint now => exact wf_tickTimers b h ord hint now

theorem indices_step_of_isPump (e : Engine τ) {ev : EngineEvent} (h : ev.isPump = true) :
    (e.step b ev).indices = e.indices := by
  cases ev with
  | inbound ord src d now | tick ord hint now => rfl
  | outbound hint p now =>
    simp only [Engine.step, handleOutbound]
    split
    · rfl
    · split <;> rfl
  | _ => cases h

def reached (secret : BitVec 256) (peers : List PeerConfig) (es : List EngineEvent) : Engine τ :=
  run (Engine.step b) (Engine.new b secret peers) es

theorem wf_reached (secret : BitVec 256) (peers : List PeerConfig) (es : List EngineEvent) :
    (reached b secret peers es).Wf :=
  run_keeps Engine.Wf (wf_step b) es _ (Engine.wf_new b secret peers)

theorem indices_eq_new (h : e.Wf) (hkeys : e.indices.byPubkey.keys = ∅) : e.indices = Indices.new := by
  have hnone : ∀ p, ¬ e.indices.Live p := fun p hp => by
    have hmem := (HashMap.mem_keys_iff e.indices.byPubkey p.pubkey).2 ⟨p, hp⟩
    rw [hkeys] at hmem
    exact absurd hmem (Finset.notMem_empty _)
  have hkey : e.indices.byPubkey = ∅ := Finmap.ext_lookup fun k => by
    rw [Finmap.lookup_empty, Option.eq_none_iff_forall_ne_some]
    exact fun p hp => hnone p (h.coherent.live_of_lookup hp)
  have hidx : e.indices.byIdx = ∅ := Finmap.ext_lookup fun i => by
    rw [Finmap.lookup_empty, Option.eq_none_iff_forall_ne_some]
    exact fun p hp => hnone p (h.coherent.idx_live i p hp).2
  have hip : e.indices.byIp = [] := List.eq_nil_iff_forall_not_mem.2 fun r hr =>
    hnone r.2 ((mem_byIp_iff h.coherent r.1 r.2).1 hr).1
  unfold Indices.new
  rw [← hkey, ← hidx, ← hip]

end

/-! ## The peers a datagram is offered to -/

variable {ix : Indices} {p : Peer}

theorem exists_index_of_singlePeer {d : Bytes} (h : routeInbound ix d = .singlePeer p) :
    ∃ i, ix.byIdx.lookup i = some p := by
  have hroute : ∀ i, routeByIndex ix i = .singlePeer p → ∃ i, ix.byIdx.lookup i = some p := fun i hi => by
    unfold routeByIndex at hi
    split at hi
    next q hq =>
      cases hi
      exact ⟨i, hq⟩
    · cases hi
  unfold routeInbound at h
  by_cases hlen : d.length < 4
  · rw [if_pos hlen] at h
    cases h
  by_cases hinit : u32At d 0 = handshakeInit
  · rw [if_neg hlen, if_pos hinit] at h
    cases h
  by_cases htype : u32At d 0 = handshakeResp ∨ u32At d 0 = cookieReply ∨ u32At d 0 = packetData
  · rw [if_neg hlen, if_neg hinit, if_pos htype] at h
    by_cases hroom : d.length < (if u32At d 0 = handshakeResp then 8 else 4) + 4
    · rw [if_pos hroom] at h
      cases h
    · rw [if_neg hroom] at h
      exact hroute _ h
  · rw [if_neg hlen, if_neg hinit, if_neg htype] at h
    cases h

variable {n : Nat}

theorem live_of_mem_routedPeers (h : Coherent ix n) (ord : HashOrder PublicKey) (d : Bytes)
    (hp : p ∈ routedPeers ix ord d) : ix.Live p := by
  unfold routedPeers at hp
  split at hp
  next q hq =>
    rw [List.mem_singleton] at hp
    subst hp
    obtain ⟨i, hi⟩ := exists_index_of_singlePeer hq
    exact (h.idx_live i p hi).2
  · obtain ⟨k, hk⟩ := (ord.mem_values _ _).1 hp
    exact h.live_of_lookup hk
  · cases hp

theorem nodup_values (h : Coherent ix n) (ord : HashOrder PublicKey) : (ord.values ix.byPubkey).Nodup := by
  refine List.Nodup.filterMap (fun k k' p hk hk' => ?_) (ord.nodup_order _)
  rw [← h.key_eq k p hk, ← h.key_eq k' p hk']

theorem nodup_ptr_values (h : Coherent ix n) (ord : HashOrder PublicKey) :
    ((ord.values ix.byPubkey).map Peer.ptr).Nodup := by
  have hlive : ∀ p ∈ ord.values ix.byPubkey, ix.Live p := fun p hp => by
    obtain ⟨k, hk⟩ := (ord.mem_values _ _).1 hp
    exact h.live_of_lookup hk
  exact List.Nodup.map_on (fun p hp q hq he => h.ptr_inj p q (hlive p hp) (hlive q hq) he) (nodup_values h ord)

theorem nodup_ptr_routedPeers (h : Coherent ix n) (ord : HashOrder PublicKey) (d : Bytes) :
    ((routedPeers ix ord d).map Peer.ptr).Nodup := by
  unfold routedPeers
  split
  · simp
  · exact nodup_ptr_values h ord
  · simp

/-! ## Receiver indices -/

def receiverIndex (i : BitVec 32) (session : BitVec 8) : BitVec 32 := (i <<< 8) ||| session.setWidth 32

def wireDatagram (msgType : BitVec 32) (sender : Bytes) (recvIdx : BitVec 32) (body : Bytes) : Bytes :=
  leBytes 4 msgType.toNat ++ sender ++ leBytes 4 recvIdx.toNat ++ body

theorem receiverIndex_shift (i : BitVec 32) (s : BitVec 8) (hi : i.toNat < 2 ^ 24) : receiverIndex i s >>> 8 = i := by
  apply BitVec.eq_of_getLsbD_eq
  intro j hj
  unfold receiverIndex
  simp only [BitVec.getLsbD_ushiftRight, BitVec.getLsbD_or, BitVec.getLsbD_shiftLeft, BitVec.getLsbD_setWidth]
  by_cases hj24 : j < 24
  · simp [show 8 + j < 32 by omega, show ¬ 8 + j < 8 by omega]
  · have hbit : i.getLsbD j = false := by
      exact Nat.testBit_lt_two_pow (Nat.lt_of_lt_of_le hi (Nat.pow_le_pow_right (by omega) (by omega)))
    simp [hbit, show ¬ 8 + j < 32 by omega]

theorem receiverIndex_surj (r : BitVec 32) : r = receiverIndex (r >>> 8) (r.setWidth 8) := by
  apply BitVec.eq_of_getLsbD_eq
  intro j hj
  unfold receiverIndex
  by_cases hj8 : j < 8
  · simp [hj, hj8]
  · simp [hj, hj8, show 8 + (j - 8) = j by omega]

theorem u32At_append (pre : Bytes) (x : BitVec 32) (rest : Bytes) :
    u32At (pre ++ leBytes 4 x.toNat ++ rest) pre.length = x := by
  unfold u32At
  rw [List.append_assoc, List.drop_left, List.take_left' (length_leBytes 4 _)]
  exact fromLeBytes_leBytes 4 x

theorem routeInbound_wireDatagram (ix : Indices) (t : BitVec 32) (sender : Bytes) (r : BitVec 32) (body : Bytes)
    (ht : t = handshakeResp ∨ t = cookieReply ∨ t = packetData)
    (hs : sender.length = if t = handshakeResp then 4 else 0) :
    routeInbound ix (wireDatagram t sender r body) = routeByIndex ix (r >>> 8) := by
  have hlen : (wireDatagram t sender r body).length = 8 + sender.length + body.length := by
    simp only [wireDatagram, List.length_append, length_leBytes]
    omega
  have htype : u32At (wireDatagram t sender r body) 0 = t := by
    have := u32At_append [] t (sender ++ leBytes 4 r.toNat ++ body)
    rw [List.nil_append] at this
    unfold wireDatagram
    rw [List.append_assoc, List.append_assoc, ← List.append_assoc sender]
    exact this
  have hoff : (leBytes 4 t.toNat ++ sender).length = if t = handshakeResp then 8 else 4 := by
    rw [List.length_append, length_leBytes, hs]
    split <;> rfl
  have hrecv : u32At (wireDatagram t sender r body) (if t = handshakeResp then 8 else 4) = r := by
    rw [← hoff]
    exact u32At_append _ r body
  have hne : t ≠ handshakeInit := by
    rcases ht with rfl | rfl | rfl <;> decide
  have hroom : ¬ (wireDatagram t sender r body).length < (if t = handshakeResp then 8 else 4) + 4 := by
    rw [hlen, hs]
    split <;> omega
  unfold routeInbound
  rw [if_neg (by omega), htype, if_neg hne, if_pos ht]
  rw [if_neg hroom, hrecv]

theorem routeByIndex_live (h : Coherent ix n) (hn : n < 2 ^ 32) (hp : ix.Live p) :
    routeByIndex ix p.ourIndex = .singlePeer p := by
  unfold routeByIndex
  rw [h.live_idx hn p hp]

theorem Coherent.index_lt (h : Coherent ix n) (hn : n < 2 ^ 24) (hp : ix.Live p) : p.ourIndex.toNat < 2 ^ 24 := by
  have hlt := h.ptr_lt p hp
  rw [h.index_eq p hp, BitVec.toNat_ofNat, Nat.mod_eq_of_lt (by omega)]
  omega

/-- **The three indices hold the same peers**, after any events that build fewer than 2 ^ 24 of them, and so a
datagram for a live peer's session reaches that peer, and one for no live peer's session reaches none. -/
theorem indices_coherent_and_route {τ : Type} (b : Boringtun τ) (secret : BitVec 256) (peers : List PeerConfig)
    (es : List EngineEvent) (hn : (reached b secret peers es).heap.length < 2 ^ 24) :
    let ix := (reached b secret peers es).indices
    (∀ k p, ix.byPubkey.lookup k = some p ↔ p.pubkey = k ∧ ix.Live p) ∧
    (∀ i p, ix.byIdx.lookup i = some p ↔ p.ourIndex = i ∧ ix.Live p) ∧
    (∀ p q, ix.Live p → ix.Live q → p.pubkey = q.pubkey ∨ p.ourIndex = q.ourIndex → p = q) ∧
    (∀ c p, ix.byIp.count (c, p) = if ix.Live p then p.allowedIps.count c else 0) ∧
    ∀ t sender body, (t = handshakeResp ∨ t = cookieReply ∨ t = packetData) →
      (sender.length = if t = handshakeResp then 4 else 0) →
      (∀ p s, ix.Live p → routeInbound ix (wireDatagram t sender (receiverIndex p.ourIndex s) body) = .singlePeer p) ∧
      ∀ r, (∀ p s, ix.Live p → r ≠ receiverIndex p.ourIndex s) →
        routeInbound ix (wireDatagram t sender r body) = .junk := by
  intro ix
  have h := (wf_reached b secret peers es).coherent
  have hn32 : (reached b secret peers es).heap.length < 2 ^ 32 := by omega
  refine ⟨?_, ?_, ?_, h.ip_count, ?_⟩
  · intro k p
    refine ⟨fun hk => ⟨h.key_eq k p hk, h.live_of_lookup hk⟩, ?_⟩
    rintro ⟨rfl, hp⟩
    exact hp
  · intro i p
    refine ⟨h.idx_live i p, ?_⟩
    rintro ⟨rfl, hp⟩
    exact h.live_idx hn32 p hp
  · rintro p q hp hq (hk | hi)
    · exact Live.eq_of_pubkey hp hq hk
    · exact h.eq_of_index hn32 hp hq hi
  · intro t sender body ht hs
    refine ⟨fun p s hp => ?_, fun r hr => ?_⟩
    · rw [routeInbound_wireDatagram ix t sender _ body ht hs, receiverIndex_shift _ s (h.index_lt hn hp)]
      exact routeByIndex_live h hn32 hp
    · rw [routeInbound_wireDatagram ix t sender r body ht hs]
      unfold routeByIndex
      split
      next p hp =>
        obtain ⟨hi, hl⟩ := h.idx_live _ p hp
        refine absurd ?_ (hr p (r.setWidth 8) hl)
        rw [hi]
        exact receiverIndex_surj r
      · rfl

theorem indices_coherent_and_route_rebuilt :
    let route : Ipv4Cidr := ⟨Ipv4Addr.new 10 0 0 1, 32, by decide⟩
    let e := reached clearTunn 0 [⟨7, none, none, [], none⟩] [.upsertPeer ⟨7, none, none, [route], none⟩]
    e.heap.length < 2 ^ 24 ∧
      routeInbound e.indices (wireDatagram packetData [] (receiverIndex 2 5) [1, 2]) =
        .singlePeer ⟨1, 7, 2, [route]⟩ := by
  intro route e
  have hn : e.heap.length < 2 ^ 24 := by decide
  have h := indices_coherent_and_route clearTunn 0 [⟨7, none, none, [], none⟩]
    [.upsertPeer ⟨7, none, none, [route], none⟩] hn
  obtain ⟨-, -, -, -, hroute⟩ := h
  obtain ⟨hlive, -⟩ := hroute packetData [] [1, 2] (by decide) (by decide)
  exact ⟨hn, hlive ⟨1, 7, 2, [route]⟩ 5 (by decide)⟩

end TailscaleVita.Wg

import TailscaleVita.WgInbound
/-!
# WgAddressing — which peers' addresses an inbound datagram moves

`auth_src` is written only after the `Tunn` has put something out, which it does for authenticated datagrams only.
`transport_addr` is written for every peer a DERP datagram is offered to, and an initiation is offered to all of them.
-/
namespace TailscaleVita.Wg

section

variable {τ : Type} (b : Boringtun τ)

theorem authenticates_of_decapsulateAll (t : τ) (d : Bytes)
    (h : (!(decapsulateAll b t d).2.net.isEmpty || !(decapsulateAll b t d).2.tun.isEmpty) = true) :
    b.authenticates t d = true := by
  apply b.authenticates_of_output
  intro hdone
  unfold decapsulateAll at h
  simp only [hdone] at h
  cases h

theorem inboundPeer_transportAddr (policy : InboundPolicy) (src : TransportAddr) (d : Bytes) (now : Instant) (p : Peer)
    (c : PeerCells τ) :
    (inboundPeer b policy src d now p c).1.transportAddr = if src.isDerp then some src else c.transportAddr := by
  cases src with
  | derp r k =>
    simp [inboundPeer, TransportAddr.isDerp, PeerCells.setTransportAddr]
  | udp a =>
    simp only [inboundPeer, TransportAddr.isDerp, Bool.false_eq_true, if_false, Bool.not_false, Bool.and_true]
    split <;> rfl

theorem inboundPeer_authSrc (policy : InboundPolicy) (src : TransportAddr) (d : Bytes) (now : Instant) (p : Peer)
    (c : PeerCells τ) (h : b.authenticates c.tunn d = false) :
    (inboundPeer b policy src d now p c).1.authSrc = c.authSrc := by
  cases src with
  | derp r k => simp [inboundPeer, TransportAddr.isDerp, PeerCells.setTransportAddr]
  | udp a =>
    simp only [inboundPeer, TransportAddr.isDerp, Bool.false_eq_true, if_false, Bool.not_false, Bool.and_true]
    split
    next hout =>
      have hauth := authenticates_of_decapsulateAll b c.tunn d hout
      rw [h] at hauth
      cases hauth
    · rfl

variable {e : Engine τ}

theorem cell_handleInbound (hw : e.Wf) (ord : HashOrder PublicKey) (src : TransportAddr) (d : Bytes) (now : Instant)
    (i : Nat) :
    ((∃ p ∈ routedPeers e.indices ord d, p.ptr = i ∧ (handleInbound b e ord src d now).1.heap[i]? =
        (e.heap[i]?).map (fun c => (inboundPeer b e.inboundPolicy src d now p c).1)) ∨
      (∀ p ∈ routedPeers e.indices ord d, p.ptr ≠ i) ∧ (handleInbound b e ord src d now).1.heap[i]? = e.heap[i]?) := by
  by_cases hi : i ∈ (routedPeers e.indices ord d).map Peer.ptr
  · obtain ⟨p, hp, rfl⟩ := List.mem_map.1 hi
    refine .inl ⟨p, hp, rfl, ?_⟩
    exact getElem?_visit_of_mem _ _ _ _ (nodup_ptr_routedPeers hw.coherent ord d) p hp
  · refine .inr ⟨fun p hp he => hi (he ▸ List.mem_map_of_mem hp), ?_⟩
    exact getElem?_visit_of_notMem _ _ _ _ i hi

/-- The addressing frame: from `e` to `e'`, a peer whose `Tunn` does not authenticate `d` keeps its addresses. -/
def AddressingFrame (e e' : Engine τ) (d : Bytes) : Prop :=
  ∀ (i : Nat) (c c' : PeerCells τ), e.heap[i]? = some c → e'.heap[i]? = some c' → b.authenticates c.tunn d = false →
    c'.transportAddr = c.transportAddr ∧ c'.authSrc = c.authSrc

def DerpSettled (e : Engine τ) (ord : HashOrder PublicKey) (src : TransportAddr) (d : Bytes) : Prop :=
  src.isDerp = true → ∀ p ∈ routedPeers e.indices ord d, ∀ c, e.heap[p.ptr]? = some c →
    b.authenticates c.tunn d = false → c.transportAddr = some src

theorem addressingFrame_iff (hw : e.Wf) (ord : HashOrder PublicKey) (src : TransportAddr) (d : Bytes) (now : Instant) :
    AddressingFrame b e (handleInbound b e ord src d now).1 d ↔ DerpSettled b e ord src d := by
  constructor
  · intro hf hderp p hp c hc hauth
    have hcell := getElem?_visit_of_mem Peer.ptr (inboundPeer b e.inboundPolicy src d now) _ e.heap
      (nodup_ptr_routedPeers hw.coherent ord d) p hp
    rw [hc, Option.map_some] at hcell
    have := (hf p.ptr c _ hc hcell hauth).1
    rw [inboundPeer_transportAddr, if_pos hderp] at this
    exact this.symm
  · intro hs i c c' hc hc' hauth
    rcases cell_handleInbound b hw ord src d now i with ⟨p, hp, hpi, hcell⟩ | ⟨-, hcell⟩
    · rw [hcell, hc, Option.map_some, Option.some.injEq] at hc'
      subst hc'
      refine ⟨?_, inboundPeer_authSrc b _ _ _ _ _ _ hauth⟩
      rw [inboundPeer_transportAddr]
      split
      next hderp => exact (hs hderp p hp c (hpi ▸ hc) hauth).symm
      · rfl
    · rw [hcell, hc] at hc'
      cases hc'
      exact ⟨rfl, rfl⟩

def TransportAddr.CarriesKey (k : PublicKey) : TransportAddr → Prop
  | .derp _ pk => pk = k
  | .udp _ => True

def OwnDerp (e : Engine τ) : Prop :=
  ∀ p, e.indices.Live p → ∀ c, e.heap[p.ptr]? = some c → ∀ a, c.transportAddr = some a → a.CarriesKey p.pubkey

/-- The event gives a peer no DERP address but one with the peer's own key. -/
def OwnKeyed (e : Engine τ) : EngineEvent → Prop
  | .upsertPeer cfg => ∀ a, cfg.initialEndpoint = some a → a.CarriesKey cfg.pubkey
  | .setEndpoint k a => a.CarriesKey k
  | .inbound ord src d _ => ∀ p ∈ routedPeers e.indices ord d, src.CarriesKey p.pubkey
  | _ => True

theorem ownDerp_setTransportAddr (hw : e.Wf) (ho : OwnDerp e) {p : Peer} (hp : e.indices.Live p)
    {a : TransportAddr} (ha : a.CarriesKey p.pubkey) : OwnDerp (e.setTransportAddr p a) := by
  intro q hq c hc a' ha'
  rw [Engine.getElem?_setTransportAddr] at hc
  split at hc
  next hptr =>
    have hpq := hw.coherent.ptr_inj p q hp hq hptr
    subst hpq
    obtain ⟨c0, -, rfl⟩ := Option.map_eq_some_iff.1 hc
    simp only [PeerCells.setTransportAddr, Option.some.injEq] at ha'
    exact ha' ▸ ha
  · exact ho q hq c hc a' ha'

theorem ownDerp_rebuildPeer (hw : e.Wf) (ho : OwnDerp e) {cfg : PeerConfig}
    (ha : ∀ a, cfg.initialEndpoint = some a → a.CarriesKey cfg.pubkey) : OwnDerp (e.rebuildPeer b cfg) := by
  intro q hq c hc a hca
  simp only [Engine.rebuildPeer] at hq hc
  rcases (live_insert _ _ q).1 hq with rfl | ⟨-, hq'⟩
  · rw [List.getElem?_concat_length] at hc
    cases hc
    exact ha a hca
  · have hql := ((live_remove _ _ q).1 hq').1
    rw [List.getElem?_append_left (hw.coherent.ptr_lt q hql)] at hc
    exact ho q hql c hc a hca

theorem ownDerp_upsertPeer (hw : e.Wf) (ho : OwnDerp e) {cfg : PeerConfig}
    (ha : ∀ a, cfg.initialEndpoint = some a → a.CarriesKey cfg.pubkey) : OwnDerp (e.upsertPeer b cfg) := by
  unfold Engine.upsertPeer
  split
  next p hp =>
    split
    · split
      next a he =>
        have hkey := hw.coherent.key_eq _ _ hp
        exact ownDerp_setTransportAddr hw ho (hw.coherent.live_of_lookup hp) (hkey ▸ ha a he)
      · exact ho
    · exact ownDerp_rebuildPeer b hw ho ha
  · exact ownDerp_rebuildPeer b hw ho ha

theorem ownDerp_visit (ho : OwnDerp e) {β : Type} (f : Peer → PeerCells τ → PeerCells τ × List β)
    (hf : ∀ p c, (f p c).1.transportAddr = c.transportAddr) (ps : List Peer) (hn : (ps.map Peer.ptr).Nodup) :
    OwnDerp { e with heap := (visit Peer.ptr f e.heap ps).1 } := by
  intro q hq c hc a ha
  by_cases hi : q.ptr ∈ ps.map Peer.ptr
  · obtain ⟨p, hp, hpq⟩ := List.mem_map.1 hi
    rw [← hpq, getElem?_visit_of_mem Peer.ptr f ps e.heap hn p hp, hpq] at hc
    obtain ⟨c0, hc0, rfl⟩ := Option.map_eq_some_iff.1 hc
    rw [hf] at ha
    exact ho q hq c0 hc0 a ha
  · simp only at hc
    rw [getElem?_visit_of_notMem Peer.ptr f ps e.heap q.ptr hi] at hc
    exact ho q hq c hc a ha

theorem outboundPeer_transportAddr (hint : Option DirectPathHint) (pkt : Bytes) (now : Instant) (p : Peer)
    (c : PeerCells τ) : (outboundPeer b hint pkt now p c).1.transportAddr = c.transportAddr := by
  unfold outboundPeer
  split
  · rfl
  · simp only
    split <;> rfl

theorem tickPeer_transportAddr (hint : Option DirectPathHint) (now : Instant) (p : Peer) (c : PeerCells τ) :
    (tickPeer b hint now p c).1.transportAddr = c.transportAddr := by
  unfold tickPeer
  split
  · rfl
  · split
    · rfl
    · simp only
      split <;> rfl

theorem ownDerp_handleInbound_iff (hw : e.Wf) (ho : OwnDerp e) (ord : HashOrder PublicKey) (src : TransportAddr)
    (d : Bytes) (now : Instant) :
    OwnDerp (handleInbound b e ord src d now).1 ↔ ∀ p ∈ routedPeers e.indices ord d, src.CarriesKey p.pubkey := by
  constructor
  · intro h p hp
    have hlive := live_of_mem_routedPeers hw.coherent ord d hp
    cases src with
    | udp a => trivial
    | derp r k =>
      have hlt := hw.coherent.ptr_lt p hlive
      have hcell := getElem?_visit_of_mem Peer.ptr (inboundPeer b e.inboundPolicy (.derp r k) d now) _ e.heap
        (nodup_ptr_routedPeers hw.coherent ord d) p hp
      rw [List.getElem?_eq_getElem hlt, Option.map_some] at hcell
      exact h p hlive _ hcell (.derp r k) (by rw [inboundPeer_transportAddr]; rfl)
  · intro hr q hq c hc a ha
    rcases cell_handleInbound b hw ord src d now q.ptr with ⟨p, hp, hptr, hcell⟩ | ⟨-, hcell⟩
    · have hpq := hw.coherent.ptr_inj p q (live_of_mem_routedPeers hw.coherent ord d hp) hq hptr
      subst hpq
      rw [hc] at hcell
      obtain ⟨c0, hc0, rfl⟩ := Option.map_eq_some_iff.1 hcell.symm
      rw [inboundPeer_transportAddr] at ha
      split at ha
      · cases ha
        exact hr p hp
      · exact ho p hq c0 hc0 a ha
    · rw [hc] at hcell
      exact ho q hq c hcell.symm a ha

theorem ownDerp_step (hw : e.Wf) (ho : OwnDerp e) (ev : EngineEvent) (hk : OwnKeyed e ev) : OwnDerp (e.step b ev) := by
  cases ev with
  | upsertPeer cfg => exact ownDerp_upsertPeer b hw ho hk
  | removePeer k =>
    intro q hq
    exact ho q ((live_remove _ _ q).1 hq).1
  | setEndpoint k a =>
    simp only [Engine.step, Engine.setEndpoint]
    split
    next p hp =>
      have hkey := hw.coherent.key_eq _ _ hp
      exact ownDerp_setTransportAddr hw ho (hw.coherent.live_of_lookup hp) (hkey ▸ hk)
    · exact ho
  | setInboundPolicy p => exact ho
  | inbound ord src d now => exact (ownDerp_handleInbound_iff b hw ho ord src d now).2 hk
  | outbound hint pkt now =>
    simp only [Engine.step, handleOutbound]
    split
    · exact ho
    · split
      · exact ho
      · exact ownDerp_visit ho _ (outboundPeer_transportAddr b hint pkt now) _ (by simp)
  | tick ord hint now =>
    exact ownDerp_visit ho _ (tickPeer_transportAddr b hint now) _ (nodup_ptr_values hw.coherent ord)

theorem ownDerp_new (secret : BitVec 256) (peers : List PeerConfig)
    (hp : ∀ cfg ∈ peers, ∀ a, cfg.initialEndpoint = some a → a.CarriesKey cfg.pubkey) :
    (Engine.new b secret peers).Wf ∧ OwnDerp (Engine.new b secret peers) := by
  have h0 : (⟨Indices.new, .denyAll, 1, secret, []⟩ : Engine τ).Wf := ⟨Coherent.new, rfl⟩
  have ho : OwnDerp (⟨Indices.new, .denyAll, 1, secret, []⟩ : Engine τ) := fun p hp => by cases hp
  refine run_inv (fun e => e.Wf ∧ OwnDerp e) (fun e cfg h hc => ?_) peers _ ⟨h0, ho⟩
    (along_of_forall _ peers _ (fun _ cfg hm => hp cfg hm))
  exact ⟨Engine.wf_upsertPeer b h.1 cfg, ownDerp_upsertPeer b h.1 h.2 hc⟩

/-- **Which addresses move.**  In every engine reached, an inbound datagram keeps the addressing frame exactly when
it did not come by DERP, or each peer it was offered to authenticates it or had that address already. In a run whose
events are `OwnKeyed`, every DERP address carries its peer's key, and the next datagram keeps it so exactly when it is
`OwnKeyed` too. -/
theorem addressing_frame_and_own_keys (secret : BitVec 256) (peers : List PeerConfig) (es : List EngineEvent)
    (ord : HashOrder PublicKey) (src : TransportAddr) (d : Bytes) (now : Instant) :
    (AddressingFrame b (reached b secret peers es) (handleInbound b (reached b secret peers es) ord src d now).1 d ↔
      DerpSettled b (reached b secret peers es) ord src d) ∧
    ((∀ cfg ∈ peers, ∀ a, cfg.initialEndpoint = some a → a.CarriesKey cfg.pubkey) →
      Along (Engine.step b) OwnKeyed (Engine.new b secret peers) es →
      OwnDerp (reached b secret peers es) ∧
        (OwnDerp (handleInbound b (reached b secret peers es) ord src d now).1 ↔
          OwnKeyed (reached b secret peers es) (.inbound ord src d now))) := by
  have hw := wf_reached b secret peers es
  refine ⟨addressingFrame_iff b hw ord src d now, fun hp ha => ?_⟩
  have hown : OwnDerp (reached b secret peers es) := by
    refine (run_inv (fun e => e.Wf ∧ OwnDerp e) (fun e ev h hk => ?_) es _ (ownDerp_new b secret peers hp) ha).2
    exact ⟨wf_step b e ev h.1, ownDerp_step b h.1 h.2 ev hk⟩
  exact ⟨hown, ownDerp_handleInbound_iff b hw hown ord src d now⟩

end

def derpPeers : List PeerConfig := [⟨1, none, none, [], some (.derp 1 1)⟩, ⟨2, none, none, [], some (.derp 1 2)⟩]

theorem addressing_frame_and_own_keys_relayed :
    let d := wireDatagram packetData [] (receiverIndex 1 0) (icmpPacket 10 0 0 1)
    OwnDerp (handleInbound clearTunn (reached clearTunn 0 derpPeers []) keyOrder (.derp 1 1) d 0).1 := by
  intro d
  obtain ⟨-, hrun⟩ := addressing_frame_and_own_keys clearTunn 0 derpPeers [] keyOrder (.derp 1 1) d 0
  have hcfg : ∀ cfg ∈ derpPeers, ∀ a, cfg.initialEndpoint = some a → a.CarriesKey cfg.pubkey := by
    simp [derpPeers, TransportAddr.CarriesKey]
  refine (hrun hcfg trivial).2.2 (fun p hp => ?_)
  have hroute : routedPeers (reached clearTunn 0 derpPeers []).indices keyOrder d = [⟨0, 1, 1, []⟩] := by decide
  rw [hroute, List.mem_singleton] at hp
  subst hp
  rfl

/-- **An initiation moves every peer**: four bytes by DERP from key 9 leave both peers with the address of key 9. -/
theorem addressing_frame_broken :
    let e := reached clearTunn 0 derpPeers []
    let e' := (handleInbound clearTunn e keyOrder (.derp 1 9) [1, 0, 0, 0] 0).1
    (∀ p ∈ routedPeers e.indices keyOrder [1, 0, 0, 0], clearTunn.authenticates () [1, 0, 0, 0] = false) ∧
      ¬ AddressingFrame clearTunn e e' [1, 0, 0, 0] ∧ ¬ OwnDerp e' := by
  intro e e'
  refine ⟨by decide, fun hf => ?_, fun ho => ?_⟩
  · have := (hf 0 ⟨some (.derp 1 1), none, (), ⟨0, 0, none⟩⟩ ⟨some (.derp 1 9), none, (), ⟨0, 0, none⟩⟩ rfl rfl rfl).1
    exact absurd this (by decide)
  · have hkey := ho ⟨0, 1, 1, []⟩ (by decide) ⟨some (.derp 1 9), none, (), ⟨0, 0, none⟩⟩ rfl (.derp 1 9) rfl
    exact absurd (show (9 : PublicKey) = 1 from hkey) (by decide)

end TailscaleVita.Wg

import TailscaleVita.WgInbound
/-!
# WgSteps — what one event does to the cells of one peer

An event of the pump passes the cells of the peers it visits and no others; a call of the control thread moves at most
a transport address; a peer that was not there before the event has the cells it was built with (`cells_step`).
-/
namespace TailscaleVita.Wg

def outboundTo (ix : Indices) (plaintext : Bytes) : Option Peer := (parseIpv4Dst plaintext).bind (peerForIp ix)

section

variable {τ : Type} (b : Boringtun τ)

def PeerCells.Built (c : PeerCells τ) : Prop :=
  c.authSrc = none ∧ c.stats = ⟨0, 0, none⟩ ∧
    ∃ secret pubkey psk keepalive index, c.tunn = b.new secret pubkey psk keepalive index

def Passed (e : Engine τ) (ev : EngineEvent) (p : Peer) (c c' : PeerCells τ) : Prop :=
  match ev with
  | .inbound ord src d now =>
    c' = if p ∈ routedPeers e.indices ord d then (inboundPeer b e.inboundPolicy src d now p c).1 else c
  | .outbound hint pkt now =>
    c' = if outboundTo e.indices pkt = some p then (outboundPeer b hint pkt now p c).1 else c
  | .tick _ hint now => c' = (tickPeer b hint now p c).1
  | _ => ∃ a, c' = { c with transportAddr := a }

variable {p : Peer} {e : Engine τ}

theorem exists_cells (hw : e.Wf) (hp : e.indices.Live p) : ∃ c, e.heap[p.ptr]? = some c :=
  ⟨_, List.getElem?_eq_getElem (hw.coherent.ptr_lt p hp)⟩

theorem handleOutbound_heap (e : Engine τ) (hint : Option DirectPathHint) (pkt : Bytes) (now : Instant) :
    (handleOutbound b e hint pkt now).1.heap =
      (visit Peer.ptr (outboundPeer b hint pkt now) e.heap (outboundTo e.indices pkt).toList).1 := by
  unfold handleOutbound outboundTo
  cases hd : parseIpv4Dst pkt with
  | none => rfl
  | some dst =>
    simp only [Option.bind_some]
    cases peerForIp e.indices dst <;> rfl

variable {ix : Indices} {n : Nat}

theorem live_of_outboundTo (h : Coherent ix n) {pkt : Bytes} (hp : outboundTo ix pkt = some p) : ix.Live p := by
  obtain ⟨dst, -, hdst⟩ := Option.bind_eq_some_iff.1 hp
  exact ((lookup_eq_some_iff h dst p).1 hdst).1.1

theorem getElem?_visit_live (h : Coherent ix n) (f : Peer → PeerCells τ → PeerCells τ × List PumpOutput)
    (heap : List (PeerCells τ)) {ps : List Peer} (hlive : ∀ q ∈ ps, ix.Live q) (hnd : (ps.map Peer.ptr).Nodup)
    (hp : ix.Live p) :
    (visit Peer.ptr f heap ps).1[p.ptr]? = (heap[p.ptr]?).map (fun c => if p ∈ ps then (f p c).1 else c) := by
  by_cases hm : p ∈ ps
  · rw [getElem?_visit_of_mem _ _ _ _ hnd p hm]
    simp [hm]
  · have hptr : p.ptr ∉ ps.map Peer.ptr := by
      intro hmem
      obtain ⟨q, hq, he⟩ := List.mem_map.1 hmem
      exact hm (h.ptr_inj q p (hlive q hq) hp he ▸ hq)
    rw [getElem?_visit_of_notMem _ _ _ _ _ hptr]
    simp [hm]

theorem mem_values_iff_live (h : Coherent ix n) (ord : HashOrder PublicKey) :
    p ∈ ord.values ix.byPubkey ↔ ix.Live p := by
  rw [ord.mem_values]
  exact ⟨fun ⟨k, hk⟩ => h.live_of_lookup hk, fun hp => ⟨p.pubkey, hp⟩⟩

theorem cells_pump (hw : e.Wf) (ev : EngineEvent) (hev : ev.isPump = true) (hp : e.indices.Live p) {c : PeerCells τ}
    (hc : e.heap[p.ptr]? = some c) :
    ∃ c', (e.step b ev).heap[p.ptr]? = some c' ∧ Passed b e ev p c c' := by
  cases ev with
  | inbound ord src d now =>
    refine ⟨_, ?_, rfl⟩
    simp only [Engine.step, handleInbound]
    rw [getElem?_visit_live hw.coherent _ _ (fun q hq => live_of_mem_routedPeers hw.coherent ord d hq)
      (nodup_ptr_routedPeers hw.coherent ord d) hp, hc, Option.map_some]
  | outbound hint pkt now =>
    refine ⟨_, ?_, rfl⟩
    simp only [Engine.step]
    rw [handleOutbound_heap, getElem?_visit_live hw.coherent _ _
      (fun q hq => live_of_outboundTo hw.coherent (Option.mem_toList.1 hq)) ?_ hp, hc, Option.map_some]
    · simp
    · cases outboundTo e.indices pkt <;> simp
  | tick ord hint now =>
    refine ⟨_, ?_, rfl⟩
    simp only [Engine.step, tickTimers]
    rw [getElem?_visit_live hw.coherent _ _ (fun q hq => (mem_values_iff_live hw.coherent ord).1 hq)
      (nodup_ptr_values hw.coherent ord) hp, hc, Option.map_some,
      if_pos ((mem_values_iff_live hw.coherent ord).2 hp)]
  | _ => cases hev

theorem outboundPeer_frame (hint : Option DirectPathHint) (pkt : Bytes) (now : Instant) (p : Peer) (c : PeerCells τ) :
    (outboundPeer b hint pkt now p c).1.authSrc = c.authSrc ∧
      (outboundPeer b hint pkt now p c).1.stats.lastRx = c.stats.lastRx := by
  unfold outboundPeer
  split
  · exact ⟨rfl, rfl⟩
  · simp only
    split <;> exact ⟨rfl, rfl⟩

theorem tickPeer_frame (hint : Option DirectPathHint) (now : Instant) (p : Peer) (c : PeerCells τ) :
    (tickPeer b hint now p c).1.authSrc = c.authSrc ∧ (tickPeer b hint now p c).1.stats = c.stats := by
  unfold tickPeer
  split
  · exact ⟨rfl, rfl⟩
  · split
    · exact ⟨rfl, rfl⟩
    · simp only
      split <;> exact ⟨rfl, rfl⟩

theorem passed_frame {ev : EngineEvent} {c c' : PeerCells τ} (h : Passed b e ev p c c')
    (hev : ∀ ord src d now, ev ≠ .inbound ord src d now) :
    c'.authSrc = c.authSrc ∧ c'.stats.lastRx = c.stats.lastRx := by
  cases ev with
  | inbound ord src d now => exact absurd rfl (hev ord src d now)
  | outbound hint pkt now =>
    rw [h]
    split
    · exact outboundPeer_frame b hint pkt now p c
    · exact ⟨rfl, rfl⟩
  | tick ord hint now =>
    rw [h]
    exact ⟨(tickPeer_frame b hint now p c).1, by rw [(tickPeer_frame b hint now p c).2]⟩
  | _ =>
    obtain ⟨a, rfl⟩ := h
    exact ⟨rfl, rfl⟩

theorem cells_control (hw : e.Wf) {ev : EngineEvent} (hev : ev.isPump = false) (hp : (e.step b ev).indices.Live p)
    {c' : PeerCells τ} (hc' : (e.step b ev).heap[p.ptr]? = some c') :
    (p.ptr = e.heap.length ∧ c'.Built b) ∨
      (e.indices.Live p ∧ ∃ c, e.heap[p.ptr]? = some c ∧ Passed b e ev p c c') := by
  -- an address stored through another peer's handle leaves these cells
  have hmoved : ∀ (q : Peer) (a : TransportAddr) (c' : PeerCells τ), (e.setTransportAddr q a).heap[p.ptr]? = some c' →
      ∃ c, e.heap[p.ptr]? = some c ∧ ∃ a', c' = { c with transportAddr := a' } := by
    intro q a c' hc'
    rw [Engine.getElem?_setTransportAddr] at hc'
    by_cases hq : q.ptr = p.ptr
    · rw [if_pos hq] at hc'
      obtain ⟨c, hc, rfl⟩ := Option.map_eq_some_iff.1 hc'
      exact ⟨c, hc, some a, rfl⟩
    · rw [if_neg hq] at hc'
      exact ⟨c', hc', c'.transportAddr, rfl⟩
  have hrebuilt : ∀ cfg, (e.rebuildPeer b cfg).indices.Live p → (e.rebuildPeer b cfg).heap[p.ptr]? = some c' →
      (p.ptr = e.heap.length ∧ c'.Built b) ∨
        (e.indices.Live p ∧ ∃ c, e.heap[p.ptr]? = some c ∧ ∃ a, c' = { c with transportAddr := a }) := by
    intro cfg hp hc'
    simp only [Engine.rebuildPeer] at hp hc'
    rcases (live_insert _ _ _).1 hp with rfl | ⟨-, hp⟩
    · simp only [List.getElem?_concat_length, Option.some.injEq] at hc'
      subst hc'
      exact .inl ⟨rfl, rfl, rfl, _, _, _, _, _, rfl⟩
    · have hlive := ((live_remove _ _ _).1 hp).1
      rw [List.getElem?_append_left (hw.coherent.ptr_lt p hlive)] at hc'
      exact .inr ⟨hlive, c', hc', c'.transportAddr, rfl⟩
  cases ev with
  | upsertPeer cfg =>
    simp only [Engine.step] at hp hc'
    unfold Engine.upsertPeer at hp hc'
    cases hk : e.indices.byPubkey.lookup cfg.pubkey with
    | none =>
      rw [hk] at hp hc'
      exact hrebuilt cfg hp hc'
    | some q =>
      rw [hk] at hp hc'
      simp only at hp hc'
      by_cases hips : q.allowedIps = cfg.allowedIps
      · rw [if_pos hips] at hp hc'
        cases hep : cfg.initialEndpoint with
        | none =>
          rw [hep] at hp hc'
          exact .inr ⟨hp, c', hc', c'.transportAddr, rfl⟩
        | some ep =>
          rw [hep] at hp hc'
          exact .inr ⟨hp, hmoved q ep c' hc'⟩
      · rw [if_neg hips] at hp hc'
        exact hrebuilt cfg hp hc'
  | removePeer k => exact .inr ⟨((live_remove _ _ _).1 hp).1, c', hc', c'.transportAddr, rfl⟩
  | setEndpoint k a =>
    simp only [Engine.step] at hp hc'
    unfold Engine.setEndpoint at hp hc'
    cases hk : e.indices.byPubkey.lookup k with
    | none =>
      rw [hk] at hp hc'
      exact .inr ⟨hp, c', hc', c'.transportAddr, rfl⟩
    | some q =>
      rw [hk] at hp hc'
      exact .inr ⟨hp, hmoved q a c' hc'⟩
  | setInboundPolicy policy => exact .inr ⟨hp, c', hc', c'.transportAddr, rfl⟩
  | _ => cases hev

theorem cells_step (hw : e.Wf) (ev : EngineEvent) (hp : (e.step b ev).indices.Live p) {c' : PeerCells τ}
    (hc' : (e.step b ev).heap[p.ptr]? = some c') :
    (p.ptr = e.heap.length ∧ c'.Built b) ∨
      (e.indices.Live p ∧ ∃ c, e.heap[p.ptr]? = some c ∧ Passed b e ev p c c') := by
  cases hev : ev.isPump with
  | false => exact cells_control b hw hev hp hc'
  | true =>
    rw [indices_step_of_isPump b e hev] at hp
    obtain ⟨c, hc⟩ := exists_cells hw hp
    obtain ⟨c1, hc1, hpass⟩ := cells_pump b hw ev hev hp hc
    rw [hc1] at hc'
    cases hc'
    exact .inr ⟨hp, c, hc, hpass⟩

theorem length_heap_le_step (e : Engine τ) (ev : EngineEvent) : e.heap.length ≤ (e.step b ev).heap.length := by
  cases ev with
  | upsertPeer cfg =>
    have hgrown : e.heap.length ≤ (e.rebuildPeer b cfg).heap.length := by simp [Engine.rebuildPeer]
    simp only [Engine.step]
    unfold Engine.upsertPeer
    split
    · split
      · split
        · exact (Engine.length_heap_setTransportAddr e _ _).ge
        · exact Nat.le_refl _
      · exact hgrown
    · exact hgrown
  | setEndpoint k a =>
    simp only [Engine.step]
    unfold Engine.setEndpoint
    split
    · exact (Engine.length_heap_setTransportAddr e _ _).ge
    · exact Nat.le_refl _
  | outbound hint pkt now =>
    simp only [Engine.step]
    rw [handleOutbound_heap, length_visit]
  | inbound ord src d now | tick ord hint now => exact (length_visit _ _ _ _).ge
  | _ => exact Nat.le_refl _

theorem built_new (secret : BitVec 256) (peers : List PeerConfig) {c : PeerCells τ}
    (hp : (Engine.new b secret peers).indices.Live p) (hc : (Engine.new b secret peers).heap[p.ptr]? = some c) :
    c.Built b := by
  have h0 : (⟨Indices.new, .denyAll, 1, secret, []⟩ : Engine τ).Wf := ⟨Coherent.new, rfl⟩
  refine (run_keeps (fun e : Engine τ => e.Wf ∧ ∀ p c, e.indices.Live p → e.heap[p.ptr]? = some c → c.Built b)
    (fun e cfg h => ?_) peers _ ⟨h0, fun p c hp => by cases hp⟩).2 p c hp hc
  refine ⟨Engine.wf_upsertPeer b h.1 cfg, fun p c' hp hc' => ?_⟩
  rcases cells_step b h.1 (.upsertPeer cfg) hp hc' with ⟨-, hbuilt⟩ | ⟨hlive, c, hc, a, rfl⟩
  · exact hbuilt
  · exact h.2 p c hlive hc

end

def coldTunn : Boringtun Unit where
  new _ _ _ _ _ := ()
  decapsulate t d :=
    (t, if u32At d 0 = packetData ∧ d.drop 8 ≠ [] then some (.writeToTunnelV4 (d.drop 8)) else some .done)
  encapsulate t _ := (t, some (.writeToNetwork (leBytes 4 handshakeInit.toNat)))
  updateTimers t := (t, some .done)
  authenticates _ d := u32At d 0 == packetData
  pending _ := 0
  authenticates_of_output t d h := by
    by_cases hd : u32At d 0 = packetData
    · rw [hd]
      rfl
    · rw [if_neg (fun hd' => hd hd'.1)] at h
      exact absurd rfl h
  pending_lt t h := absurd rfl h

end TailscaleVita.Wg

import TailscaleVita.WgSteps
/-!
# WgTimers — which peers the tick reaches (`tick_timers`, `wg-engine/src/pump.rs`)

The tick skips a peer that has no `last_rx`, and `last_rx` is set only where a decrypted packet passes the filter. What
a `Tunn` went through is kept as the list of the calls made into it, which leaves its answers as they are.
-/
namespace TailscaleVita.Wg

open List

/-! ## Calls into a `Tunn` -/

inductive TunnCall where
  | decapsulate (datagram : Bytes) (authenticated : Bool) (outcome : Outcome)
  | encapsulate (packet : Bytes) (outcome : Outcome)
  | updateTimers (outcome : Outcome)
deriving DecidableEq

def TunnCall.outcome : TunnCall → Outcome
  | .decapsulate _ _ o => o
  | .encapsulate _ o => o
  | .updateTimers o => o

def TunnCall.initiates (call : TunnCall) : Bool :=
  match call.outcome with
  | .network bytes => u32At bytes 0 == handshakeInit
  | _ => false

def TunnCall.answers : TunnCall → Bool
  | .decapsulate d authenticated _ => authenticated && u32At d 0 == handshakeResp
  | _ => false

def hasAuthenticated (calls : List TunnCall) : Bool :=
  calls.any fun call =>
    match call with
    | .decapsulate _ authenticated _ => authenticated
    | _ => false

def initiationPending (calls : List TunnCall) : Bool :=
  calls.foldl (fun pending call => call.initiates || (pending && !call.answers)) false

section

variable {τ : Type} (b : Boringtun τ)

def Boringtun.traced : Boringtun (τ × List TunnCall) where
  new secret pubkey psk keepalive index := (b.new secret pubkey psk keepalive index, [])
  decapsulate t d :=
    let r := b.decapsulate t.1 d
    ((r.1, t.2 ++ [.decapsulate d (b.authenticates t.1 d) (Outcome.ofResult r.2)]), r.2)
  encapsulate t p :=
    let r := b.encapsulate t.1 p
    ((r.1, t.2 ++ [.encapsulate p (Outcome.ofResult r.2)]), r.2)
  updateTimers t :=
    let r := b.updateTimers t.1
    ((r.1, t.2 ++ [.updateTimers (Outcome.ofResult r.2)]), r.2)
  authenticates t d := b.authenticates t.1 d
  pending t := b.pending t.1
  authenticates_of_output t d h := b.authenticates_of_output t.1 d h
  pending_lt t h := b.pending_lt t.1 h

/-! ## Tracing changes nothing -/

def PeerCells.untrace (c : PeerCells (τ × List TunnCall)) : PeerCells τ :=
  ⟨c.transportAddr, c.authSrc, c.tunn.1, c.stats⟩

def Engine.untrace (e : Engine (τ × List TunnCall)) : Engine τ :=
  ⟨e.indices, e.inboundPolicy, e.nextIdx, e.ourStaticSecret, e.heap.map PeerCells.untrace⟩

theorem drain_untrace : ∀ (n : Nat) (t : τ × List TunnCall) (o : TunnOutputs),
    drain b n t.1 o = ((drain b.traced n t o).1.1, (drain b.traced n t o).2)
  | 0, _, _ => rfl
  | n + 1, t, o => by
    have hanswer : (b.traced.decapsulate t []).2 = (b.decapsulate t.1 []).2 := rfl
    simp only [drain, hanswer]
    cases Outcome.ofResult (b.decapsulate t.1 []).2 with
    | done => rfl
    | network x => exact drain_untrace n (b.traced.decapsulate t []).1 { o with net := o.net ++ [x] }
    | tunnelV4 x => exact drain_untrace n (b.traced.decapsulate t []).1 { o with tun := o.tun ++ [x] }
    | tunnelV6 => exact drain_untrace n (b.traced.decapsulate t []).1 o

theorem decapsulateAll_untrace (t : τ × List TunnCall) (d : Bytes) :
    decapsulateAll b t.1 d = ((decapsulateAll b.traced t d).1.1, (decapsulateAll b.traced t d).2) := by
  have hanswer : (b.traced.decapsulate t d).2 = (b.decapsulate t.1 d).2 := rfl
  simp only [decapsulateAll, hanswer]
  cases Outcome.ofResult (b.decapsulate t.1 d).2 with
  | done => rfl
  | network x => exact drain_untrace b _ (b.traced.decapsulate t d).1 ⟨[x], []⟩
  | tunnelV4 x | tunnelV6 => rfl

theorem inboundPeer_untrace (policy : InboundPolicy) (src : TransportAddr) (d : Bytes) (now : Instant) (p : Peer)
    (c : PeerCells (τ × List TunnCall)) : inboundPeer b policy src d now p c.untrace =
      ((inboundPeer b.traced policy src d now p c).1.untrace, (inboundPeer b.traced policy src d now p c).2) := by
  have htunn : (if src.isDerp then c.untrace.setTransportAddr src else c.untrace) =
      (if src.isDerp then c.setTransportAddr src else c).untrace := by
    split <;> rfl
  simp only [inboundPeer]
  rw [htunn]
  generalize (if src.isDerp then c.setTransportAddr src else c) = c1
  have hd : decapsulateAll b c1.untrace.tunn d =
      ((decapsulateAll b.traced c1.tunn d).1.1, (decapsulateAll b.traced c1.tunn d).2) := decapsulateAll_untrace b _ d
  rw [hd]
  by_cases hout : ((!(decapsulateAll b.traced c1.tunn d).2.net.isEmpty ||
      !(decapsulateAll b.traced c1.tunn d).2.tun.isEmpty) && !src.isDerp) = true
  · simp only [if_pos hout]
    rfl
  · simp only [if_neg hout]
    rfl

theorem pickAddr_untrace (p : Peer) (c : PeerCells (τ × List TunnCall)) (hint : Option DirectPathHint)
    (now : Instant) : pickAddr p c.untrace hint now = pickAddr p c hint now := rfl

variable (hint : Option DirectPathHint)

theorem outboundPeer_untrace (pkt : Bytes) (now : Instant) (p : Peer)
    (c : PeerCells (τ × List TunnCall)) : outboundPeer b hint pkt now p c.untrace =
      ((outboundPeer b.traced hint pkt now p c).1.untrace, (outboundPeer b.traced hint pkt now p c).2) := by
  have hanswer : (b.traced.encapsulate c.tunn pkt).2 = (b.encapsulate c.untrace.tunn pkt).2 := rfl
  simp only [outboundPeer, pickAddr_untrace, hanswer]
  cases pickAddr p c hint now with
  | none => rfl
  | some addr =>
    cases Outcome.ofResult (b.encapsulate c.untrace.tunn pkt).2 <;> rfl

theorem tickPeer_untrace (now : Instant) (p : Peer)
    (c : PeerCells (τ × List TunnCall)) : tickPeer b hint now p c.untrace =
      ((tickPeer b.traced hint now p c).1.untrace, (tickPeer b.traced hint now p c).2) := by
  have hanswer : (b.traced.updateTimers c.tunn).2 = (b.updateTimers c.untrace.tunn).2 := rfl
  have hstats : c.untrace.stats = c.stats := rfl
  simp only [tickPeer, pickAddr_untrace, hanswer, hstats]
  by_cases hrx : c.stats.lastRx.isNone = true
  · simp only [if_pos hrx]
  · simp only [if_neg hrx]
    cases pickAddr p c hint now with
    | none => rfl
    | some addr =>
      cases Outcome.ofResult (b.updateTimers c.untrace.tunn).2 <;> rfl

theorem setTransportAddr_untrace (e : Engine (τ × List TunnCall)) (p : Peer) (a : TransportAddr) :
    e.untrace.setTransportAddr p a = (e.setTransportAddr p a).untrace := by
  simp only [Engine.setTransportAddr, Engine.untrace]
  congr 1
  refine ext_getElem? fun i => ?_
  by_cases hi : p.ptr = i
  · simp only [getElem?_modify, getElem?_map, if_pos hi, Option.map_map, Option.map_eq_map]
    rfl
  · simp [getElem?_modify, getElem?_map, if_neg hi]

theorem rebuildPeer_untrace (e : Engine (τ × List TunnCall)) (cfg : PeerConfig) :
    e.untrace.rebuildPeer b cfg = (e.rebuildPeer b.traced cfg).untrace := by
  simp only [Engine.rebuildPeer, Engine.untrace, map_append, length_map]
  rfl

theorem upsertPeer_untrace (e : Engine (τ × List TunnCall)) (cfg : PeerConfig) :
    e.untrace.upsertPeer b cfg = (e.upsertPeer b.traced cfg).untrace := by
  have hix : e.untrace.indices = e.indices := rfl
  simp only [Engine.upsertPeer, hix]
  split
  · split
    · split
      · exact setTransportAddr_untrace e _ _
      · rfl
    · exact rebuildPeer_untrace b e cfg
  · exact rebuildPeer_untrace b e cfg

theorem handleInbound_untrace (e : Engine (τ × List TunnCall)) (ord : HashOrder PublicKey) (src : TransportAddr)
    (d : Bytes) (now : Instant) : handleInbound b e.untrace ord src d now =
      ((handleInbound b.traced e ord src d now).1.untrace, (handleInbound b.traced e ord src d now).2) := by
  simp only [handleInbound, Engine.untrace]
  rw [visit_map Peer.ptr _ PeerCells.untrace (fun p c => inboundPeer_untrace b e.inboundPolicy src d now p c)]

theorem step_untrace (e : Engine (τ × List TunnCall)) (ev : EngineEvent) :
    e.untrace.step b ev = (e.step b.traced ev).untrace := by
  cases ev with
  | upsertPeer cfg => exact upsertPeer_untrace b e cfg
  | removePeer k => rfl
  | setEndpoint k a =>
    have hix : e.untrace.indices = e.indices := rfl
    simp only [Engine.step, Engine.setEndpoint, hix]
    split
    · exact setTransportAddr_untrace e _ _
    · rfl
  | setInboundPolicy policy => rfl
  | inbound ord src d now => exact congrArg Prod.fst (handleInbound_untrace b e ord src d now)
  | outbound hint pkt now =>
    have hix : e.untrace.indices = e.indices := rfl
    simp only [Engine.step, handleOutbound, hix]
    split
    · rfl
    · split
      · rfl
      · simp only [Engine.untrace]
        rw [visit_map Peer.ptr _ PeerCells.untrace (fun p c => outboundPeer_untrace b hint pkt now p c)]
  | tick ord hint now =>
    simp only [Engine.step, tickTimers, Engine.untrace]
    rw [visit_map Peer.ptr _ PeerCells.untrace (fun p c => tickPeer_untrace b hint now p c)]

variable (secret : BitVec 256) (peers : List PeerConfig) (es : List EngineEvent)

theorem untrace_reached :
    (reached b.traced secret peers es).untrace = reached b secret peers es := by
  have hnew : (Engine.new b.traced secret peers).untrace = Engine.new b secret peers :=
    run_sim (fun (e : Engine (τ × List TunnCall)) e' => e.untrace = e')
      (fun e e' cfg h _ => by rw [← h, upsertPeer_untrace]) peers _ _ rfl (along_true _ peers _)
  exact run_sim (fun (e : Engine (τ × List TunnCall)) e' => e.untrace = e')
    (fun e e' ev h _ => by rw [← h, step_untrace]) es _ _ hnew (along_true _ es _)

/-! ## Packets delivered -/

/-- A packet of `p` passed the filter and was handed on, at some point of the run. -/
def Delivered (secret : BitVec 256) (peers : List PeerConfig) (es : List EngineEvent) (p : Peer) : Prop :=
  ∃ es₁ ord src d now pkt, es₁ ++ [.inbound ord src d now] <+: es ∧
    .tunRx p pkt ∈ (handleInbound b (reached b secret peers es₁) ord src d now).2

theorem lastRx_recordRx (now : Instant) : ∀ (pkts : List Bytes) (s : PeerStats),
    (pkts.foldl (PeerStats.recordRx now) s).lastRx.isSome = true ↔ s.lastRx.isSome = true ∨ pkts ≠ []
  | [], s => by simp
  | pkt :: pkts, s => by
    rw [foldl_cons, lastRx_recordRx now pkts]
    simp [PeerStats.recordRx]

theorem lastRx_inboundPeer (policy : InboundPolicy) (src : TransportAddr) (d : Bytes) (now : Instant) (p : Peer)
    (c : PeerCells τ) : (inboundPeer b policy src d now p c).1.stats.lastRx.isSome = true ↔
      c.stats.lastRx.isSome = true ∨ ∃ pkt, .tunRx p pkt ∈ (inboundPeer b policy src d now p c).2 := by
  have hstats : ∀ (o : TunnOutputs) (t : τ), (if (!o.net.isEmpty || !o.tun.isEmpty) && !src.isDerp then
      ({ (if src.isDerp then c.setTransportAddr src else c) with tunn := t } : PeerCells τ).setAuthSrc src now
      else { (if src.isDerp then c.setTransportAddr src else c) with tunn := t }).stats = c.stats := by
    intro o t
    split <;> split <;> rfl
  simp only [inboundPeer, hstats, lastRx_recordRx, mem_append, mem_map]
  apply or_congr_right
  constructor
  · intro hne
    obtain ⟨pkt, h⟩ := exists_mem_of_ne_nil _ hne
    exact ⟨pkt, .inr ⟨pkt, h, rfl⟩⟩
  · rintro ⟨pkt, ⟨_, -, he⟩ | ⟨pkt', h, -⟩⟩
    · cases he
    · exact ne_nil_of_mem h

variable {p : Peer}

theorem exists_tunRx_iff {e : Engine τ} (hw : e.Wf) {c : PeerCells τ} (hc : e.heap[p.ptr]? = some c)
    (ord : HashOrder PublicKey) (src : TransportAddr) (d : Bytes) (now : Instant) :
    (∃ pkt, .tunRx p pkt ∈ (handleInbound b e ord src d now).2) ↔ p ∈ routedPeers e.indices ord d ∧
      ∃ pkt, .tunRx p pkt ∈ (inboundPeer b e.inboundPolicy src d now p c).2 := by
  simp only [handleInbound, mem_visit _ _ _ _ (nodup_ptr_routedPeers hw.coherent ord d)]
  constructor
  · rintro ⟨pkt, q, hq, c', hc', hout⟩
    obtain ⟨rfl, -⟩ := tunRx_mem_inboundPeer b _ _ _ _ _ _ _ _ hout
    rw [hc] at hc'
    cases hc'
    exact ⟨hq, pkt, hout⟩
  · rintro ⟨hq, pkt, hout⟩
    exact ⟨pkt, p, hq, c, hc, hout⟩

theorem lastRx_passed {e : Engine τ} (hw : e.Wf) {ev : EngineEvent} {c c' : PeerCells τ} (hc : e.heap[p.ptr]? = some c)
    (hpass : Passed b e ev p c c') :
    c'.stats.lastRx.isSome = true ↔ c.stats.lastRx.isSome = true ∨ ∃ ord src d now pkt,
      ev = .inbound ord src d now ∧ .tunRx p pkt ∈ (handleInbound b e ord src d now).2 := by
  cases ev with
  | inbound ord src d now =>
    have hpkts := exists_tunRx_iff b hw hc ord src d now
    rw [hpass]
    by_cases hr : p ∈ routedPeers e.indices ord d
    · rw [if_pos hr, lastRx_inboundPeer]
      apply or_congr_right
      rw [← and_iff_right hr (b := ∃ pkt, _), ← hpkts]
      constructor
      · rintro ⟨pkt, h⟩
        exact ⟨ord, src, d, now, pkt, rfl, h⟩
      · rintro ⟨_, _, _, _, pkt, he, h⟩
        cases he
        exact ⟨pkt, h⟩
    · rw [if_neg hr]
      refine ⟨.inl, ?_⟩
      rintro (h | ⟨_, _, _, _, pkt, he, h⟩)
      · exact h
      · cases he
        exact absurd (hpkts.1 ⟨pkt, h⟩).1 hr
  | _ =>
    rw [(passed_frame b hpass (by simp)).2]
    simp

theorem delivered_concat (ev : EngineEvent)
    (p : Peer) : Delivered b secret peers (es ++ [ev]) p ↔ Delivered b secret peers es p ∨ ∃ ord src d now pkt,
      ev = .inbound ord src d now ∧ .tunRx p pkt ∈ (handleInbound b (reached b secret peers es) ord src d now).2 := by
  constructor
  · rintro ⟨es1, ord, src, d, now, pkt, hpre, h⟩
    rcases prefix_concat_iff.1 hpre with heq | hpre
    · obtain ⟨rfl, hev⟩ := append_inj' heq rfl
      cases hev
      exact .inr ⟨ord, src, d, now, pkt, rfl, h⟩
    · exact .inl ⟨es1, ord, src, d, now, pkt, hpre, h⟩
  · rintro (⟨es1, ord, src, d, now, pkt, hpre, h⟩ | ⟨ord, src, d, now, pkt, rfl, h⟩)
    · exact ⟨es1, ord, src, d, now, pkt, hpre.trans (prefix_append es [ev]), h⟩
    · exact ⟨es, ord, src, d, now, pkt, prefix_rfl, h⟩

theorem length_heap_mono {es1 es : List EngineEvent} (h : es1 <+: es) :
    (reached b secret peers es1).heap.length ≤ (reached b secret peers es).heap.length := by
  obtain ⟨es2, rfl⟩ := h
  unfold reached
  rw [run_append]
  let before := run (Engine.step b) (Engine.new b secret peers) es1
  exact run_keeps (fun e : Engine τ => before.heap.length ≤ e.heap.length)
    (fun e ev h => h.trans (length_heap_le_step b e ev)) es2 _ (Nat.le_refl _)

theorem ptr_lt_of_delivered {secret : BitVec 256} {peers : List PeerConfig} {es : List EngineEvent}
    (h : Delivered b secret peers es p) : p.ptr < (reached b secret peers es).heap.length := by
  obtain ⟨es1, ord, src, d, now, pkt, hpre, h⟩ := h
  have hw := wf_reached b secret peers es1
  have hlt := hw.coherent.ptr_lt p (delivered_of_mem b hw h).1
  exact Nat.lt_of_lt_of_le hlt (length_heap_mono b secret peers ((prefix_append es1 _).trans hpre))

theorem lastRx_isSome_iff :
    ∀ (p : Peer) (c : PeerCells τ), (reached b secret peers es).indices.Live p →
      (reached b secret peers es).heap[p.ptr]? = some c →
      (c.stats.lastRx.isSome = true ↔ Delivered b secret peers es p) := by
  induction es using List.reverseRecOn with
  | nil =>
    intro p c hp hc
    rw [(built_new b secret peers hp hc).2.1]
    constructor
    · intro h
      cases h
    · rintro ⟨es1, ord, src, d, now, pkt, hpre, -⟩
      simp at hpre
  | append_singleton es ev ih =>
    intro p c' hp hc'
    have hw := wf_reached b secret peers es
    have hstep : reached b secret peers (es ++ [ev]) = (reached b secret peers es).step b ev := run_append ..
    rw [hstep] at hp hc'
    rw [delivered_concat]
    rcases cells_step b hw ev hp hc' with ⟨hptr, -, hstats, -⟩ | ⟨hlive, c, hc, hpass⟩
    · rw [hstats]
      refine ⟨nofun, ?_⟩
      rintro (h | ⟨ord, src, d, now, pkt, rfl, h⟩)
      · exact absurd (ptr_lt_of_delivered b h) (by omega)
      · exact absurd (hw.coherent.ptr_lt p (delivered_of_mem b hw h).1) (by omega)
    · rw [lastRx_passed b hw hc hpass, ih p c hlive hc]

theorem delivered_untrace (p : Peer) :
    Delivered b.traced secret peers es p ↔ Delivered b secret peers es p := by
  have hout : ∀ es1 ord src d now, (handleInbound b (reached b secret peers es1) ord src d now).2 =
      (handleInbound b.traced (reached b.traced secret peers es1) ord src d now).2 := by
    intro es1 ord src d now
    rw [← untrace_reached, handleInbound_untrace]
  unfold Delivered
  simp [hout]

/-! ## The tick -/

def needsTimers (calls : List TunnCall) : Bool := hasAuthenticated calls || initiationPending calls

def TimersUpdated (e e' : Engine (τ × List TunnCall)) (p : Peer) : Prop :=
  ∃ c c' outcome, e.heap[p.ptr]? = some c ∧ e'.heap[p.ptr]? = some c' ∧
    c'.tunn.2 = c.tunn.2 ++ [.updateTimers outcome]

theorem calls_tickPeer (now : Instant) (p : Peer) (c : PeerCells (τ × List TunnCall)) :
    (tickPeer b.traced hint now p c).1.tunn.2 =
      if c.stats.lastRx.isSome = true ∧ (pickAddr p c hint now).isSome = true then
        c.tunn.2 ++ [.updateTimers (Outcome.ofResult (b.updateTimers c.tunn.1).2)]
      else c.tunn.2 := by
  have hanswer : (b.traced.updateTimers c.tunn).2 = (b.updateTimers c.tunn.1).2 := rfl
  simp only [tickPeer, hanswer]
  cases c.stats.lastRx with
  | none => simp
  | some rx =>
    cases pickAddr p c hint now with
    | none => simp
    | some addr =>
      simp only [Option.isNone_some, Bool.false_eq_true, if_false, Option.isSome_some, and_self, if_true]
      split <;> rfl

theorem timersUpdated_iff {e : Engine (τ × List TunnCall)} (hw : e.Wf) (ord : HashOrder PublicKey)
    (hint : Option DirectPathHint) (now : Instant) (hp : e.indices.Live p) {c : PeerCells (τ × List TunnCall)}
    (hc : e.heap[p.ptr]? = some c) (haddr : (pickAddr p c hint now).isSome = true) :
    TimersUpdated e (tickTimers b.traced e ord hint now).1 p ↔ c.stats.lastRx.isSome = true := by
  obtain ⟨c', hc', hpass⟩ := cells_pump b.traced hw (.tick ord hint now) rfl hp hc
  have hcalls := calls_tickPeer b hint now p c
  rw [← show c' = (tickPeer b.traced hint now p c).1 from hpass] at hcalls
  constructor
  · rintro ⟨c1, c2, outcome, hc1, hc2, hgrown⟩
    rw [hc] at hc1
    cases hc1
    rw [show (tickTimers b.traced e ord hint now).1.heap[p.ptr]? = some c' from hc'] at hc2
    cases hc2
    by_contra hrx
    rw [hgrown, if_neg (fun h => hrx h.1)] at hcalls
    simp at hcalls
  · intro hrx
    rw [if_pos ⟨hrx, haddr⟩] at hcalls
    exact ⟨c, c', _, hc, hc', hcalls⟩

/-- **Which peers the timers reach.** In every engine reached, the tick updates the timers of every live peer that has
an address to send to and whose `Tunn` has authenticated a message or waits for a handshake response, exactly when each
of these has had a packet delivered past the filter. -/
theorem timers_cover_iff (secret : BitVec 256) (peers : List PeerConfig) (es : List EngineEvent)
    (ord : HashOrder PublicKey) (hint : Option DirectPathHint) (now : Instant) :
    let e := reached b.traced secret peers es
    (∀ p c, e.indices.Live p → e.heap[p.ptr]? = some c → (pickAddr p c hint now).isSome = true →
        needsTimers c.tunn.2 = true → TimersUpdated e (tickTimers b.traced e ord hint now).1 p) ↔
      ∀ p c, e.indices.Live p → e.heap[p.ptr]? = some c → (pickAddr p c hint now).isSome = true →
        needsTimers c.tunn.2 = true → Delivered b secret peers es p := by
  intro e
  have hw : e.Wf := wf_reached b.traced secret peers es
  refine forall₄_congr fun p c hp hc => forall₂_congr fun haddr _ => ?_
  rw [timersUpdated_iff b hw ord hint now hp hc haddr, ← delivered_untrace]
  exact lastRx_isSome_iff b.traced secret peers es p c hp hc

end

/-- **A lost initiation is not sent again, and a filtered session is not kept alive**: the tick updates the timers of
neither peer. -/
theorem timers_skip_lost_initiation :
    let net : Ipv4Cidr := ⟨Ipv4Addr.new 100 64 0 1, 32, by decide⟩
    let e := reached coldTunn.traced 0 [⟨1, none, none, [net], some (.derp 1 1)⟩, ⟨2, none, none, [], some (.derp 1 2)⟩]
      [.outbound none (icmpPacket 10 0 0 1) 0,
       .inbound keyOrder (.derp 1 2) (wireDatagram packetData [] (receiverIndex 2 0) (icmpPacket 10 0 0 2)) 0]
    let e' := (tickTimers coldTunn.traced e keyOrder none 5000).1
    ((e.heap.map (fun c => initiationPending c.tunn.2)) = [true, false] ∧
      (e.heap.map (fun c => hasAuthenticated c.tunn.2)) = [false, true]) ∧
    ((e.heap.map (fun c => (pickAddr ⟨0, 1, 1, [net]⟩ c none 5000).isSome)) = [true, true] ∧
      e'.heap.map (fun c => c.tunn.2) = e.heap.map (fun c => c.tunn.2)) ∧
    ¬ TimersUpdated e e' ⟨0, 1, 1, [net]⟩ ∧ ¬ TimersUpdated e e' ⟨1, 2, 2, []⟩ := by
  intro net e e'
  have hsame : e'.heap.map (fun c => c.tunn.2) = e.heap.map (fun c => c.tunn.2) := by decide
  have hskip : ∀ p, ¬ TimersUpdated e e' p := by
    rintro p ⟨c, c', outcome, hc, hc', hgrown⟩
    have h := congrArg (fun l : List (List TunnCall) => l[p.ptr]?) hsame
    simp only [getElem?_map, hc, hc', Option.map_some, Option.some.injEq, hgrown] at h
    simp at h
  exact ⟨⟨by decide, by decide⟩, ⟨by decide, hsame⟩, hskip _, hskip _⟩

end TailscaleVita.Wg

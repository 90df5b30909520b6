import TailscaleVita.WgSteps
/-!
# WgTrust — the source a peer was last heard from (`Peer::set_auth_src`, `wg-engine/src/pump.rs`)

`handle_inbound` stamps the source of a datagram for which the peer's `Tunn` put something out. A keepalive and an IPv6
packet are accepted and put out nothing, so they do not refresh the stamp. What the engine should know is kept beside
it: for each peer the last direct datagram its `Tunn` authenticated.
-/
namespace TailscaleVita.Wg

section

variable {τ : Type} (b : Boringtun τ)

def Outcome.putsOut : Outcome → Bool
  | .network _ => true
  | .tunnelV4 _ => true
  | .done => false
  | .tunnelV6 => false

theorem length_net_drain : ∀ (n : Nat) (t : τ) (o : TunnOutputs), o.net.length ≤ (drain b n t o).2.net.length
  | 0, _, _ => Nat.le_refl _
  | n + 1, t, o => by
    simp only [drain]
    cases Outcome.ofResult (b.decapsulate t []).2 with
    | done => exact Nat.le_refl _
    | network x =>
      have h := length_net_drain n (b.decapsulate t []).1 { o with net := o.net ++ [x] }
      simp only [List.length_append, List.length_singleton] at h
      exact Nat.le_of_succ_le h
    | tunnelV4 x => exact length_net_drain n _ { o with tun := o.tun ++ [x] }
    | tunnelV6 => exact length_net_drain n _ o

theorem output_decapsulateAll (t : τ) (d : Bytes) :
    (!(decapsulateAll b t d).2.net.isEmpty || !(decapsulateAll b t d).2.tun.isEmpty) =
      (Outcome.ofResult (b.decapsulate t d).2).putsOut := by
  simp only [decapsulateAll]
  cases Outcome.ofResult (b.decapsulate t d).2 with
  | done | tunnelV4 x | tunnelV6 => rfl
  | network x =>
    have h := length_net_drain b (b.pending (b.decapsulate t d).1 + 1) (b.decapsulate t d).1 ⟨[x], []⟩
    simp only [Outcome.putsOut, Bool.or_eq_true, Bool.not_eq_true', List.isEmpty_eq_false_iff]
    exact .inl (List.ne_nil_of_length_pos h)

theorem authenticates_of_putsOut {t : τ} {d : Bytes} (h : (Outcome.ofResult (b.decapsulate t d).2).putsOut = true) :
    b.authenticates t d = true := by
  apply b.authenticates_of_output
  intro hdone
  rw [hdone] at h
  cases h

theorem authSrc_inboundPeer (policy : InboundPolicy) (src : TransportAddr) (d : Bytes) (now : Instant) (p : Peer)
    (c : PeerCells τ) : (inboundPeer b policy src d now p c).1.authSrc =
      if (Outcome.ofResult (b.decapsulate c.tunn d).2).putsOut && !src.isDerp then some (src, now) else c.authSrc := by
  have htunn : (if src.isDerp then c.setTransportAddr src else c).tunn = c.tunn := by
    split <;> rfl
  simp only [inboundPeer, htunn, output_decapsulateAll]
  split
  · rfl
  · split <;> rfl

/-! ## The engine and what was heard -/

def accepts (e : Engine τ) (ord : HashOrder PublicKey) (d : Bytes) (i : Nat) : Bool :=
  (routedPeers e.indices ord d).any (fun p => p.ptr == i) && (e.heap[i]?).any (fun c => b.authenticates c.tunn d)

structure Watched (τ : Type) where
  engine : Engine τ
  heard : Nat → Option (SocketAddr × Instant)

def Watched.step (w : Watched τ) (ev : EngineEvent) : Watched τ where
  engine := w.engine.step b ev
  heard :=
    match ev with
    | .inbound ord (.udp a) d now => fun i => if accepts b w.engine ord d i then some (a, now) else w.heard i
    | _ => w.heard

def watched (secret : BitVec 256) (peers : List PeerConfig) (es : List EngineEvent) : Watched τ :=
  run (Watched.step b) ⟨Engine.new b secret peers, fun _ => none⟩ es

def TrustsHeard (w : Watched τ) : Prop :=
  ∀ p c, w.engine.indices.Live p → w.engine.heap[p.ptr]? = some c →
    c.authSrc = (w.heard p.ptr).map (fun h => (.udp h.1, h.2)) ∧
    ∀ a t, w.heard p.ptr = some (a, t) → ∀ hint now, now - t < authSrcTrust → pickAddr p c hint now = some (.udp a)

def Stamps (e : Engine τ) : EngineEvent → Prop
  | .inbound ord (.udp a) d now => ∀ p ∈ routedPeers e.indices ord d, ∀ c, e.heap[p.ptr]? = some c →
      b.authenticates c.tunn d = true →
      (Outcome.ofResult (b.decapsulate c.tunn d).2).putsOut = true ∨ c.authSrc = some (.udp a, now)
  | _ => True

variable {c : PeerCells τ} {p : Peer}

theorem accepts_eq {e : Engine τ} (hw : e.Wf) (ord : HashOrder PublicKey) (d : Bytes) (hp : e.indices.Live p)
    (hc : e.heap[p.ptr]? = some c) :
    accepts b e ord d p.ptr = true ↔ p ∈ routedPeers e.indices ord d ∧ b.authenticates c.tunn d = true := by
  have hmem : (routedPeers e.indices ord d).any (fun q => q.ptr == p.ptr) = true ↔ p ∈ routedPeers e.indices ord d := by
    rw [List.any_eq_true]
    constructor
    · rintro ⟨q, hq, he⟩
      exact hw.coherent.ptr_inj q p (live_of_mem_routedPeers hw.coherent ord d hq) hp (beq_iff_eq.1 he) ▸ hq
    · intro hq
      exact ⟨p, hq, beq_self_eq_true _⟩
  unfold accepts
  rw [Bool.and_eq_true, hmem, hc, Option.any_some]

theorem pickAddr_of_authSrc {a : SocketAddr} {t : Instant} (h : c.authSrc = some (.udp a, t))
    (hint : Option DirectPathHint) {now : Instant} (hnow : now - t < authSrcTrust) :
    pickAddr p c hint now = some (.udp a) := by
  unfold pickAddr PeerCells.authSrcFresh
  rw [h, Option.bind_some, if_pos hnow]

theorem trustsHeard_iff (w : Watched τ) : TrustsHeard w ↔
    ∀ p c, w.engine.indices.Live p → w.engine.heap[p.ptr]? = some c →
      c.authSrc = (w.heard p.ptr).map (fun h => (.udp h.1, h.2)) := by
  refine ⟨fun h p c hp hc => (h p c hp hc).1, fun h p c hp hc => ⟨h p c hp hc, fun a t ha hint now hnow => ?_⟩⟩
  have hsrc := h p c hp hc
  rw [ha] at hsrc
  exact pickAddr_of_authSrc hsrc hint hnow

structure Watched.Inv (w : Watched τ) : Prop where
  wf : w.engine.Wf
  unbuilt : ∀ i, w.engine.heap.length ≤ i → w.heard i = none

theorem Watched.inv_step (w : Watched τ) (ev : EngineEvent) (h : w.Inv) : (w.step b ev).Inv := by
  refine ⟨wf_step b w.engine ev h.wf, fun i hi => ?_⟩
  have hle : w.engine.heap.length ≤ i := (length_heap_le_step b w.engine ev).trans hi
  have hnone := h.unbuilt i hle
  have hfree : ∀ ord d, accepts b w.engine ord d i = false := fun ord d => by
    simp [accepts, List.getElem?_eq_none hle]
  simp only [step]
  split
  · simp only [hfree, Bool.false_eq_true, if_false]
    exact hnone
  · exact hnone

theorem heard_eq_stamp_iff (w : Watched τ) (h : w.Inv) {ord : HashOrder PublicKey} {a : SocketAddr} {d : Bytes}
    {now : Instant} (hp : w.engine.indices.Live p) (hc : w.engine.heap[p.ptr]? = some c)
    (htrust : c.authSrc = (w.heard p.ptr).map (fun h => (.udp h.1, h.2)))
    (hr : p ∈ routedPeers w.engine.indices ord d) :
    ((inboundPeer b w.engine.inboundPolicy (.udp a) d now p c).1.authSrc =
        ((w.step b (.inbound ord (.udp a) d now)).heard p.ptr).map (fun h => (.udp h.1, h.2))) ↔
      (b.authenticates c.tunn d = true →
        (Outcome.ofResult (b.decapsulate c.tunn d).2).putsOut = true ∨ c.authSrc = some (.udp a, now)) := by
  rw [authSrc_inboundPeer]
  simp only [Watched.step, TransportAddr.isDerp, Bool.not_false, Bool.and_true]
  by_cases hauth : b.authenticates c.tunn d = true
  · rw [if_pos ((accepts_eq b h.wf ord d hp hc).2 ⟨hr, hauth⟩)]
    by_cases hout : (Outcome.ofResult (b.decapsulate c.tunn d).2).putsOut = true
    · simp [hout]
    · simp [hout, hauth]
  · have hacc : ¬ accepts b w.engine ord d p.ptr = true := fun hacc => hauth ((accepts_eq b h.wf ord d hp hc).1 hacc).2
    have hout : ¬ (Outcome.ofResult (b.decapsulate c.tunn d).2).putsOut = true := fun hout =>
      hauth (authenticates_of_putsOut b hout)
    rw [if_neg hacc, if_neg hout]
    simp [hauth, htrust]

theorem trustsHeard_step_iff (w : Watched τ) (ev : EngineEvent) (h : w.Inv) (htrust : TrustsHeard w) :
    TrustsHeard (w.step b ev) ↔ Stamps b w.engine ev := by
  rw [trustsHeard_iff] at htrust ⊢
  constructor
  · intro hafter
    unfold Stamps
    split
    · intro p hr c hc
      rename_i ord a d now
      have hp := live_of_mem_routedPeers h.wf.coherent ord d hr
      obtain ⟨c', hc', hpass⟩ := cells_pump b h.wf (.inbound ord (.udp a) d now) rfl hp hc
      simp only [Passed, if_pos hr] at hpass
      have hsrc := hafter p c' hp hc'
      rw [hpass] at hsrc
      exact (heard_eq_stamp_iff b w h hp hc (htrust p c hp hc) hr).1 hsrc
    · trivial
  · intro hstamp p c' hp hc'
    rcases cells_step b h.wf ev hp hc' with ⟨hptr, hsrc, -⟩ | ⟨hlive, c, hc, hpass⟩
    · -- a peer just built: nothing is stamped, and nothing was recorded at its place
      have hfree : (w.step b ev).heard p.ptr = none := by
        have hnone := h.unbuilt p.ptr (Nat.le_of_eq hptr.symm)
        have hacc : ∀ ord d, accepts b w.engine ord d p.ptr = false := fun ord d => by
          simp [accepts, hptr]
        simp only [Watched.step]
        split
        · simp only [hacc, Bool.false_eq_true, if_false]
          exact hnone
        · exact hnone
      rw [hsrc, hfree]
      rfl
    · have hold := htrust p c hlive hc
      cases ev with
      | inbound ord src d now =>
        simp only [Passed] at hpass
        by_cases hr : p ∈ routedPeers w.engine.indices ord d
        · rw [if_pos hr] at hpass
          rw [hpass]
          cases src with
          | udp a => exact (heard_eq_stamp_iff b w h hlive hc hold hr).2 (hstamp p hr c hc)
          | derp region key =>
            rw [authSrc_inboundPeer]
            simpa [TransportAddr.isDerp, Watched.step] using hold
        · rw [if_neg hr] at hpass
          rw [hpass]
          cases src with
          | udp a =>
            have hacc : ¬ accepts b w.engine ord d p.ptr = true := fun hacc =>
              hr ((accepts_eq b h.wf ord d hlive hc).1 hacc).1
            simp only [Watched.step]
            rwa [if_neg hacc]
          | derp region key => exact hold
      | _ =>
        rwa [(passed_frame b hpass (by simp)).1]

/-- **When the last authenticated source is the trusted one.** Along every run of the engine, from any configuration
and with any `Tunn`, each live peer's `auth_src` is the last direct datagram its `Tunn` authenticated, and `pick_addr`
trusts it for `AUTH_SRC_TRUST`, exactly when every direct datagram that a `Tunn` authenticates puts out something, or
finds its own stamp in place. -/
theorem trusts_heard_iff (secret : BitVec 256) (peers : List PeerConfig) (es : List EngineEvent) :
    (∀ es₁, es₁ <+: es → TrustsHeard (watched b secret peers es₁)) ↔
      Along (Engine.step b) (Stamps b) (Engine.new b secret peers) es := by
  let w₀ : Watched τ := ⟨Engine.new b secret peers, fun _ => none⟩
  have hinv : w₀.Inv := ⟨Engine.wf_new b secret peers, fun _ _ => rfl⟩
  have htrust : TrustsHeard w₀ := (trustsHeard_iff w₀).2 fun p c hp hc => (built_new b secret peers hp hc).1
  have hruns := run_always_iff_of_inv Watched.Inv (fun w ev h _ => w.inv_step b ev h)
    (fun w ev h ht => trustsHeard_step_iff b w ev h ht) es w₀ hinv htrust
  exact hruns.trans (along_map Watched.engine (fun _ _ => rfl) es w₀)

def HeardFrom (secret : BitVec 256) (peers : List PeerConfig) (es : List EngineEvent) (p : Peer)
    (src : TransportAddr × Instant) : Prop :=
  ∃ es₁ ord d es₂ c, es = es₁ ++ .inbound ord src.1 d src.2 :: es₂ ∧ src.1.isDerp = false ∧
    p ∈ routedPeers (reached b secret peers es₁).indices ord d ∧
    (reached b secret peers es₁).heap[p.ptr]? = some c ∧ b.authenticates c.tunn d = true

def SourcesHeard (secret : BitVec 256) (peers : List PeerConfig) (es : List EngineEvent) : Prop :=
  ∀ p c, (reached b secret peers es).indices.Live p → (reached b secret peers es).heap[p.ptr]? = some c →
    ∀ src ∈ c.authSrc, HeardFrom b secret peers es p src

/-- **An unauthenticated datagram moves no trust**: in every run, a live peer's `auth_src` is the source and the time of
an earlier direct datagram that this peer's `Tunn` authenticated. -/
theorem auth_src_heard (secret : BitVec 256) (peers : List PeerConfig) (es : List EngineEvent) :
    SourcesHeard b secret peers es := by
  induction es using List.reverseRecOn with
  | nil =>
    intro p c hp hc src hsrc
    rw [(built_new b secret peers hp hc).1] at hsrc
    cases hsrc
  | append_singleton es ev ih =>
    intro p c hp hc src hsrc
    have hstep : reached b secret peers (es ++ [ev]) = (reached b secret peers es).step b ev := run_append _ _ _ _
    rw [hstep] at hp hc
    rcases cells_step b (wf_reached b secret peers es) ev hp hc with ⟨-, hnone, -⟩ | ⟨hlive, c₀, hc₀, hpass⟩
    · rw [hnone] at hsrc
      cases hsrc
    have hbefore : src ∈ c₀.authSrc → HeardFrom b secret peers (es ++ [ev]) p src := fun hsrc => by
      obtain ⟨es₁, ord, d, es₂, c, rfl, h⟩ := ih p c₀ hlive hc₀ src hsrc
      exact ⟨es₁, ord, d, es₂ ++ [ev], c, by simp, h⟩
    cases ev with
    | inbound ord a d now =>
      rw [hpass] at hsrc
      split at hsrc
      next hr =>
        rw [authSrc_inboundPeer] at hsrc
        split at hsrc
        next hout =>
          cases hsrc
          rw [Bool.and_eq_true, Bool.not_eq_true'] at hout
          exact ⟨es, ord, d, [], c₀, rfl, hout.2, hr, hc₀, authenticates_of_putsOut b hout.1⟩
        · exact hbefore hsrc
      · exact hbefore hsrc
    | _ =>
      rw [(passed_frame b hpass (by simp)).1] at hsrc
      exact hbefore hsrc

end

/-- **A keepalive does not refresh the stamp**: at 7 s the address that it came from at 5 s has lost its trust. -/
theorem keepalive_not_trusted :
    let a : SocketAddr := .v4 (Ipv4Addr.new 192 0 2 1) 41641
    let es : List EngineEvent :=
      [.inbound keyOrder (.udp a) (wireDatagram packetData [] (receiverIndex 1 0) (icmpPacket 10 0 0 1)) 0,
       .inbound keyOrder (.udp a) (wireDatagram packetData [] (receiverIndex 1 0) []) 5000]
    let w := watched coldTunn 0 [⟨1, none, none, [], some (.derp 1 1)⟩] es
    let c : PeerCells Unit := ⟨some (.derp 1 1), some (.udp a, 0), (), ⟨0, 0, none⟩⟩
    w.engine.indices.Live ⟨0, 1, 1, []⟩ ∧ w.engine.heap[0]? = some c ∧ w.heard 0 = some (a, 5000) ∧
      pickAddr ⟨0, 1, 1, []⟩ c none 7000 = some (.derp 1 1) ∧ ¬ TrustsHeard w := by
  intro a es w c
  have hlive : w.engine.indices.Live ⟨0, 1, 1, []⟩ := by decide
  have hcell : w.engine.heap[0]? = some c := by rfl
  have hheard : w.heard 0 = some (a, 5000) := by decide
  refine ⟨hlive, hcell, hheard, by decide, fun h => ?_⟩
  have hpick := (h ⟨0, 1, 1, []⟩ c hlive hcell).2 a 5000 hheard none 7000 (by decide)
  exact absurd hpick (by decide)

end TailscaleVita.Wg

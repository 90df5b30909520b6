import TailscaleVita.WgReach
import Mathlib.Data.Finset.Max
/-!
# WgRouting — the engine routes by the longest prefix

`RouteTable` says what the routes are for: the routes of each peer, the peers in the order their routes were entered.
An address leads to the peer with the longest network around it, the one entered first on a tie.
-/
namespace TailscaleVita.Wg

open List

def Ipv4Cidr.Covers (c : Ipv4Cidr) (ip : Ipv4Addr) : Prop := ∀ i < c.prefixLen, ip.getMsbD i = c.addr.getMsbD i

theorem Ipv4Cidr.contains_iff_covers (c : Ipv4Cidr) (ip : Ipv4Addr) : c.contains ip = true ↔ c.Covers ip := by
  have hle := c.le32
  rw [contains_iff]
  constructor
  · intro h i hi
    have hbit := congrArg (fun x : BitVec 32 => x.getLsbD (c.prefixLen - 1 - i)) h
    simp only [BitVec.getLsbD_ushiftRight] at hbit
    rw [show 32 - c.prefixLen + (c.prefixLen - 1 - i) = 32 - 1 - i by omega] at hbit
    rw [BitVec.getMsbD_eq_getLsbD, BitVec.getMsbD_eq_getLsbD, hbit]
  · intro h
    apply BitVec.eq_of_getLsbD_eq
    intro i hi
    simp only [BitVec.getLsbD_ushiftRight]
    by_cases hin : i < c.prefixLen
    · have hbit := h (c.prefixLen - 1 - i) (by omega)
      rw [BitVec.getMsbD_eq_getLsbD, BitVec.getMsbD_eq_getLsbD] at hbit
      rw [show 32 - 1 - (c.prefixLen - 1 - i) = 32 - c.prefixLen + i by omega] at hbit
      simpa [show c.prefixLen - 1 - i < 32 by omega] using hbit
    · rw [BitVec.getLsbD_of_ge _ _ (by omega), BitVec.getLsbD_of_ge _ _ (by omega)]

abbrev RouteTable := List (PublicKey × List Ipv4Cidr)

namespace RouteTable

def remove (t : RouteTable) (k : PublicKey) : RouteTable := t.filter (fun r => decide (r.1 ≠ k))

def upsert (t : RouteTable) (k : PublicKey) (routes : List Ipv4Cidr) : RouteTable :=
  if (k, routes) ∈ t then t else t.remove k ++ [(k, routes)]

def new (peers : List PeerConfig) : RouteTable := peers.foldl (fun t cfg => t.upsert cfg.pubkey cfg.allowedIps) []

def step (t : RouteTable) : EngineEvent → RouteTable
  | .upsertPeer cfg => t.upsert cfg.pubkey cfg.allowedIps
  | .removePeer k => t.remove k
  | _ => t

def LeadsTo (t : RouteTable) (ip : Ipv4Addr) (k : PublicKey) : Prop :=
  ∃ older routes newer c, t = older ++ (k, routes) :: newer ∧ (c ∈ routes ∧ c.Covers ip) ∧
    (∀ r ∈ older, ∀ d ∈ r.2, d.Covers ip → d.prefixLen < c.prefixLen) ∧
    ∀ r ∈ (k, routes) :: newer, ∀ d ∈ r.2, d.Covers ip → d.prefixLen ≤ c.prefixLen

end RouteTable

def Peer.entry (p : Peer) : PublicKey × List Ipv4Cidr := (p.pubkey, p.allowedIps)

section

variable {τ : Type} (b : Boringtun τ)

def Lists (e : Engine τ) (t : RouteTable) : Prop :=
  ∃ ps : List Peer, ps.Pairwise (fun p q => p.ptr < q.ptr) ∧ (∀ p, p ∈ ps ↔ e.indices.Live p) ∧ t = ps.map Peer.entry

variable {t : RouteTable} {e : Engine τ}

theorem mem_table_iff (hwf : e.Wf) (h : Lists e t) (k : PublicKey) (routes : List Ipv4Cidr) :
    (k, routes) ∈ t ↔ ∃ p, e.indices.byPubkey.lookup k = some p ∧ p.allowedIps = routes := by
  obtain ⟨ps, -, hlive, rfl⟩ := h
  rw [mem_map]
  constructor
  · rintro ⟨p, hp, he⟩
    obtain ⟨hk, hips⟩ := Prod.mk.inj he
    have hp := (hlive p).1 hp
    unfold Indices.Live at hp
    rw [hk] at hp
    exact ⟨p, hp, hips⟩
  · rintro ⟨p, hp, hips⟩
    refine ⟨p, (hlive p).2 (hwf.coherent.live_of_lookup hp), ?_⟩
    rw [Peer.entry, hwf.coherent.key_eq _ p hp, hips]

theorem lists_removePeer (h : Lists e t) (k : PublicKey) : Lists (e.removePeer k) (t.remove k) := by
  obtain ⟨ps, hord, hlive, rfl⟩ := h
  refine ⟨ps.filter (fun p => decide (p.pubkey ≠ k)), hord.filter _, fun p => ?_, ?_⟩
  · rw [mem_filter, hlive, Engine.removePeer, live_remove, decide_eq_true_iff]
  · unfold RouteTable.remove
    rw [filter_map]
    rfl

theorem lists_rebuildPeer (hwf : e.Wf) (h : Lists e t) (cfg : PeerConfig) :
    Lists (e.rebuildPeer b cfg) (t.remove cfg.pubkey ++ [(cfg.pubkey, cfg.allowedIps)]) := by
  obtain ⟨ps, hord, hlive, ht⟩ := lists_removePeer h cfg.pubkey
  have hrest : ∀ p, p ∈ ps → e.indices.Live p ∧ p.pubkey ≠ cfg.pubkey := fun p hp =>
    (live_remove e.indices cfg.pubkey p).1 ((hlive p).1 hp)
  let peer : Peer := ⟨e.heap.length, cfg.pubkey, e.nextIdx, cfg.allowedIps⟩
  refine ⟨ps ++ [peer], ?_, fun p => ?_, ?_⟩
  · rw [pairwise_append]
    refine ⟨hord, pairwise_singleton _ _, fun p hp q hq => ?_⟩
    rw [mem_singleton.1 hq]
    exact hwf.coherent.ptr_lt p (hrest p hp).1
  · have hins : (e.rebuildPeer b cfg).indices.Live p ↔ p = peer ∨ (p.pubkey ≠ cfg.pubkey ∧
        (e.removePeer cfg.pubkey).indices.Live p) := live_insert (e.indices.remove cfg.pubkey) peer p
    rw [hins, mem_append, mem_singleton, or_comm, hlive]
    refine or_congr_right ⟨fun hp => ⟨(hrest p ((hlive p).2 hp)).2, hp⟩, fun hp => hp.2⟩
  · rw [ht, map_append]
    rfl

theorem lists_upsertPeer (hwf : e.Wf) (h : Lists e t) (cfg : PeerConfig) :
    Lists (e.upsertPeer b cfg) (t.upsert cfg.pubkey cfg.allowedIps) := by
  have hsame := mem_table_iff hwf h cfg.pubkey cfg.allowedIps
  unfold RouteTable.upsert Engine.upsertPeer
  cases hk : e.indices.byPubkey.lookup cfg.pubkey with
  | none =>
    rw [if_neg (fun hm => by
      obtain ⟨p, hp, -⟩ := hsame.1 hm
      rw [hk] at hp
      cases hp)]
    exact lists_rebuildPeer b hwf h cfg
  | some peer =>
    simp only
    by_cases hips : peer.allowedIps = cfg.allowedIps
    · rw [if_pos hips, if_pos (hsame.2 ⟨peer, hk, hips⟩)]
      split
      · exact h
      · exact h
    · rw [if_neg hips, if_neg (fun hm => by
        obtain ⟨p, hp, hp'⟩ := hsame.1 hm
        rw [hk] at hp
        cases hp
        exact hips hp')]
      exact lists_rebuildPeer b hwf h cfg

theorem lists_step (hwf : e.Wf) (h : Lists e t) (ev : EngineEvent) : Lists (e.step b ev) (t.step ev) := by
  have hkeep : ∀ e' : Engine τ, e'.indices = e.indices → Lists e' t := fun e' he => by
    obtain ⟨ps, hord, hlive, ht⟩ := h
    exact ⟨ps, hord, by rw [he]; exact hlive, ht⟩
  cases ev with
  | upsertPeer cfg => exact lists_upsertPeer b hwf h cfg
  | removePeer k => exact lists_removePeer h k
  | setEndpoint k a =>
    refine hkeep _ ?_
    simp only [Engine.step, Engine.setEndpoint]
    split <;> rfl
  | setInboundPolicy p => exact hkeep _ rfl
  | inbound ord src d now | outbound hint p now | tick ord hint now => exact hkeep _ (indices_step_of_isPump b e rfl)

theorem lists_new (secret : BitVec 256) (peers : List PeerConfig) :
    Lists (Engine.new b secret peers) (RouteTable.new peers) := by
  have hrun : ∀ (cfgs : List PeerConfig) (e : Engine τ) (t : RouteTable), e.Wf → Lists e t →
      Lists (cfgs.foldl (Engine.upsertPeer b) e) (cfgs.foldl (fun t cfg => t.upsert cfg.pubkey cfg.allowedIps) t) := by
    intro cfgs
    induction cfgs with
    | nil => exact fun e t _ h => h
    | cons cfg cfgs ih =>
      exact fun e t hwf h => ih _ _ (Engine.wf_upsertPeer b hwf cfg) (lists_upsertPeer b hwf h cfg)
  refine hrun peers _ [] ⟨Coherent.new, rfl⟩ ⟨[], List.Pairwise.nil, fun p => ?_, rfl⟩
  exact ⟨fun hp => (by cases hp), fun hp => (by cases hp)⟩

theorem lists_reached (secret : BitVec 256) (peers : List PeerConfig) (es : List EngineEvent) :
    Lists (reached b secret peers es) (run RouteTable.step (RouteTable.new peers) es) :=
  (run_sim (fun (e : Engine τ) t => e.Wf ∧ Lists e t)
    (fun e _ ev h _ => ⟨wf_step b e ev h.1, lists_step b h.1 h.2 ev⟩) es _ _
    ⟨Engine.wf_new b secret peers, lists_new b secret peers⟩ (along_true _ es _)).2

theorem leadsTo_of_lookup (hwf : e.Wf) (h : Lists e t) {ip : Ipv4Addr} {p : Peer}
    (hl : e.indices.byIp.lookup ip = some p) : t.LeadsTo ip p.pubkey := by
  obtain ⟨ps, hord, hlive, rfl⟩ := h
  obtain ⟨⟨hp, c0, hc0, hcov0⟩, hbeat⟩ := (lookup_eq_some_iff hwf.coherent ip p).1 hl
  obtain ⟨older, newer, hps⟩ := append_of_mem ((hlive p).2 hp)
  rw [hps, pairwise_append, pairwise_cons] at hord
  -- among the peer's own networks around the address, one of greatest length
  obtain ⟨c, hc, hmax⟩ := Finset.exists_max_image (p.allowedIps.filter (fun d => d.contains ip)).toFinset
    Ipv4Cidr.prefixLen ⟨c0, by simp [hc0, hcov0]⟩
  rw [mem_toFinset, mem_filter] at hc
  have hown : ∀ d ∈ p.allowedIps, d.Covers ip → d.prefixLen ≤ c.prefixLen := fun d hd hcov =>
    hmax d (by simp [hd, (d.contains_iff_covers ip).2 hcov])
  refine ⟨older.map Peer.entry, p.allowedIps, newer.map Peer.entry, c, ?_,
    ⟨hc.1, (c.contains_iff_covers ip).1 hc.2⟩, fun r hr d hd hcov => ?_, fun r hr d hd hcov => ?_⟩
  · rw [hps, map_append, map_cons]
    rfl
  · obtain ⟨q, hq, rfl⟩ := mem_map.1 hr
    have hlt : q.ptr < p.ptr := hord.2.2 q hq p mem_cons_self
    have hqlive := (hlive q).1 (by rw [hps]; exact mem_append_left _ hq)
    obtain ⟨d', hd', hcov', hb⟩ :=
      hbeat q hqlive (fun he => by rw [he] at hlt; omega) d hd ((d.contains_iff_covers ip).2 hcov)
    have := hown d' hd' ((d'.contains_iff_covers ip).1 hcov')
    omega
  · rcases mem_cons.1 hr with rfl | hr
    · exact hown d hd hcov
    · obtain ⟨q, hq, rfl⟩ := mem_map.1 hr
      have hlt : p.ptr < q.ptr := hord.2.1.1 q hq
      have hqlive := (hlive q).1 (by rw [hps]; exact mem_append_right _ (mem_cons_of_mem _ hq))
      obtain ⟨d', hd', hcov', hb⟩ :=
        hbeat q hqlive (fun he => by rw [he] at hlt; omega) d hd ((d.contains_iff_covers ip).2 hcov)
      have := hown d' hd' ((d'.contains_iff_covers ip).1 hcov')
      omega

theorem lookup_of_leadsTo (hwf : e.Wf) (h : Lists e t) {ip : Ipv4Addr} {k : PublicKey}
    (hk : t.LeadsTo ip k) : ∃ p, e.indices.byIp.lookup ip = some p ∧ p.pubkey = k := by
  obtain ⟨ps, hord, hlive, rfl⟩ := h
  obtain ⟨older, routes, newer, c, ht, ⟨hc, hcov⟩, hold, hnew⟩ := hk
  obtain ⟨ps1, rest, rfl, rfl, hrest⟩ := map_eq_append_iff.1 ht
  obtain ⟨p, ps2, rfl, hp, rfl⟩ := map_eq_cons_iff.1 hrest
  obtain ⟨hpk, hpr⟩ := Prod.mk.inj hp
  subst hpr
  rw [pairwise_append, pairwise_cons] at hord
  refine ⟨p, (lookup_eq_some_iff hwf.coherent ip p).2 ⟨⟨?_, c, hc, (c.contains_iff_covers ip).2 hcov⟩, ?_⟩, hpk⟩
  · exact (hlive p).1 (mem_append_right _ mem_cons_self)
  · intro q hq hne d hd hcq
    have hdcov := (d.contains_iff_covers ip).1 hcq
    refine ⟨c, hc, (c.contains_iff_covers ip).2 hcov, ?_⟩
    rcases mem_append.1 ((hlive q).2 hq) with hq | hq
    · exact .inl (hold q.entry (mem_map_of_mem hq) d hd hdcov)
    · rcases mem_cons.1 hq with rfl | hq
      · exact absurd rfl hne
      · have hle := hnew q.entry (mem_cons_of_mem _ (mem_map_of_mem hq)) d hd hdcov
        rcases Nat.lt_or_eq_of_le hle with hlt | heq
        · exact .inl hlt
        · exact .inr ⟨heq, hord.2.1.1 q hq⟩

theorem lookup_ne_none_iff (hwf : e.Wf) (h : Lists e t) (ip : Ipv4Addr) :
    e.indices.byIp.lookup ip ≠ none ↔ ∃ r ∈ t, ∃ c ∈ r.2, c.Covers ip := by
  obtain ⟨ps, -, hlive, rfl⟩ := h
  unfold AllowedIps.lookup
  rw [ne_eq, Option.map_eq_none_iff, ← ne_eq, Option.ne_none_iff_isSome, find?_isSome]
  constructor
  · rintro ⟨⟨c, p⟩, hm, hcov⟩
    obtain ⟨hp, hc⟩ := (mem_byIp_iff hwf.coherent c p).1 hm
    exact ⟨p.entry, mem_map_of_mem ((hlive p).2 hp), c, hc, (c.contains_iff_covers ip).1 hcov⟩
  · rintro ⟨r, hr, c, hc, hcov⟩
    obtain ⟨p, hp, rfl⟩ := mem_map.1 hr
    exact ⟨(c, p), (mem_byIp_iff hwf.coherent c p).2 ⟨(hlive p).1 hp, hc⟩, (c.contains_iff_covers ip).2 hcov⟩

/-- **The engine routes by the longest prefix**, after any sequence of events: an address is routed exactly when some
live peer's network covers it, and then to the peer where the table of the live peers' routes leads. -/
theorem lookup_is_longest_prefix (secret : BitVec 256) (peers : List PeerConfig) (es : List EngineEvent)
    (ip : Ipv4Addr) :
    let e : Engine τ := reached b secret peers es
    let t := run RouteTable.step (RouteTable.new peers) es
    (∀ k routes, (k, routes) ∈ t ↔ ∃ p, e.indices.byPubkey.lookup k = some p ∧ p.allowedIps = routes) ∧
    (e.indices.byIp.lookup ip ≠ none ↔ ∃ r ∈ t, ∃ c ∈ r.2, c.Covers ip) ∧
    (∀ p, e.indices.byIp.lookup ip = some p → e.indices.byPubkey.lookup p.pubkey = some p) ∧
    ∀ k, (∃ p, e.indices.byIp.lookup ip = some p ∧ p.pubkey = k) ↔ t.LeadsTo ip k := by
  intro e t
  have hwf : e.Wf := wf_reached b secret peers es
  have ht : Lists e t := lists_reached b secret peers es
  refine ⟨mem_table_iff hwf ht, lookup_ne_none_iff hwf ht ip, fun p hp => ?_, fun k => ⟨?_, lookup_of_leadsTo hwf ht⟩⟩
  · exact ((lookup_eq_some_iff hwf.coherent ip p).1 hp).1.1
  · rintro ⟨p, hp, rfl⟩
    exact leadsTo_of_lookup hwf ht hp

/-- **What leaves is routed by key.** In every engine reached, `handle_outbound` does nothing for a packet, or the table
leads from its destination to a peer. Then no other peer is touched, and what is sent is what this peer's `Tunn` made of
the packet, to the address picked for this peer. -/
theorem outbound_routed (secret : BitVec 256) (peers : List PeerConfig) (es : List EngineEvent)
    (hint : Option DirectPathHint) (plaintext : Bytes) (now : Instant) :
    let e : Engine τ := reached b secret peers es
    let r := handleOutbound b e hint plaintext now
    r = (e, []) ∨ ∃ dst p, parseIpv4Dst plaintext = some dst ∧
      (run RouteTable.step (RouteTable.new peers) es).LeadsTo dst p.pubkey ∧
      (∀ i, i ≠ p.ptr → r.1.heap[i]? = e.heap[i]?) ∧
      ∀ o ∈ r.2, ∃ c addr bytes, e.heap[p.ptr]? = some c ∧ pickAddr p c hint now = some addr ∧
        Outcome.ofResult (b.encapsulate c.tunn plaintext).2 = .network bytes ∧ o = .send addr bytes := by
  intro e r
  unfold r handleOutbound
  cases hdst : parseIpv4Dst plaintext with
  | none => exact .inl rfl
  | some dst =>
    cases hp : peerForIp e.indices dst with
    | none => exact .inl (by simp only [hp])
    | some p =>
      simp only [hp]
      refine .inr ⟨dst, p, rfl, leadsTo_of_lookup (wf_reached b secret peers es) (lists_reached b secret peers es) hp,
        fun i hi => getElem?_visit_of_notMem _ _ [p] _ i (by simpa using hi), fun o ho => ?_⟩
      obtain ⟨_, hmem, c, hc, ho⟩ := (mem_visit _ _ [p] _ (by simp) o).1 ho
      cases mem_singleton.1 hmem
      unfold outboundPeer at ho
      split at ho
      · cases ho
      next addr haddr =>
        simp only at ho
        split at ho
        next bytes hbytes => exact ⟨c, addr, bytes, hc, haddr, hbytes, mem_singleton.1 ho⟩
        · cases ho

end

end TailscaleVita.Wg

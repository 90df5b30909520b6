import TailscaleVita.RtDelta
/-!
# RtFilter — the packet filter, from the wire to the verdict

The reference reads the wire rules of the last frame that carried a filter. The code goes through three
representations and pushes a filter only when it changed; both give the same verdict on every packet.
-/
namespace TailscaleVita.Rt

open List
open Ctl (NodeKey AllowedIp PeerSnapshot PacketFilter NetMap NetMapSnapshot snapshotOf FilterRuleWire NetPortRangeWire)
open Wg (Engine Boringtun Ipv4Cidr InboundPolicy)

def EntryContains (s : Text) (ip : Ipv4Addr) : Prop :=
  s = ['*'] ∨ parseIpv4Addr s = some ip ∨
    ∃ host len addr n, splitOnce '/' s = some (host, len) ∧ parseIpv4Addr host = some addr ∧
      fromStrRadix 8 10 len = some n ∧ n.toNat ≤ 32 ∧ ip >>> (32 - n.toNat) = addr >>> (32 - n.toNat)

/-- What a wire rule allows; a packet without a port counts as port 0. -/
def RuleAllows (rule : FilterRuleWire) (src dst : Ipv4Addr) (protocol : BitVec 8) (dstPort : Option (BitVec 16)) :
    Prop :=
  (∃ s ∈ rule.srcIps, EntryContains s src) ∧
  (rule.ipProto = [] ∨ protocol ∈ rule.ipProto) ∧
  ∃ d ∈ rule.dstPorts, EntryContains d.ip dst ∧ d.ports.first ≤ d.ports.last ∧
    d.ports.first ≤ dstPort.getD 0 ∧ dstPort.getD 0 ≤ d.ports.last

def filterStep (last : Option (List FilterRuleWire)) (f : Frame) : Option (List FilterRuleWire) :=
  match f.resp.packetFilter with
  | .missing => last
  | .rules rs => some rs

theorem contains_cidrOf (a : AllowedIp) (ip : Ipv4Addr) :
    (cidrOf a).contains ip = true ↔ ip >>> (32 - a.prefixLen) = a.addr >>> (32 - a.prefixLen) :=
  Ipv4Cidr.contains_iff (cidrOf a) ip

theorem parseIpv4Cidr_eq_some {s : Text} {a : AllowedIp} : Ctl.parseIpv4Cidr s = some a ↔
    ∃ host len n, splitOnce '/' s = some (host, len) ∧ parseIpv4Addr host = some a.addr ∧
      fromStrRadix 8 10 len = some n ∧ n.toNat = a.prefixLen := by
  unfold Ctl.parseIpv4Cidr
  cases hsplit : splitOnce '/' s with
  | none => simp
  | some p =>
    obtain ⟨host, len⟩ := p
    simp only
    cases haddr : parseIpv4Addr host with
    | none => simp [haddr]
    | some addr =>
      cases hlen : fromStrRadix 8 10 len with
      | none => simp [hlen]
      | some n =>
        simp only
        constructor
        · intro h
          split at h
          · cases h
            exact ⟨host, len, n, rfl, haddr, hlen, rfl⟩
          · cases h
        · rintro ⟨host', len', n', he, haddr', hlen', hn⟩
          cases he
          rw [haddr] at haddr'
          rw [hlen] at hlen'
          cases hlen'
          obtain ⟨addr', p, hp⟩ := a
          simp only [Option.some.injEq] at haddr' hn
          subst haddr' hn
          rw [dif_pos hp]

theorem parseFilterCidr_contains (s : Text) (ip : Ipv4Addr) :
    (∃ a, Ctl.parseFilterCidr s = some a ∧ (cidrOf a).contains ip = true) ↔ EntryContains s ip := by
  unfold Ctl.parseFilterCidr EntryContains
  by_cases hstar : s = ['*']
  · rw [if_pos hstar]
    simp only [hstar, true_or, iff_true]
    refine ⟨_, rfl, ?_⟩
    rw [contains_cidrOf]
    apply BitVec.eq_of_toNat_eq
    simp [BitVec.toNat_ushiftRight, Nat.shiftRight_eq_div_pow, Nat.div_eq_of_lt ip.isLt]
  · rw [if_neg hstar]
    simp only [hstar, false_or]
    cases haddr : parseIpv4Addr s with
    | some addr =>
      have hslash := splitOnce_eq_none (slash_notMem_of_parseIpv4Addr haddr)
      simp only [Option.some.injEq, hslash]
      constructor
      · rintro ⟨a, rfl, hc⟩
        rw [contains_cidrOf] at hc
        left
        simpa using hc.symm
      · rintro (rfl | ⟨_, _, _, _, h, -⟩)
        · exact ⟨_, rfl, by rw [contains_cidrOf]⟩
        · cases h
    | none =>
      simp only [reduceCtorEq, false_or]
      constructor
      · rintro ⟨a, ha, hc⟩
        obtain ⟨host, len, n, hsplit, hhost, hlen, hn⟩ := parseIpv4Cidr_eq_some.1 ha
        rw [contains_cidrOf] at hc
        exact ⟨host, len, a.addr, n, hsplit, hhost, hlen, hn ▸ a.le32, by rw [hn]; exact hc⟩
      · rintro ⟨host, len, addr, n, hsplit, hhost, hlen, hn, hc⟩
        exact ⟨⟨addr, n.toNat, hn⟩, parseIpv4Cidr_eq_some.2 ⟨host, len, n, hsplit, hhost, hlen, rfl⟩,
          (contains_cidrOf _ _).2 hc⟩

theorem filterRangeFromWire_eq_some {d : NetPortRangeWire} {r : Ctl.NetPortRange} :
    Ctl.filterRangeFromWire d = some r ↔ Ctl.parseFilterCidr d.ip = some r.ip ∧ d.ports.first ≤ d.ports.last ∧
      r.portFirst = d.ports.first ∧ r.portLast = d.ports.last := by
  obtain ⟨ip, lo, hi⟩ := r
  unfold Ctl.filterRangeFromWire
  cases Ctl.parseFilterCidr d.ip with
  | none => simp
  | some a =>
    simp only
    split
    next hle => simp [hle, eq_comm]
    next hle => simp [hle]

theorem exists_srcIps (texts : List Text) (src : Ipv4Addr) :
    (∃ c ∈ (texts.filterMap Ctl.parseFilterCidr).map cidrOf, c.contains src = true) ↔
      ∃ s ∈ texts, EntryContains s src := by
  constructor
  · rintro ⟨c, hc, hsrc⟩
    obtain ⟨a, ha, rfl⟩ := mem_map.1 hc
    obtain ⟨s, hs, hp⟩ := mem_filterMap.1 ha
    exact ⟨s, hs, (parseFilterCidr_contains s src).1 ⟨a, hp, hsrc⟩⟩
  · rintro ⟨s, hs, hsrc⟩
    obtain ⟨a, hp, hc⟩ := (parseFilterCidr_contains s src).2 hsrc
    exact ⟨cidrOf a, mem_map_of_mem (mem_filterMap.2 ⟨s, hs, hp⟩), hc⟩

theorem exists_dstPorts (ds : List NetPortRangeWire) (dst : Ipv4Addr) (dstPort : Option (BitVec 16)) :
    (∃ r ∈ (ds.filterMap Ctl.filterRangeFromWire).map
        (fun d => (⟨cidrOf d.ip, d.portFirst, d.portLast⟩ : Wg.NetPortRange)), Wg.rangeMatches r dst dstPort = true) ↔
      ∃ d ∈ ds, EntryContains d.ip dst ∧ d.ports.first ≤ d.ports.last ∧
        d.ports.first ≤ dstPort.getD 0 ∧ dstPort.getD 0 ≤ d.ports.last := by
  constructor
  · rintro ⟨r, hr, hmatch⟩
    obtain ⟨r', hr', rfl⟩ := mem_map.1 hr
    obtain ⟨d, hd, hw⟩ := mem_filterMap.1 hr'
    obtain ⟨hip, hle, hlo, hhi⟩ := filterRangeFromWire_eq_some.1 hw
    rw [Wg.rangeMatches_iff _ _ _ (by simp only; rw [hlo, hhi]; exact hle)] at hmatch
    simp only [hlo, hhi] at hmatch
    exact ⟨d, hd, (parseFilterCidr_contains _ _).1 ⟨r'.ip, hip, hmatch.1⟩, hle, hmatch.2⟩
  · rintro ⟨d, hd, hdst, hle, hport⟩
    obtain ⟨a, hip, hc⟩ := (parseFilterCidr_contains _ _).2 hdst
    have hw : Ctl.filterRangeFromWire d = some ⟨a, d.ports.first, d.ports.last⟩ :=
      filterRangeFromWire_eq_some.2 ⟨hip, hle, rfl, rfl⟩
    refine ⟨_, mem_map_of_mem (mem_filterMap.2 ⟨d, hd, hw⟩), ?_⟩
    exact (Wg.rangeMatches_iff _ _ _ hle).2 ⟨hc, hport⟩

theorem filterRuleFromWire_allows (wire : FilterRuleWire) (src dst : Ipv4Addr) (protocol : BitVec 8)
    (dstPort : Option (BitVec 16)) :
    (∃ rule, Ctl.filterRuleFromWire wire = some rule ∧
        Wg.ruleMatches (engineRule rule) src dst protocol dstPort = true) ↔
      RuleAllows wire src dst protocol dstPort := by
  have hmeaning : ∀ rule : Ctl.FilterRule, rule = ⟨wire.srcIps.filterMap Ctl.parseFilterCidr,
      wire.dstPorts.filterMap Ctl.filterRangeFromWire, wire.ipProto⟩ →
      (Wg.ruleMatches (engineRule rule) src dst protocol dstPort = true ↔
        RuleAllows wire src dst protocol dstPort) := by
    rintro _ rfl
    rw [Wg.ruleMatches_iff]
    unfold RuleAllows
    rw [← exists_srcIps, ← exists_dstPorts]
    rfl
  unfold Ctl.filterRuleFromWire
  by_cases hkeep : (!(wire.srcIps.filterMap Ctl.parseFilterCidr).isEmpty &&
      !(wire.dstPorts.filterMap Ctl.filterRangeFromWire).isEmpty) = true
  · rw [if_pos hkeep]
    constructor
    · rintro ⟨rule, he, hm⟩
      cases he
      exact (hmeaning _ rfl).1 hm
    · intro h
      exact ⟨_, rfl, (hmeaning _ rfl).2 h⟩
  · rw [if_neg hkeep]
    constructor
    · rintro ⟨rule, he, -⟩
      cases he
    · intro h
      -- a rule that allows something has a readable source and a readable destination
      rw [← hmeaning _ rfl, Wg.ruleMatches_iff] at h
      obtain ⟨⟨c, hc, -⟩, -, ⟨r, hr, -⟩⟩ := h
      obtain ⟨a, ha, -⟩ := mem_map.1 hc
      obtain ⟨d, hd, -⟩ := mem_map.1 hr
      refine absurd ?_ hkeep
      simp only [Bool.and_eq_true, Bool.not_eq_true', isEmpty_eq_false_iff]
      exact ⟨ne_nil_of_mem ha, ne_nil_of_mem hd⟩

def policyOf : Option PacketFilter → InboundPolicy
  | none => .denyAll
  | some f => enginePacketFilter f

def readFilter (rs : List FilterRuleWire) : PacketFilter := .rules (rs.filterMap Ctl.filterRuleFromWire)

theorem policyOf_allows (last : Option (List FilterRuleWire)) (src dst : Ipv4Addr) (protocol : BitVec 8)
    (dstPort : Option (BitVec 16)) :
    (policyOf (last.map readFilter)).allows src dst protocol dstPort = true ↔
      ∃ rules, last = some rules ∧ ∃ r ∈ rules, RuleAllows r src dst protocol dstPort := by
  cases last with
  | none => simp [policyOf, InboundPolicy.allows]
  | some rs =>
    simp only [Option.map_some, policyOf, readFilter, enginePacketFilter, InboundPolicy.allows, any_map,
      any_eq_true, Function.comp, Option.some.injEq, exists_eq_left']
    constructor
    · rintro ⟨rule, hrule, hm⟩
      obtain ⟨wire, hw, hread⟩ := mem_filterMap.1 hrule
      exact ⟨wire, hw, (filterRuleFromWire_allows wire src dst protocol dstPort).1 ⟨rule, hread, hm⟩⟩
    · rintro ⟨wire, hw, hallow⟩
      obtain ⟨rule, hread, hm⟩ := (filterRuleFromWire_allows wire src dst protocol dstPort).2 hallow
      exact ⟨rule, mem_filterMap.2 ⟨wire, hw, hread⟩, hm⟩

section

variable {τ : Type} (b : Boringtun τ)

theorem inboundPolicy_upsertPeer (e : Engine τ) (cfg : Wg.PeerConfig) :
    (e.upsertPeer b cfg).inboundPolicy = e.inboundPolicy := by
  unfold Engine.upsertPeer
  split
  · split
    · split <;> rfl
    · rfl
  · rfl

theorem inboundPolicy_pushDelta (e : Engine τ) (snap : NetMapSnapshot) (home : BitVec 16) :
    (pushDeltaToEngine b e snap home).inboundPolicy = (pushPolicy e snap).inboundPolicy := by
  refine pushDelta_keeps b (fun e' => e'.inboundPolicy = (pushPolicy e snap).inboundPolicy) (fun e' cfg h => ?_)
    (fun _ _ h => h) rfl home
  exact (inboundPolicy_upsertPeer b e' cfg).trans h

theorem policy_step {s : Session τ} {last : Option (List FilterRuleWire)}
    (hnm : s.netmap.packetFilter = last.map readFilter) (he : s.engine.inboundPolicy = policyOf s.netmap.packetFilter)
    (f : Frame) :
    (s.step b f).netmap.packetFilter = (filterStep last f).map readFilter ∧
      (s.step b f).engine.inboundPolicy = policyOf (s.step b f).netmap.packetFilter := by
  obtain ⟨hpf, hchanged⟩ := NetMap.apply_packetFilter f.ord s.netmap f.resp
  simp only [Session.step]
  rw [inboundPolicy_pushDelta]
  unfold pushPolicy snapshotOf filterStep
  rw [hpf, hchanged]
  cases f.resp.packetFilter with
  | missing => exact ⟨hnm, he⟩
  | rules rs =>
    simp only [NetMap.applyPacketFilter]
    split
    · exact ⟨rfl, rfl⟩
    next hsame =>
      have hsame' := not_not.1 hsame
      exact ⟨hsame', he⟩

/-- **The verdict is the last filter's**: after any frames, the engine allows a packet exactly when a wire rule of the
last frame that carried a filter does, and before the first such frame nothing. -/
theorem verdict_eq_last_filter (secret : BitVec 256) (frames : List Frame) (src dst : Ipv4Addr) (protocol : BitVec 8)
    (dstPort : Option (BitVec 16)) :
    (run (Session.step b) (Session.start b secret) frames).engine.inboundPolicy.allows src dst protocol dstPort = true ↔
      ∃ rules, run filterStep none frames = some rules ∧ ∃ r ∈ rules, RuleAllows r src dst protocol dstPort := by
  have hrun := run_sim (fun (s : Session τ) last => s.netmap.packetFilter = last.map readFilter ∧
      s.engine.inboundPolicy = policyOf s.netmap.packetFilter)
    (fun s last f h _ => policy_step b h.1 h.2 f) frames (Session.start b secret) none ⟨rfl, rfl⟩
    (along_true filterStep frames none)
  rw [hrun.2, hrun.1]
  exact policyOf_allows _ src dst protocol dstPort

end

end TailscaleVita.Rt

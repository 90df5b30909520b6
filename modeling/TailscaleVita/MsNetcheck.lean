import TailscaleVita.MsState
/-!
# MsNetcheck — the report of a netcheck round (`ts-magicsock/src/netcheck.rs`)

A round probes every address of every region and sums up what came back: the latency table from the answers in the
order of the probes, the preferred region from the fastest answer of all. A region with two addresses may answer twice.
-/
namespace TailscaleVita.Ms

abbrev Duration := Nat

structure SecsF64 (F : Type) [LinearOrder F] where
  asSecsF64 : Duration → F
  mono : Monotone asSecsF64

structure StunTarget where
  regionId : BitVec 16
  ipv4Addr : Option SocketAddr
  ipv6Addr : Option SocketAddr
deriving DecidableEq

structure RegionProbe where
  regionId : BitVec 16
  target : SocketAddr
  rtt : Duration
  reflected : SocketAddr
deriving DecidableEq

structure NetcheckReport (F : Type) where
  derpLatency : HashMap (BitVec 16) F
  preferredDerp : BitVec 16
  publicEndpoint : Option SocketAddr
  publicEndpointV6 : Option SocketAddr
  probes : List RegionProbe

def isIpv4 : SocketAddr → Bool
  | .v4 _ _ => true
  | .v6 .. => false

def isIpv6 : SocketAddr → Bool
  | .v4 _ _ => false
  | .v6 .. => true

inductive ProbeAnswer where
  | sendFailed
  | parseFailed
  | timeout
  | ok (reflected : SocketAddr) (rtt : Duration)
deriving DecidableEq

/-- The probes of a round, in the order they are launched: the IPv4 address of a region, then its IPv6 address. -/
def launches (targets : List StunTarget) : List (BitVec 16 × SocketAddr) :=
  targets.flatMap (fun t => t.ipv4Addr.toList.map (t.regionId, ·) ++ t.ipv6Addr.toList.map (t.regionId, ·))

def ProbeAnswer.regionProbe (launch : BitVec 16 × SocketAddr) : ProbeAnswer → Option RegionProbe
  | .ok reflected rtt => some ⟨launch.1, launch.2, rtt, reflected⟩
  | _ => none

/-- The receivers are waited for in the order of the probes, whatever the order of the answers; a probe past the end of
the pattern has none. -/
def collected : List (BitVec 16 × SocketAddr) → List ProbeAnswer → List RegionProbe
  | launch :: launches, answer :: answers => (answer.regionProbe launch).toList ++ collected launches answers
  | _, _ => []

section

variable {F : Type} [LinearOrder F] (secs : SecsF64 F)

def aggregate (probes : List RegionProbe) : NetcheckReport F :=
  { derpLatency := probes.foldl (fun m p => m.insert p.regionId (secs.asSecsF64 p.rtt)) ∅
    preferredDerp := ((minByKey RegionProbe.rtt probes).map RegionProbe.regionId).getD 0
    publicEndpoint := (minByKey RegionProbe.rtt (probes.filter (fun p => isIpv4 p.reflected))).map RegionProbe.reflected
    publicEndpointV6 :=
      (minByKey RegionProbe.rtt (probes.filter (fun p => isIpv6 p.reflected))).map RegionProbe.reflected
    probes := probes }

def probeTargets (targets : List StunTarget) (answers : List ProbeAnswer) : NetcheckReport F :=
  aggregate secs (collected (launches targets) answers)

/-! ## What the report says of a region -/

def lastOf (probes : List RegionProbe) (region : BitVec 16) : Option RegionProbe :=
  (probes.filter (fun p => decide (p.regionId = region))).getLast?

variable {probes : List RegionProbe}

theorem lastOf_mem {region : BitVec 16} {q : RegionProbe}
    (h : lastOf probes region = some q) : q ∈ probes ∧ q.regionId = region := by
  have hq := List.mem_filter.1 (List.mem_of_getLast? h)
  exact ⟨hq.1, of_decide_eq_true hq.2⟩

theorem exists_lastOf {p : RegionProbe} (hp : p ∈ probes) : ∃ q, lastOf probes p.regionId = some q := by
  have hmem : p ∈ probes.filter (fun q => decide (q.regionId = p.regionId)) :=
    List.mem_filter.2 ⟨hp, decide_eq_true rfl⟩
  exact ⟨_, List.getLast?_eq_some_getLast (List.ne_nil_of_mem hmem)⟩

theorem lookup_derpLatency (probes : List RegionProbe) (region : BitVec 16) :
    (aggregate secs probes).derpLatency.lookup region =
      (lastOf probes region).map (fun q => secs.asSecsF64 q.rtt) := by
  unfold aggregate lastOf
  rw [HashMap.lookup_foldl_insert RegionProbe.regionId (fun p => secs.asSecsF64 p.rtt), Finmap.lookup_empty,
    Option.or_none]

theorem preferredDerp_fastest (hne : probes ≠ []) :
    ∃ b ∈ probes, (aggregate secs probes).preferredDerp = b.regionId ∧ ∀ p ∈ probes, b.rtt ≤ p.rtt := by
  obtain ⟨b, hb, hmem, hleast⟩ := exists_minByKey RegionProbe.rtt hne
  exact ⟨b, hmem, by simp [aggregate, hb], hleast⟩

/-! ## The two halves of the report agree -/

def FastestOf (probes : List RegionProbe) (region : BitVec 16) (q : RegionProbe) : Prop :=
  q ∈ probes ∧ q.regionId = region ∧ ∀ p ∈ probes, p.regionId = region → q.rtt ≤ p.rtt

theorem exists_fastestOf {p : RegionProbe} (hp : p ∈ probes) : ∃ q, FastestOf probes p.regionId q := by
  have hmem : ∀ p' ∈ probes, p'.regionId = p.regionId →
      p' ∈ probes.filter (fun q => decide (q.regionId = p.regionId)) :=
    fun p' hp' he => List.mem_filter.2 ⟨hp', decide_eq_true he⟩
  obtain ⟨q, -, hq, hleast⟩ := exists_minByKey RegionProbe.rtt (List.ne_nil_of_mem (hmem p hp rfl))
  have hq' := List.mem_filter.1 hq
  exact ⟨q, hq'.1, of_decide_eq_true hq'.2, fun p' hp' he => hleast p' (hmem p' hp' he)⟩

/-- The report is consistent: the table holds the fastest answer of every region that answered, and the preferred
region has the least entry (with no entry there is no region to prefer, and the report says 0). -/
def NetcheckReport.Consistent (report : NetcheckReport F) : Prop :=
  (∀ p ∈ report.probes, ∃ q, FastestOf report.probes p.regionId q ∧
    report.derpLatency.lookup p.regionId = some (secs.asSecsF64 q.rtt)) ∧
  (report.probes ≠ [] → ∃ l, report.derpLatency.lookup report.preferredDerp = some l ∧
    ∀ region l', report.derpLatency.lookup region = some l' → l ≤ l')

/-- No region's last answer is slower, in seconds, than another answer of the region. -/
def LastFastest (probes : List RegionProbe) : Prop :=
  ∀ region q, lastOf probes region = some q →
    ∀ p ∈ probes, p.regionId = region → secs.asSecsF64 q.rtt ≤ secs.asSecsF64 p.rtt

/-- **Netcheck**: over every set of targets and every pattern of answers, the latency table holds the fastest answer of
each region and the preferred region has the least latency exactly when no region's last answer is slower than another
answer of that region. -/
theorem netcheck_consistent_iff (targets : List StunTarget) (answers : List ProbeAnswer) :
    (probeTargets secs targets answers).Consistent secs ↔
      LastFastest secs (collected (launches targets) answers) := by
  unfold probeTargets
  generalize collected (launches targets) answers = probes
  have hprobes : (aggregate secs probes).probes = probes := rfl
  unfold NetcheckReport.Consistent
  rw [hprobes]
  constructor
  · rintro ⟨htable, -⟩ region q hq p hp rfl
    obtain ⟨q', hq', hl⟩ := htable p hp
    rw [lookup_derpLatency, hq] at hl
    calc secs.asSecsF64 q.rtt = secs.asSecsF64 q'.rtt := Option.some.inj hl
      _ ≤ secs.asSecsF64 p.rtt := secs.mono (hq'.2.2 p hp rfl)
  · intro hlast
    refine ⟨fun p hp => ?_, fun hne => ?_⟩
    · obtain ⟨q', hq'⟩ := exists_fastestOf hp
      obtain ⟨q, hq⟩ := exists_lastOf hp
      have hqm := lastOf_mem hq
      have hle : secs.asSecsF64 q.rtt ≤ secs.asSecsF64 q'.rtt := hlast _ q hq q' hq'.1 hq'.2.1
      have hge : secs.asSecsF64 q'.rtt ≤ secs.asSecsF64 q.rtt := secs.mono (hq'.2.2 q hqm.1 hqm.2)
      refine ⟨q', hq', ?_⟩
      rw [lookup_derpLatency, hq, Option.map_some, le_antisymm hle hge]
    · obtain ⟨b, hb, hpref, hbest⟩ := preferredDerp_fastest secs hne
      obtain ⟨q, hq⟩ := exists_lastOf hb
      refine ⟨secs.asSecsF64 q.rtt, ?_, fun region l' hl' => ?_⟩
      · rw [hpref, lookup_derpLatency, hq, Option.map_some]
      · rw [lookup_derpLatency, Option.map_eq_some_iff] at hl'
        obtain ⟨q', hq', rfl⟩ := hl'
        -- the winner's region shows no more than the winner's time, and nothing is below that
        calc secs.asSecsF64 q.rtt ≤ secs.asSecsF64 b.rtt := hlast _ q hq b hb rfl
          _ ≤ secs.asSecsF64 q'.rtt := secs.mono (hbest q' (lastOf_mem hq').1)

end

def exactSecs : SecsF64 Nat := ⟨id, monotone_id⟩

def twoRegions : List StunTarget :=
  [⟨1, some (.v4 (Ipv4Addr.new 192 0 2 1) 3478), some (.v6 1 3478 0 0)⟩,
    ⟨2, some (.v4 (Ipv4Addr.new 192 0 2 2) 3478), none⟩]

/-- The first region answers in 10 ms over IPv4 and in 50 ms over IPv6, the second in 20 ms. -/
def slowV6 : List ProbeAnswer :=
  [.ok (.v4 (Ipv4Addr.new 203 0 113 7) 41641) 10000000, .ok (.v6 7 41641 0 0) 50000000,
    .ok (.v4 (Ipv4Addr.new 203 0 113 7) 41641) 20000000]

/-- **The slower answer is kept**: the table shows 50 ms for a region that was measured at 10 ms, and the region is
preferred though the table shows less for the other. -/
theorem slow_v6_kept :
    ¬ (probeTargets exactSecs twoRegions slowV6).Consistent exactSecs ∧
    (probeTargets exactSecs twoRegions slowV6).derpLatency.lookup 1 = some 50000000 ∧
    (probeTargets exactSecs twoRegions slowV6).derpLatency.lookup 2 = some 20000000 ∧
    (probeTargets exactSecs twoRegions slowV6).preferredDerp = 1 := by
  have hone : (probeTargets exactSecs twoRegions slowV6).derpLatency.lookup 1 = some 50000000 := by
    rw [probeTargets, lookup_derpLatency]
    decide
  have htwo : (probeTargets exactSecs twoRegions slowV6).derpLatency.lookup 2 = some 20000000 := by
    rw [probeTargets, lookup_derpLatency]
    decide
  have hpref : (probeTargets exactSecs twoRegions slowV6).preferredDerp = 1 := by decide
  refine ⟨?_, hone, htwo, hpref⟩
  rintro ⟨-, hleast⟩
  obtain ⟨l, hl, hmin⟩ := hleast (by decide)
  rw [hpref, hone] at hl
  cases hl
  exact absurd (hmin 2 _ htwo) (by decide)

end TailscaleVita.Ms

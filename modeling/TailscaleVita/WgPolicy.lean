import TailscaleVita.WgPeer
/-!
# WgPolicy — the inbound packet filter (`wg-engine/src/policy.rs`)
-/
namespace TailscaleVita.Wg

structure NetPortRange where
  ip : Ipv4Cidr
  portFirst : BitVec 16
  portLast : BitVec 16
deriving DecidableEq

structure FilterRule where
  srcIps : List Ipv4Cidr
  dstPorts : List NetPortRange
  ipProtocols : Bytes
deriving DecidableEq

inductive InboundPolicy where
  | denyAll
  | allowAll
  | rules (rs : List FilterRule)
deriving DecidableEq

def rangeMatches (range : NetPortRange) (dst : Ipv4Addr) (dstPort : Option (BitVec 16)) : Bool :=
  if !range.ip.contains dst then false
  else
    match dstPort with
    | some port => decide (range.portFirst ≤ port) && decide (port ≤ range.portLast)
    | none => range.portFirst == 0

def ruleMatches (rule : FilterRule) (src dst : Ipv4Addr) (protocol : BitVec 8) (dstPort : Option (BitVec 16)) : Bool :=
  if !rule.srcIps.any (fun cidr => cidr.contains src) then false
  else if !rule.ipProtocols.isEmpty && !rule.ipProtocols.contains protocol then false
  else rule.dstPorts.any (fun range => rangeMatches range dst dstPort)

def InboundPolicy.allows (policy : InboundPolicy) (src dst : Ipv4Addr) (protocol : BitVec 8)
    (dstPort : Option (BitVec 16)) : Bool :=
  match policy with
  | .denyAll => false
  | .allowAll => true
  | .rules rs => rs.any (fun rule => ruleMatches rule src dst protocol dstPort)

theorem rangeMatches_iff (range : NetPortRange) (dst : Ipv4Addr) (dstPort : Option (BitVec 16))
    (hsorted : range.portFirst ≤ range.portLast) :
    rangeMatches range dst dstPort = true ↔ range.ip.contains dst = true ∧
      range.portFirst ≤ dstPort.getD 0 ∧ dstPort.getD 0 ≤ range.portLast := by
  unfold rangeMatches
  cases hc : range.ip.contains dst with
  | false => simp
  | true =>
    cases dstPort with
    | some port => simp
    | none =>
      simp only [Bool.not_true, Bool.false_eq_true, if_false, beq_iff_eq, Option.getD_none, true_and, BitVec.le_def]
      rw [BitVec.le_def] at hsorted
      constructor
      · intro h
        rw [h] at hsorted ⊢
        exact ⟨Nat.le_refl _, hsorted⟩
      · rintro ⟨h, -⟩
        apply BitVec.eq_of_toNat_eq
        simp only [BitVec.ofNat_eq_ofNat, BitVec.toNat_ofNat, Nat.zero_mod] at h ⊢
        omega

theorem ruleMatches_iff (rule : FilterRule) (src dst : Ipv4Addr) (protocol : BitVec 8) (dstPort : Option (BitVec 16)) :
    ruleMatches rule src dst protocol dstPort = true ↔
      (∃ cidr ∈ rule.srcIps, cidr.contains src = true) ∧
      (rule.ipProtocols = [] ∨ protocol ∈ rule.ipProtocols) ∧
      ∃ range ∈ rule.dstPorts, rangeMatches range dst dstPort = true := by
  unfold ruleMatches
  by_cases hs : rule.srcIps.any (fun cidr => cidr.contains src) = true
  · by_cases hp : rule.ipProtocols = [] ∨ protocol ∈ rule.ipProtocols
    · have hg : (!rule.ipProtocols.isEmpty && !rule.ipProtocols.contains protocol) = false := by
        rcases hp with hp | hp
        · simp [hp]
        · simp [hp]
      rw [hs, hg]
      simp only [List.any_eq_true] at hs
      simp [hs, hp]
    · have hg : (!rule.ipProtocols.isEmpty && !rule.ipProtocols.contains protocol) = true := by
        rw [not_or] at hp
        simp [hp.1, hp.2]
      rw [hs, hg]
      simp [hp]
  · rw [Bool.not_eq_true] at hs
    rw [hs]
    simp only [List.any_eq_false] at hs
    constructor
    · intro h
      simp at h
    · rintro ⟨⟨cidr, hmem, hc⟩, -⟩
      exact absurd hc (hs cidr hmem)

end TailscaleVita.Wg

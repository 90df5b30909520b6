import Mathlib.Data.List.GetD
import TailscaleVita.WgInbound
/-!
# WgFragments — what the filter reads of a fragment

`parse_ipv4_meta` takes the destination port from behind the header of every TCP or UDP packet and never looks at the
fragment offset. In a fragment that is not the first those bytes are payload, so the sender chooses the port the filter
sees.
-/
namespace TailscaleVita.Wg

def IsIpv4Header (h : Bytes) : Prop :=
  20 ≤ h.length ∧ h.getD 0 0 >>> 4 = 4 ∧ (h.getD 0 0 &&& 0x0f).toNat * 4 = h.length

def fragmentOffset (h : Bytes) : BitVec 13 := (h.getD 6 0 ++ h.getD 7 0).setWidth 13

def totalLength (h : Bytes) : Nat := (h.getD 2 0 ++ h.getD 3 0).toNat

/-- The verdict on a fragment that is not the first does not depend on its payload. The packets are as long as they say:
BoringTun cuts a plaintext to its total length. -/
def FragmentBlind (policy : InboundPolicy) (peer : Peer) : Prop :=
  ∀ h x y : Bytes, IsIpv4Header h → fragmentOffset h ≠ 0 → totalLength h = (h ++ x).length → x.length = y.length →
    admits policy peer (h ++ x) = admits policy peer (h ++ y)

/-- The policy treats all ports alike, for TCP and UDP from the peer's own sources. -/
def PortBlind (policy : InboundPolicy) (peer : Peer) : Prop :=
  ∀ (src dst : Ipv4Addr) (protocol : BitVec 8), protocol = 6 ∨ protocol = 17 →
    (∃ cidr ∈ peer.allowedIps, cidr.contains src = true) → ∀ p q : BitVec 16,
      policy.allows src dst protocol (some p) = policy.allows src dst protocol (some q)

theorem parseIpv4Meta_append {h : Bytes} (hh : IsIpv4Header h) (x : Bytes) :
    parseIpv4Meta (h ++ x) =
      let src := Ipv4Addr.new (h.getD 12 0) (h.getD 13 0) (h.getD 14 0) (h.getD 15 0)
      let dst := Ipv4Addr.new (h.getD 16 0) (h.getD 17 0) (h.getD 18 0) (h.getD 19 0)
      if h.getD 9 0 = 6 ∨ h.getD 9 0 = 17 then
        if 4 ≤ x.length then some ⟨src, dst, h.getD 9 0, some (x.getD 2 0 ++ x.getD 3 0)⟩ else none
      else some ⟨src, dst, h.getD 9 0, none⟩ := by
  obtain ⟨hlen, hver, hihl⟩ := hh
  have hleft : ∀ i < 20, (h ++ x).getD i 0 = h.getD i 0 := fun i hi => List.getD_append _ _ _ _ (by omega)
  have hright : ∀ i, (h ++ x).getD (h.length + i) 0 = x.getD i 0 := fun i => by
    rw [List.getD_append_right _ _ _ _ (by omega), Nat.add_sub_cancel_left]
  unfold parseIpv4Meta
  simp only [hleft 0 (by omega), hleft 9 (by omega), hleft 12 (by omega), hleft 13 (by omega), hleft 14 (by omega),
    hleft 15 (by omega), hleft 16 (by omega), hleft 17 (by omega), hleft 18 (by omega), hleft 19 (by omega), hihl,
    hright, List.length_append, Nat.add_le_add_iff_left]
  have hsound : ¬ (h.length + x.length < 20 ∨ h.getD 0 0 >>> 4 ≠ 4) := by
    rw [hver]
    simp only [ne_eq, not_true_eq_false, or_false]
    omega
  rw [if_neg hsound, if_neg (by omega)]

theorem Ipv4Addr.new_extract (a : Ipv4Addr) :
    Ipv4Addr.new (a.extractLsb' 24 8) (a.extractLsb' 16 8) (a.extractLsb' 8 8) (a.extractLsb' 0 8) = a := by
  unfold Ipv4Addr.new
  rw [BitVec.extractLsb'_append_extractLsb'_eq_extractLsb' (show 24 = 16 + 8 from rfl),
    BitVec.extractLsb'_append_extractLsb'_eq_extractLsb' (show 16 = 8 + 8 from rfl),
    BitVec.extractLsb'_append_extractLsb'_eq_extractLsb' (show 8 = 0 + 8 from rfl)]
  exact BitVec.extractLsb'_eq_self

def fragmentHeader (src dst : Ipv4Addr) (protocol : BitVec 8) : Bytes :=
  [0x45, 0, 0, 24, 0, 0, 0, 1, 64, protocol, 0, 0,
    src.extractLsb' 24 8, src.extractLsb' 16 8, src.extractLsb' 8 8, src.extractLsb' 0 8,
    dst.extractLsb' 24 8, dst.extractLsb' 16 8, dst.extractLsb' 8 8, dst.extractLsb' 0 8]

def fragmentPayload (port : BitVec 16) : Bytes := [0, 0, port.extractLsb' 8 8, port.extractLsb' 0 8]

theorem isIpv4Header_fragmentHeader (src dst : Ipv4Addr) (protocol : BitVec 8) :
    IsIpv4Header (fragmentHeader src dst protocol) := by
  refine ⟨Nat.le_refl 20, ?_, ?_⟩
  · show (0x45 : BitVec 8) >>> 4 = 4
    decide
  · show ((0x45 : BitVec 8) &&& 0x0f).toNat * 4 = 20
    decide

theorem fragmentOffset_fragmentHeader (src dst : Ipv4Addr) (protocol : BitVec 8) :
    fragmentOffset (fragmentHeader src dst protocol) = 1 := by
  show ((0 : BitVec 8) ++ (1 : BitVec 8)).setWidth 13 = 1
  decide

theorem totalLength_fragment (src dst : Ipv4Addr) (protocol : BitVec 8) (port : BitVec 16) :
    totalLength (fragmentHeader src dst protocol) =
      (fragmentHeader src dst protocol ++ fragmentPayload port).length := by
  show ((0 : BitVec 8) ++ (24 : BitVec 8)).toNat = 24
  decide

theorem parseIpv4Meta_fragment (src dst : Ipv4Addr) {protocol : BitVec 8} (hp : protocol = 6 ∨ protocol = 17)
    (port : BitVec 16) : parseIpv4Meta (fragmentHeader src dst protocol ++ fragmentPayload port) =
      some ⟨src, dst, protocol, some port⟩ := by
  have hport : port.extractLsb' 8 8 ++ port.extractLsb' 0 8 = port := by
    rw [BitVec.extractLsb'_append_extractLsb'_eq_extractLsb' (show 8 = 0 + 8 from rfl)]
    exact BitVec.extractLsb'_eq_self
  rw [parseIpv4Meta_append (isIpv4Header_fragmentHeader src dst protocol)]
  simp only [fragmentHeader, fragmentPayload, List.getD_cons_succ, List.getD_cons_zero, List.length_cons,
    List.length_nil, hp, if_true, Ipv4Addr.new_extract, hport]
  rw [if_pos (by omega)]

theorem admits_of_meta {policy : InboundPolicy} {peer : Peer} {pkt : Bytes} {m : Ipv4Meta}
    (h : parseIpv4Meta pkt = some m) : admits policy peer pkt =
      (peer.allowedIps.any (fun cidr => cidr.contains m.src) && policy.allows m.src m.dst m.protocol m.dstPort) := by
  unfold admits
  rw [h]

theorem admits_eq_of_portBlind {policy : InboundPolicy} {peer : Peer} (hb : PortBlind policy peer) {h x y : Bytes}
    (hh : IsIpv4Header h) (hxy : x.length = y.length) :
    admits policy peer (h ++ x) = admits policy peer (h ++ y) := by
  unfold admits
  rw [parseIpv4Meta_append hh x, parseIpv4Meta_append hh y]
  by_cases hp : h.getD 9 0 = 6 ∨ h.getD 9 0 = 17
  · rw [if_pos hp, if_pos hp, ← hxy]
    by_cases hl : 4 ≤ x.length
    · rw [if_pos hl, if_pos hl]
      -- a source the peer does not own is dropped unseen; from one it owns, the policy answers alike
      cases hown : peer.allowedIps.any (fun cidr => cidr.contains
          (Ipv4Addr.new (h.getD 12 0) (h.getD 13 0) (h.getD 14 0) (h.getD 15 0))) with
      | false => simp only [hown, Bool.false_and]
      | true =>
        simp only [hown, Bool.true_and]
        exact hb _ _ _ hp (List.any_eq_true.1 hown) _ _
    · rw [if_neg hl, if_neg hl]
  · rw [if_neg hp, if_neg hp]

/-- **When fragments cannot steer the filter**: the verdict on every fragment that is not the first is independent of
its payload exactly when the policy gives all ports of a protocol the same answer. -/
theorem fragment_blind_iff (policy : InboundPolicy) (peer : Peer) :
    FragmentBlind policy peer ↔ PortBlind policy peer := by
  constructor
  · intro hf src dst protocol hp hown p q
    have h := hf (fragmentHeader src dst protocol) (fragmentPayload p) (fragmentPayload q)
      (isIpv4Header_fragmentHeader src dst protocol) (by rw [fragmentOffset_fragmentHeader]; decide)
      (totalLength_fragment src dst protocol p) rfl
    rw [admits_of_meta (parseIpv4Meta_fragment src dst hp p), admits_of_meta (parseIpv4Meta_fragment src dst hp q)] at h
    have hany : peer.allowedIps.any (fun cidr => cidr.contains src) = true := List.any_eq_true.2 hown
    simpa only [hany, Bool.true_and] using h
  · intro hb h x y hh _ _ hxy
    exact admits_eq_of_portBlind hb hh hxy

/-- **A fragment is delivered for the bytes it carries**: under a filter for TCP port 22, of two second fragments with
one header the one whose payload spells 22 is delivered and the other dropped. -/
theorem fragment_payload_decides :
    let net : Ipv4Cidr := ⟨Ipv4Addr.new 100 64 0 2, 32, by decide⟩
    let ssh : FilterRule := ⟨[net], [⟨⟨Ipv4Addr.new 100 64 0 1, 32, by decide⟩, 22, 22⟩], [6]⟩
    let e := reached clearTunn 0 [⟨1, none, none, [net], none⟩] [.setInboundPolicy (.rules [ssh])]
    let h := fragmentHeader (Ipv4Addr.new 100 64 0 2) (Ipv4Addr.new 100 64 0 1) 6
    let deliver := fun payload : Bytes =>
      (handleInbound clearTunn e keyOrder (.derp 1 1)
        (wireDatagram packetData [] (receiverIndex 1 0) (h ++ payload)) 0).2
    fragmentOffset h ≠ 0 ∧ totalLength h = 24 ∧ deliver [0, 0, 0, 22] = [.tunRx ⟨0, 1, 1, [net]⟩ (h ++ [0, 0, 0, 22])] ∧
      deliver [0, 0, 0, 23] = [] := by
  intro net ssh e h deliver
  exact ⟨by decide, by decide, by decide, by decide⟩

end TailscaleVita.Wg

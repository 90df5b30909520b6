import TailscaleVita.HashMap
import TailscaleVita.SortedTable
import TailscaleVita.WgPeer
/-!
# WgIndices — the three indices over the peers (`wg-engine/src/indices.rs`)

`byPubkey` serves upserts and the broadcast of handshake initiations, `byIdx` the dispatch of every other datagram,
`byIp` the longest-prefix match. `Coherent ix n` is what every sequence of inserts and removals keeps, `n` peers built.
-/
namespace TailscaleVita.Wg

open List

abbrev AllowedIps := List (Ipv4Cidr × Peer)

namespace AllowedIps

def insertPeer (entries : AllowedIps) (peer : Peer) : AllowedIps :=
  sortDescending (fun e => e.1.prefixLen) (entries ++ peer.allowedIps.map (fun cidr => (cidr, peer)))

def removePeer (entries : AllowedIps) (peer : Peer) : AllowedIps :=
  entries.filter (fun e => decide (e.2.pubkey ≠ peer.pubkey))

def lookup (entries : AllowedIps) (ip : Ipv4Addr) : Option Peer :=
  (entries.find? (fun e => e.1.contains ip)).map Prod.snd

end AllowedIps

structure Indices where
  byPubkey : HashMap PublicKey Peer
  byIdx : HashMap (BitVec 32) Peer
  byIp : AllowedIps

namespace Indices

def new : Indices := ⟨∅, ∅, []⟩

def insert (ix : Indices) (peer : Peer) : Indices where
  byPubkey := ix.byPubkey.insert peer.pubkey peer
  byIdx := ix.byIdx.insert peer.ourIndex peer
  byIp := ix.byIp.insertPeer peer

def remove (ix : Indices) (pubkey : PublicKey) : Indices :=
  match ix.byPubkey.lookup pubkey with
  | some peer =>
    { byPubkey := ix.byPubkey.erase pubkey
      byIdx := ix.byIdx.erase peer.ourIndex
      byIp := ix.byIp.removePeer peer }
  | none => ix

def Live (ix : Indices) (p : Peer) : Prop := ix.byPubkey.lookup p.pubkey = some p

instance (ix : Indices) (p : Peer) : Decidable (ix.Live p) := inferInstanceAs (Decidable (_ = _))

end Indices

def Before (a b : Ipv4Cidr × Peer) : Prop :=
  b.1.prefixLen < a.1.prefixLen ∨ (a.1.prefixLen = b.1.prefixLen ∧ a.2.ptr ≤ b.2.ptr)

structure Coherent (ix : Indices) (n : Nat) : Prop where
  key_eq : ∀ k p, ix.byPubkey.lookup k = some p → p.pubkey = k
  ptr_lt : ∀ p, ix.Live p → p.ptr < n
  ptr_inj : ∀ p q, ix.Live p → ix.Live q → p.ptr = q.ptr → p = q
  index_eq : ∀ p, ix.Live p → p.ourIndex = BitVec.ofNat 32 (p.ptr + 1)
  idx_live : ∀ i p, ix.byIdx.lookup i = some p → p.ourIndex = i ∧ ix.Live p
  live_idx : n < 2 ^ 32 → ∀ p, ix.Live p → ix.byIdx.lookup p.ourIndex = some p
  ip_count : ∀ c p, ix.byIp.count (c, p) = if ix.Live p then p.allowedIps.count c else 0
  ip_sorted : ix.byIp.Pairwise Before

theorem Coherent.new : Coherent Indices.new 0 where
  key_eq k p h := by cases h
  ptr_lt p h := by cases h
  ptr_inj p q h := by cases h
  index_eq p h := by cases h
  idx_live i p h := by cases h
  live_idx _ p h := by cases h
  ip_count c p := by simp [Indices.new, Indices.Live]
  ip_sorted := List.Pairwise.nil

variable {ix : Indices} {n : Nat} {k : PublicKey}

theorem Coherent.live_of_lookup (h : Coherent ix n) {p : Peer} (hk : ix.byPubkey.lookup k = some p) : ix.Live p := by
  have := h.key_eq k p hk
  subst this
  exact hk

theorem Live.eq_of_pubkey {p q : Peer} (hp : ix.Live p) (hq : ix.Live q) (h : p.pubkey = q.pubkey) : p = q := by
  unfold Indices.Live at hp hq
  rw [h, hq] at hp
  exact (Option.some.inj hp).symm

theorem Coherent.eq_of_index (h : Coherent ix n) (hn : n < 2 ^ 32) {p q : Peer}
    (hp : ix.Live p) (hq : ix.Live q) (hi : p.ourIndex = q.ourIndex) : p = q := by
  have h1 := h.live_idx hn p hp
  rw [hi, h.live_idx hn q hq] at h1
  exact (Option.some.inj h1).symm

theorem mem_byIp_iff (h : Coherent ix n) (c : Ipv4Cidr) (p : Peer) :
    (c, p) ∈ ix.byIp ↔ ix.Live p ∧ c ∈ p.allowedIps := by
  rw [← count_pos_iff, h.ip_count]
  split
  next hl =>
    rw [count_pos_iff]
    exact ⟨fun hc => ⟨hl, hc⟩, fun hc => hc.2⟩
  next hl => exact ⟨fun hc => absurd hc (Nat.lt_irrefl 0), fun hc => absurd hc.1 hl⟩

/-! ## Removal -/

theorem live_remove (ix : Indices) (k : PublicKey) (p : Peer) : (ix.remove k).Live p ↔ ix.Live p ∧ p.pubkey ≠ k := by
  unfold Indices.remove Indices.Live
  cases hk : ix.byPubkey.lookup k with
  | none =>
    refine ⟨fun h => ⟨h, fun he => ?_⟩, fun h => h.1⟩
    rw [he, hk] at h
    cases h
  | some q =>
    rw [HashMap.lookup_erase_eq]
    by_cases he : p.pubkey = k
    · simp [he]
    · simp [he]

theorem byPubkey_remove (ix : Indices) (k k' : PublicKey) :
    (ix.remove k).byPubkey.lookup k' = if k' = k then none else ix.byPubkey.lookup k' := by
  unfold Indices.remove
  cases hk : ix.byPubkey.lookup k with
  | none =>
    simp only
    split
    next h => rw [h, hk]
    · rfl
  | some q =>
    rw [HashMap.lookup_erase_eq]

theorem remove_eq {q : Peer} (hk : ix.byPubkey.lookup k = some q) :
    ix.remove k = ⟨ix.byPubkey.erase k, ix.byIdx.erase q.ourIndex, ix.byIp.removePeer q⟩ := by
  unfold Indices.remove
  rw [hk]

theorem remove_of_absent (hk : ix.byPubkey.lookup k = none) : ix.remove k = ix := by
  unfold Indices.remove
  rw [hk]

theorem count_removePeer (t : AllowedIps) (q : Peer) (c : Ipv4Cidr) (p : Peer) :
    (t.removePeer q).count (c, p) = if p.pubkey = q.pubkey then 0 else t.count (c, p) := by
  split
  next hpk =>
    rw [count_eq_zero]
    intro hm
    exact absurd hpk (by simpa using (mem_filter.1 hm).2)
  next hpk => exact count_filter (by simpa using hpk)

theorem remove_coherent (h : Coherent ix n) (k : PublicKey) : Coherent (ix.remove k) n := by
  have hlive := fun p => live_remove ix k p
  cases hk : ix.byPubkey.lookup k with
  | none =>
    rwa [remove_of_absent hk]
  | some q =>
    have hq : ix.Live q := h.live_of_lookup hk
    have hqk : q.pubkey = k := h.key_eq k q hk
    refine ⟨?_, ?_, ?_, ?_, ?_, ?_, ?_, ?_⟩
    · intro k' p hp
      rw [byPubkey_remove] at hp
      split at hp
      · cases hp
      · exact h.key_eq k' p hp
    · intro p hp
      exact h.ptr_lt p ((hlive p).1 hp).1
    · intro p r hp hr
      exact h.ptr_inj p r ((hlive p).1 hp).1 ((hlive r).1 hr).1
    · intro p hp
      exact h.index_eq p ((hlive p).1 hp).1
    · intro i p hp
      rw [remove_eq hk, HashMap.lookup_erase_eq] at hp
      split at hp
      · cases hp
      next hi =>
        obtain ⟨hpi, hpl⟩ := h.idx_live i p hp
        refine ⟨hpi, (hlive p).2 ⟨hpl, fun hpk => hi ?_⟩⟩
        have hpq := Live.eq_of_pubkey hpl hq (hpk.trans hqk.symm)
        rw [← hpi, hpq]
    · intro hn p hp
      obtain ⟨hpl, hpk⟩ := (hlive p).1 hp
      rw [remove_eq hk, HashMap.lookup_erase_eq, if_neg]
      · exact h.live_idx hn p hpl
      · intro hi
        have hpq := h.eq_of_index hn hpl hq hi
        exact hpk (hpq ▸ hqk)
    · intro c p
      have hcount : (ix.remove k).byIp.count (c, p) = if p.pubkey = k then 0 else ix.byIp.count (c, p) := by
        rw [remove_eq hk, count_removePeer, hqk]
      rw [hcount, h.ip_count]
      by_cases hpk : p.pubkey = k
      · rw [if_pos hpk, if_neg (fun hl => ((hlive p).1 hl).2 hpk)]
      · rw [if_neg hpk]
        exact if_congr ⟨fun hl => (hlive p).2 ⟨hl, hpk⟩, fun hl => ((hlive p).1 hl).1⟩ rfl rfl
    · rw [remove_eq hk]
      exact h.ip_sorted.filter _

/-! ## Insertion -/

theorem live_insert (ix : Indices) (q p : Peer) : (ix.insert q).Live p ↔ p = q ∨ (p.pubkey ≠ q.pubkey ∧ ix.Live p) := by
  unfold Indices.Live Indices.insert
  rw [HashMap.lookup_insert_eq]
  by_cases hk : p.pubkey = q.pubkey
  · rw [if_pos hk]
    constructor
    · intro h
      exact .inl (Option.some.inj h).symm
    · rintro (h | h)
      · rw [h]
      · exact absurd hk h.1
  · rw [if_neg hk]
    constructor
    · intro h
      exact .inr ⟨hk, h⟩
    · rintro (h | h)
      · exact absurd (by rw [h]) hk
      · exact h.2

theorem count_insertPeer (t : AllowedIps) (q : Peer) (c : Ipv4Cidr) (p : Peer) :
    (t.insertPeer q).count (c, p) = t.count (c, p) + if p = q then q.allowedIps.count c else 0 := by
  unfold AllowedIps.insertPeer
  rw [(perm_sortDescending _ _).count_eq, count_append]
  congr 1
  split
  next hpq =>
    rw [hpq]
    exact count_map_of_injective _ _ (fun a b hab => (Prod.mk.inj hab).1) _
  next hpq =>
    rw [count_eq_zero]
    intro hm
    obtain ⟨cidr, -, he⟩ := mem_map.1 hm
    exact hpq (Prod.mk.inj he).2.symm

theorem sorted_insertPeer {t : AllowedIps} (hs : t.Pairwise Before) (q : Peer) (hold : ∀ a ∈ t, a.2.ptr ≤ q.ptr) :
    (t.insertPeer q).Pairwise Before := by
  have htie : (t ++ q.allowedIps.map (fun cidr => (cidr, q))).Pairwise
      (fun a b => a.1.prefixLen = b.1.prefixLen → a.2.ptr ≤ b.2.ptr) := by
    rw [pairwise_append]
    refine ⟨hs.imp (fun {a b} hab he => ?_), ?_, fun a ha b hb _ => ?_⟩
    · rcases hab with hab | hab
      · omega
      · exact hab.2
    · rw [pairwise_map]
      exact pairwise_of_forall (fun _ _ _ => Nat.le_refl _)
    · obtain ⟨cidr, -, rfl⟩ := mem_map.1 hb
      exact hold a ha
  refine ((pairwise_sortDescending _ _).and (sortDescending_tie _ _ htie)).imp (fun {a b} hab => ?_)
  rcases Nat.lt_or_ge b.1.prefixLen a.1.prefixLen with hlt | hge
  · exact .inl hlt
  · have he : a.1.prefixLen = b.1.prefixLen := Nat.le_antisymm hge hab.1
    exact .inr ⟨he, hab.2 he⟩

theorem Coherent.index_ne_next (h : Coherent ix n) (hn : n + 1 < 2 ^ 32) {p : Peer}
    (hp : ix.Live p) : p.ourIndex ≠ BitVec.ofNat 32 (n + 1) := by
  intro hi
  have hlt := h.ptr_lt p hp
  rw [h.index_eq p hp] at hi
  have hmod := congrArg BitVec.toNat hi
  simp only [BitVec.toNat_ofNat] at hmod
  rw [Nat.mod_eq_of_lt (by omega), Nat.mod_eq_of_lt (by omega)] at hmod
  omega

theorem insert_coherent (h : Coherent ix n) (q : Peer) (hptr : q.ptr = n) (hidx : q.ourIndex = BitVec.ofNat 32 (n + 1))
    (hfree : ix.byPubkey.lookup q.pubkey = none) :
    Coherent (ix.insert q) (n + 1) := by
  have hlt : ∀ p, ix.Live p → p.ptr < n := h.ptr_lt
  have hnew : ¬ ix.Live q := fun hl => by
    have := hlt q hl
    omega
  -- the key was free, so the peers live before stay live
  have hlive : ∀ p, (ix.insert q).Live p ↔ p = q ∨ ix.Live p := fun p => by
    rw [live_insert]
    refine or_congr_right ⟨fun hp => hp.2, fun hp => ⟨fun he => ?_, hp⟩⟩
    unfold Indices.Live at hp
    rw [he, hfree] at hp
    cases hp
  refine ⟨?_, ?_, ?_, ?_, ?_, ?_, ?_, ?_⟩
  · intro k p hp
    simp only [Indices.insert] at hp
    rw [HashMap.lookup_insert_eq] at hp
    split at hp
    next hk =>
      rw [← Option.some.inj hp]
      exact hk.symm
    · exact h.key_eq k p hp
  · intro p hp
    rcases (hlive p).1 hp with rfl | hp
    · omega
    · have := hlt p hp
      omega
  · intro p r hp hr he
    rcases (hlive p).1 hp with hpq | hpl <;> rcases (hlive r).1 hr with hrq | hrl
    · rw [hpq, hrq]
    · have := hlt r hrl
      rw [hpq] at he
      omega
    · have := hlt p hpl
      rw [hrq] at he
      omega
    · exact h.ptr_inj p r hpl hrl he
  · intro p hp
    rcases (hlive p).1 hp with rfl | hp
    · rw [hidx, hptr]
    · exact h.index_eq p hp
  · intro i p hp
    simp only [Indices.insert] at hp
    rw [HashMap.lookup_insert_eq] at hp
    split at hp
    next hi =>
      have hpq := Option.some.inj hp
      subst hpq
      exact ⟨hi.symm, (hlive q).2 (.inl rfl)⟩
    · obtain ⟨hpi, hpl⟩ := h.idx_live i p hp
      exact ⟨hpi, (hlive p).2 (.inr hpl)⟩
  · intro hn p hp
    simp only [Indices.insert]
    rw [HashMap.lookup_insert_eq]
    rcases (hlive p).1 hp with rfl | hpl
    · rw [if_pos rfl]
    · rw [if_neg (hidx ▸ h.index_ne_next hn hpl), h.live_idx (by omega) p hpl]
  · intro c p
    have hcount : (ix.insert q).byIp.count (c, p) = _ := count_insertPeer ix.byIp q c p
    rw [hcount, h.ip_count]
    by_cases hpq : p = q
    · subst hpq
      rw [if_neg hnew, if_pos rfl, if_pos ((hlive p).2 (.inl rfl)), Nat.zero_add]
    · rw [if_neg hpq, Nat.add_zero]
      exact if_congr ⟨fun hl => (hlive p).2 (.inr hl), fun hl => ((hlive p).1 hl).resolve_left hpq⟩ rfl rfl
  · refine sorted_insertPeer h.ip_sorted q (fun a ha => ?_)
    have := hlt a.2 ((mem_byIp_iff h a.1 a.2).1 ha).1
    omega

/-! ## Longest-prefix match -/

def Beaten (ip : Ipv4Addr) (p q : Peer) (c : Ipv4Cidr) : Prop :=
  ∃ d ∈ p.allowedIps, d.contains ip = true ∧
    (c.prefixLen < d.prefixLen ∨ (c.prefixLen = d.prefixLen ∧ p.ptr < q.ptr))

theorem lookup_eq_some_iff (h : Coherent ix n) (ip : Ipv4Addr) (p : Peer) :
    ix.byIp.lookup ip = some p ↔ (ix.Live p ∧ ∃ c ∈ p.allowedIps, c.contains ip = true) ∧
      ∀ q, ix.Live q → q ≠ p → ∀ c ∈ q.allowedIps, c.contains ip = true → Beaten ip p q c := by
  have hfirst : ∀ a, ix.byIp.find? (fun e => e.1.contains ip) = some a → ∀ b ∈ ix.byIp, b.1.contains ip = true →
      b = a ∨ Before a b := fun a ha b hb hc => find?_first h.ip_sorted ha hb hc
  unfold AllowedIps.lookup
  rw [Option.map_eq_some_iff]
  constructor
  · rintro ⟨⟨d, p'⟩, hfind, rfl⟩
    have hd := find?_some hfind
    have hmem := mem_of_find?_eq_some hfind
    obtain ⟨hpl, hdp⟩ := (mem_byIp_iff h d p').1 hmem
    refine ⟨⟨hpl, d, hdp, hd⟩, fun q hql hqp c hc hcq => ⟨d, hdp, hd, ?_⟩⟩
    rcases hfirst _ hfind (c, q) ((mem_byIp_iff h c q).2 ⟨hql, hc⟩) hcq with he | hb | ⟨hb, hle⟩
    · exact absurd (Prod.mk.inj he).2 hqp
    · exact .inl hb
    · refine .inr ⟨hb.symm, Nat.lt_of_le_of_ne hle (fun he => ?_)⟩
      exact hqp (h.ptr_inj q p' hql hpl he.symm)
  · rintro ⟨⟨hpl, c, hcp, hc⟩, hbeat⟩
    have hmem : (c, p) ∈ ix.byIp := (mem_byIp_iff h c p).2 ⟨hpl, hcp⟩
    cases hfind : ix.byIp.find? (fun e => e.1.contains ip) with
    | none => exact absurd hc (find?_eq_none.1 hfind (c, p) hmem)
    | some a =>
      refine ⟨a, rfl, ?_⟩
      obtain ⟨d, q⟩ := a
      by_contra hne
      obtain ⟨hql, hdq⟩ := (mem_byIp_iff h d q).1 (mem_of_find?_eq_some hfind)
      have hd : d.contains ip = true := by
        have := find?_some hfind
        exact this
      obtain ⟨d', hd'p, hd', hlt⟩ := hbeat q hql hne d hdq hd
      rcases hfirst _ hfind (d', p) ((mem_byIp_iff h d' p).2 ⟨hpl, hd'p⟩) hd' with he | hb | ⟨hb, hle⟩
      · exact hne (Prod.mk.inj he).2.symm
      · simp only at hb
        omega
      · simp only at hb hle
        omega

end TailscaleVita.Wg

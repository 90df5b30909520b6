import TailscaleVita.StdText
/-!
# StdNet — the standard library's network addresses

`Ipv4Addr`, `Ipv6Addr` and `SocketAddr`, with the parsers `FromStr` runs. A reader takes the remaining text and gives
the value read and what is left; `parseWith` accepts only when the whole text was consumed.
-/
namespace TailscaleVita

/-- An IPv4 address, as the big-endian number `u32::from` gives. -/
abbrev Ipv4Addr := BitVec 32

def Ipv4Addr.new (a b c d : BitVec 8) : Ipv4Addr := a ++ b ++ c ++ d

abbrev Ipv6Addr := BitVec 128

inductive SocketAddr where
  | v4 (ip : Ipv4Addr) (port : BitVec 16)
  | v6 (ip : Ipv6Addr) (port : BitVec 16) (flowinfo scopeId : BitVec 32)
deriving DecidableEq

abbrev Reader (α : Type) := Text → Option (α × Text)

def parseWith {α : Type} (r : Reader α) (s : Text) : Option α :=
  match r s with
  | some (a, []) => some a
  | _ => none

def readGivenChar (c : Char) : Reader Unit
  | [] => none
  | x :: xs => if x = c then some ((), xs) else none

def digitRun (radix : Nat) : Nat → Nat → Text → Nat × Nat × Text
  | n, acc, [] => (n, acc, [])
  | n, acc, c :: cs =>
    match toDigit radix c with
    | some d => digitRun radix (n + 1) (acc * radix + d) cs
    | none => (n, acc, c :: cs)

def readNumber (w radix : Nat) (maxDigits : Option Nat) (allowZeroPrefix : Bool) : Reader (BitVec w) := fun s =>
  let (n, v, rest) := digitRun radix 0 0 s
  if n = 0 then none
  else if maxDigits.any (fun m => decide (m < n)) then none
  else if !allowZeroPrefix && s.head? == some '0' && decide (1 < n) then none
  else if v < 2 ^ w then some (BitVec.ofNat w v, rest)
  else none

def readSeparator {α : Type} (c : Char) (i : Nat) (r : Reader α) : Reader α := fun s =>
  if i = 0 then r s
  else
    match readGivenChar c s with
    | some ((), s) => r s
    | none => none

def readIpv4Addr : Reader Ipv4Addr := fun s => do
  let (a, s) ← readSeparator '.' 0 (readNumber 8 10 (some 3) false) s
  let (b, s) ← readSeparator '.' 1 (readNumber 8 10 (some 3) false) s
  let (c, s) ← readSeparator '.' 2 (readNumber 8 10 (some 3) false) s
  let (d, s) ← readSeparator '.' 3 (readNumber 8 10 (some 3) false) s
  return (Ipv4Addr.new a b c d, s)

def parseIpv4Addr (s : Text) : Option Ipv4Addr :=
  if 15 < utf8Len s then none else parseWith readIpv4Addr s

def Dotted (pre : Text) : Prop := ∀ c ∈ pre, (toDigit 10 c).isSome = true ∨ c = '.'

theorem digitRun_consumes : ∀ (s : Text) (n acc : Nat),
    ∃ pre, s = pre ++ (digitRun 10 n acc s).2.2 ∧ Dotted pre
  | [], _, _ => ⟨[], rfl, fun c hc => by cases hc⟩
  | c :: cs, n, acc => by
    rw [digitRun]
    cases hd : toDigit 10 c with
    | none => exact ⟨[], rfl, fun c hc => by cases hc⟩
    | some d =>
      obtain ⟨pre, hpre, hdot⟩ := digitRun_consumes cs (n + 1) (acc * 10 + d)
      refine ⟨c :: pre, by rw [List.cons_append, ← hpre], fun x hx => ?_⟩
      rcases List.mem_cons.1 hx with rfl | hx
      · exact .inl (by rw [hd]; rfl)
      · exact hdot x hx

theorem readOctet_consumes {i : Nat} {s rest : Text} {v : BitVec 8}
    (h : readSeparator '.' i (readNumber 8 10 (some 3) false) s = some (v, rest)) :
    ∃ pre, s = pre ++ rest ∧ Dotted pre := by
  have hnum : ∀ {s : Text}, readNumber 8 10 (some 3) false s = some (v, rest) →
      ∃ pre, s = pre ++ rest ∧ Dotted pre := by
    intro s hs
    obtain ⟨pre, hpre, hdot⟩ := digitRun_consumes s 0 0
    unfold readNumber at hs
    generalize digitRun 10 0 0 s = r at hs hpre
    simp only at hs hpre
    split at hs
    · cases hs
    · split at hs
      · cases hs
      · split at hs
        · cases hs
        · split at hs
          · cases hs
            exact ⟨pre, hpre, hdot⟩
          · cases hs
  unfold readSeparator at h
  split at h
  · exact hnum h
  · cases s with
    | nil => cases h
    | cons x xs =>
      simp only [readGivenChar] at h
      by_cases hx : x = '.'
      · rw [if_pos hx] at h
        obtain ⟨pre, hpre, hdot⟩ := hnum h
        refine ⟨x :: pre, by rw [List.cons_append, ← hpre], fun c hc => ?_⟩
        rcases List.mem_cons.1 hc with rfl | hc
        · exact .inr hx
        · exact hdot c hc
      · rw [if_neg hx] at h
        cases h

theorem Dotted.append {a b : Text} (ha : Dotted a) (hb : Dotted b) : Dotted (a ++ b) := fun c hc => by
  rcases List.mem_append.1 hc with h | h
  · exact ha c h
  · exact hb c h

theorem readIpv4Addr_consumes {s rest : Text} {a : Ipv4Addr} (h : readIpv4Addr s = some (a, rest)) :
    ∃ pre, s = pre ++ rest ∧ Dotted pre := by
  simp only [readIpv4Addr, Option.bind_eq_bind, Option.bind_eq_some_iff, Prod.exists] at h
  obtain ⟨v1, s1, h1, v2, s2, h2, v3, s3, h3, v4, s4, h4, h⟩ := h
  cases h
  obtain ⟨p1, e1, d1⟩ := readOctet_consumes h1
  obtain ⟨p2, e2, d2⟩ := readOctet_consumes h2
  obtain ⟨p3, e3, d3⟩ := readOctet_consumes h3
  obtain ⟨p4, e4, d4⟩ := readOctet_consumes h4
  refine ⟨p1 ++ (p2 ++ (p3 ++ p4)), ?_, d1.append (d2.append (d3.append d4))⟩
  rw [e1, e2, e3, e4]
  simp

theorem slash_notMem_of_parseIpv4Addr {s : Text} {a : Ipv4Addr} (h : parseIpv4Addr s = some a) : '/' ∉ s := by
  unfold parseIpv4Addr at h
  split at h
  · cases h
  · unfold parseWith at h
    split at h
    next hr =>
      obtain ⟨pre, hpre, hdot⟩ := readIpv4Addr_consumes hr
      rw [List.append_nil] at hpre
      rw [hpre]
      intro hm
      have := hdot '/' hm
      revert this
      decide
    · cases h

def readGroups (limit : Nat) : Nat → Nat → List (BitVec 16) → Text → List (BitVec 16) × Bool × Text
  | 0, _, acc, s => (acc, false, s)
  | k + 1, i, acc, s =>
    let v4 := if i + 1 < limit then readSeparator ':' i readIpv4Addr s else none
    match v4 with
    | some (ip, s) => (acc ++ [ip.extractLsb' 16 16, ip.extractLsb' 0 16], true, s)
    | none =>
      match readSeparator ':' i (readNumber 16 16 (some 4) true) s with
      | some (g, s) => readGroups limit k (i + 1) (acc ++ [g]) s
      | none => (acc, false, s)

def ipv6OfGroups (gs : List (BitVec 16)) : Ipv6Addr := gs.foldl (fun acc g => (acc <<< 16) ||| g.setWidth 128) 0

def readIpv6Addr : Reader Ipv6Addr := fun s =>
  let (head, headIpv4, s) := readGroups 8 8 0 [] s
  if head.length = 8 then some (ipv6OfGroups head, s)
  else if headIpv4 then none
  else do
    let ((), s) ← readGivenChar ':' s
    let ((), s) ← readGivenChar ':' s
    let limit := 8 - (head.length + 1)
    let (tail, _, s) := readGroups limit limit 0 [] s
    return (ipv6OfGroups (head ++ List.replicate (8 - head.length - tail.length) 0 ++ tail), s)

def readPort : Reader (BitVec 16) := fun s => do
  let ((), s) ← readGivenChar ':' s
  readNumber 16 10 none true s

def readScopeId : Reader (BitVec 32) := fun s => do
  let ((), s) ← readGivenChar '%' s
  readNumber 32 10 none true s

def readSocketAddrV4 : Reader SocketAddr := fun s => do
  let (ip, s) ← readIpv4Addr s
  let (port, s) ← readPort s
  return (.v4 ip port, s)

def readSocketAddrV6 : Reader SocketAddr := fun s => do
  let ((), s) ← readGivenChar '[' s
  let (ip, s) ← readIpv6Addr s
  let (scopeId, s) := (readScopeId s).getD (0, s)
  let ((), s) ← readGivenChar ']' s
  let (port, s) ← readPort s
  return (.v6 ip port 0 scopeId, s)

def parseSocketAddr (s : Text) : Option SocketAddr :=
  parseWith (fun s => (readSocketAddrV4 s).orElse (fun _ => readSocketAddrV6 s)) s

end TailscaleVita

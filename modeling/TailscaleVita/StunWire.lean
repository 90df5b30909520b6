import Mathlib.Data.List.GetD
import TailscaleVita.MsDemux
/-!
# StunWire — reading a STUN response (`ts-magicsock/src/stun.rs`)

`parse_binding_response` indexes its input byte by byte, so every access of the model is checked: a read outside the
slice gives `none`, where the code would panic.
-/
namespace TailscaleVita.Ms.Stun

open List

/-! ## Checked reads -/

abbrev Checked (α : Type) := Option α

def byteAt (bytes : Bytes) (i : Nat) : Checked (BitVec 8) := bytes[i]?

def u16At (bytes : Bytes) (i : Nat) : Checked (BitVec 16) := do
  let hi ← byteAt bytes i
  let lo ← byteAt bytes (i + 1)
  return hi ++ lo

def u32At (bytes : Bytes) (i : Nat) : Checked (BitVec 32) := do
  let hi ← u16At bytes i
  let lo ← u16At bytes (i + 2)
  return hi ++ lo

def slice (bytes : Bytes) (start stop : Nat) : Checked Bytes :=
  if start ≤ stop ∧ stop ≤ bytes.length then some ((bytes.drop start).take (stop - start)) else none

/-! ## The parser -/

def typeBindingSuccess : BitVec 16 := 0x0101
def attrXorMappedAddress : BitVec 16 := 0x0020
def familyIpv4 : BitVec 8 := 0x01
def familyIpv6 : BitVec 8 := 0x02
def magicCookie : BitVec 32 := 0x2112A442

def portMask : BitVec 16 := 0x2112

def unmask (body txIdFull : Bytes) (n : Nat) : Checked Bytes :=
  (List.range n).mapM fun k => do
    let x ← byteAt body (4 + k)
    let m ← byteAt txIdFull k
    return x ^^^ m

def parseXorMappedAddress (body txIdFull : Bytes) : Checked (Option SocketAddr) :=
  if body.length < 4 then some none
  else do
    let family ← byteAt body 1
    let xPort ← u16At body 2
    let port := xPort ^^^ portMask
    if family = familyIpv4 then
      if body.length < 8 then return none
      else
        let addr ← unmask body txIdFull 4
        return some (.v4 (BitVec.ofNat 32 (beNat addr)) port)
    else if family = familyIpv6 then
      if body.length < 20 then return none
      else
        let addr ← unmask body txIdFull 16
        return some (.v6 (BitVec.ofNat 128 (beNat addr)) port 0 0)
    else return none

def paddedLen (attrLen : Nat) : Nat := (attrLen + 3) / 4 * 4

def walkAttrs (bytes txIdFull : Bytes) (i stop : Nat) : Checked (Option SocketAddr) :=
  if _h : i + 4 ≤ stop then do
    let attrType ← u16At bytes i
    let attrLen ← u16At bytes (i + 2)
    let valStart := i + 4
    let valEnd := valStart + attrLen.toNat
    if stop < valEnd then return none
    else if attrType = attrXorMappedAddress then
      let body ← slice bytes valStart valEnd
      parseXorMappedAddress body txIdFull
    else walkAttrs bytes txIdFull (valStart + paddedLen attrLen.toNat) stop
  else some none
termination_by stop - i

def parseBindingResponse (bytes : Bytes) : Checked (Option SocketAddr) :=
  if bytes.length < stunHeaderLen then some none
  else do
    let msgType ← u16At bytes 0
    if msgType ≠ typeBindingSuccess then return none
    else
      let bodyLen ← u16At bytes 2
      if bytes.length < stunHeaderLen + bodyLen.toNat then return none
      else
        let cookie ← u32At bytes 4
        if cookie ≠ magicCookie then return none
        else
          let txId ← slice bytes 8 20
          walkAttrs bytes (cookieBytes ++ txId) stunHeaderLen (stunHeaderLen + bodyLen.toNat)

/-! ## Reads in range -/

theorem byteAt_eq {bytes : Bytes} {i : Nat} (h : i < bytes.length) : byteAt bytes i = some (bytes.getD i 0) := by
  rw [byteAt, getElem?_eq_getElem h, getD_eq_getElem _ _ h]

theorem u16At_eq {bytes : Bytes} {i : Nat} (h : i + 1 < bytes.length) :
    u16At bytes i = some (bytes.getD i 0 ++ bytes.getD (i + 1) 0) := by
  rw [u16At, byteAt_eq (by omega), byteAt_eq h]
  rfl

theorem u32At_eq {bytes : Bytes} {i : Nat} (h : i + 3 < bytes.length) :
    u32At bytes i =
      some (bytes.getD i 0 ++ bytes.getD (i + 1) 0 ++ (bytes.getD (i + 2) 0 ++ bytes.getD (i + 3) 0)) := by
  rw [u32At, u16At_eq (by omega), u16At_eq (by omega)]
  rfl

theorem slice_eq {bytes : Bytes} {start stop : Nat} (h1 : start ≤ stop) (h2 : stop ≤ bytes.length) :
    slice bytes start stop = some ((bytes.drop start).take (stop - start)) := if_pos ⟨h1, h2⟩

theorem mapM_some {α β : Type} {f : α → Option β} {g : α → β} : ∀ (l : List α), (∀ a ∈ l, f a = some (g a)) →
    l.mapM f = some (l.map g)
  | [], _ => rfl
  | a :: l, h => by
    rw [mapM_cons, h a mem_cons_self, mapM_some l (fun b hb => h b (mem_cons_of_mem a hb))]
    rfl

theorem unmask_eq {body txIdFull : Bytes} {n : Nat} (h1 : 4 + n ≤ body.length) (h2 : n ≤ txIdFull.length) :
    unmask body txIdFull n = some ((List.range n).map fun k => body.getD (4 + k) 0 ^^^ txIdFull.getD k 0) := by
  refine mapM_some (List.range n) fun k hk => ?_
  rw [mem_range] at hk
  rw [byteAt_eq (by omega), byteAt_eq (by omega)]
  rfl

/-! ## No access out of range -/

theorem parseXorMappedAddress_total (body : Bytes) {txIdFull : Bytes} (hk : txIdFull.length = 16) :
    ∃ r, parseXorMappedAddress body txIdFull = some r := by
  unfold parseXorMappedAddress
  by_cases h4 : body.length < 4
  · exact ⟨none, if_pos h4⟩
  rw [if_neg h4, byteAt_eq (by omega), u16At_eq (by omega)]
  simp only [Option.bind_eq_bind, Option.bind_some, Option.pure_def]
  split
  · split
    · exact ⟨none, rfl⟩
    · rw [unmask_eq (by omega) (by omega)]
      exact ⟨_, rfl⟩
  · split
    · split
      · exact ⟨none, rfl⟩
      · rw [unmask_eq (by omega) (by omega)]
        exact ⟨_, rfl⟩
    · exact ⟨none, rfl⟩

theorem walkAttrs_eq {bytes txIdFull : Bytes} {i stop : Nat} (h : i + 4 ≤ stop) (hstop : stop ≤ bytes.length) :
    walkAttrs bytes txIdFull i stop =
      let attrType := bytes.getD i 0 ++ bytes.getD (i + 1) 0
      let attrLen := (bytes.getD (i + 2) 0 ++ bytes.getD (i + 3) 0 : BitVec 16).toNat
      if stop < i + 4 + attrLen then some none
      else if attrType = attrXorMappedAddress then
        parseXorMappedAddress ((bytes.drop (i + 4)).take attrLen) txIdFull
      else walkAttrs bytes txIdFull (i + 4 + paddedLen attrLen) stop := by
  rw [walkAttrs, dif_pos h, u16At_eq (by omega), u16At_eq (by omega)]
  simp only [Option.bind_eq_bind, Option.bind_some, Option.pure_def]
  split
  · rfl
  · split
    · rw [slice_eq (by omega) (by omega), Option.bind_some, Nat.add_sub_cancel_left]
    · rfl

theorem walkAttrs_total (bytes : Bytes) {txIdFull : Bytes} (hk : txIdFull.length = 16) {stop : Nat}
    (hstop : stop ≤ bytes.length) (i : Nat) : ∃ r, walkAttrs bytes txIdFull i stop = some r := by
  induction hn : stop - i using Nat.strong_induction_on generalizing i with
  | _ n ih =>
    by_cases h : i + 4 ≤ stop
    · rw [walkAttrs_eq h hstop]
      simp only
      split
      · exact ⟨none, rfl⟩
      · split
        · exact parseXorMappedAddress_total _ hk
        · exact ih _ (by omega) _ rfl
    · rw [walkAttrs, dif_neg h]
      exact ⟨none, rfl⟩

theorem length_txIdFull {bytes : Bytes} (h : stunHeaderLen ≤ bytes.length) :
    (cookieBytes ++ (bytes.drop 8).take (20 - 8)).length = 16 := by
  unfold stunHeaderLen at h
  simp only [length_append, length_take, length_drop, cookieBytes, length_cons, length_nil]
  omega

theorem parseBindingResponse_total (bytes : Bytes) : ∃ r, parseBindingResponse bytes = some r := by
  unfold parseBindingResponse
  by_cases hlen : bytes.length < stunHeaderLen
  · exact ⟨none, if_pos hlen⟩
  have hheader : 20 ≤ bytes.length := Nat.not_lt.1 hlen
  rw [if_neg hlen, u16At_eq (by omega), u16At_eq (by omega), u32At_eq (by omega), slice_eq (by omega) hheader]
  simp only [Option.bind_eq_bind, Option.bind_some, Option.pure_def]
  split
  · exact ⟨none, rfl⟩
  · split
    · exact ⟨none, rfl⟩
    next hroom =>
      split
      · exact ⟨none, rfl⟩
      · exact walkAttrs_total bytes (length_txIdFull (Nat.not_lt.1 hlen)) (Nat.not_lt.1 hroom) _

/-! ## Responses -/

def be16 (x : BitVec 16) : Bytes := [x.extractLsb' 8 8, x.extractLsb' 0 8]

structure StunAttr where
  type : BitVec 16
  value : Bytes
  padding : Bytes
  short : value.length < 2 ^ 16
  aligned : value.length + padding.length = paddedLen value.length

def StunAttr.bytes (a : StunAttr) : Bytes :=
  be16 a.type ++ be16 (BitVec.ofNat 16 a.value.length) ++ (a.value ++ a.padding)

def attrBytes (attrs : List StunAttr) : Bytes := attrs.flatMap StunAttr.bytes

inductive Mapped where
  | v4 (ip : Ipv4Addr) (port : BitVec 16)
  | v6 (ip : Ipv6Addr) (port : BitVec 16)
deriving DecidableEq

def Mapped.socketAddr : Mapped → SocketAddr
  | .v4 ip port => .v4 ip port
  | .v6 ip port => .v6 ip port 0 0

def Mapped.family : Mapped → BitVec 8
  | .v4 _ _ => familyIpv4
  | .v6 _ _ => familyIpv6

def Mapped.port : Mapped → BitVec 16
  | .v4 _ port => port
  | .v6 _ port => port

def Mapped.octets : Mapped → Bytes
  | .v4 ip _ => beBytes 4 ip.toNat
  | .v6 ip _ => beBytes 16 ip.toNat

def xorMappedValue (txId : TxId) (m : Mapped) : Bytes :=
  [0, m.family] ++ be16 (m.port ^^^ portMask) ++
    List.zipWith (· ^^^ ·) m.octets (cookieBytes ++ beBytes 12 txId.toNat)

theorem length_xorMappedValue (txId : TxId) (m : Mapped) : (xorMappedValue txId m).length = 4 + m.octets.length := by
  simp only [xorMappedValue, be16, length_append, length_cons, length_nil, length_zipWith, cookieBytes, length_beBytes]
  cases m <;> simp [Mapped.octets]

def xorMappedAttr (txId : TxId) (m : Mapped) : StunAttr where
  type := attrXorMappedAddress
  value := xorMappedValue txId m
  padding := []
  short := by
    rw [length_xorMappedValue]
    cases m <;> simp [Mapped.octets]
  aligned := by
    rw [length_xorMappedValue]
    cases m <;> simp [Mapped.octets, paddedLen]

/-- A success response: the header, and the attributes with the address among them. -/
def bindingResponse (txId : TxId) (m : Mapped) (before after : List StunAttr) : Bytes :=
  let body := attrBytes before ++ (xorMappedAttr txId m).bytes ++ attrBytes after
  be16 typeBindingSuccess ++ be16 (BitVec.ofNat 16 body.length) ++ cookieBytes ++ beBytes 12 txId.toNat ++ body

/-! ## The address comes back -/

theorem be16_extract (x : BitVec 16) : x.extractLsb' 8 8 ++ x.extractLsb' 0 8 = x := by
  rw [BitVec.extractLsb'_append_extractLsb'_eq_extractLsb' (show 8 = 0 + 8 from rfl)]
  exact BitVec.extractLsb'_eq_self

theorem getD_append_length (pre rest : Bytes) (i : Nat) : (pre ++ rest).getD (pre.length + i) 0 = rest.getD i 0 := by
  rw [getD_append_right _ _ _ _ (by omega), Nat.add_sub_cancel_left]

theorem unmask_zipWith (head : Bytes) (hhead : head.length = 4) {octets key : Bytes}
    (hlen : octets.length ≤ key.length) :
    unmask (head ++ List.zipWith (· ^^^ ·) octets key) key octets.length = some octets := by
  have hzip : (List.zipWith (· ^^^ ·) octets key).length = octets.length := by
    rw [length_zipWith, Nat.min_eq_left hlen]
  rw [unmask_eq (by rw [length_append, hhead, hzip]) hlen]
  congr 1
  refine ext_getElem (by simp) fun k h1 h2 => ?_
  have hk : k < (List.zipWith (· ^^^ ·) octets key).length := by omega
  rw [getElem_map, getElem_range, ← hhead, getD_append_length, getD_eq_getElem _ _ hk,
    getD_eq_getElem _ _ (by omega), getElem_zipWith, BitVec.xor_assoc, BitVec.xor_self, BitVec.xor_zero]

theorem ofNat_beNat_beBytes {n w : Nat} (hw : w = 8 * n) (x : BitVec w) :
    BitVec.ofNat w (beNat (beBytes n x.toNat)) = x := by
  subst hw
  exact Octets.get_new x

theorem parseXorMappedAddress_value (txId : TxId) (m : Mapped) :
    parseXorMappedAddress (xorMappedValue txId m) (cookieBytes ++ beBytes 12 txId.toNat) =
      some (some m.socketAddr) := by
  have hlen := length_xorMappedValue txId m
  have hkey : (cookieBytes ++ beBytes 12 txId.toNat).length = 16 := by simp [cookieBytes]
  have hfamily : byteAt (xorMappedValue txId m) 1 = some m.family := rfl
  have hport : u16At (xorMappedValue txId m) 2 = some (m.port ^^^ portMask) := by
    have hread : u16At (xorMappedValue txId m) 2 =
        some ((m.port ^^^ portMask).extractLsb' 8 8 ++ (m.port ^^^ portMask).extractLsb' 0 8) := rfl
    rw [hread, be16_extract]
  have haddr : unmask (xorMappedValue txId m) (cookieBytes ++ beBytes 12 txId.toNat) m.octets.length =
      some m.octets := by
    refine unmask_zipWith ([0, m.family] ++ be16 (m.port ^^^ portMask)) rfl ?_
    rw [hkey]
    cases m <;> simp [Mapped.octets]
  have hmask : m.port ^^^ portMask ^^^ portMask = m.port := by
    rw [BitVec.xor_assoc, BitVec.xor_self, BitVec.xor_zero]
  unfold parseXorMappedAddress
  rw [if_neg (by omega), hfamily, hport]
  simp only [Option.bind_eq_bind, Option.bind_some, Option.pure_def, hmask]
  cases m with
  | v4 ip port =>
    have hoctets : (Mapped.v4 ip port).octets.length = 4 := length_beBytes 4 _
    rw [hoctets] at hlen haddr
    rw [if_pos (show (Mapped.v4 ip port).family = familyIpv4 from rfl), if_neg (by omega), haddr]
    have hip : BitVec.ofNat 32 (beNat (beBytes 4 ip.toNat)) = ip := ofNat_beNat_beBytes (n := 4) rfl ip
    simp [Mapped.octets, hip, Mapped.port, Mapped.socketAddr]
  | v6 ip port =>
    have hoctets : (Mapped.v6 ip port).octets.length = 16 := length_beBytes 16 _
    rw [hoctets] at hlen haddr
    have hfour : ¬ (Mapped.v6 ip port).family = familyIpv4 := show ¬ familyIpv6 = familyIpv4 by decide
    rw [if_neg hfour, if_pos (show (Mapped.v6 ip port).family = familyIpv6 from rfl), if_neg (by omega), haddr]
    have hip : BitVec.ofNat 128 (beNat (beBytes 16 ip.toNat)) = ip := ofNat_beNat_beBytes (n := 16) rfl ip
    simp [Mapped.octets, hip, Mapped.port, Mapped.socketAddr]

theorem length_attr (a : StunAttr) : a.bytes.length = 4 + paddedLen a.value.length := by
  have haligned := a.aligned
  simp only [StunAttr.bytes, be16, length_append, length_cons, length_nil]
  omega

theorem walkAttrs_attr (pre : Bytes) (a : StunAttr) (rest txIdFull : Bytes) :
    let bytes := pre ++ (a.bytes ++ rest)
    walkAttrs bytes txIdFull pre.length bytes.length =
      if a.type = attrXorMappedAddress then parseXorMappedAddress a.value txIdFull
      else walkAttrs bytes txIdFull (pre ++ a.bytes).length bytes.length := by
  intro bytes
  have hlen := length_attr a
  have hvalue : a.value.length ≤ paddedLen a.value.length := by
    have := a.aligned
    omega
  have hbytes : bytes.length = pre.length + (a.bytes.length + rest.length) := by
    simp [bytes]
  have hread : ∀ i, bytes.getD (pre.length + i) 0 = (a.bytes ++ rest).getD i 0 := getD_append_length pre _
  have htype : bytes.getD pre.length 0 ++ bytes.getD (pre.length + 1) 0 = a.type := by
    have h0 : bytes.getD pre.length 0 = a.type.extractLsb' 8 8 := hread 0
    have h1 : bytes.getD (pre.length + 1) 0 = a.type.extractLsb' 0 8 := hread 1
    rw [h0, h1, be16_extract]
  have hattrLen : (bytes.getD (pre.length + 2) 0 ++ bytes.getD (pre.length + 3) 0 : BitVec 16).toNat =
      a.value.length := by
    have h2 : bytes.getD (pre.length + 2) 0 = (BitVec.ofNat 16 a.value.length).extractLsb' 8 8 := hread 2
    have h3 : bytes.getD (pre.length + 3) 0 = (BitVec.ofNat 16 a.value.length).extractLsb' 0 8 := hread 3
    rw [h2, h3, be16_extract, BitVec.toNat_ofNat, Nat.mod_eq_of_lt a.short]
  rw [walkAttrs_eq (by omega) (Nat.le_refl _)]
  rw [htype, hattrLen, if_neg (by omega)]
  split
  · congr 1
    have hdrop : bytes.drop (pre.length + 4) = a.value ++ (a.padding ++ rest) := by
      simp only [bytes, drop_length_add_append, StunAttr.bytes, be16, append_assoc]
      rfl
    rw [hdrop, take_left]
  · have hnext : (pre ++ a.bytes).length = pre.length + 4 + paddedLen a.value.length := by
      rw [length_append, hlen, Nat.add_assoc]
    rw [hnext]

theorem walkAttrs_skip (rest txIdFull : Bytes) : ∀ (attrs : List StunAttr) (pre : Bytes),
    (∀ a ∈ attrs, a.type ≠ attrXorMappedAddress) →
    walkAttrs (pre ++ (attrBytes attrs ++ rest)) txIdFull pre.length (pre ++ (attrBytes attrs ++ rest)).length =
      walkAttrs (pre ++ (attrBytes attrs ++ rest)) txIdFull (pre ++ attrBytes attrs).length
        (pre ++ (attrBytes attrs ++ rest)).length
  | [], pre, _ => by simp [attrBytes]
  | a :: attrs, pre, h => by
    have hcons : attrBytes (a :: attrs) ++ rest = a.bytes ++ (attrBytes attrs ++ rest) := by
      simp [attrBytes]
    have hturn := walkAttrs_attr pre a (attrBytes attrs ++ rest) txIdFull
    have hrest := walkAttrs_skip rest txIdFull attrs (pre ++ a.bytes) (fun b hb => h b (mem_cons_of_mem a hb))
    simp only [if_neg (h a mem_cons_self)] at hturn
    rw [hcons, hturn]
    simp only [append_assoc] at hrest ⊢
    rw [hrest]
    simp [attrBytes]

/-- **STUN responses decode.** For every transaction id, every address and port, and all well-formed attributes before
and after it, those before of other types and the body within 65535 bytes, the parser returns exactly the address of
the response; and on every byte string it ends without a read out of range. -/
theorem stun_decode :
    (∀ (txId : TxId) (m : Mapped) (before after : List StunAttr), (∀ a ∈ before, a.type ≠ attrXorMappedAddress) →
      (attrBytes before ++ (xorMappedAttr txId m).bytes ++ attrBytes after).length ≤ 65535 →
      parseBindingResponse (bindingResponse txId m before after) = some (some m.socketAddr)) ∧
    ∀ bytes, ∃ r, parseBindingResponse bytes = some r := by
  refine ⟨fun txId m before after hbefore hbody => ?_, parseBindingResponse_total⟩
  let body := attrBytes before ++ ((xorMappedAttr txId m).bytes ++ attrBytes after)
  have hbody' : body.length ≤ 65535 := by
    simp only [body]
    rwa [← append_assoc]
  let header := be16 typeBindingSuccess ++ be16 (BitVec.ofNat 16 body.length) ++ cookieBytes ++ beBytes 12 txId.toNat
  have hheader : header.length = 20 := by simp [header, be16, cookieBytes]
  have hresponse : bindingResponse txId m before after = header ++ body := by
    simp [bindingResponse, header, body]
  rw [hresponse]
  have hread : ∀ i < 20, (header ++ body).getD i 0 = header.getD i 0 := fun i hi =>
    getD_append _ _ _ _ (by omega)
  have hlen : (header ++ body).length = 20 + body.length := by rw [length_append, hheader]
  have htype : u16At (header ++ body) 0 = some typeBindingSuccess := by
    rw [u16At_eq (by omega), hread 0 (by omega), hread 1 (by omega)]
    exact congrArg some (be16_extract typeBindingSuccess)
  have hbodyLen : u16At (header ++ body) 2 = some (BitVec.ofNat 16 body.length) := by
    rw [u16At_eq (by omega), hread 2 (by omega), hread 3 (by omega)]
    exact congrArg some (be16_extract _)
  have hcookie : u32At (header ++ body) 4 = some magicCookie := by
    rw [u32At_eq (by omega), hread 4 (by omega), hread 5 (by omega), hread 6 (by omega), hread 7 (by omega)]
    show some ((0x21 : BitVec 8) ++ (0x12 : BitVec 8) ++ ((0xA4 : BitVec 8) ++ (0x42 : BitVec 8))) = some magicCookie
    decide
  have htx : slice (header ++ body) 8 20 = some (beBytes 12 txId.toNat) := by
    rw [slice_eq (by omega) (by omega)]
    have hdrop : (header ++ body).drop 8 = beBytes 12 txId.toNat ++ body := by
      rfl
    rw [hdrop, take_left' (length_beBytes 12 _)]
  have hlenNat : (BitVec.ofNat 16 body.length).toNat = body.length := by
    rw [BitVec.toNat_ofNat, Nat.mod_eq_of_lt (by omega)]
  have hwalk : walkAttrs (header ++ body) (cookieBytes ++ beBytes 12 txId.toNat) header.length (header ++ body).length =
      some (some m.socketAddr) := by
    have hfound := walkAttrs_attr (header ++ attrBytes before) (xorMappedAttr txId m) (attrBytes after)
      (cookieBytes ++ beBytes 12 txId.toNat)
    simp only [xorMappedAttr, if_true, parseXorMappedAddress_value] at hfound
    rwa [walkAttrs_skip _ _ before header hbefore]
  have hroom : ¬ (header ++ body).length < stunHeaderLen + body.length := by
    rw [hlen]
    exact Nat.lt_irrefl _
  unfold parseBindingResponse
  rw [if_neg (by rw [hlen]; unfold stunHeaderLen; omega), htype]
  simp only [Option.bind_eq_bind, Option.bind_some, hbodyLen, hlenNat, hcookie, htx, ne_eq, not_true_eq_false, if_false,
    if_neg hroom]
  rwa [hlen, hheader] at hwalk

theorem stun_decode_software :
    let software : StunAttr := ⟨0x8022, [1, 2, 3, 4, 5], [0, 0, 0], by decide, by decide⟩
    let fingerprint : StunAttr := ⟨0x8028, [9, 9, 9, 9], [], by decide, by decide⟩
    parseBindingResponse (bindingResponse 7 (.v6 1 53492) [software] [fingerprint]) =
      some (some (.v6 1 53492 0 0)) := by
  intro software fingerprint
  exact stun_decode.1 7 (.v6 1 53492) [software] [fingerprint] (by decide) (by decide)

end TailscaleVita.Ms.Stun

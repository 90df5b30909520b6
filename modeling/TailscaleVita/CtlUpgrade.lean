import TailscaleVita.CtlNoise
/-!
# CtlUpgrade — from the `101` response to the record stream

`read_101` (`ts-control/src/upgrade.rs`) reads up to the blank line of the response head and keeps what came behind it;
`read_server_response` (`tailscale-vita/src/proto.rs`) takes the 51 bytes of the Noise response off that and the
socket. The HTTP parser and the handshake are oracles.
-/
namespace TailscaleVita.Noise

open List

/-- The errors of the upgrade; `{addr}` and the texts of the parser are the caller's. -/
inductive ControlError where
  | io (e : IoError)
  | transport (message : Text)
  | http (status : Nat) (body : Text)
  | httpParse (message : Text)
deriving DecidableEq

/-- A parsed response head: how many bytes it took, its status code and its reason. -/
structure ResponseHead where
  parseN : Nat
  code : Option Nat
  reason : Option Text

/-- `httparse`, where `none` is `Status::Partial`, and `String::from_utf8_lossy`. -/
structure HttpParser where
  parse : Bytes → Except Text (Option ResponseHead)
  lossy : Bytes → Text

def headerTerminator : Bytes := [13, 10, 13, 10]

def findHeaderTerminator : Bytes → Option Nat
  | [] => none
  | b :: buf => if headerTerminator <+: b :: buf then some 0 else (findHeaderTerminator buf).map (· + 1)

def headCap : Nat := 16 * 1024

def headTooLong (addr : Text) : ControlError :=
  .transport ("upgrade response > 16 KiB without complete headers (".toList ++ addr ++ ")".toList)

/-- The loop of `read_101`: what was read, and where the head ends in it. A turn brings at least one byte, and the
length is checked first. -/
def readHead (addr : Text) : (fuel : Nat) → Bytes → List Arrival → Except ControlError (Bytes × Nat) × List Arrival
  | 0, _, as => (.error (headTooLong addr), as)
  | fuel + 1, buf, as =>
    if headCap < buf.length then (.error (headTooLong addr), as)
    else
      match recv 1024 as with
      | (.timedOut, as) => (.error (.io .timedOut), as)
      | (.ok [], as) =>
        (.error (.transport ("upgrade response closed before complete headers (".toList ++ addr ++ ")".toList)), as)
      | (.ok bytes, as) =>
        match findHeaderTerminator (buf ++ bytes) with
        | some pos => (.ok (buf ++ bytes, pos + 4), as)
        | none => readHead addr fuel (buf ++ bytes) as

def leftoverOf (parser : HttpParser) (buf : Bytes) (headerEnd : Nat) : Except ControlError Bytes :=
  match parser.parse (buf.take headerEnd) with
  | .error e => .error (.httpParse e)
  | .ok none =>
    .error (.transport "upgrade: httparse partial after locating \\r\\n\\r\\n (impossible)".toList)
  | .ok (some resp) =>
    match resp.code with
    | none => .error (.transport "upgrade: missing status code".toList)
    | some status =>
      if status ≠ 101 then
        .error (.http status ("expected 101 Switching Protocols, got ".toList ++ (toString status).toList ++
          " ".toList ++ resp.reason.getD [] ++ "; body=".toList ++ parser.lossy (buf.drop resp.parseN)))
      else .ok (buf.drop headerEnd)

def read101 (parser : HttpParser) (addr : Text) (as : List Arrival) : Except ControlError Bytes × List Arrival :=
  match readHead addr (headCap + 2) [] as with
  | (.error e, as) => (.error e, as)
  | (.ok (buf, headerEnd), as) => (leftoverOf parser buf headerEnd, as)

def serverRespLen : Nat := 51

def readResponse : (fuel : Nat) → Bytes → List Arrival → Except ControlError Bytes × List Arrival
  | 0, out, as => (.ok out, as)
  | fuel + 1, out, as =>
    if serverRespLen ≤ out.length then (.ok out, as)
    else
      match recv (min (serverRespLen - out.length) 64) as with
      | (.timedOut, as) => (.error (.io .timedOut), as)
      | (.ok [], as) =>
        (.error (.transport ("noise: server closed before sending ".toList ++ (toString serverRespLen).toList ++
          " bytes".toList)), as)
      | (.ok bytes, as) => readResponse fuel (out ++ bytes) as

def readServerResponse (leftover : Bytes) (as : List Arrival) : Except ControlError (Bytes × Bytes) × List Arrival :=
  match readResponse (serverRespLen - leftover.length) leftover as with
  | (.error e, as) => (.error e, as)
  | (.ok out, as) => (.ok (out.take serverRespLen, out.drop serverRespLen), as)

/-- `establish_control_conn` from the upgrade request to the record stream; `finalize` is the handshake's last step. -/
def establishControlConn (parser : HttpParser) (addr : Text) (finalize : Bytes → Except ControlError NoiseTransport)
    (as : List Arrival) : Except ControlError NoiseStream × List Arrival :=
  match read101 parser addr as with
  | (.error e, as) => (.error e, as)
  | (.ok leftover, as) =>
    match readServerResponse leftover as with
    | (.error e, as) => (.error e, as)
    | (.ok (serverResponse, leftover), as) =>
      match finalize serverResponse with
      | .error e => (.error e, as)
      | .ok nt => (.ok (NoiseStream.new nt leftover), as)

theorem find_le : ∀ {buf : Bytes} {k : Nat}, findHeaderTerminator buf = some k → k + 4 ≤ buf.length
  | b :: buf, k, h => by
    unfold findHeaderTerminator at h
    split at h
    next hpre =>
      cases h
      exact hpre.length_le
    · obtain ⟨j, hj, rfl⟩ := Option.map_eq_some_iff.1 h
      have ih := find_le hj
      rw [length_cons]
      omega

theorem find_append : ∀ {buf : Bytes} {k : Nat} (more : Bytes), findHeaderTerminator buf = some k →
    findHeaderTerminator (buf ++ more) = some k
  | b :: buf, k, more, h => by
    rw [cons_append]
    unfold findHeaderTerminator at h ⊢
    split at h
    next hpre =>
      have hmore : headerTerminator <+: b :: (buf ++ more) := hpre.trans (prefix_append (b :: buf) more)
      rwa [if_pos hmore]
    next hpre =>
      obtain ⟨j, hj, rfl⟩ := Option.map_eq_some_iff.1 h
      have hlen : headerTerminator.length ≤ (b :: buf).length := by
        have := find_le hj
        simp only [headerTerminator, length_cons, length_nil]
        omega
      have hnot : ¬ headerTerminator <+: b :: (buf ++ more) := fun hmore =>
        hpre (prefix_of_prefix_length_le hmore (prefix_append (b :: buf) more) hlen)
      rw [if_neg hnot, find_append more hj]
      rfl

def IsHead (head : Bytes) : Prop := findHeaderTerminator head = some (head.length - 4) ∧ 4 ≤ head.length

theorem find_of_short {head buf : Bytes} (hhead : IsHead head) (hpre : buf <+: head) (hlt : buf.length < head.length) :
    findHeaderTerminator buf = none := by
  cases hfind : findHeaderTerminator buf with
  | none => rfl
  | some k =>
    obtain ⟨more, rfl⟩ := hpre
    have hk := find_append more hfind
    rw [hhead.1] at hk
    have hle := find_le hfind
    cases hk
    omega

theorem readHead_spec (addr : Text) {head tail : Bytes} (hhead : IsHead head) (hcap : head.length ≤ headCap + 1) :
    ∀ (fuel : Nat) (buf : Bytes) (as : List Arrival), buf ++ unread as = head ++ tail → buf.length < head.length →
      head.length ≤ fuel + buf.length →
        (.timeout ∈ as ∧ ∃ as', readHead addr fuel buf as = (.error (.io .timedOut), as')) ∨
        ∃ rest as', readHead addr fuel buf as = (.ok (head ++ rest, head.length), as') ∧
          rest ++ unread as' = tail ∧ (.timeout ∈ as' → .timeout ∈ as)
  | 0, buf, as, _, hlt, hfuel => by omega
  | fuel + 1, buf, as, hbytes, hlt, hfuel => by
    unfold readHead
    rw [if_neg (by omega)]
    have hrecv := recv_toward (n := 1024) (by decide) hbytes hlt
    generalize recv 1024 as = got at hrecv ⊢
    cases hrecv with
    | @timedOut as' htimeout => exact .inl ⟨htimeout, as', rfl⟩
    | @reached as' b bs rest hbuf hrest ht =>
      simp only
      rw [hbuf, find_append rest hhead.1]
      simp only
      exact .inr ⟨rest, as', by rw [Nat.sub_add_cancel hhead.2], hrest, ht⟩
    | @more as' b bs hmoved hpre hlt' hgrow ht =>
      simp only
      rw [find_of_short hhead hpre hlt']
      rcases readHead_spec addr hhead hcap fuel (buf ++ b :: bs) as' hmoved hlt' (by omega) with
        ⟨htimeout, hfail⟩ | ⟨rest, as'', hok, hrest, ht'⟩
      · exact .inl ⟨ht htimeout, hfail⟩
      · exact .inr ⟨rest, as'', hok, hrest, ht ∘ ht'⟩

theorem prefix_of_enough {response tail out : Bytes} {as : List Arrival} (hlen : response.length = serverRespLen)
    (hbytes : out ++ unread as = response ++ tail) (hfull : serverRespLen ≤ out.length) :
    ∃ rest, out = response ++ rest ∧ rest ++ unread as = tail := by
  obtain ⟨rest, rfl⟩ : response <+: out := prefix_of_prefix_length_le ⟨tail, rfl⟩ ⟨unread as, hbytes⟩ (by omega)
  rw [append_assoc] at hbytes
  exact ⟨rest, rfl, append_cancel_left hbytes⟩

theorem readResponse_spec {response tail : Bytes} (hlen : response.length = serverRespLen) :
    ∀ (fuel : Nat) (out : Bytes) (as : List Arrival), out ++ unread as = response ++ tail →
      serverRespLen ≤ fuel + out.length →
        (.timeout ∈ as ∧ ∃ as', readResponse fuel out as = (.error (.io .timedOut), as')) ∨
        ∃ rest as', readResponse fuel out as = (.ok (response ++ rest), as') ∧ rest ++ unread as' = tail
  | 0, out, as, hbytes, hfuel => by
    obtain ⟨rest, rfl, hrest⟩ := prefix_of_enough hlen hbytes (by omega)
    exact .inr ⟨rest, as, rfl, hrest⟩
  | fuel + 1, out, as, hbytes, hfuel => by
    unfold readResponse
    by_cases hfull : serverRespLen ≤ out.length
    · rw [if_pos hfull]
      obtain ⟨rest, rfl, hrest⟩ := prefix_of_enough hlen hbytes hfull
      exact .inr ⟨rest, as, rfl, hrest⟩
    · rw [if_neg hfull]
      have hrecv := recv_spec (n := min (serverRespLen - out.length) 64) (by omega) as
      generalize recv (min (serverRespLen - out.length) 64) as = got at hrecv ⊢
      cases hrecv with
      | eof =>
        have hlen' := congrArg List.length hbytes
        rw [unread_nil, append_nil, length_append] at hlen'
        omega
      | timedOut as' => exact .inl ⟨mem_cons_self, as', rfl⟩
      | @got _ as' b bs hn hu hw ht =>
        have hmoved : (out ++ b :: bs) ++ unread as' = response ++ tail := by rw [← hbytes, hu, append_assoc]
        rcases readResponse_spec hlen fuel (out ++ b :: bs) as' hmoved (by
          rw [length_append, length_cons]
          omega) with ⟨htimeout, hfail⟩ | hok
        · exact .inl ⟨ht htimeout, hfail⟩
        · exact .inr hok

def inTime (as : List Arrival) : Bytes := unread (as.takeWhile (· ≠ .timeout))

theorem inTime_recv {n : Nat} : ∀ {as as' : List Arrival} {bytes : Bytes}, recv n as = (.ok bytes, as') →
    inTime as = bytes ++ inTime as'
  | [], _, _, h => by
    cases h
    rfl
  | .data b bs :: as, as', bytes, h => by
    have hall : ∀ b' bs', inTime (.data b' bs' :: as) = b' :: bs' ++ inTime as := fun _ _ => rfl
    have hsplit := take_append_drop n (b :: bs)
    simp only [recv] at h
    split at h
    · cases h
      exact hall b bs
    next b' bs' hdrop =>
      cases h
      rw [hdrop] at hsplit
      rw [hall, hall, ← append_assoc, hsplit]

theorem readResponse_iff : ∀ (fuel : Nat) (out : Bytes) (as : List Arrival), serverRespLen ≤ fuel + out.length →
    ((readResponse fuel out as).1.isOk = true ↔ serverRespLen ≤ (out ++ inTime as).length)
  | 0, out, as, hfuel => iff_of_true rfl (by rw [length_append]; omega)
  | fuel + 1, out, as, hfuel => by
    unfold readResponse
    by_cases hfull : serverRespLen ≤ out.length
    · rw [if_pos hfull]
      exact iff_of_true rfl (by rw [length_append]; omega)
    · rw [if_neg hfull]
      have hrecv := recv_spec (n := min (serverRespLen - out.length) 64) (by omega) as
      have htime := @inTime_recv (min (serverRespLen - out.length) 64) as
      generalize recv (min (serverRespLen - out.length) 64) as = got at hrecv htime ⊢
      cases hrecv with
      | eof | timedOut as' =>
        refine iff_of_false Bool.false_ne_true ?_
        show ¬ serverRespLen ≤ (out ++ []).length
        rwa [append_nil]
      | @got _ as' b bs hn hu hw ht =>
        rw [htime rfl, ← append_assoc]
        exact readResponse_iff fuel (out ++ b :: bs) as' (by rw [length_append, length_cons]; omega)

theorem readServerResponse_iff (leftover : Bytes) (as : List Arrival) :
    (readServerResponse leftover as).1.isOk = true ↔ serverRespLen ≤ (leftover ++ inTime as).length := by
  rw [← readResponse_iff (serverRespLen - leftover.length) leftover as (by omega)]
  unfold readServerResponse
  split
  next h => rw [h]; exact Iff.rfl
  next h => rw [h]; exact Iff.rfl

/-- **The upgrade cuts the stream where the protocol does**: on a `101` head, the 51 bytes of the Noise response and
anything behind them, however they arrive, the handshake is finished with exactly those 51 bytes, and the record stream
gets exactly what is behind them; unless a read timed out. -/
theorem control_upgrade_boundary (parser : HttpParser) (addr : Text)
    (finalize : Bytes → Except ControlError NoiseTransport) (head response tail : Bytes) (resp : ResponseHead)
    (hhead : IsHead head) (hcap : head.length ≤ headCap + 1) (hparse : parser.parse head = .ok (some resp))
    (hcode : resp.code = some 101) (hlen : response.length = serverRespLen) (as : List Arrival)
    (hbytes : unread as = head ++ (response ++ tail)) :
    (.timeout ∈ as ∧ (establishControlConn parser addr finalize as).1 = .error (.io .timedOut)) ∨
    ∃ leftover as', leftover ++ unread as' = tail ∧
      establishControlConn parser addr finalize as =
        match finalize response with
        | .error e => (.error e, as')
        | .ok nt => (.ok (NoiseStream.new nt leftover), as') := by
  have hpos := hhead.2
  unfold establishControlConn read101
  rcases readHead_spec addr hhead hcap (headCap + 2) [] as hbytes (by rw [length_nil]; omega)
    (by omega) with ⟨htimeout, as', h⟩ | ⟨rest, as', h, hrest, ht⟩
  · exact .inl ⟨htimeout, by rw [h]⟩
  · rw [h]
    simp only [leftoverOf, take_left, drop_left, hparse, hcode, ne_eq, not_true_eq_false, if_false]
    unfold readServerResponse
    rcases readResponse_spec hlen (serverRespLen - rest.length) rest as' hrest (by omega) with
      ⟨htimeout, as'', h'⟩ | ⟨rest', as'', h', hrest'⟩
    · exact .inl ⟨ht htimeout, by rw [h']⟩
    · refine .inr ⟨rest', as'', hrest', ?_⟩
      rw [h']
      simp only [take_left' hlen, drop_left' hlen]

theorem control_upgrade_boundary_cut_blank_line :
    let parser : HttpParser := { parse := fun _ => .ok (some ⟨8, some 101, none⟩), lossy := fun _ => [] }
    let as : List Arrival := [.data 0x48 [0x31, 13, 10, 13], .data 10 (List.replicate 51 2 ++ [4, 0]), .data 17 [9]]
    IsHead [0x48, 0x31, 13, 10, 13, 10] ∧ ∃ leftover as', leftover ++ unread as' = [4, 0, 17, 9] ∧
      establishControlConn parser [] (fun _ => .ok {}) as = (.ok (NoiseStream.new {} leftover), as') := by
  intro parser as
  have hhead : IsHead [0x48, 0x31, 13, 10, 13, 10] := ⟨by decide, by decide⟩
  refine ⟨hhead, ?_⟩
  rcases control_upgrade_boundary parser [] (fun _ => .ok {}) [0x48, 0x31, 13, 10, 13, 10] (List.replicate 51 2)
    [4, 0, 17, 9] ⟨8, some 101, none⟩ hhead (by decide) rfl rfl (by decide) as (by decide) with ⟨h, -⟩ | h
  · exact absurd h (by decide)
  · exact h

end TailscaleVita.Noise

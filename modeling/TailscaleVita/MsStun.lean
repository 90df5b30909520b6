import Mathlib.Data.List.Induction
import TailscaleVita.MsNetcheck
import TailscaleVita.StunWire
/-!
# MsStun — the table of STUN probes (`ts-magicsock/src/lib.rs`, `ts-magicsock/src/netcheck.rs`)

A probe enters its transaction id in `stun_outstanding` and sends its request; the receive worker takes the id out when
a message with it comes in, and the probe itself when its request could not be sent. The netcheck and the discovery
runs wait on the probe's channel and know nothing of the table.
-/
namespace TailscaleVita.Ms.Stun

open List

/-! ## The table, and the runs over it -/

abbrev StunTxId := Octets 12

def txIdFrom (bytes : Bytes) : Option StunTxId :=
  if bytes.length < stunHeaderLen then none else (Octets.split 12 (bytes.drop 8)).map Prod.fst

abbrev Channel := Nat × Nat

structure StunInflight where
  sentAt : Nat
  resultTx : Channel
deriving DecidableEq

inductive StunResult where
  | ok (reflected : SocketAddr) (rtt : Duration)
  | parseFailed
deriving DecidableEq

structure StunState where
  outstanding : HashMap StunTxId StunInflight := ∅
  channels : HashMap Channel StunResult := ∅

inductive Caller where
  | netcheck (region : BitVec 16) (todo : List (BitVec 16 × SocketAddr))
      (inflight : List ((BitVec 16 × SocketAddr) × Nat))
  | discovery (hosts : List String) (families : List Bool) (found : List (Option SocketAddr))
deriving DecidableEq

inductive RunTask where
  | launching (probe : Nat) (todo : List (BitVec 16 × SocketAddr)) (inflight : List ((BitVec 16 × SocketAddr) × Nat))
  | collecting (inflight : List ((BitVec 16 × SocketAddr) × Nat)) (probes : List RegionProbe)
  | netchecked (probes : List RegionProbe)
  | discovering (probe : Nat) (hosts : List String) (families : List Bool) (found : List (Option SocketAddr))
  | awaiting (probe : Nat) (hosts : List String) (families : List Bool) (found : List (Option SocketAddr))
  | discovered (found : List (Option SocketAddr))
  | sending (probe : Nat) (txId : StunTxId) (target : SocketAddr) (caller : Caller)
  | rollingBack (probe : Nat) (txId : StunTxId) (caller : Caller)
  | fulfilling (inflight : StunInflight) (bytes : Bytes)
  | fulfilled
deriving DecidableEq

structure StunMet where
  txId : StunTxId
  sent : Bool
  toSocketAddrs : String → Option (List SocketAddr)
  timedOut : Bool

inductive StunRequest where
  | probeTargets (targets : List StunTarget)
  | discoverPublicEndpoint
  | discoverPublicEndpointsDual
  | datagram (bytes : Bytes)

inductive Booking where
  | registered (channel : Channel) (txId : StunTxId)
  | sent (channel : Channel) (txId : StunTxId)
  | rolledBack (channel : Channel) (txId : StunTxId)
  | heard (txId : StunTxId) (bytes : Bytes)
deriving DecidableEq

def publicStunFallbacks : List String :=
  ["stun.l.google.com:19302", "stun.cloudflare.com:3478", "global.stun.twilio.com:3478"]

def Caller.probed (probe : Nat) (target : SocketAddr) : Caller → RunTask
  | .netcheck region todo inflight => .launching (probe + 1) todo (inflight ++ [((region, target), probe)])
  | .discovery hosts families found => .awaiting probe hosts families found

def Caller.skipped (probe : Nat) : Caller → RunTask
  | .netcheck _ todo inflight => .launching (probe + 1) todo inflight
  | .discovery hosts families found => .discovering (probe + 1) hosts families found

def StunState.register (s : StunState) (now : Nat) (channel : Channel) (txId : StunTxId) : StunState :=
  { s with outstanding := s.outstanding.insert txId ⟨now, channel⟩ }

def StunState.remove (s : StunState) (txId : StunTxId) : StunState :=
  { s with outstanding := s.outstanding.erase txId }

def stunResult (rtt : Duration) (bytes : Bytes) : StunResult :=
  match parseBindingResponse bytes with
  | some (some reflected) => .ok reflected rtt
  | _ => .parseFailed

def resolveFamily (met : StunMet) (host : String) (wantV6 : Bool) : Option SocketAddr :=
  (met.toSocketAddrs host).bind (·.find? (fun a => if wantV6 then isIpv6 a else isIpv4 a))

def stunProbe (now id : Nat) (s : StunState) (probe : Nat) (target : SocketAddr) (caller : Caller) (met : StunMet) :
    StunState × RunTask × List Booking :=
  (s.register now (id, probe) met.txId, .sending probe met.txId target caller, [.registered (id, probe) met.txId])

def resume (now id : Nat) (s : StunState) : RunTask → StunMet → StunState × RunTask × List Booking
  | .launching _ [] inflight, _ => (s, .collecting inflight [], [])
  | .launching probe ((region, target) :: todo) inflight, met =>
    stunProbe now id s probe target (.netcheck region todo inflight) met
  | .sending probe txId target caller, met =>
    if met.sent then (s, caller.probed probe target, [.sent (id, probe) txId])
    else (s, .rollingBack probe txId caller, [])
  | .rollingBack probe txId caller, _ => (s.remove txId, caller.skipped probe, [.rolledBack (id, probe) txId])
  | .collecting [] probes, _ => (s, .netchecked probes, [])
  | .collecting ((launch, probe) :: inflight) probes, met =>
    match s.channels.lookup (id, probe) with
    | some (.ok reflected rtt) =>
      (s, .collecting inflight (probes ++ [⟨launch.1, launch.2, rtt, reflected⟩]), [])
    | some .parseFailed => (s, .collecting inflight probes, [])
    | none =>
      if met.timedOut then (s, .collecting inflight probes, [])
      else (s, .collecting ((launch, probe) :: inflight) probes, [])
  | .discovering _ _ [] found, _ => (s, .discovered found, [])
  -- every fallback was tried for this family
  | .discovering probe [] (_ :: families) found, _ =>
    (s, .discovering probe publicStunFallbacks families (found ++ [none]), [])
  | .discovering probe (host :: hosts) (wantV6 :: families) found, met =>
    match resolveFamily met host wantV6 with
    | none => (s, .discovering probe hosts (wantV6 :: families) found, [])
    | some target => stunProbe now id s probe target (.discovery hosts (wantV6 :: families) found) met
  | .awaiting probe hosts families found, met =>
    match s.channels.lookup (id, probe) with
    | some (.ok reflected _) =>
      (s, .discovering (probe + 1) publicStunFallbacks families.tail (found ++ [some reflected]), [])
    | some .parseFailed => (s, .discovering (probe + 1) hosts families found, [])
    | none =>
      if met.timedOut then (s, .discovering (probe + 1) hosts families found, [])
      else (s, .awaiting probe hosts families found, [])
  | .fulfilling inflight bytes, _ =>
    ({ s with channels := s.channels.insert inflight.resultTx (stunResult (now - inflight.sentAt) bytes) }, .fulfilled,
      [])
  | .netchecked probes, _ => (s, .netchecked probes, [])
  | .discovered found, _ => (s, .discovered found, [])
  | .fulfilled, _ => (s, .fulfilled, [])

def handleStunResponse (s : StunState) (bytes : Bytes) : StunState × Option RunTask × List Booking :=
  match txIdFrom bytes with
  | none => (s, none, [])
  | some txId => (s.remove txId, (s.outstanding.lookup txId).map (.fulfilling · bytes), [.heard txId bytes])

def call (_now : Nat) (s : StunState) : StunRequest → StunState × Option RunTask × List Booking
  | .probeTargets targets => (s, some (.launching 0 (launches targets) []), [])
  | .discoverPublicEndpoint => (s, some (.discovering 0 publicStunFallbacks [false] []), [])
  | .discoverPublicEndpointsDual => (s, some (.discovering 0 publicStunFallbacks [false, true] []), [])
  | .datagram bytes => if looksLikeStun bytes then handleStunResponse s bytes else (s, none, [])

def stunThreads : Threads StunState RunTask Booking StunRequest StunMet := ⟨call, resume⟩

abbrev StunWorld := World StunState RunTask Booking
abbrev StunEvent := WorldEvent StunRequest StunMet

def stunAfter (es : List StunEvent) : StunWorld := run (World.step stunThreads) { shared := {} } es

/-! ## What a section does to the table -/

def RunTask.inProbe : RunTask → Option (Nat × StunTxId)
  | .sending probe txId _ _ => some (probe, txId)
  | .rollingBack probe txId _ => some (probe, txId)
  | _ => none

inductive Books (now id : Nat) (s : StunState) (t : RunTask) : StunState × RunTask × List Booking → Prop where
  | registers (probe : Nat) (txId : StunTxId) (t' : RunTask) (ht : t.inProbe = none)
      (ht' : t'.inProbe = some (probe, txId)) :
      Books now id s t (s.register now (id, probe) txId, t', [.registered (id, probe) txId])
  | sends (probe : Nat) (txId : StunTxId) (t' : RunTask) (ht : t.inProbe = some (probe, txId))
      (ht' : t'.inProbe = none) : Books now id s t (s, t', [.sent (id, probe) txId])
  | takesBack (probe : Nat) (txId : StunTxId) (t' : RunTask) (ht : t.inProbe = some (probe, txId))
      (ht' : t'.inProbe = none) : Books now id s t (s.remove txId, t', [.rolledBack (id, probe) txId])
  | other (s' : StunState) (t' : RunTask) (hs : s'.outstanding = s.outstanding) (ht : t'.inProbe = t.inProbe) :
      Books now id s t (s', t', [])

theorem books (now id : Nat) (s : StunState) (t : RunTask) (met : StunMet) :
    Books now id s t (resume now id s t met) := by
  cases t with
  | launching probe todo inflight =>
    cases todo with
    | nil => exact .other _ _ rfl rfl
    | cons launch todo => exact .registers probe met.txId _ rfl rfl
  | sending probe txId target caller =>
    by_cases hsent : met.sent
    · simp only [resume, hsent, if_true]
      exact .sends probe txId _ rfl (by cases caller <;> rfl)
    · simp only [resume, hsent]
      exact .other _ _ rfl rfl
  | rollingBack probe txId caller => exact .takesBack probe txId _ rfl (by cases caller <;> rfl)
  | collecting inflight probes =>
    cases inflight with
    | nil => exact .other _ _ rfl rfl
    | cons launch inflight =>
      simp only [resume]
      repeat' split
      all_goals exact .other _ _ rfl rfl
  | discovering probe hosts families found =>
    cases families with
    | nil => exact .other _ _ rfl rfl
    | cons wantV6 families =>
      cases hosts with
      | nil => exact .other _ _ rfl rfl
      | cons host hosts =>
        simp only [resume]
        split
        · exact .other _ _ rfl rfl
        · exact .registers probe met.txId _ rfl rfl
  | awaiting probe hosts families found =>
    simp only [resume]
    repeat' split
    all_goals exact .other _ _ rfl rfl
  | fulfilling | netchecked | discovered | fulfilled => exact .other _ _ rfl rfl

theorem books_call (now : Nat) (s : StunState) (request : StunRequest) :
    (∃ txId bytes, (call now s request).1 = s.remove txId ∧ (call now s request).2.2 = [.heard txId bytes]) ∨
      (call now s request).1 = s ∧ (call now s request).2.2 = [] := by
  cases request with
  | datagram bytes =>
    simp only [call]
    split
    · unfold handleStunResponse
      cases txIdFrom bytes with
      | none => exact .inr ⟨rfl, rfl⟩
      | some txId => exact .inl ⟨txId, bytes, rfl, rfl⟩
    · exact .inr ⟨rfl, rfl⟩
  | _ => exact .inr ⟨rfl, rfl⟩

/-! ## Who holds an id -/

def Booking.touches (txId : StunTxId) : Booking → Bool
  | .registered _ tx => decide (tx = txId)
  | .sent _ _ => false
  | .rolledBack _ tx => decide (tx = txId)
  | .heard tx _ => decide (tx = txId)

def Booking.holder : Booking → Option Channel
  | .registered channel _ => some channel
  | _ => none

def holder (log : List Booking) (txId : StunTxId) : Option Channel :=
  (log.reverse.find? (Booking.touches txId)).bind Booking.holder

theorem holder_concat (log : List Booking) (e : Booking) (txId : StunTxId) :
    holder (log ++ [e]) txId = if e.touches txId then e.holder else holder log txId := by
  unfold holder
  rw [reverse_append, reverse_singleton, singleton_append, find?_cons]
  cases e.touches txId <;> rfl

variable {txId : StunTxId}

variable {channel : Channel} {log : List Booking} {t : RunTask} {w : StunWorld}

theorem holder_eq_some_iff :
    holder log txId = some channel ↔
      ∃ l1 l2, log = l1 ++ .registered channel txId :: l2 ∧ ∀ e ∈ l2, e.touches txId = false := by
  unfold holder
  rw [Option.bind_eq_some_iff]
  constructor
  · rintro ⟨e, hfind, he⟩
    obtain ⟨htouch, as, bs, hlog, has⟩ := find?_eq_some_iff_append.1 hfind
    have hsplit : log = bs.reverse ++ e :: as.reverse := by
      rw [← reverse_reverse log, hlog]
      simp
    cases e with
    | registered c tx =>
      cases he
      obtain rfl : tx = txId := of_decide_eq_true htouch
      exact ⟨_, _, hsplit, fun e he => by simpa using has e (mem_reverse.1 he)⟩
    | _ => cases he
  · rintro ⟨l1, l2, rfl, hl2⟩
    refine ⟨.registered channel txId, ?_, rfl⟩
    refine find?_eq_some_iff_append.2 ⟨decide_eq_true rfl, l2.reverse, l1.reverse, ?_, ?_⟩
    · simp
    · intro e he
      simpa using hl2 e (mem_reverse.1 he)

def TableKept (w : StunWorld) : Prop :=
  ∀ txId, (w.shared.outstanding.lookup txId).map StunInflight.resultTx = holder w.log txId

theorem tableKept_remove {s : StunState} {e : Booking} {tx : StunTxId}
    (htouch : ∀ txId, e.touches txId = decide (tx = txId)) (hold : e.holder = none)
    (h : (s.outstanding.lookup txId).map StunInflight.resultTx = holder log txId) :
    ((s.remove tx).outstanding.lookup txId).map StunInflight.resultTx = holder (log ++ [e]) txId := by
  rw [holder_concat, htouch, hold, StunState.remove, HashMap.lookup_erase_eq, ← h]
  by_cases htx : txId = tx
  · simp [htx]
  · simp [htx, Ne.symm htx]

theorem tableKept_step (w : StunWorld) (e : StunEvent) (h : TableKept w) : TableKept (w.step stunThreads e) := by
  intro tx
  rcases w.step_cases stunThreads e with ⟨d, hd⟩ | ⟨request, -, hr⟩ | ⟨id, t, input, -, hid, hr⟩
  · rw [hd]
    exact h tx
  · rw [hr]
    simp only [stunThreads]
    rcases books_call w.clock w.shared request with ⟨tx', bytes, hs, hl⟩ | ⟨hs, hl⟩
    · rw [hs, hl]
      exact tableKept_remove (fun _ => rfl) rfl (h tx)
    · rw [hs, hl, append_nil]
      exact h tx
  · rw [hr]
    simp only [stunThreads]
    generalize hres : resume w.clock id w.shared t input = r
    have hbooks := hres ▸ books w.clock id w.shared t input
    cases hbooks with
    | registers probe tx' t' =>
      rw [holder_concat, StunState.register, HashMap.lookup_insert_eq]
      by_cases htx : tx = tx'
      · simp [htx, Booking.touches, Booking.holder]
      · simpa [htx, Booking.touches, Ne.symm htx] using h tx
    | sends probe tx' t' =>
      rw [holder_concat]
      exact h tx
    | takesBack probe tx' t' => exact tableKept_remove (fun _ => rfl) rfl (h tx)
    | other s' t' hs =>
      rw [append_nil, hs]
      exact h tx

/-! ## What became of a probe -/

def Open (log : List Booking) (channel : Channel) (txId : StunTxId) : Prop :=
  ∃ l₁ l₂, log = l₁ ++ .registered channel txId :: l₂ ∧ .sent channel txId ∉ l₂ ∧ .rolledBack channel txId ∉ l₂

def ProbesMade (w : StunWorld) : Prop :=
  ∀ channel txId, Open w.log channel txId → ∃ t, w.tasks[channel.1]? = some t ∧ t.inProbe = some (channel.2, txId)

theorem concat_eq_append_cons {α : Type} {l l1 l2 : List α} {e x : α} (h : l ++ [e] = l1 ++ x :: l2) :
    (e = x ∧ l2 = []) ∨ ∃ l3, l2 = l3 ++ [e] ∧ l = l1 ++ x :: l3 := by
  rcases eq_nil_or_concat' l2 with rfl | ⟨l3, b, rfl⟩
  · exact .inl ⟨singleton_inj.1 (append_inj' h rfl).2, rfl⟩
  · have h' : l ++ [e] = (l1 ++ x :: l3) ++ [b] := by simpa using h
    have hinj := append_inj' h' rfl
    rw [singleton_inj.1 hinj.2]
    exact .inr ⟨l3, rfl, hinj.1⟩

theorem open_concat {e : Booking} (h : Open (log ++ [e]) channel txId) :
    e = .registered channel txId ∨ e ≠ .sent channel txId ∧ e ≠ .rolledBack channel txId ∧ Open log channel txId := by
  obtain ⟨l₁, l₂, hlog, hsent, hback⟩ := h
  rcases concat_eq_append_cons hlog with ⟨rfl, -⟩ | ⟨l₃, rfl, hl⟩
  · exact .inl rfl
  · simp only [mem_append, mem_singleton, not_or] at hsent hback
    exact .inr ⟨Ne.symm hsent.2, Ne.symm hback.2, l₁, l₃, hl, hsent.1, hback.1⟩

theorem probesMade_resume {id : Nat} (hid : w.tasks[id]? = some t)
    {r : StunState × RunTask × List Booking} (hr : Books w.clock id w.shared t r) (h : ProbesMade w) :
    ProbesMade { w with shared := r.1, tasks := w.tasks.set id r.2.1, log := w.log ++ r.2.2 } := by
  intro channel txId hopen
  have hself : (w.tasks.set id r.2.1)[id]? = some r.2.1 := getElem?_set_self (List.getElem?_eq_some_iff.1 hid).1
  -- a run other than this one is where it was
  have hmove : Open w.log channel txId →
      (channel.1 = id → t.inProbe = some (channel.2, txId) → r.2.1.inProbe = some (channel.2, txId)) →
      ∃ u, (w.tasks.set id r.2.1)[channel.1]? = some u ∧ u.inProbe = some (channel.2, txId) := by
    intro hold hthis
    obtain ⟨u, hu, hin⟩ := h channel txId hold
    by_cases he : channel.1 = id
    · rw [he, hid] at hu
      cases hu
      exact ⟨r.2.1, by rw [he]; exact hself, hthis he hin⟩
    · exact ⟨u, by rw [getElem?_set_ne (Ne.symm he), hu], hin⟩
  cases hr with
  | registers probe tx t' ht ht' =>
    rcases open_concat hopen with he | ⟨-, -, hold⟩
    · cases he
      exact ⟨t', hself, ht'⟩
    · exact hmove hold (fun _ hin => by rw [ht] at hin; cases hin)
  | sends probe tx t' ht | takesBack probe tx t' ht =>
    obtain ⟨hsent, hback, hold⟩ := (open_concat hopen).resolve_left nofun
    refine hmove hold (fun he hin => ?_)
    rw [ht] at hin
    cases hin
    simp [← he] at hsent hback
  | other s' t' _ ht =>
    rw [append_nil] at hopen
    exact hmove hopen (fun _ hin => ht.trans hin)

theorem probesMade_step (w : StunWorld) (e : StunEvent) (h : ProbesMade w) : ProbesMade (w.step stunThreads e) := by
  rcases w.step_cases stunThreads e with ⟨d, hd⟩ | ⟨request, -, hr⟩ | ⟨id, t, input, -, hid, hr⟩
  · rwa [hd]
  · rw [hr]
    intro channel txId hopen
    have hold : Open w.log channel txId := by
      rcases books_call w.clock w.shared request with ⟨tx, bytes, -, hl⟩ | ⟨-, hl⟩
      · simp only [stunThreads, hl] at hopen
        exact ((open_concat hopen).resolve_left nofun).2.2
      · simpa only [stunThreads, hl, append_nil] using hopen
    obtain ⟨u, hu, hin⟩ := h channel txId hold
    exact ⟨u, by rw [getElem?_append_left (List.getElem?_eq_some_iff.1 hu).1, hu], hin⟩
  · rw [hr]
    exact probesMade_resume hid (books w.clock id w.shared t input) h

theorem booked_after (es : List StunEvent) : TableKept (stunAfter es) ∧ ProbesMade (stunAfter es) := by
  constructor
  · exact run_keeps TableKept tableKept_step es _ (fun _ => rfl)
  · refine run_keeps ProbesMade probesMade_step es _ (fun channel txId hopen => ?_)
    obtain ⟨l₁, l₂, hlog, -⟩ := hopen
    simp at hlog

/-! ## What a run leaves behind -/

def RunTask.isReturned : RunTask → Bool
  | .netchecked _ => true
  | .discovered _ => true
  | _ => false

theorem inProbe_of_isReturned (h : t.isReturned = true) : t.inProbe = none := by
  cases t with
  | netchecked | discovered => rfl
  | _ => cases h

def LeavesNothing (w : StunWorld) : Prop :=
  ∀ id t, w.tasks[id]? = some t → t.isReturned = true →
    ∀ txId inflight, w.shared.outstanding.lookup txId = some inflight → inflight.resultTx.1 ≠ id

/-- Whatever probe a returned run has sent, a message with its id came in since, or another probe drew the id. -/
def ProbesMet (w : StunWorld) : Prop :=
  ∀ id t, w.tasks[id]? = some t → t.isReturned = true →
    ∀ l₁ probe txId l₂, w.log = l₁ ++ .registered (id, probe) txId :: l₂ → .sent (id, probe) txId ∈ l₂ →
      ∃ e ∈ l₂, e.touches txId = true

/-- **The table of probes**: after any sequence of runs and messages, with any probes failing, the runs that have
returned have left nothing in the table exactly when each probe they sent was met by a message with its id, or by
another probe that drew the same id. -/
theorem stun_outstanding_iff (es : List StunEvent) : LeavesNothing (stunAfter es) ↔ ProbesMet (stunAfter es) := by
  obtain ⟨htable, hmade⟩ := booked_after es
  constructor
  · intro hleft id t ht hret l₁ probe txId l₂ hlog hsent
    by_contra hno
    have hnone : ∀ e ∈ l₂, e.touches txId = false := fun e he =>
      Bool.eq_false_iff.2 (fun htouch => hno ⟨e, he, htouch⟩)
    have hold := htable txId
    rw [holder_eq_some_iff.2 ⟨l₁, l₂, hlog, hnone⟩, Option.map_eq_some_iff] at hold
    obtain ⟨inflight, hin, hch⟩ := hold
    exact hleft id t ht hret txId inflight hin (by rw [hch])
  · intro hmet id t ht hret txId inflight hin he
    have hold := htable txId
    rw [hin, Option.map_some] at hold
    obtain ⟨l₁, l₂, hlog, hnone⟩ := holder_eq_some_iff.1 hold.symm
    have hch : inflight.resultTx = (id, inflight.resultTx.2) := Prod.ext he rfl
    rw [hch] at hlog
    -- the request was sent, since the run is no longer at it and the id was not taken back
    have hsent : .sent (id, inflight.resultTx.2) txId ∈ l₂ := by
      by_contra hno
      have hback : .rolledBack (id, inflight.resultTx.2) txId ∉ l₂ := fun hback => by
        simpa [Booking.touches] using hnone _ hback
      obtain ⟨u, hu, hin'⟩ := hmade _ txId ⟨l₁, l₂, hlog, hno, hback⟩
      cases ht.symm.trans hu
      rw [inProbe_of_isReturned hret] at hin'
      cases hin'
    obtain ⟨e, hmem, htouch⟩ := hmet id t ht hret l₁ _ txId l₂ hlog hsent
    rw [hnone e hmem] at htouch
    cases htouch

def silentRound : List StunEvent :=
  let met : StunMet := ⟨Octets.new 7, true, fun _ => none, true⟩
  [.call (.probeTargets [⟨1, some (.v4 (Ipv4Addr.new 192 0 2 1) 3478), none⟩]), .resume 0 met, .resume 0 met,
    .resume 0 met, .wait 1500000000, .resume 0 met, .resume 0 met]

theorem timed_out_probe_left :
    (stunAfter silentRound).tasks[0]? = some (.netchecked []) ∧
    (stunAfter silentRound).shared.outstanding.lookup (Octets.new 7) = some ⟨0, (0, 0)⟩ ∧
    ¬ LeavesNothing (stunAfter silentRound) := by
  have htask : (stunAfter silentRound).tasks[0]? = some (.netchecked []) := by decide +kernel
  have hentry : (stunAfter silentRound).shared.outstanding.lookup (Octets.new 7) = some ⟨0, (0, 0)⟩ := by
    decide +kernel
  exact ⟨htask, hentry, fun h => h 0 _ htask rfl _ _ hentry rfl⟩

end TailscaleVita.Ms.Stun

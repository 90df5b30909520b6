import TailscaleVita.CtlResume
/-!
# CtlHandle — what a session handle has to go through (`ts-control/src/map.rs`)

`start` and `reissue` log the first eight bytes of the handle, and `load_session_state` trims what it has read. A
handle with a character across its eighth byte makes both calls panic, in every later start as well; one with white
space at an end is not the one that is sent after a restart.
-/
namespace TailscaleVita.Ctl

def sliceTo : Text → Nat → Option Text
  | _, 0 => some []
  | [], _ + 1 => none
  | c :: s, n + 1 => if c.utf8Size ≤ n + 1 then (sliceTo s (n + 1 - c.utf8Size)).map (c :: ·) else none

def shortHandle (s : Text) : Option Text := if utf8Len s ≤ 8 then some s else (sliceTo s 8).map (· ++ ['…'])

namespace MapClient

def startLogged (dir : StateDir) (opened : Except ControlError Unit) :
    Option (Option MapRequest × Except ControlError MapClient) :=
  match dir.loadSessionState with
  | .error _ => some (start dir opened)
  | .ok (_, sessionHandle) => (shortHandle sessionHandle).map (fun _ => start dir opened)

def reissue (c : MapClient) (opened : Except ControlError Unit) : Option (MapRequest × Except ControlError Unit) :=
  (shortHandle c.netmap.sessionHandle).map (fun _ => (⟨c.netmap.lastSeq, c.netmap.sessionHandle⟩, opened))

end MapClient

/-- The session goes on with the handle `h`: neither a reissue nor a start panics, and both send it. -/
structure GoesOn (dir : StateDir) (c : MapClient) (opened : Except ControlError Unit) (h : Text) : Prop where
  reissued : ∃ req, c.reissue opened = some (req, opened) ∧ req.mapSessionHandle = h
  restarted : ∃ req result, MapClient.startLogged dir opened = some (some req, result) ∧ req.mapSessionHandle = h

theorem sliceTo_ne_none_iff : ∀ {s : Text} {n : Nat}, sliceTo s n ≠ none ↔ ∃ front, front <+: s ∧ utf8Len front = n
  | s, 0 => iff_of_true (by cases s <;> nofun) ⟨[], List.nil_prefix, rfl⟩
  | [], n + 1 => by
    refine iff_of_false (by simp [sliceTo]) ?_
    rintro ⟨front, hfront, hlen⟩
    rw [List.prefix_nil.1 hfront] at hlen
    cases hlen
  | c :: s, n + 1 => by
    have hpos := c.utf8Size_pos
    simp only [sliceTo]
    split
    next hfits =>
      rw [Ne, Option.map_eq_none_iff, ← Ne, sliceTo_ne_none_iff]
      constructor
      · rintro ⟨front, hfront, hlen⟩
        refine ⟨c :: front, List.cons_prefix_cons.2 ⟨rfl, hfront⟩, ?_⟩
        rw [utf8Len_cons, hlen]
        omega
      · rintro ⟨front, hfront, hlen⟩
        cases front with
        | nil => cases hlen
        | cons c' front =>
          obtain ⟨rfl, hrest⟩ := List.cons_prefix_cons.1 hfront
          rw [utf8Len_cons] at hlen
          exact ⟨front, hrest, by omega⟩
    next hlong =>
      refine iff_of_false (by simp) ?_
      rintro ⟨front, hfront, hlen⟩
      cases front with
      | nil => cases hlen
      | cons c' front =>
        obtain ⟨rfl, -⟩ := List.cons_prefix_cons.1 hfront
        rw [utf8Len_cons] at hlen
        omega

/-- A handle that can be shortened: it has at most eight bytes, or a character ends at the eighth. -/
def Shortens (h : Text) : Prop := utf8Len h ≤ 8 ∨ ∃ front, front <+: h ∧ utf8Len front = 8

theorem shortHandle_ne_none_iff {h : Text} : shortHandle h ≠ none ↔ Shortens h := by
  unfold shortHandle Shortens
  split
  next hshort => exact iff_of_true (Option.some_ne_none _) (.inl hshort)
  next hlong => rw [Ne, Option.map_eq_none_iff, ← Ne, sliceTo_ne_none_iff, or_iff_right hlong]

theorem reissued_iff {c : MapClient} {opened : Except ControlError Unit} :
    (∃ req, c.reissue opened = some (req, opened) ∧ req.mapSessionHandle = c.netmap.sessionHandle) ↔
      Shortens c.netmap.sessionHandle := by
  rw [← shortHandle_ne_none_iff, Option.ne_none_iff_exists']
  simp only [MapClient.reissue, Option.map_eq_some_iff]
  constructor
  · rintro ⟨req, ⟨text, htext, -⟩, -⟩
    exact ⟨text, htext⟩
  · rintro ⟨text, htext⟩
    exact ⟨_, ⟨text, htext, rfl⟩, rfl⟩

theorem restarted_iff {dir : StateDir} {opened : Except ControlError Unit} {hd h : Text}
    (hload : dir.loadHandle = .ok hd) :
    (∃ req result, MapClient.startLogged dir opened = some (some req, result) ∧ req.mapSessionHandle = h) ↔
      Shortens hd ∧ hd = h := by
  have hstate : dir.loadSessionState = .ok (dir.loadLastSeq, hd) := by
    unfold StateDir.loadSessionState
    rw [hload]
  have hsent : (MapClient.start dir opened).1 = some ⟨dir.loadLastSeq, hd⟩ := by
    unfold MapClient.start
    rw [hstate]
    cases opened <;> rfl
  rw [← shortHandle_ne_none_iff, Option.ne_none_iff_exists']
  simp only [MapClient.startLogged, hstate, Option.map_eq_some_iff]
  constructor
  · rintro ⟨req, result, ⟨text, htext, hstart⟩, rfl⟩
    rw [hstart] at hsent
    cases hsent
    exact ⟨⟨text, htext⟩, rfl⟩
  · rintro ⟨⟨text, htext⟩, rfl⟩
    exact ⟨_, (MapClient.start dir opened).2, ⟨text, htext, Prod.ext hsent rfl⟩, rfl⟩

theorem handleAfter_of_ne_nil {c : MapClient} {resp : MapResponseWire} (hne : resp.mapSessionHandle ≠ []) :
    handleAfter c resp = resp.mapSessionHandle := by
  rw [handleAfter, if_neg (by simpa using hne)]

def HandleKept (w : SessionWorld) : Prop :=
  ∀ c, w.client = .live c → ∃ hd, w.dir.loadHandle = .ok hd ∧
    (hd = c.netmap.sessionHandle ∨ hd = trim c.netmap.sessionHandle)

theorem handleKept_step (w : SessionWorld) (e : SessionEvent) (h : HandleKept w) : HandleKept (w.step e) := by
  cases e with
  | start opened =>
    intro c hc
    simp only [SessionWorld.step] at hc ⊢
    split at hc
    next c' hstart =>
      cases hc
      obtain ⟨q, hd, hload, -, hnetmap⟩ := MapClient.start_ok (Prod.ext rfl hstart)
      exact ⟨hd, (StateDir.loadSessionState_ok hload).2, .inl (by rw [hnetmap])⟩
    · cases hc
  | frame ord io resp =>
    cases hclient : w.client with
    | none | failed c =>
      simp only [SessionWorld.step, hclient]
      exact h
    | live c =>
      simp only [SessionWorld.step, hclient]
      intro c' hc'
      cases hk : resp.keepAlive with
      | true =>
        simp only [MapClient.handleFrame, hk, if_true] at hc' ⊢
        cases hc'
        exact h c hclient
      | false =>
        obtain ⟨-, hhandle, hcases⟩ := handleFrame_cases c w.dir ord io hk
        generalize c.handleFrame w.dir ord io resp = r at hhandle hcases hc' ⊢
        obtain ⟨c1, dir, result⟩ := r
        rcases hcases with ⟨⟨e, rfl⟩, -⟩ | ⟨⟨ev, rfl⟩, hdir⟩
        · cases hc'
        · cases hc'
          rcases hdir with rfl | ⟨hsame, rfl⟩
          · exact ⟨_, StateDir.loadHandle_persistSessionHandle _ _, .inr (by rw [hhandle])⟩
          · rw [loadHandle_afterSeqWrite, hhandle, hsame.elim handleAfter_eq_nil id]
            exact h c hclient
  | crash ord resp =>
    intro c hc
    cases hclient : w.client <;> simp only [SessionWorld.step, hclient] at hc <;> cases hc
  | stop | forget _ _ =>
    intro c hc
    cases hc

theorem handleFrame_new (c : MapClient) (dir : StateDir) (ord : HashOrder NodeKey) (resp : MapResponseWire)
    (hk : resp.keepAlive = false) (hne : resp.mapSessionHandle ≠ [])
    (hnew : resp.mapSessionHandle ≠ c.netmap.sessionHandle) :
    let r := c.handleFrame dir ord {} resp
    (∃ ev, r.2.2 = .ok ev) ∧ r.1.netmap.sessionHandle = resp.mapSessionHandle ∧
      r.2.1.loadHandle = .ok (trim resp.mapSessionHandle) := by
  have hafter := handleAfter_of_ne_nil (c := c) hne
  obtain ⟨-, hhandle, hdelta⟩ := apply_token ord c resp
  rw [hafter] at hhandle
  simp only [MapClient.handleFrame, hk, hhandle, ne_eq, hne, hnew, Bool.false_eq_true, not_true_eq_false,
    and_false, not_false_eq_true, and_self, if_false, if_true]
  exact ⟨⟨_, rfl⟩, trivial, rfl⟩

theorem supplied {h : Text} (hne : h ≠ []) :
    ∃ es c, (run SessionWorld.step {} es).client = .live c ∧ c.netmap.sessionHandle = h ∧
      (run SessionWorld.step {} es).dir.loadHandle = .ok (trim h) := by
  let resp : MapResponseWire := { mapSessionHandle := h }
  obtain ⟨⟨ev, hev⟩, hheld, hload⟩ := handleFrame_new ⟨{}⟩ {} nodeKeyOrder resp rfl hne hne
  -- the first frame of the first session
  refine ⟨[.start (.ok ()), .frame nodeKeyOrder {} resp], _, ?_, hheld, hload⟩
  change (SessionWorld.step { client := .live ⟨{}⟩ } (.frame nodeKeyOrder {} resp)).client = _
  simp only [SessionWorld.step]
  rw [hev]

/-- **A session handle that survives.**  A frame that supplies a handle puts it in force; and in every run of starts,
frames, crashes, stops and deletions, a client with the handle `h` in force goes on with it, whether it reissues its
request or is started again, exactly when `h` has no white space at its ends and can be shortened for the log. -/
theorem session_handle_survives_iff (h : Text) :
    (∀ (c : MapClient) dir ord io resp, resp.keepAlive = false → resp.mapSessionHandle = h → h ≠ [] →
      (c.handleFrame dir ord io resp).1.netmap.sessionHandle = h) ∧
    ((∀ es c opened, (run SessionWorld.step {} es).client = .live c → c.netmap.sessionHandle = h →
      GoesOn (run SessionWorld.step {} es).dir c opened h) ↔ trim h = h ∧ Shortens h) := by
  have hforce : ∀ (c : MapClient) dir ord io resp, resp.keepAlive = false → resp.mapSessionHandle = h → h ≠ [] →
      (c.handleFrame dir ord io resp).1.netmap.sessionHandle = h := by
    rintro c dir ord io resp hk rfl hne
    rw [(handleFrame_cases c dir ord io hk).2.1, handleAfter_of_ne_nil hne]
  refine ⟨hforce, fun hall => ?_, ?_⟩
  · by_cases hne : h = []
    · rw [hne]
      exact ⟨rfl, .inl (Nat.zero_le 8)⟩
    obtain ⟨es, c, hlive, hheld, hload⟩ := supplied hne
    obtain ⟨hreissued, hrestarted⟩ := hall es c (.ok ()) hlive hheld
    subst hheld
    exact ⟨((restarted_iff hload).1 hrestarted).2, reissued_iff.1 hreissued⟩
  · rintro ⟨htrim, hshort⟩ es c opened hlive rfl
    have hkept : HandleKept (run SessionWorld.step {} es) := run_keeps HandleKept handleKept_step es {} nofun
    obtain ⟨hd, hload, hd'⟩ := hkept c hlive
    have hsame : hd = c.netmap.sessionHandle := hd'.elim id (fun h => h.trans htrim)
    refine ⟨reissued_iff.2 hshort, (restarted_iff hload).2 ⟨?_, hsame⟩⟩
    rwa [hsame]

/-- The eighth byte of "abcdefg€hij" is inside of the euro sign: with that handle in force and in the file, a reissue
panics, and so does every start. And " s1 " is sent after a restart without its blanks. -/
theorem session_handle_cut :
    let w := fun h : Text => run SessionWorld.step {}
      [.start (.ok ()), .frame nodeKeyOrder {} { mapSessionHandle := h, seq := 1 }]
    (∃ c, (w "abcdefg€hij".toList).client = .live c ∧ c.reissue (.ok ()) = none) ∧
      MapClient.startLogged (w "abcdefg€hij".toList).dir (.ok ()) = none ∧
      (MapClient.start (w " s1 ".toList).dir (.ok ())).1 = some ⟨1, "s1".toList⟩ := by
  intro w
  exact ⟨⟨_, rfl, by decide +kernel⟩, by decide +kernel, by decide +kernel⟩

end TailscaleVita.Ctl

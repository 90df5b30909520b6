import Mathlib.Data.List.TakeWhile
import TailscaleVita.FtpJail
import TailscaleVita.FtpLine
/-!
# FtpLogin — from the bytes of a control connection to its commands (`ts-ftp/src/command.rs`, `session.rs`)

`handle` reads a line, parses it and dispatches the command. `parse` trims the line and the argument of its verb, which
`spawn` does not do with the configured credentials.
-/
namespace TailscaleVita.Ftp

open List

def verbArg (line : Text) : Text × Text :=
  match splitOnce ' ' line with
  | some (v, a) => (v, trim a)
  | none => (line, [])

def commandOf (line verb arg : Text) : Command :=
  let opt : Option Text := if arg = [] then none else some arg
  let verb := verb.map Char.toUpper
  if verb = "USER".toList then .user arg
  else if verb = "PASS".toList then .pass arg
  else if verb = "SYST".toList then .syst
  else if verb = "FEAT".toList then .feat
  else if verb = "TYPE".toList then .type arg
  else if verb = "PWD".toList ∨ verb = "XPWD".toList then .pwd
  else if verb = "CWD".toList then .cwd arg
  else if verb = "CDUP".toList then .cdup
  else if verb = "PASV".toList then .pasv
  else if verb = "EPSV".toList then .epsv opt
  else if verb = "LIST".toList then .list opt
  else if verb = "NLST".toList then .nlst opt
  else if verb = "RETR".toList then .retr arg
  else if verb = "STOR".toList then .stor arg
  else if verb = "SIZE".toList then .size arg
  else if verb = "DELE".toList then .dele arg
  else if verb = "MKD".toList ∨ verb = "XMKD".toList then .mkd arg
  else if verb = "RMD".toList ∨ verb = "XRMD".toList then .rmd arg
  else if verb = "RNFR".toList then .rnfr arg
  else if verb = "RNTO".toList then .rnto arg
  else if verb = "QUIT".toList then .quit
  else if verb = "NOOP".toList then .noop
  else .unknown line

def parse (line : Text) : Command :=
  let line := trim line
  commandOf line (verbArg line).1 (verbArg line).2

/-! ## White space at the end -/

def trimEnd (s : Text) : Text := (s.reverse.dropWhile isWhitespace).reverse

theorem trim_append_spaces (s : Text) {w : Text} (hw : ∀ c ∈ w, isWhitespace c = true) : trim (s ++ w) = trim s := by
  induction w using List.reverseRecOn with
  | nil => rw [append_nil]
  | append_singleton w c ih =>
    rw [← append_assoc, trim_append_space _ (hw c (mem_append_right _ mem_cons_self))]
    exact ih (fun c' hc' => hw c' (mem_append_left _ hc'))

theorem trim_trimEnd (s : Text) : trim (trimEnd s) = trim s := by
  have hsplit : s = trimEnd s ++ (s.reverse.takeWhile isWhitespace).reverse := by
    unfold trimEnd
    rw [← reverse_append, takeWhile_append_dropWhile, reverse_reverse]
  conv_rhs => rw [hsplit]
  refine (trim_append_spaces _ (fun c hc => ?_)).symm
  exact mem_takeWhile_imp (mem_reverse.1 hc)

theorem trim_verb {verb : Text} (hverb : Tight verb) (hne : verb ≠ []) (arg : Text) :
    trim (verb ++ ' ' :: arg) = if trimEnd arg = [] then verb else verb ++ ' ' :: trimEnd arg := by
  have hlast : verb.reverse.dropWhile isWhitespace = verb.reverse :=
    dropWhile_of_head (by rw [List.head?_reverse]; exact hverb.2)
  have hhead : (verb ++ ' ' :: arg).dropWhile isWhitespace = verb ++ ' ' :: arg :=
    dropWhile_of_head (by rw [List.head?_append_of_ne_nil verb hne]; exact hverb.1)
  unfold trim trimEnd
  rw [hhead, List.reverse_append, List.reverse_cons, List.append_assoc, List.dropWhile_append]
  by_cases hblank : arg.reverse.dropWhile isWhitespace = []
  · rw [hblank, if_pos List.isEmpty_nil, if_pos List.reverse_nil]
    show (List.dropWhile isWhitespace (' ' :: verb.reverse)).reverse = _
    rw [List.dropWhile_cons_of_pos (by decide), hlast, List.reverse_reverse]
  · rw [if_neg (by rwa [List.isEmpty_iff]), if_neg (by rwa [List.reverse_eq_nil_iff]), List.reverse_append,
      List.reverse_append, List.reverse_reverse]
    simp

theorem verbArg_trim {verb : Text} (hwords : verb.any isWhitespace = false) (hne : verb ≠ []) (arg : Text) :
    verbArg (trim (verb ++ ' ' :: arg)) = (verb, trim arg) := by
  have hverb : ∀ c ∈ verb, isWhitespace c = false := fun c hc => Bool.eq_false_iff.2 (any_eq_false.1 hwords c hc)
  have htight : Tight verb := ⟨fun c hc => hverb c (mem_of_head? hc), fun c hc => hverb c (mem_of_getLast? hc)⟩
  have hno : ' ' ∉ verb := fun hm => absurd (hverb ' ' hm) (by decide)
  rw [trim_verb htight hne]
  unfold verbArg
  by_cases hblank : trimEnd arg = []
  · have hnil : trim arg = [] := by
      rw [← trim_trimEnd, hblank]
      rfl
    rw [if_pos hblank, splitOnce_eq_none hno, hnil]
  · rw [if_neg hblank, splitOnce_append_cons _ hno]
    simp [trim_trimEnd]

theorem commandOf_user (line name : Text) : commandOf line "USER".toList name = .user name := by
  unfold commandOf
  rw [if_pos (by decide)]

theorem commandOf_pass (line password : Text) : commandOf line "PASS".toList password = .pass password := by
  unfold commandOf
  rw [if_neg (by decide), if_pos (by decide)]

theorem parse_user (name : Text) : parse ("USER ".toList ++ name) = .user (trim name) := by
  have hsplit : verbArg (trim ("USER ".toList ++ name)) = ("USER".toList, trim name) :=
    @verbArg_trim "USER".toList (by decide) (by decide) name
  unfold parse
  simp only [hsplit]
  exact commandOf_user _ _

theorem parse_pass (password : Text) : parse ("PASS ".toList ++ password) = .pass (trim password) := by
  have hsplit : verbArg (trim ("PASS ".toList ++ password)) = ("PASS".toList, trim password) :=
    @verbArg_trim "PASS".toList (by decide) (by decide) password
  unfold parse
  simp only [hsplit]
  exact commandOf_pass _ _

/-! ## The control connection -/

structure Control (σ : Type) where
  live : Live σ
  reader : BufReader

structure Around where
  stopping : Bool := false
  watch : Watch

section

variable {σ : Type} (env : (c : FtpCall) → σ → c.Answer × σ) (ctx : Ctx) (fails : Bool)

/-- One turn of `handle`, from the bytes on. An empty line is passed over. -/
def Control.step (c : Control σ) (i : Around) : Control σ :=
  if c.live.ended then c
  else if i.stopping then { c with live := c.live.step env ctx none }
  else
    match readLine i.watch fails c.reader with
    | (none, _, r) => ⟨c.live.step env ctx none, r⟩
    | (some line, _, r) => ⟨if line = [] then c.live else c.live.step env ctx (some (parse line)), r⟩

def wire (line : Text) : Bytes := utf8 line ++ [13, 10]

variable {env ctx fails}

def Unbroken (s : Text) : Prop := ∀ c ∈ s, c ≠ '\n' ∧ c ≠ '\r'

theorem unbroken_of_any {s : Text} (h : s.any (fun c => c == '\n' || c == '\r') = false) : Unbroken s := by
  intro c hc
  have hbreak := any_eq_false.1 h c hc
  rwa [Bool.or_eq_true, beq_iff_eq, beq_iff_eq, not_or] at hbreak

theorem Unbroken.append {s t : Text} (hs : Unbroken s) (ht : Unbroken t) : Unbroken (s ++ t) := fun c hc =>
  (mem_append.1 hc).elim (hs c) (ht c)

theorem newline_not_mem_utf8 {s : Text} (h : '\n' ∉ s) : 10 ∉ utf8 s := by
  intro hm
  obtain ⟨c, hc, hcode⟩ := mem_utf8_ascii (by decide) hm
  have heq : c = '\n' := Char.toNat_inj.1 hcode
  exact h (heq ▸ hc)

theorem readLine_wire (fails : Bool) {line : Text} (hline : Unbroken line) (hfit : (wire line).length ≤ maxCommandBytes)
    {rest : Bytes} {w : Watch} (hw : ∀ poll, w.stops poll = false) {r : BufReader} (hr : r.stream = wire line ++ rest) :
    (readLine w fails r).1 = some line ∧ (readLine w fails r).2.2.stream = rest := by
  obtain ⟨hread, -⟩ := lineRead_readLine w fails r (fun p _ => hw p)
  have hstream : r.stream = (utf8 (line ++ ['\r'])) ++ 10 :: rest := by
    rw [hr, utf8_append]
    unfold wire
    simp [show utf8 ['\r'] = [13] from by decide]
  have hno : 10 ∉ utf8 (line ++ ['\r']) := by
    refine newline_not_mem_utf8 (fun hm => ?_)
    rcases mem_append.1 hm with hm | hm
    · exact (hline _ hm).1 rfl
    · exact absurd hm (by decide)
  have hmem : 10 ∈ r.stream.take maxCommandBytes := by
    rw [hr, take_append, take_of_length_le hfit]
    exact mem_append_left _ (mem_append_right _ (by decide))
  obtain ⟨hsome, hleft⟩ := hread hmem
  rw [hstream, lineOf_append hno] at hsome hleft
  rw [fromUtf8Lossy_utf8] at hsome
  refine ⟨hsome.trans (congrArg some ?_), hleft.trans (drop_line _ rest)⟩
  unfold trimEol
  rw [reverse_append]
  show (List.dropWhile _ ('\r' :: line.reverse)).reverse = line
  rw [dropWhile_cons, if_pos (by decide), dropWhile_of_head, reverse_reverse]
  intro c hc
  rw [head?_reverse] at hc
  have hbreak := hline c (mem_of_getLast? hc)
  simp [hbreak.1, hbreak.2]

theorem step_wire {c : Control σ} (hlive : c.live.ended = false) {i : Around} (hstop : i.stopping = false)
    (hw : ∀ poll, i.watch.stops poll = false) {line : Text} (hne : line ≠ []) (hline : Unbroken line)
    (hfit : (wire line).length ≤ maxCommandBytes) {rest : Bytes} (hr : c.reader.stream = wire line ++ rest) :
    (c.step env ctx fails i).live = c.live.step env ctx (some (parse line)) ∧
      (c.step env ctx fails i).reader.stream = rest := by
  obtain ⟨hsome, hleft⟩ := readLine_wire fails hline hfit hw hr
  unfold Control.step
  rw [hlive, hstop, if_neg Bool.false_ne_true, if_neg Bool.false_ne_true]
  generalize readLine i.watch fails c.reader = res at hsome hleft ⊢
  obtain ⟨got, buf, r⟩ := res
  subst hsome
  simp only
  rw [if_neg hne]
  exact ⟨rfl, hleft⟩

theorem run_ended {c : Control σ} (h : c.live.ended = true) (is : List Around) (cmds : List (Option Command)) :
    (run (Control.step env ctx fails) c is).live = run (Live.step env ctx) c.live cmds := by
  have hcontrol : run (Control.step env ctx fails) c is = c :=
    run_keeps (· = c) (fun _ _ hc => by rw [hc, Control.step, if_pos h]) is c rfl
  have hlive : run (Live.step env ctx) c.live cmds = c.live :=
    run_keeps (· = c.live) (fun _ _ hl => by rw [hl, Live.step, if_pos h]) cmds _ rfl
  rw [hcontrol, hlive]

/-- **The connection refines the session.** However the bytes of the client's lines come, a line at a time, in pieces
or all at once: the session goes, and calls, as if their commands were given to it one after the other. -/
theorem control_refines_session (turns : List (Text × Around)) (rest : Bytes)
    (hlines : ∀ t ∈ turns, t.1 ≠ [] ∧ Unbroken t.1 ∧ (wire t.1).length ≤ maxCommandBytes)
    (hwait : ∀ t ∈ turns, t.2.stopping = false ∧ ∀ poll, t.2.watch.stops poll = false)
    (c : Control σ) (hr : c.reader.stream = turns.flatMap (fun t => wire t.1) ++ rest) :
    (run (Control.step env ctx fails) c (turns.map Prod.snd)).live =
      run (Live.step env ctx) c.live (turns.map fun t => some (parse t.1)) := by
  induction turns generalizing c with
  | nil => rfl
  | cons t turns ih =>
    cases hlive : c.live.ended with
    | true => exact run_ended hlive _ _
    | false =>
      obtain ⟨⟨hne, hline, hfit⟩, hlines⟩ := forall_mem_cons.1 hlines
      obtain ⟨⟨hstop, hw⟩, hwait⟩ := forall_mem_cons.1 hwait
      rw [flatMap_cons, append_assoc] at hr
      obtain ⟨hstep, hleft⟩ : (c.step env ctx fails t.2).live = _ ∧ (c.step env ctx fails t.2).reader.stream = _ :=
        step_wire hlive hstop hw hne hline hfit hr
      rw [map_cons, map_cons, run_cons, run_cons, ih hlines hwait _ hleft, hstep]

/-! ## Logging in -/

theorem step_user {l : Live σ} (hl : l.ended = false) (name : Text)
    (hreply : (env (.reply 331 "user ok, send PASS".toList) l.world).1 = true) :
    (l.step env ctx (some (.user name))).session = { l.session with pendingUser := some name } ∧
      (l.step env ctx (some (.user name))).ended = false := by
  have hturn : ((l.session.turn ctx (some (.user name))).exec env l.world).1 =
      ({ l.session with pendingUser := some name }, true) := by
    unfold Session.turn
    rw [Prog.exec_bind]
    show (Prog.exec env (if (env (.reply 331 "user ok, send PASS".toList) l.world).1 = true then _ else _) _).1 = _
    rw [if_pos hreply]
    rfl
  unfold Live.step
  rw [hl, if_neg Bool.false_ne_true]
  simp only [hturn]
  exact ⟨trivial, rfl⟩

theorem authed_turn (s : Session) (cmd : Command) (w : σ) :
    ((s.turn ctx (some cmd)).exec env w).1.1.authed = ((s.dispatch ctx cmd).exec env w).1.1.authed := by
  unfold Session.turn
  rw [Prog.exec_bind]
  obtain ⟨⟨s', goesOn⟩, w'⟩ := (s.dispatch ctx cmd).exec env w
  cases goesOn with
  | true => rfl
  | false =>
    show (s'.close.exec env w').1.1.authed = s'.authed
    unfold Session.close
    cases s'.pasv <;> rfl

theorem step_pass {l : Live σ} (hl : l.ended = false) (hauth : l.session.authed = false) (password : Text) :
    (l.step env ctx (some (.pass password))).session.authed = true ↔
      ctx.cfg.username = l.session.pendingUser.getD [] ∧ ctx.cfg.password = password := by
  have hmatch : credentialsMatch ctx.cfg.username ctx.cfg.password (l.session.pendingUser.getD []) password = true ↔
      ctx.cfg.username = l.session.pendingUser.getD [] ∧ ctx.cfg.password = password := by
    unfold credentialsMatch
    rw [Bool.and_eq_true, decide_eq_true_iff, decide_eq_true_iff]
  unfold Live.step
  rw [hl, if_neg Bool.false_ne_true]
  simp only [authed_turn]
  rw [← hmatch]
  unfold Session.dispatch
  simp only
  split
  next hyes => exact ⟨fun _ => hyes, fun _ => rfl⟩
  next hno =>
    refine ⟨fun h => ?_, fun h => absurd h hno⟩
    exact absurd (hauth.symm.trans h) Bool.false_ne_true

theorem ctx_of_spawn {cfg : FtpConfig} (h : spawn cfg = some ctx) : ctx.cfg = cfg := by
  unfold spawn at h
  split at h
  · cases h
    rfl
  · cases h

theorem trim_eq_iff (s : Text) : s = trim s ↔ Tight s :=
  ⟨fun h => tight_of_trim h.symm, fun h => (trim_of_tight h).symm⟩

/-- **Logging in as configured.** The server of any configuration, with any session on it that is not logged in, gets
the two lines of a client that sends the configured credentials, in whatever pieces. It logs the client in exactly when
neither the user name nor the password has white space at an end. -/
theorem configured_login_iff (cfg : FtpConfig) (hspawn : spawn cfg = some ctx) (huser : Unbroken cfg.username)
    (hpass : Unbroken cfg.password) (hfitUser : (wire ("USER ".toList ++ cfg.username)).length ≤ maxCommandBytes)
    (hfitPass : (wire ("PASS ".toList ++ cfg.password)).length ≤ maxCommandBytes) (c : Control σ)
    (hlive : c.live.ended = false) (hauth : c.live.session.authed = false) (rest : Bytes) (hbytes : c.reader.stream =
      wire ("USER ".toList ++ cfg.username) ++ (wire ("PASS ".toList ++ cfg.password) ++ rest))
    (w₁ w₂ : Watch) (hw₁ : ∀ poll, w₁.stops poll = false) (hw₂ : ∀ poll, w₂.stops poll = false)
    (hreply : (env (.reply 331 "user ok, send PASS".toList) c.live.world).1 = true) :
    (run (Control.step env ctx fails) c [⟨false, w₁⟩, ⟨false, w₂⟩]).live.session.authed = true ↔
      Tight cfg.username ∧ Tight cfg.password := by
  have hverb : ∀ {verb : Text} (arg : Text), verb ≠ [] → verb ++ arg ≠ [] := fun arg hne =>
    append_ne_nil_of_left_ne_nil hne arg
  have h₁ : (c.step env ctx fails ⟨false, w₁⟩).live =
        c.live.step env ctx (some (parse ("USER ".toList ++ cfg.username))) ∧
      (c.step env ctx fails ⟨false, w₁⟩).reader.stream = wire ("PASS ".toList ++ cfg.password) ++ rest :=
    step_wire hlive rfl hw₁ (hverb _ (by decide)) ((unbroken_of_any (by decide)).append huser) hfitUser hbytes
  rw [parse_user] at h₁
  have huser₁ := @step_user _ env ctx _ hlive (trim cfg.username) hreply
  rw [← h₁.1] at huser₁
  obtain ⟨hsession, hended⟩ := huser₁
  have h₂ : ((c.step env ctx fails ⟨false, w₁⟩).step env ctx fails ⟨false, w₂⟩).live =
      (c.step env ctx fails ⟨false, w₁⟩).live.step env ctx (some (parse ("PASS ".toList ++ cfg.password))) :=
    (step_wire hended rfl hw₂ (hverb _ (by decide)) ((unbroken_of_any (by decide)).append hpass) hfitPass h₁.2).1
  show ((c.step env ctx fails ⟨false, w₁⟩).step env ctx fails ⟨false, w₂⟩).live.session.authed = true ↔ _
  rw [h₂, parse_pass, step_pass hended (by rw [hsession]; exact hauth), hsession, ctx_of_spawn hspawn]
  show cfg.username = trim cfg.username ∧ cfg.password = trim cfg.password ↔ _
  rw [trim_eq_iff, trim_eq_iff]

end

def vitaServer (username password : Text) : FtpConfig := { root := "ux0:".toList, username, password }

def patient : Watch := ⟨0, fun _ => 0, fun _ => false⟩

def greeted (ctx : Ctx) : Control Unit where
  live := ⟨Session.new ctx (.v4 7), (), [], false⟩
  reader :=
    { arrivals := [.timeout] ++ (wire ("USER ".toList ++ ctx.cfg.username)).map (fun b => .data b []) ++ [.timeout] ++
        (wire ("PASS ".toList ++ ctx.cfg.password)).map (fun b => .data b []) }

def loggedIn (ctx : Ctx) : Bool :=
  let c := run (Control.step (willing (.v4 7)) ctx false) (greeted ctx) [⟨false, patient⟩, ⟨false, patient⟩]
  c.live.session.authed

theorem configured_login_vita : (spawn (vitaServer "vita".toList "a b".toList)).map loggedIn = some true := by
  have hlogin : loggedIn ⟨vitaServer "vita".toList "a b".toList, by decide, by decide, by decide⟩ = true :=
    (configured_login_iff (vitaServer "vita".toList "a b".toList) rfl (unbroken_of_any (by decide))
      (unbroken_of_any (by decide)) (by decide) (by decide)
      (greeted ⟨vitaServer "vita".toList "a b".toList, by decide, by decide, by decide⟩) rfl rfl [] (by decide) patient
      patient (fun _ => rfl) (fun _ => rfl) rfl).2 ⟨tight_of_trim (by decide), tight_of_trim (by decide)⟩
  exact congrArg some hlogin

theorem configured_login_blank : (spawn (vitaServer " vita".toList "a b".toList)).map loggedIn = some false := by
  decide +kernel

theorem control_refines_session_vita :
    let ctx : Ctx := ⟨vitaServer "vita".toList "a b".toList, by decide, by decide, by decide⟩
    let turns : List (Text × Around) := [("USER vita".toList, ⟨false, patient⟩), ("PASS a b".toList, ⟨false, patient⟩)]
    (run (Control.step (willing (.v4 7)) ctx false) (greeted ctx) (turns.map Prod.snd)).live =
      run (Live.step (willing (.v4 7)) ctx) (greeted ctx).live (turns.map fun t => some (parse t.1)) :=
  control_refines_session _ [] (forall_mem_cons.2 ⟨⟨by decide, unbroken_of_any (by decide), by decide⟩,
      forall_mem_singleton.2 ⟨by decide, unbroken_of_any (by decide), by decide⟩⟩)
    (forall_mem_cons.2 ⟨⟨rfl, fun _ => rfl⟩, forall_mem_singleton.2 ⟨rfl, fun _ => rfl⟩⟩) _ (by decide)

end TailscaleVita.Ftp

import TailscaleVita.FtpSession
/-!
# FtpAccess — what a session needs for what it does

Files and ports are for a client that has logged in, and changes are for a server that is not read-only. A session that
is read-only never has a path to rename, which is why `RNTO` need not look.
-/
namespace TailscaleVita.Ftp

def FsCall.Changes : FsCall → Prop
  | .write _ _ | .append _ _ | .rename _ _ | .removeFile _ | .createDirAll _ => True
  | .readDir _ | .read _ => False

def LoggedIn (cfg : FtpConfig) (lines : List (Option Command)) : Prop :=
  ∃ before after, lines = before ++ some (.pass cfg.password) :: after ∧
    before.foldl pendingAfter none = some cfg.username

theorem LoggedIn.later {cfg : FtpConfig} {lines : List (Option Command)} (h : LoggedIn cfg lines)
    (line : Option Command) : LoggedIn cfg (lines ++ [line]) := by
  obtain ⟨before, after, rfl, huser⟩ := h
  exact ⟨before, after ++ [line], by rw [List.append_assoc, List.cons_append], huser⟩

structure Session.After (ctx : Ctx) (lines : List (Option Command)) (s : Session) : Prop where
  pendingUser : s.pendingUser = lines.foldl pendingAfter none
  authed : s.authed = true → LoggedIn ctx.cfg lines
  readOnly : s.readOnly = ctx.cfg.readOnly
  renameFrom : s.readOnly = true → s.renameFrom = none

theorem after_new (ctx : Ctx) (peer : IpAddr) : (Session.new ctx peer).After ctx [] :=
  ⟨rfl, fun h => (by cases h), rfl, fun _ => rfl⟩

theorem Session.After.next {ctx : Ctx} {lines : List (Option Command)} {s s' : Session} {line : Option Command}
    (h : s.After ctx lines) (hnext : s.Next ctx line s') : s'.After ctx (lines ++ [line]) := by
  refine ⟨?_, fun hauth => ?_, hnext.readOnly.trans h.readOnly, fun hro => ?_⟩
  · rw [hnext.pendingUser, h.pendingUser, List.foldl_append]
    rfl
  · rcases hnext.authed hauth with hauth | ⟨password, rfl, hmatch⟩
    · exact (h.authed hauth).later line
    · obtain ⟨huser, hpassword⟩ : ctx.cfg.username = s.pendingUser.getD [] ∧ ctx.cfg.password = password := by
        simpa [credentialsMatch] using hmatch
      -- the user name of a server is not empty, so it was given
      cases hpending : s.pendingUser with
      | none =>
        rw [hpending] at huser
        exact absurd huser ctx.hasUsername
      | some user =>
        rw [hpending, Option.getD_some] at huser
        exact ⟨lines, [], by rw [hpassword], by rw [← h.pendingUser, hpending, huser]⟩
  · rw [hnext.readOnly] at hro
    rcases hnext.renameFrom with hnone | hsame | ⟨hw, -⟩
    · exact hnone
    · rw [hsame, h.renameFrom hro]
    · rw [hro] at hw
      cases hw

section

variable {σ : Type} (env : (c : FtpCall) → σ → c.Answer × σ) (ctx : Ctx)

theorem after_run : ∀ (lines done : List (Option Command)) (l : Live σ),
    (l.ended = false → l.session.After ctx done) →
    (run (Live.step env ctx) l lines).ended = false →
    (run (Live.step env ctx) l lines).session.After ctx (done ++ lines)
  | [], done, l, h, hover => by
    rw [List.append_nil]
    exact h hover
  | line :: lines, done, l, h, hover => by
    rw [run_cons] at hover ⊢
    have hstep : (l.step env ctx line).ended = false → (l.step env ctx line).session.After ctx (done ++ [line]) := by
      intro hgoes
      rcases live_step env ctx l line with ⟨hover, hsame, -⟩ | ⟨hover, hnext, -⟩
      · rw [hsame, hover] at hgoes
        cases hgoes
      · exact (h hover).next hnext
    have hrest := after_run lines (done ++ [line]) (l.step env ctx line) hstep hover
    rwa [List.append_assoc] at hrest

/-- **FTP access control**: whatever the lines of a connection and whatever it is answered, a line that reaches a file
or binds a port comes behind a login, and on a read-only server no line changes what is stored. -/
theorem ftp_access_control (peer : IpAddr) (w : σ) (lines : List (Option Command)) (line : Option Command) :
    let l := run (Live.step env ctx) (Live.start env ctx peer w) lines
    (∀ c ∈ l.made env ctx line, ¬ c.Quiet → LoggedIn ctx.cfg lines) ∧
    (ctx.cfg.readOnly = true → ∀ op, .fs op ∈ l.made env ctx line → ¬ op.Changes) := by
  intro l
  rcases live_step env ctx l line with ⟨-, -, hnone⟩ | ⟨hover, -, hmade, -⟩
  · rw [hnone]
    exact ⟨fun c hc => (by cases hc), fun _ op hop => (by cases hop)⟩
  · have hafter : l.session.After ctx lines := by
      have hstart := after_run env ctx lines [] (Live.start env ctx peer w) (fun _ => after_new ctx peer) hover
      rwa [List.nil_append] at hstart
    refine ⟨fun c hc htouches => ?_, fun hro op hop hchanges => ?_⟩
    · have hauth : l.session.authed = true := by
        cases hmade c hc with
        | quiet h => exact absurd h htouches
        | bind hauth => exact hauth
        | lists hauth => exact hauth
        | listsParent hauth | reads hauth | removes hauth | creates hauth | renames hauth | uploads hauth => exact hauth
      exact hafter.authed hauth
    · rw [← hafter.readOnly] at hro
      have hfrom := hafter.renameFrom hro
      generalize hc : FtpCall.fs op = c at hop
      cases hmade c hop with
      | quiet h =>
        subst hc
        exact h
      | bind => cases hc
      | lists | listsParent | reads =>
        cases hc
        exact hchanges
      | removes _ hw | creates _ hw => rw [hro] at hw; cases hw
      | renames _ hsome => rw [hfrom] at hsome; cases hsome
      | uploads _ hw => rw [hro] at hw; cases hw

end

end TailscaleVita.Ftp

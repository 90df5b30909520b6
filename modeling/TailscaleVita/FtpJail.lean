import TailscaleVita.FtpSession
/-!
# FtpJail — which files a session can reach

Without device paths every path that goes to the file system is the root or below it, but for one: the temporary file
of an upload to `/` is a sibling of the root.
-/
namespace TailscaleVita.Ftp

open List

def FsCall.paths : FsCall → List Text
  | .rename source target => [source, target]
  | .readDir path | .read path | .write path _ | .append path _ | .removeFile path | .createDirAll path => [path]

def FtpCall.paths : FtpCall → List Text
  | .fs op => op.paths
  | _ => []

def Resolved (vpath : Text) : Prop := ∃ segs, (∀ s ∈ segs, Plain s) ∧ vpath = vpathOf segs

structure Session.Normal (ctx : Ctx) (s : Session) : Prop where
  vfs : s.vfs = Vfs.new ctx.cfg.root ctx.cfg.allowDevicePaths
  names : ∀ vpath, s.Names vpath → Resolved vpath

theorem normal_new (ctx : Ctx) (peer : IpAddr) : (Session.new ctx peer).Normal ctx := by
  refine ⟨rfl, fun vpath hv => ?_⟩
  cases hv with
  | cwd => exact ⟨[], fun s hs => (by cases hs), rfl⟩
  | resolved h => exact resolve_plain h
  | renameFrom h => cases h

theorem Session.Normal.next {ctx : Ctx} {s s' : Session} {line : Option Command} (h : s.Normal ctx)
    (hnext : s.Next ctx line s') : s'.Normal ctx := by
  refine ⟨hnext.vfs.trans h.vfs, fun vpath hv => ?_⟩
  cases hv with
  | cwd => exact h.names _ hnext.cwd
  | resolved hv => exact resolve_plain hv
  | renameFrom hv =>
    rcases hnext.renameFrom with hnone | hsame | ⟨-, arg, harg⟩
    · rw [hnone] at hv
      cases hv
    · rw [hsame] at hv
      exact h.names _ (.renameFrom hv)
    · rw [hv] at harg
      exact resolve_plain harg

/-! ## What a turn reaches -/

theorem plain_partial {seg : Text} (h : Plain seg) (id : BitVec 64) : Plain (partialName seg id) := by
  have hlen : 2 < (partialName seg id).length := by
    simp only [partialName, hex16, length_append, length_cons, length_map, length_reverse, length_range]
    omega
  refine ⟨fun he => ?_, fun he => ?_, fun he => ?_, fun hslash => ?_⟩
  · rw [he] at hlen
    exact absurd hlen (by decide)
  · rw [he] at hlen
    exact absurd hlen (by decide)
  · rw [he] at hlen
    exact absurd hlen (by decide)
  · rcases mem_append.1 hslash with hslash | hslash
    · exact h.no_slash hslash
    · rcases mem_cons.1 hslash with hdot | hslash
      · exact absurd hdot (by decide)
      · rcases mem_append.1 hslash with hhex | hrest
        · exact absurd (hex16_digits hhex) (by decide)
        · exact absurd hrest (by decide)

theorem jailed_temporary (root : Text) {segs : List Text} (hplain : ∀ s ∈ segs, Plain s) (id : BitVec 64) :
    Jailed root (partialName (under root segs) id) ↔ segs ≠ [] := by
  constructor
  · rintro hjail rfl
    rw [partialName, under, flatMap_nil, append_nil] at hjail
    exact not_jailed _ _ (fun h => absurd h (by decide)) hjail
  · intro hne
    obtain ⟨segs, last, rfl⟩ := (eq_nil_or_concat segs).resolve_left hne
    rw [concat_eq_append] at hplain ⊢
    refine ⟨segs ++ [partialName last id], fun s hs => ?_, ?_⟩
    · rcases mem_append.1 hs with hs | hs
      · exact hplain s (mem_append_left _ hs)
      · rw [mem_singleton.1 hs]
        exact plain_partial (hplain last (by simp)) id
    · simp [under, partialName, flatMap_append]

section

variable {ctx : Ctx} {s : Session} {line : Option Command}

def Session.StorsRoot (s : Session) (line : Option Command) : Prop :=
  ∃ arg, line = some (.stor arg) ∧ s.vfs.resolve s.cwd arg = some ['/']

theorem jailed_toReal (hdev : ctx.cfg.allowDevicePaths = false) (hs : s.Normal ctx) {vpath : Text}
    (hv : Resolved vpath) : Jailed (trimEndSlashes ctx.cfg.root) (s.vfs.toReal vpath) := by
  obtain ⟨segs, hplain, rfl⟩ := hv
  refine ⟨segs, hplain, ?_⟩
  rw [toReal_vpathOf (by rw [hs.vfs]; exact hdev) hplain, hs.vfs]
  rfl

theorem jailed_made (hdev : ctx.cfg.allowDevicePaths = false) (hs : s.Normal ctx) (hroot : ¬ s.StorsRoot line)
    {c : FtpCall} (hc : s.Made line c) : ∀ p ∈ c.paths, Jailed (trimEndSlashes ctx.cfg.root) p := by
  intro p hp
  have hname : ∀ {vpath}, s.Names vpath → Jailed (trimEndSlashes ctx.cfg.root) (s.vfs.toReal vpath) :=
    fun hv => jailed_toReal hdev hs (hs.names _ hv)
  cases hc with
  | quiet h =>
    cases c with
    | fs op => exact absurd h id
    | _ => cases hp
  | bind => cases hp
  | lists _ hv =>
    rw [mem_singleton.1 hp]
    exact hname hv
  | listsParent _ hv =>
    rw [mem_singleton.1 hp]
    obtain ⟨segs, hplain, rfl⟩ := hs.names _ hv
    exact jailed_toReal hdev hs (splitParent_plain hplain)
  | reads _ hv | removes _ _ hv | creates _ _ hv =>
    rw [mem_singleton.1 hp]
    exact hname hv
  | renames _ hfrom hto =>
    rcases mem_cons.1 hp with rfl | hp
    · exact hname (.renameFrom hfrom)
    · rw [mem_singleton.1 hp]
      exact hname hto
  | @uploads _ _ arg vpath hline hv _ id op hop =>
    obtain ⟨segs, hplain, rfl⟩ := resolve_plain hv
    have hne : segs ≠ [] := fun hnil => hroot ⟨arg, hline, by rw [hv, (vpathOf_eq_root hplain).2 hnil]⟩
    have hreal : s.vfs.toReal (vpathOf segs) = under (trimEndSlashes ctx.cfg.root) segs := by
      rw [toReal_vpathOf (by rw [hs.vfs]; exact hdev) hplain, hs.vfs]
      rfl
    have htemp := (jailed_temporary (trimEndSlashes ctx.cfg.root) hplain id).2 hne
    rw [hreal] at hop
    cases hop with
    | rename =>
      rcases mem_cons.1 hp with rfl | hp
      · exact htemp
      · rw [mem_singleton.1 hp]
        exact ⟨segs, hplain, rfl⟩
    | _ =>
      rwa [mem_singleton.1 hp]

end

/-! ## Whole connections -/

section

variable {σ : Type} (env : (c : FtpCall) → σ → c.Answer × σ) (ctx : Ctx)

/-- An upload to `/` that comes about: the client is logged in and may write, has a data listener, and connects to
it from the address it controls the session from. -/
def Exposed (l : Live σ) (line : Option Command) : Prop :=
  l.ended = false ∧ l.session.authed = true ∧ l.session.readOnly = false ∧ l.session.StorsRoot line ∧
    ∃ port, l.session.pasv = some port ∧
      let opened := env (.reply 150 "ready to receive".toList) l.world
      opened.1 = true ∧ (env (.acceptTimeout port) opened.2).1 = some l.session.controlPeerIp

variable {s : Session}

theorem calls_withData {port : BitVec 16} {opening : Text} {body : FtpProg Bool} {w : σ}
    (hopened : (env (.reply 150 opening) w).1 = true)
    (hpeer : (env (.acceptTimeout port) (env (.reply 150 opening) w).2).1 = some s.controlPeerIp) :
    (s.withData port opening body).calls env w = .reply 150 opening :: .acceptTimeout port ::
      body.calls env (env (.acceptTimeout port) (env (.reply 150 opening) w).2).2 := by
  refine (Prog.calls_call env _ _ w).trans (congrArg _ ?_)
  simp only [hopened]
  refine (Prog.calls_call env _ _ _).trans (congrArg _ ?_)
  simp only [hpeer, Prog.bind]
  rw [if_pos trivial]

theorem turn_stor_root (hauth : s.authed = true) (hw : s.readOnly = false) {arg : Text}
    (hv : s.vfs.resolve s.cwd arg = some ['/']) : s.turn ctx (some (.stor arg)) = (do
      let (s, goesOn) ← s.transfer "ready to receive".toList (s.receiveUpload (s.vfs.toReal ['/']))
      if goesOn then return (s, true) else s.close) := by
  simp [Session.turn, Session.dispatch, Session.doStor, hauth, hw, hv]

theorem exposed_writes {l : Live σ} {line : Option Command} (h : Exposed env l line) :
    ∃ id, .fs (.write (partialName (l.session.vfs.toReal ['/']) id) []) ∈ l.made env ctx line := by
  obtain ⟨hover, hauth, hw, ⟨arg, rfl, hv⟩, port, hpasv, hopened, hpeer⟩ := h
  refine ⟨(env .partialSeq (env (.acceptTimeout port) (env (.reply 150 "ready to receive".toList) l.world).2).2).1, ?_⟩
  unfold Live.made
  rw [hover, turn_stor_root ctx hauth hw hv, Prog.calls_bind]
  refine mem_append_left _ ?_
  unfold Session.transfer
  rw [hpasv]
  rw [Prog.calls_bind, calls_withData env hopened hpeer]
  refine mem_append_left _ (mem_cons_of_mem _ (mem_cons_of_mem _ ?_))
  exact mem_cons_of_mem _ mem_cons_self

theorem close_quiet (s : Session) : s.close.Meets FtpCall.Quiet (fun _ => True) := by
  unfold Session.close
  split
  · trivial
  · exact ⟨trivial, fun _ => trivial⟩

theorem answer_quiet (s : Session) (code : Nat) (text : Text) :
    Prog.Meets FtpCall.Quiet (fun _ => True) (do return (s, ← reply code text)) := ⟨trivial, fun _ => trivial⟩

theorem ends_quiet (r : Session × Bool) :
    Prog.Meets FtpCall.Quiet (fun _ => True) (if r.2 then (do return (r.1, true)) else r.1.close) := by
  obtain ⟨s, goesOn⟩ := r
  cases goesOn with
  | false => exact close_quiet s
  | true => trivial

theorem turn_quiet {cmd : Command} (h : (s.dispatch ctx cmd).Meets FtpCall.Quiet (fun _ => True)) :
    (s.turn ctx (some cmd)).Meets FtpCall.Quiet (fun _ => True) := by
  exact .bind h (fun r _ => ends_quiet r)

theorem withData_quiet {port : BitVec 16} {opening : Text} {body : FtpProg Bool} {w : σ}
    (h : ¬ ((env (.reply 150 opening) w).1 = true ∧
      (env (.acceptTimeout port) (env (.reply 150 opening) w).2).1 = some s.controlPeerIp)) :
    ∀ c ∈ (s.withData port opening body).calls env w, c.Quiet := by
  intro c hc
  rcases mem_cons.1 hc with rfl | hc
  · trivial
  cases hopened : (env (.reply 150 opening) w).1 with
  | false =>
    simp only [hopened] at hc
    cases hc
  | true =>
    simp only [hopened] at hc
    rcases mem_cons.1 hc with rfl | hc
    · trivial
    cases hpeer : (env (.acceptTimeout port) (env (.reply 150 opening) w).2).1 with
    | none =>
      simp only [hpeer] at hc
      have hsaid : (reply 425 "data connection failed".toList).Meets FtpCall.Quiet (fun _ => True) :=
        ⟨trivial, fun _ => trivial⟩
      exact (hsaid.exec env _).1 c hc
    | some peer =>
      have hne : peer ≠ s.controlPeerIp := fun he => h ⟨hopened, by rw [hpeer, he]⟩
      simp only [hpeer, Prog.bind] at hc
      rw [if_neg hne] at hc
      have hsaid : Prog.Meets FtpCall.Quiet (fun _ => True) (do
          let ok ← reply 425 "data peer mismatch".toList
          Prog.perform FtpCall.dataClose
          return ok) := ⟨trivial, fun _ => ⟨trivial, fun _ => trivial⟩⟩
      exact (hsaid.exec env _).1 c hc

theorem stor_quiet {l : Live σ} {arg : Text} (hv : l.session.vfs.resolve l.session.cwd arg = some ['/'])
    (h : ¬ Exposed env l (some (.stor arg))) : ∀ c ∈ l.made env ctx (some (.stor arg)), c.Quiet := by
  intro c hc
  unfold Live.made at hc
  cases hover : l.ended with
  | true =>
    rw [hover] at hc
    cases hc
  | false =>
    simp only [hover, Bool.false_eq_true, if_false] at hc
    by_cases hauth : l.session.authed = true
    · by_cases hw : l.session.readOnly = false
      · cases hpasv : l.session.pasv with
        | none =>
          refine ((turn_quiet ctx ?_).exec env l.world).1 c hc
          simp [Session.dispatch, Session.doStor, Session.transfer, hauth, hw, hv, hpasv, answer_quiet]
        | some port =>
          have hdata : ¬ ((env (.reply 150 "ready to receive".toList) l.world).1 = true ∧ (env (.acceptTimeout port)
              (env (.reply 150 "ready to receive".toList) l.world).2).1 = some l.session.controlPeerIp) := fun hdata =>
            h ⟨hover, hauth, hw, ⟨arg, rfl, hv⟩, port, hpasv, hdata⟩
          rw [turn_stor_root ctx hauth hw hv, Prog.calls_bind] at hc
          rcases mem_append.1 hc with hc | hc
          · unfold Session.transfer at hc
            rw [hpasv] at hc
            rw [Prog.calls_bind] at hc
            rcases mem_append.1 hc with hc | hc
            · exact withData_quiet env hdata c hc
            · rcases mem_cons.1 hc with rfl | hc
              · trivial
              · cases hc
          · exact ((ends_quiet _).exec env _).1 c hc
      · refine ((turn_quiet ctx ?_).exec env l.world).1 c hc
        simp [Session.dispatch, Session.doStor, hauth, hw, answer_quiet]
    · refine ((turn_quiet ctx ?_).exec env l.world).1 c hc
      simp [Session.dispatch, hauth, answer_quiet]

def Live.Jailed (l : Live σ) : Prop := ∀ c ∈ l.log, ∀ p ∈ c.paths, Ftp.Jailed (trimEndSlashes ctx.cfg.root) p

theorem jailed_step (hdev : ctx.cfg.allowDevicePaths = false) (l : Live σ) (line : Option Command)
    (h : l.session.Normal ctx ∧ l.Jailed ctx) :
    ((l.step env ctx line).session.Normal ctx ∧ (l.step env ctx line).Jailed ctx) ↔ ¬ Exposed env l line := by
  obtain ⟨hnormal, hjailed⟩ := h
  rcases live_step env ctx l line with ⟨hover, hstep, -⟩ | ⟨hover, hnext, hmade, hlog⟩
  · rw [hstep]
    refine iff_of_true ⟨hnormal, hjailed⟩ (fun hex => ?_)
    rw [hex.1] at hover
    cases hover
  · constructor
    · rintro ⟨-, hall⟩ hex
      obtain ⟨id, hid⟩ := exposed_writes env ctx hex
      have hout := hall _ (by rw [hlog]; exact mem_append_right _ hid) _ mem_cons_self
      have hroot : l.session.vfs.toReal ['/'] = under (trimEndSlashes ctx.cfg.root) [] := by
        rw [hnormal.vfs]
        have hnil : ∀ s ∈ ([] : List Text), Plain s := fun s hs => (by cases hs)
        exact toReal_vpathOf hdev hnil
      rw [hroot] at hout
      exact (jailed_temporary _ (fun s hs => (by cases hs)) id).1 hout rfl
    · intro hex
      refine ⟨hnormal.next hnext, fun c hc p hp => ?_⟩
      rw [hlog] at hc
      rcases mem_append.1 hc with hc | hc
      · exact hjailed c hc p hp
      · by_cases hroot : l.session.StorsRoot line
        · obtain ⟨arg, rfl, hv⟩ := hroot
          have hquiet := stor_quiet env ctx hv hex c hc
          cases c with
          | fs op => exact absurd hquiet id
          | _ => cases hp
        · exact jailed_made hdev hnormal hroot (hmade c hc) p hp

theorem log_starts (l : Live σ) (lines : List (Option Command)) :
    ∀ lines1, lines1 <+: lines → ∀ c ∈ (run (Live.step env ctx) l lines1).log,
      c ∈ (run (Live.step env ctx) l lines).log := by
  rintro lines1 ⟨lines2, rfl⟩ c hc
  rw [run_append]
  refine run_keeps (fun l' : Live σ => c ∈ l'.log) (fun l' line h => ?_) lines2 _ hc
  rcases live_step env ctx l' line with ⟨-, hstep, -⟩ | ⟨-, -, -, hlog⟩
  · rwa [hstep]
  · rw [hlog]
    exact mem_append_left _ h

/-- **FTP jail**: without device paths, whatever the root, the commands and the answers, every path that goes to the
file system is the root or plain segments below it, exactly as long as no upload to `/` comes about. -/
theorem ftp_jail_iff (hdev : ctx.cfg.allowDevicePaths = false) (peer : IpAddr) (w : σ) (lines : List (Option Command)) :
    (∀ c ∈ (run (Live.step env ctx) (Live.start env ctx peer w) lines).log, ∀ p ∈ c.paths,
      Jailed (trimEndSlashes ctx.cfg.root) p) ↔
    Along (Live.step env ctx) (fun l line => ¬ Exposed env l line) (Live.start env ctx peer w) lines := by
  have hstart : (Live.start env ctx peer w).session.Normal ctx ∧ (Live.start env ctx peer w).Jailed ctx := by
    refine ⟨normal_new ctx peer, fun c hc p hp => ?_⟩
    rw [mem_singleton.1 hc] at hp
    cases hp
  rw [← run_always_iff (fun l line h => jailed_step env ctx hdev l line h) lines _ hstart]
  constructor
  · intro h lines₁ hpre
    refine ⟨run_keeps (fun l : Live σ => l.session.Normal ctx) (fun l line hl => ?_) lines₁ _ hstart.1, fun c hc => ?_⟩
    · rcases live_step env ctx l line with ⟨-, hstep, -⟩ | ⟨-, hnext, -, -⟩
      · rwa [hstep]
      · exact hl.next hnext
    · exact h c (log_starts env ctx _ lines lines₁ hpre c hc)
  · intro h
    exact (h lines (prefix_refl lines)).2

end

def willing (peer : IpAddr) : (c : FtpCall) → Unit → c.Answer × Unit
  | .reply _ _, w | .replyMultiline _ _ _ _, w | .bindHandle _, w | .dataWriteAll _, w => (true, w)
  | .fs (.readDir _), w | .fs (.read _), w => (some [], w)
  | .fs (.write _ _), w | .fs (.append _ _), w | .fs (.rename _ _), w | .fs (.removeFile _), w
  | .fs (.createDirAll _), w => (true, w)
  | .tailnetIp, w => (none, w)
  | .claimPort _ _, w => (30000, w)
  | .acceptTimeout _, w => (some peer, w)
  | .partialSeq, w => (7, w)
  | .dataRead _, w => (some [], w)
  | .dropListener _, w | .dataClose, w => ((), w)

def dataServer : Ctx where
  cfg := { root := "ux0:/data".toList, username := "vita".toList, password := "pw".toList }
  hasUsername := by decide
  hasPassword := by decide
  hasLimit := by decide

theorem ftp_jail_upload : let lines : List (Option Command) :=
      [some (.user "vita".toList), some (.pass "pw".toList), some (.epsv none), some (.stor "notes.txt".toList)]
    ∀ c ∈ (run (Live.step (willing (.v4 7)) dataServer) (Live.start (willing (.v4 7)) dataServer (.v4 7) ()) lines).log,
      ∀ p ∈ c.paths, Jailed (trimEndSlashes dataServer.cfg.root) p := by
  intro lines
  refine (ftp_jail_iff (willing (.v4 7)) dataServer rfl (.v4 7) () lines).2 ?_
  refine ⟨fun h => ?_, fun h => ?_, fun h => ?_, fun h => ?_, trivial⟩
  · obtain ⟨arg, harg, -⟩ := h.2.2.2.1
    cases harg
  · obtain ⟨arg, harg, -⟩ := h.2.2.2.1
    cases harg
  · obtain ⟨arg, harg, -⟩ := h.2.2.2.1
    cases harg
  · obtain ⟨arg, harg, hroot⟩ := h.2.2.2.1
    cases harg
    exact absurd hroot (by decide +kernel)

/-- **An upload to `/`** writes next to the root. -/
theorem ftp_jail_broken : let lines : List (Option Command) :=
      [some (.user "vita".toList), some (.pass "pw".toList), some (.epsv none), some (.stor "/".toList)]
    let path := "ux0:/data.0000000000000007.upload.partial".toList
    (∃ c ∈ (run (Live.step (willing (.v4 7)) dataServer)
      (Live.start (willing (.v4 7)) dataServer (.v4 7) ()) lines).log, path ∈ c.paths) ∧
    ¬ Jailed (trimEndSlashes dataServer.cfg.root) path := by
  refine ⟨⟨.fs (.write "ux0:/data.0000000000000007.upload.partial".toList []), by decide +kernel,
    by decide +kernel⟩, ?_⟩
  have hdot : '.' ≠ '/' := by decide
  exact not_jailed "ux0:/data".toList "0000000000000007.upload.partial".toList hdot

end TailscaleVita.Ftp

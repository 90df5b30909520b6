import TailscaleVita.Calls
import TailscaleVita.FtpVfs
import TailscaleVita.StdNet
/-!
# FtpSession — one control connection (`ts-ftp/src/session.rs`, `data.rs`, `reply.rs`, `listing.rs`)

A session is a program: it calls the file system, the network and the control connection, and goes on with what they
answer. `dispatch` is one command.
-/
namespace TailscaleVita.Ftp

/-! ## What a session calls -/

structure DirEntry where
  name : Text
  isDir : Bool
  size : Nat
deriving DecidableEq

inductive FsCall where
  | readDir (path : Text)
  | read (path : Text)
  | write (path : Text) (data : Bytes)
  | append (path : Text) (data : Bytes)
  | rename (source target : Text)
  | removeFile (path : Text)
  | createDirAll (path : Text)
deriving DecidableEq

abbrev FsCall.Answer : FsCall → Type
  | .readDir _ => Option (List DirEntry)
  | .read _ => Option Bytes
  | .write _ _ | .append _ _ | .rename _ _ | .removeFile _ | .createDirAll _ => Bool

/-- The calls of a session: replies, files, the address, the shared counters, and the data listener and connection. -/
inductive FtpCall where
  | reply (code : Nat) (text : Text)
  | replyMultiline (code : Nat) (head : Text) (lines : List Text) (tail : Text)
  | fs (op : FsCall)
  | tailnetIp
  | claimPort (lo hi : BitVec 16)
  | bindHandle (port : BitVec 16)
  | dropListener (port : BitVec 16)
  | acceptTimeout (port : BitVec 16)
  | partialSeq
  | dataRead (len : Nat)
  | dataWriteAll (bytes : Bytes)
  | dataClose
deriving DecidableEq

inductive IpAddr where
  | v4 (ip : Ipv4Addr)
  | v6 (ip : Ipv6Addr)
deriving DecidableEq

abbrev FtpCall.Answer : FtpCall → Type
  | .reply _ _ | .replyMultiline _ _ _ _ | .bindHandle _ | .dataWriteAll _ => Bool
  | .fs op => op.Answer
  | .tailnetIp => Option Ipv4Addr
  | .claimPort _ _ => BitVec 16
  | .acceptTimeout _ => Option IpAddr
  | .partialSeq => BitVec 64
  | .dataRead _ => Option Bytes
  | .dropListener _ | .dataClose => Unit

abbrev FtpProg := Prog FtpCall FtpCall.Answer

def reply (code : Nat) (text : Text) : FtpProg Bool := Prog.perform (FtpCall.reply code text)

def vitaFs (op : FsCall) : FtpProg op.Answer := Prog.perform (FtpCall.fs op)

structure FtpConfig where
  root : Text
  username : Text
  password : Text
  allowDevicePaths : Bool := false
  readOnly : Bool := false
  passivePortLo : BitVec 16 := 30000
  passivePortHi : BitVec 16 := 30009
  maxTransferBytes : Nat := 32 * 1024 * 1024

structure Ctx where
  cfg : FtpConfig
  hasUsername : cfg.username ≠ []
  hasPassword : cfg.password ≠ []
  hasLimit : cfg.maxTransferBytes ≠ 0

def spawn (cfg : FtpConfig) : Option Ctx :=
  if h : cfg.username ≠ [] ∧ cfg.password ≠ [] ∧ cfg.maxTransferBytes ≠ 0 then some ⟨cfg, h.1, h.2.1, h.2.2⟩ else none

/-! ## The data port -/

def claimed (lo hi cur : BitVec 16) : BitVec 16 := if cur < lo then lo else if hi < cur then hi else cur

def advanced (lo hi cur : BitVec 16) : BitVec 16 :=
  if hi ≤ claimed lo hi cur then lo else claimed lo hi cur + 1

def bindLoop (lo hi : BitVec 16) : (turns : Nat) → FtpProg (Option (BitVec 16))
  | 0 => return none
  | turns + 1 => do
    let cur ← Prog.perform (FtpCall.claimPort lo hi)
    if ← Prog.perform (FtpCall.bindHandle (claimed lo hi cur)) then return some (claimed lo hi cur)
    else bindLoop lo hi turns

def passiveSpan (lo hi : BitVec 16) : Nat := max (min (hi.toNat - lo.toNat + 1) 65535) 1

/-- `bind_passive`; the first claim panics (`none`) when the range is the wrong way round. -/
def bindPassive (lo hi : BitVec 16) : Option (FtpProg (Option (BitVec 16))) :=
  if hi < lo then none else some (bindLoop lo hi (passiveSpan lo hi))

def format227 (ip : Ipv4Addr) (port : BitVec 16) : Text :=
  let field (n : Nat) : Text := (toString n).toList
  "Entering Passive Mode (".toList ++ field (ip.toNat / 2 ^ 24) ++ [','] ++ field (ip.toNat / 2 ^ 16 % 256) ++ [','] ++
    field (ip.toNat / 2 ^ 8 % 256) ++ [','] ++ field (ip.toNat % 256) ++ [','] ++ field (port.toNat / 256) ++ [','] ++
    field (port.toNat % 256) ++ ").".toList

def format229 (port : BitVec 16) : Text :=
  "Entering Extended Passive Mode (|||".toList ++ (toString port.toNat).toList ++ "|)".toList

/-! ## Listings -/

def padLeft (width : Nat) (s : Text) : Text := List.replicate (width - s.length) ' ' ++ s

def crlf : Text := ['\r', '\n']

def formatList (entries : List DirEntry) : Text :=
  entries.flatMap fun e =>
    (if e.isDir then "drwxr-xr-x".toList else "-rw-r--r--".toList) ++ " 1 vita vita ".toList ++
      padLeft 12 (toString e.size).toList ++ " Jan  1 00:00 ".toList ++ e.name ++ crlf

def formatNlst (entries : List DirEntry) : Text := entries.flatMap fun e => e.name ++ crlf

def dirReply (dir : Text) : Text := ['"'] ++ dir.flatMap (fun c => if c = '"' then ['"', '"'] else [c]) ++ ['"']

/-! ## The session -/

inductive Command where
  | user (name : Text)
  | pass (password : Text)
  | syst
  | feat
  | type (arg : Text)
  | pwd
  | cwd (arg : Text)
  | cdup
  | pasv
  | epsv (arg : Option Text)
  | list (arg : Option Text)
  | nlst (arg : Option Text)
  | retr (arg : Text)
  | stor (arg : Text)
  | size (arg : Text)
  | dele (arg : Text)
  | mkd (arg : Text)
  | rmd (arg : Text)
  | rnfr (arg : Text)
  | rnto (arg : Text)
  | quit
  | noop
  | unknown (line : Text)
deriving DecidableEq

/-- A session; `pasv` is the port of its pending data listener. -/
structure Session where
  vfs : Vfs
  cwd : Text
  authed : Bool
  pendingUser : Option Text
  controlPeerIp : IpAddr
  pasv : Option (BitVec 16)
  renameFrom : Option Text
  readOnly : Bool
  maxTransferBytes : Nat
deriving DecidableEq

def Session.new (ctx : Ctx) (controlPeer : IpAddr) : Session where
  vfs := Vfs.new ctx.cfg.root ctx.cfg.allowDevicePaths
  cwd := ['/']
  authed := false
  pendingUser := none
  controlPeerIp := controlPeer
  pasv := none
  renameFrom := none
  readOnly := ctx.cfg.readOnly
  maxTransferBytes := ctx.cfg.maxTransferBytes

def credentialsMatch (expectedUser expectedPassword user password : Text) : Bool :=
  decide (expectedUser = user) && decide (expectedPassword = password)

def partialName (real : Text) (id : BitVec 64) : Text := real ++ '.' :: (hex16 id.toNat ++ ".upload.partial".toList)

inductive RecvError where
  | fileTooLarge
  | other
deriving DecidableEq

def streamLoop (path : Text) (maxBytes : Nat) : (turns total : Nat) → FtpProg (Except RecvError Nat)
  | 0, _ => return .error .fileTooLarge
  | turns + 1, total => do
    match ← Prog.perform (FtpCall.dataRead 8192) with
    | none => return .error .other
    | some [] => return .ok total
    | some bytes =>
      if maxBytes < total + bytes.length then return .error .fileTooLarge
      else if ← vitaFs (.append path bytes) then streamLoop path maxBytes turns (total + bytes.length)
      else return .error .other

def streamToFile (path : Text) (maxBytes : Nat) : FtpProg (Except RecvError Nat) := do
  if ← vitaFs (.write path []) then streamLoop path maxBytes (maxBytes + 1) 0 else return .error .other

def pumpData (bytes : Bytes) : FtpProg Bool := do
  let sent ← Prog.perform (FtpCall.dataWriteAll bytes)
  Prog.perform FtpCall.dataClose
  if sent then reply 226 "transfer complete".toList else reply 426 "transfer failed".toList

namespace Session

def withData (s : Session) (port : BitVec 16) (opening : Text) (body : FtpProg Bool) : FtpProg Bool := do
  if ← reply 150 opening then
    match ← Prog.perform (FtpCall.acceptTimeout port) with
    | some peer =>
      if peer = s.controlPeerIp then body
      else
        let ok ← reply 425 "data peer mismatch".toList
        Prog.perform FtpCall.dataClose
        return ok
    | none => reply 425 "data connection failed".toList
  else return false

def transfer (s : Session) (opening : Text) (body : FtpProg Bool) : FtpProg (Session × Bool) := do
  match s.pasv with
  | none => return (s, ← reply 425 "use PASV first".toList)
  | some port =>
    let ok ← s.withData port opening body
    Prog.perform (FtpCall.dropListener port)
    return ({ s with pasv := none }, ok)

def doCwd (s : Session) (arg : Text) : FtpProg (Session × Bool) := do
  match s.vfs.resolve s.cwd arg with
  | none => return (s, ← reply 550 "invalid path".toList)
  | some vpath =>
    match ← vitaFs (.readDir (s.vfs.toReal vpath)) with
    | some _ => return ({ s with cwd := vpath }, ← reply 250 "directory changed".toList)
    | none => return (s, ← reply 550 "no such directory".toList)

def openPassive (s : Session) (ctx : Ctx) (code : Nat) (format : BitVec 16 → Text) : FtpProg (Session × Bool) := do
  match s.pasv with
  | some port => Prog.perform (FtpCall.dropListener port)
  | none => pure ()
  match bindPassive ctx.cfg.passivePortLo ctx.cfg.passivePortHi with
  | none => return ({ s with pasv := none }, false)
  | some bind =>
    match ← bind with
    | some port => return ({ s with pasv := some port }, ← reply code (format port))
    | none => return ({ s with pasv := none }, ← reply 425 "can't open data port".toList)

def doPasv (s : Session) (ctx : Ctx) : FtpProg (Session × Bool) := do
  match ← Prog.perform FtpCall.tailnetIp with
  | none => return (s, ← reply 425 "tailnet address not ready".toList)
  | some ip => s.openPassive ctx 227 (format227 ip)

def doEpsv (s : Session) (ctx : Ctx) (arg : Option Text) : FtpProg (Session × Bool) := do
  if arg.map (List.map Char.toUpper) = some "ALL".toList then return (s, ← reply 200 "EPSV ALL ok".toList)
  else s.openPassive ctx 229 format229

def doList (s : Session) (arg : Option Text) (namesOnly : Bool) : FtpProg (Session × Bool) := do
  -- a flag such as `-la` is not a path
  let target := match arg with
    | some a => if a ≠ [] ∧ a.head? ≠ some '-' then s.vfs.resolve s.cwd a else some s.cwd
    | none => some s.cwd
  match target with
  | none => return (s, ← reply 550 "invalid path".toList)
  | some vpath =>
    match ← vitaFs (.readDir (s.vfs.toReal vpath)) with
    | none => return (s, ← reply 550 "no such directory".toList)
    | some entries =>
      let body := if namesOnly then formatNlst entries else formatList entries
      s.transfer "opening data connection".toList (pumpData (utf8 body))

def fileSize (s : Session) (vpath : Text) : FtpProg (Option Nat) := do
  let (parent, name) := splitParent vpath
  match ← vitaFs (.readDir (s.vfs.toReal parent)) with
  | none => return none
  | some entries => return (entries.find? (fun e => decide (e.name = name) && !e.isDir)).map (·.size)

def doRetr (s : Session) (arg : Text) : FtpProg (Session × Bool) := do
  match s.vfs.resolve s.cwd arg with
  | none => return (s, ← reply 550 "invalid path".toList)
  | some vpath =>
    match ← s.fileSize vpath with
    | none => return (s, ← reply 550 "cannot stat file".toList)
    | some size =>
      if s.maxTransferBytes < size then return (s, ← reply 552 "file exceeds transfer limit".toList)
      else
        match ← vitaFs (.read (s.vfs.toReal vpath)) with
        | none => return (s, ← reply 550 "no such file".toList)
        | some bytes => s.transfer "opening data connection".toList (pumpData bytes)

def receiveUpload (s : Session) (real : Text) : FtpProg Bool := do
  let id ← Prog.perform FtpCall.partialSeq
  let temp := partialName real id
  let recv ← streamToFile temp s.maxTransferBytes
  Prog.perform FtpCall.dataClose
  match recv with
  | .ok _ =>
    if ← vitaFs (.rename temp real) then reply 226 "stored".toList
    else
      let _ ← vitaFs (.removeFile temp)
      reply 550 "write failed".toList
  | .error e =>
    let _ ← vitaFs (.removeFile temp)
    reply (if e = .fileTooLarge then 552 else 426) "receive failed".toList

def doStor (s : Session) (arg : Text) : FtpProg (Session × Bool) := do
  if s.readOnly then return (s, ← reply 550 "server is read-only".toList)
  else
    match s.vfs.resolve s.cwd arg with
    | none => return (s, ← reply 550 "invalid path".toList)
    | some vpath => s.transfer "ready to receive".toList (s.receiveUpload (s.vfs.toReal vpath))

def doSize (s : Session) (arg : Text) : FtpProg (Session × Bool) := do
  match s.vfs.resolve s.cwd arg with
  | none => return (s, ← reply 550 "invalid path".toList)
  | some vpath =>
    match ← s.fileSize vpath with
    | some size => return (s, ← reply 213 (toString size).toList)
    | none => return (s, ← reply 550 "no such file".toList)

def doDele (s : Session) (arg : Text) : FtpProg (Session × Bool) := do
  if s.readOnly then return (s, ← reply 550 "server is read-only".toList)
  else
    match s.vfs.resolve s.cwd arg with
    | none => return (s, ← reply 550 "invalid path".toList)
    | some vpath =>
      if ← vitaFs (.removeFile (s.vfs.toReal vpath)) then return (s, ← reply 250 "deleted".toList)
      else return (s, ← reply 550 "delete failed".toList)

def doMkd (s : Session) (arg : Text) : FtpProg (Session × Bool) := do
  if s.readOnly then return (s, ← reply 550 "server is read-only".toList)
  else
    match s.vfs.resolve s.cwd arg with
    | none => return (s, ← reply 550 "invalid path".toList)
    | some vpath =>
      if ← vitaFs (.createDirAll (s.vfs.toReal vpath)) then
        return (s, ← reply 257 (dirReply vpath ++ " created".toList))
      else return (s, ← reply 550 "mkdir failed".toList)

def doRnfr (s : Session) (arg : Text) : FtpProg (Session × Bool) := do
  if s.readOnly then return (s, ← reply 550 "server is read-only".toList)
  else
    match s.vfs.resolve s.cwd arg with
    | none => return (s, ← reply 550 "invalid path".toList)
    | some vpath => return ({ s with renameFrom := some vpath }, ← reply 350 "ready for RNTO".toList)

/-- `do_rnto`, which does not look at `read_only`. -/
def doRnto (s : Session) (arg : Text) : FtpProg (Session × Bool) := do
  match s.renameFrom with
  | none => return (s, ← reply 503 "RNFR first".toList)
  | some source =>
    let s := { s with renameFrom := none }
    match s.vfs.resolve s.cwd arg with
    | none => return (s, ← reply 550 "invalid path".toList)
    | some target =>
      if ← vitaFs (.rename (s.vfs.toReal source) (s.vfs.toReal target)) then
        return (s, ← reply 250 "renamed".toList)
      else return (s, ← reply 550 "rename failed".toList)

def dispatch (ctx : Ctx) (s : Session) : Command → FtpProg (Session × Bool)
  | .user name => return ({ s with pendingUser := some name }, ← reply 331 "user ok, send PASS".toList)
  | .pass password =>
    let user := s.pendingUser.getD []
    if credentialsMatch ctx.cfg.username ctx.cfg.password user password then
      return ({ s with pendingUser := none, authed := true }, ← reply 230 "logged in".toList)
    else return ({ s with pendingUser := none }, ← reply 530 "login incorrect".toList)
  | .quit => do
    let _ ← reply 221 "goodbye".toList
    return (s, false)
  | .syst => return (s, ← reply 215 "UNIX Type: L8".toList)
  | .feat =>
    return (s, ← Prog.perform (FtpCall.replyMultiline 211 "Features".toList
      ["EPSV".toList, "PASV".toList, "SIZE".toList, "UTF8".toList] "End".toList))
  | .noop => return (s, ← reply 200 "noop ok".toList)
  | cmd =>
    if !s.authed then return (s, ← reply 530 "please login with USER and PASS".toList)
    else
      match cmd with
      | .type _ => return (s, ← reply 200 "type set to I".toList)
      | .pwd => return (s, ← reply 257 (dirReply s.cwd ++ " is current directory".toList))
      | .cwd arg => s.doCwd arg
      | .cdup => s.doCwd "..".toList
      | .pasv => s.doPasv ctx
      | .epsv arg => s.doEpsv ctx arg
      | .list arg => s.doList arg false
      | .nlst arg => s.doList arg true
      | .retr arg => s.doRetr arg
      | .stor arg => s.doStor arg
      | .size arg => s.doSize arg
      | .dele arg => s.doDele arg
      | .mkd arg => s.doMkd arg
      | .rnfr arg => s.doRnfr arg
      | .rnto arg => s.doRnto arg
      | .rmd _ => return (s, ← reply 550 "RMD not supported".toList)
      | _ => return (s, ← reply 502 "command not implemented".toList)

def close (s : Session) : FtpProg (Session × Bool) := do
  match s.pasv with
  | none => return (s, false)
  | some port =>
    Prog.perform (FtpCall.dropListener port)
    return ({ s with pasv := none }, false)

def turn (ctx : Ctx) (s : Session) : Option Command → FtpProg (Session × Bool)
  | none => s.close
  | some cmd => do
    let (s, goesOn) ← s.dispatch ctx cmd
    if goesOn then return (s, true) else s.close

end Session

/-! ## What a command can do -/

def FtpCall.Quiet : FtpCall → Prop
  | .fs _ | .bindHandle _ => False
  | _ => True

inductive Session.Names (s : Session) : Text → Prop where
  | cwd : s.Names s.cwd
  | resolved {arg vpath : Text} (h : s.vfs.resolve s.cwd arg = some vpath) : s.Names vpath
  | renameFrom {vpath : Text} (h : s.renameFrom = some vpath) : s.Names vpath

inductive Uploads (real temp : Text) : FsCall → Prop where
  | write : Uploads real temp (.write temp [])
  | append (data : Bytes) : Uploads real temp (.append temp data)
  | rename : Uploads real temp (.rename temp real)
  | removeFile : Uploads real temp (.removeFile temp)

inductive Session.Made (s : Session) (line : Option Command) : FtpCall → Prop where
  | quiet {c : FtpCall} (h : c.Quiet) : s.Made line c
  | bind (hauth : s.authed = true) (port : BitVec 16) : s.Made line (.bindHandle port)
  | lists (hauth : s.authed = true) {vpath : Text} (hv : s.Names vpath) :
      s.Made line (.fs (.readDir (s.vfs.toReal vpath)))
  | listsParent (hauth : s.authed = true) {vpath : Text} (hv : s.Names vpath) :
      s.Made line (.fs (.readDir (s.vfs.toReal (splitParent vpath).1)))
  | reads (hauth : s.authed = true) {vpath : Text} (hv : s.Names vpath) :
      s.Made line (.fs (.read (s.vfs.toReal vpath)))
  | removes (hauth : s.authed = true) (hw : s.readOnly = false) {vpath : Text} (hv : s.Names vpath) :
      s.Made line (.fs (.removeFile (s.vfs.toReal vpath)))
  | creates (hauth : s.authed = true) (hw : s.readOnly = false) {vpath : Text} (hv : s.Names vpath) :
      s.Made line (.fs (.createDirAll (s.vfs.toReal vpath)))
  | renames (hauth : s.authed = true) {vsource vtarget : Text} (hfrom : s.renameFrom = some vsource)
      (hto : s.Names vtarget) : s.Made line (.fs (.rename (s.vfs.toReal vsource) (s.vfs.toReal vtarget)))
  | uploads (hauth : s.authed = true) (hw : s.readOnly = false) {arg vpath : Text} (hline : line = some (.stor arg))
      (hv : s.vfs.resolve s.cwd arg = some vpath) (hpasv : s.pasv ≠ none) (id : BitVec 64) {op : FsCall}
      (hop : Uploads (s.vfs.toReal vpath) (partialName (s.vfs.toReal vpath) id) op) : s.Made line (.fs op)

def pendingAfter (pending : Option Text) : Option Command → Option Text
  | some (.user name) => some name
  | some (.pass _) => none
  | _ => pending

structure Session.Next (ctx : Ctx) (s : Session) (line : Option Command) (s' : Session) : Prop where
  vfs : s'.vfs = s.vfs
  readOnly : s'.readOnly = s.readOnly
  controlPeerIp : s'.controlPeerIp = s.controlPeerIp
  cwd : s.Names s'.cwd
  renameFrom : s'.renameFrom = none ∨ s'.renameFrom = s.renameFrom ∨
    s.readOnly = false ∧ ∃ arg, s.vfs.resolve s.cwd arg = s'.renameFrom
  authed : s'.authed = true → s.authed = true ∨ ∃ password, line = some (.pass password) ∧
    credentialsMatch ctx.cfg.username ctx.cfg.password (s.pendingUser.getD []) password = true
  pendingUser : s'.pendingUser = pendingAfter s.pendingUser line

section

variable {ctx : Ctx} {s s' : Session} {line : Option Command}

def Keeps : Option Command → Prop
  | some (.user _) | some (.pass _) => False
  | _ => True

theorem pendingAfter_of_keeps (hl : Keeps line) (pending : Option Text) : pendingAfter pending line = pending := by
  unfold pendingAfter
  split
  · exact absurd hl id
  · exact absurd hl id
  · rfl

theorem Session.Next.of_keeps (hl : Keeps line) (hcwd : s.Names s'.cwd)
    (hrename : s'.renameFrom = none ∨ s'.renameFrom = s.renameFrom ∨
      s.readOnly = false ∧ ∃ arg, s.vfs.resolve s.cwd arg = s'.renameFrom)
    (h : s' = { s with cwd := s'.cwd, pasv := s'.pasv, renameFrom := s'.renameFrom }) : s.Next ctx line s' := by
  refine ⟨by rw [h], by rw [h], by rw [h], hcwd, hrename, fun ha => .inl (by rw [h] at ha; exact ha), ?_⟩
  rw [pendingAfter_of_keeps hl, h]

theorem Session.Next.same (hl : Keeps line) (pasv : Option (BitVec 16)) : s.Next ctx line { s with pasv := pasv } :=
  .of_keeps hl .cwd (.inr (.inl rfl)) rfl

theorem Session.Next.drop (h : s.Next ctx line s') : s.Next ctx line { s' with pasv := none } :=
  ⟨h.vfs, h.readOnly, h.controlPeerIp, h.cwd, h.renameFrom, h.authed, h.pendingUser⟩

abbrev Held := Option (BitVec 16) × Option (BitVec 16)

def ports (ctx : Ctx) : Protocol FtpCall FtpCall.Answer Held where
  may held
    | .claimPort lo hi => held.1 = none ∧ lo ≤ hi ∧ lo = ctx.cfg.passivePortLo ∧ hi = ctx.cfg.passivePortHi
    | .bindHandle port => held = (none, some port)
    | .dropListener port => held.1 = some port
    | _ => True
  after held
    | .claimPort lo hi => fun cur => (none, some (claimed lo hi cur))
    | .bindHandle port => fun bound => (if bound then some port else none, held.2)
    | .dropListener _ => fun _ => (none, held.2)
    | _ => fun _ => held

/-- The protocol of a turn: the calls that it may make, and what it does with the data port. -/
def Session.turns (ctx : Ctx) (s : Session) (line : Option Command) : Protocol FtpCall FtpCall.Answer Held where
  may held c := s.Made line c ∧ (ports ctx).may held c
  after := (ports ctx).after

abbrev Turns (ctx : Ctx) (s : Session) (line : Option Command) (held : Held) (m : FtpProg (Session × Bool)) : Prop :=
  m.Tracks (s.turns ctx line) (fun held' r => s.Next ctx line r.1 ∧ r.1.pasv = held'.1) held

abbrev Still {α : Type} (ctx : Ctx) (s : Session) (line : Option Command) (held : Held) (m : FtpProg α) : Prop :=
  m.Tracks (s.turns ctx line) (fun held' _ => held' = held) held

variable {held : Held} {last : Option (BitVec 16)}

theorem answers (h : s.Next ctx line s') (hheld : s'.pasv = held.1) (code : Nat) (text : Text) :
    Turns ctx s line held (do return (s', ← reply code text)) := ⟨⟨.quiet trivial, trivial⟩, fun _ => ⟨h, hheld⟩⟩

theorem answers_same (hl : Keeps line) (code : Nat) (text : Text) :
    Turns ctx s line (s.pasv, last) (do return (s, ← reply code text)) := answers (.same hl s.pasv) rfl code text

theorem replies (code : Nat) (text : Text) : Still ctx s line held (reply code text) :=
  ⟨⟨.quiet trivial, trivial⟩, fun _ => rfl⟩

theorem withData_still (port : BitVec 16) (opening : Text) {body : FtpProg Bool} (hbody : Still ctx s line held body) :
    Still ctx s line held (s.withData port opening body) := by
  refine ⟨⟨.quiet trivial, trivial⟩, fun ok => ?_⟩
  cases ok with
  | false => rfl
  | true =>
    refine ⟨⟨.quiet trivial, trivial⟩, fun peer => ?_⟩
    cases peer with
    | none => exact replies _ _
    | some peer =>
      show Prog.Tracks _ _ _ (if peer = s.controlPeerIp then body else _)
      split
      · exact hbody
      · exact ⟨⟨.quiet trivial, trivial⟩, fun _ => ⟨⟨.quiet trivial, trivial⟩, fun _ => rfl⟩⟩

theorem transfer_turns (hl : Keeps line) (opening : Text) {body : FtpProg Bool}
    (hbody : s.pasv ≠ none → Still ctx s line (s.pasv, last) body) :
    Turns ctx s line (s.pasv, last) (s.transfer opening body) := by
  unfold Session.transfer
  cases hpasv : s.pasv with
  | none => exact answers (.same hl s.pasv) hpasv _ _
  | some port =>
    rw [hpasv] at hbody
    refine .bind (withData_still port opening (hbody (Option.some_ne_none port))) (fun held ok hheld => ?_)
    subst hheld
    exact ⟨⟨.quiet trivial, rfl⟩, fun _ => ⟨.same hl none, rfl⟩⟩

theorem pumpData_still (bytes : Bytes) : Still ctx s line held (pumpData bytes) := by
  refine ⟨⟨.quiet trivial, trivial⟩, fun sent => ⟨⟨.quiet trivial, trivial⟩, fun _ => ?_⟩⟩
  cases sent <;> exact replies _ _

theorem doCwd_turns (hl : Keeps line) (hauth : s.authed = true) (arg : Text) :
    Turns ctx s line (s.pasv, last) (s.doCwd arg) := by
  unfold Session.doCwd
  cases hv : s.vfs.resolve s.cwd arg with
  | none => exact answers_same hl _ _
  | some vpath =>
    refine ⟨⟨.lists hauth (.resolved hv), trivial⟩, fun entries => ?_⟩
    cases entries with
    | none => exact answers_same hl _ _
    | some entries =>
      have hmoved : s.Next ctx line { s with cwd := vpath } := .of_keeps hl (.resolved hv) (.inr (.inl rfl)) rfl
      exact answers hmoved rfl _ _

theorem bindLoop_tracks (hauth : s.authed = true) (hrange : ctx.cfg.passivePortLo ≤ ctx.cfg.passivePortHi) :
    ∀ (turns : Nat) (last : Option (BitVec 16)),
      (bindLoop ctx.cfg.passivePortLo ctx.cfg.passivePortHi turns).Tracks (s.turns ctx line)
        (fun held bound => bound = held.1) (none, last)
  | 0, _ => rfl
  | turns + 1, _ => by
    refine ⟨⟨.quiet trivial, rfl, hrange, rfl, rfl⟩, fun cur => ⟨⟨.bind hauth _, rfl⟩, fun bound => ?_⟩⟩
    cases bound with
    | false => exact bindLoop_tracks hauth hrange turns _
    | true => rfl

theorem openPassive_turns (hl : Keeps line) (hauth : s.authed = true) (code : Nat) (format : BitVec 16 → Text) :
    Turns ctx s line (s.pasv, last) (s.openPassive ctx code format) := by
  unfold Session.openPassive
  extract_lets bound
  have hrest : Turns ctx s line (none, last) (bound ()) := by
    unfold bound bindPassive
    split
    · exact ⟨.same hl none, rfl⟩
    next bind hbind =>
      split at hbind
      · cases hbind
      next hrange =>
        cases hbind
        refine .bind (bindLoop_tracks hauth (BitVec.not_lt.1 hrange) _ _) (fun held port hheld => ?_)
        obtain ⟨held, _⟩ := held
        subst hheld
        cases port <;> exact answers (.same hl _) rfl _ _
  cases hpasv : s.pasv with
  | none => exact hrest
  | some port => exact ⟨⟨.quiet trivial, rfl⟩, fun _ => hrest⟩

theorem doPasv_turns (hl : Keeps line) (hauth : s.authed = true) : Turns ctx s line (s.pasv, last) (s.doPasv ctx) := by
  refine ⟨⟨.quiet trivial, trivial⟩, fun ip => ?_⟩
  cases ip with
  | none => exact answers_same hl _ _
  | some ip => exact openPassive_turns hl hauth _ _

theorem doEpsv_turns (hl : Keeps line) (hauth : s.authed = true) (arg : Option Text) :
    Turns ctx s line (s.pasv, last) (s.doEpsv ctx arg) := by
  unfold Session.doEpsv
  split
  · exact answers_same hl _ _
  · exact openPassive_turns hl hauth _ _

theorem doList_turns (hl : Keeps line) (hauth : s.authed = true) (arg : Option Text) (namesOnly : Bool) :
    Turns ctx s line (s.pasv, last) (s.doList arg namesOnly) := by
  have hlisted : ∀ vpath, s.Names vpath → Turns ctx s line (s.pasv, last) (do
      match ← vitaFs (.readDir (s.vfs.toReal vpath)) with
      | none => return (s, ← reply 550 "no such directory".toList)
      | some entries =>
        let body := if namesOnly then formatNlst entries else formatList entries
        s.transfer "opening data connection".toList (pumpData (utf8 body))) := fun vpath hv => by
    refine ⟨⟨.lists hauth hv, trivial⟩, fun entries => ?_⟩
    cases entries with
    | none => exact answers_same hl _ _
    | some entries => exact transfer_turns hl _ (fun _ => pumpData_still _)
  unfold Session.doList
  cases arg with
  | none => exact hlisted s.cwd .cwd
  | some a =>
    by_cases ha : a ≠ [] ∧ a.head? ≠ some '-'
    · simp only [if_pos ha]
      cases hv : s.vfs.resolve s.cwd a with
      | none => exact answers_same hl _ _
      | some vpath => exact hlisted vpath (.resolved hv)
    · simp only [if_neg ha]
      exact hlisted s.cwd .cwd

theorem fileSize_still (hauth : s.authed = true) {vpath : Text} (hv : s.Names vpath) :
    Still ctx s line held (s.fileSize vpath) := by
  refine ⟨⟨.listsParent hauth hv, trivial⟩, fun entries => ?_⟩
  cases entries <;> rfl

theorem doRetr_turns (hl : Keeps line) (hauth : s.authed = true) (arg : Text) :
    Turns ctx s line (s.pasv, last) (s.doRetr arg) := by
  unfold Session.doRetr
  cases hv : s.vfs.resolve s.cwd arg with
  | none => exact answers_same hl _ _
  | some vpath =>
    refine .bind (fileSize_still hauth (.resolved hv)) (fun held size hheld => ?_)
    subst hheld
    cases size with
    | none => exact answers_same hl _ _
    | some size =>
      simp only
      split
      · exact answers_same hl _ _
      · refine ⟨⟨.reads hauth (.resolved hv), trivial⟩, fun bytes => ?_⟩
        cases bytes with
        | none => exact answers_same hl _ _
        | some bytes => exact transfer_turns hl _ (fun _ => pumpData_still bytes)

theorem streamLoop_still {real temp : Text} (hup : ∀ op, Uploads real temp op → s.Made line (.fs op)) (maxBytes : Nat) :
    ∀ turns total : Nat, Still ctx s line held (streamLoop temp maxBytes turns total)
  | 0, _ => rfl
  | turns + 1, total => by
    refine ⟨⟨.quiet trivial, trivial⟩, fun got => ?_⟩
    match got with
    | none => rfl
    | some [] => rfl
    | some (b :: bs) =>
      show Prog.Tracks _ _ _ (if maxBytes < total + (b :: bs).length then _ else _)
      split
      · rfl
      · refine ⟨⟨hup _ (.append (b :: bs)), trivial⟩, fun ok => ?_⟩
        cases ok with
        | false => rfl
        | true => exact streamLoop_still hup maxBytes turns _

theorem receiveUpload_still {real : Text}
    (hup : ∀ id op, Uploads real (partialName real id) op → s.Made line (.fs op)) :
    Still ctx s line held (s.receiveUpload real) := by
  refine ⟨⟨.quiet trivial, trivial⟩, fun id => ?_⟩
  have hbody : Still ctx s line held (streamToFile (partialName real id) s.maxTransferBytes) := by
    refine ⟨⟨hup id _ .write, trivial⟩, fun ok => ?_⟩
    cases ok with
    | false => rfl
    | true => exact streamLoop_still (hup id) _ _ _
  refine Prog.Tracks.bind (m := streamToFile (partialName real id) s.maxTransferBytes) hbody
    (fun held recv hheld => ⟨⟨.quiet trivial, trivial⟩, fun _ => ?_⟩)
  subst hheld
  cases recv with
  | error e => exact ⟨⟨hup id _ .removeFile, trivial⟩, fun _ => replies _ _⟩
  | ok total =>
    refine ⟨⟨hup id _ .rename, trivial⟩, fun ok => ?_⟩
    cases ok with
    | false => exact ⟨⟨hup id _ .removeFile, trivial⟩, fun _ => replies _ _⟩
    | true => exact replies _ _

theorem writes_turns (hl : Keeps line) {arg : Text} {rest : Text → FtpProg (Session × Bool)}
    (hrest : s.readOnly = false → ∀ vpath, s.vfs.resolve s.cwd arg = some vpath →
      Turns ctx s line (s.pasv, last) (rest vpath)) :
    Turns ctx s line (s.pasv, last) (do
      if s.readOnly then return (s, ← reply 550 "server is read-only".toList)
      else
        match s.vfs.resolve s.cwd arg with
        | none => return (s, ← reply 550 "invalid path".toList)
        | some vpath => rest vpath) := by
  split
  · exact answers_same hl _ _
  next hw =>
    cases hv : s.vfs.resolve s.cwd arg with
    | none => exact answers_same hl _ _
    | some vpath => exact hrest (by simpa using hw) vpath hv

theorem doStor_turns (hauth : s.authed = true) (arg : Text) :
    Turns ctx s (some (.stor arg)) (s.pasv, last) (s.doStor arg) := by
  have hl : Keeps (some (.stor arg)) := trivial
  refine writes_turns hl (fun hw vpath hv => transfer_turns hl _
    (fun hpasv => receiveUpload_still (fun id op hop => ?_)))
  exact .uploads hauth hw rfl hv hpasv id hop

theorem doSize_turns (hl : Keeps line) (hauth : s.authed = true) (arg : Text) :
    Turns ctx s line (s.pasv, last) (s.doSize arg) := by
  unfold Session.doSize
  cases hv : s.vfs.resolve s.cwd arg with
  | none => exact answers_same hl _ _
  | some vpath =>
    refine .bind (fileSize_still hauth (.resolved hv)) (fun held size hheld => ?_)
    subst hheld
    cases size <;> exact answers_same hl _ _

theorem doDele_turns (hl : Keeps line) (hauth : s.authed = true) (arg : Text) :
    Turns ctx s line (s.pasv, last) (s.doDele arg) := by
  refine writes_turns hl (fun hw vpath hv => ⟨⟨.removes hauth hw (.resolved hv), trivial⟩, fun ok => ?_⟩)
  cases ok <;> exact answers_same hl _ _

theorem doMkd_turns (hl : Keeps line) (hauth : s.authed = true) (arg : Text) :
    Turns ctx s line (s.pasv, last) (s.doMkd arg) := by
  refine writes_turns hl (fun hw vpath hv => ⟨⟨.creates hauth hw (.resolved hv), trivial⟩, fun ok => ?_⟩)
  cases ok <;> exact answers_same hl _ _

theorem doRnfr_turns (hl : Keeps line) (arg : Text) : Turns ctx s line (s.pasv, last) (s.doRnfr arg) := by
  refine writes_turns hl (fun hw vpath hv => ?_)
  have hnamed : s.Next ctx line { s with renameFrom := some vpath } := .of_keeps hl .cwd (.inr (.inr ⟨hw, arg, hv⟩)) rfl
  exact answers hnamed rfl _ _

theorem doRnto_turns (hl : Keeps line) (hauth : s.authed = true) (arg : Text) :
    Turns ctx s line (s.pasv, last) (s.doRnto arg) := by
  unfold Session.doRnto
  cases hfrom : s.renameFrom with
  | none => exact answers_same hl _ _
  | some source =>
    have hused : s.Next ctx line { s with renameFrom := none } := .of_keeps hl .cwd (.inl rfl) rfl
    simp only
    cases hv : s.vfs.resolve s.cwd arg with
    | none => exact answers hused rfl _ _
    | some target =>
      refine ⟨⟨.renames hauth hfrom (.resolved hv), trivial⟩, fun ok => ?_⟩
      cases ok <;> exact answers hused rfl _ _

theorem guarded_turns (hl : Keeps line) {m : FtpProg (Session × Bool)}
    (hm : s.authed = true → Turns ctx s line (s.pasv, last) m) : Turns ctx s line (s.pasv, last)
      (if !s.authed then (do return (s, ← reply 530 "please login with USER and PASS".toList)) else m) := by
  cases hauth : s.authed with
  | false => exact answers_same hl _ _
  | true => exact hm hauth

theorem pass_turns (ctx : Ctx) (s : Session) (password : Text) :
    Turns ctx s (some (.pass password)) (s.pasv, last) (s.dispatch ctx (.pass password)) := by
  unfold Session.dispatch
  simp only
  split
  next hmatch =>
    have hin : s.Next ctx (some (.pass password)) { s with pendingUser := none, authed := true } :=
      ⟨rfl, rfl, rfl, .cwd, .inr (.inl rfl), fun _ => .inr ⟨password, rfl, hmatch⟩, rfl⟩
    exact answers hin rfl _ _
  · have hout : s.Next ctx (some (.pass password)) { s with pendingUser := none } :=
      ⟨rfl, rfl, rfl, .cwd, .inr (.inl rfl), .inl, rfl⟩
    exact answers hout rfl _ _

theorem dispatch_turns (ctx : Ctx) (s : Session) (cmd : Command) :
    Turns ctx s (some cmd) (s.pasv, last) (s.dispatch ctx cmd) := by
  cases cmd with
  | user name =>
    have hnamed : s.Next ctx (some (.user name)) { s with pendingUser := some name } :=
      ⟨rfl, rfl, rfl, .cwd, .inr (.inl rfl), .inl, rfl⟩
    exact answers hnamed rfl _ _
  | pass password => exact pass_turns ctx s password
  | quit | feat => exact ⟨⟨.quiet trivial, trivial⟩, fun _ => ⟨.same (by trivial) s.pasv, rfl⟩⟩
  | syst | noop => exact answers_same (by trivial) _ _
  | type _ | pwd | rmd _ | unknown _ => exact guarded_turns (by trivial) (fun _ => answers_same (by trivial) _ _)
  | cwd arg => exact guarded_turns (by trivial) (fun h => doCwd_turns (by trivial) h arg)
  | cdup => exact guarded_turns (by trivial) (fun h => doCwd_turns (by trivial) h _)
  | pasv => exact guarded_turns (by trivial) (fun h => doPasv_turns (by trivial) h)
  | epsv arg => exact guarded_turns (by trivial) (fun h => doEpsv_turns (by trivial) h arg)
  | list arg => exact guarded_turns (by trivial) (fun h => doList_turns (by trivial) h arg false)
  | nlst arg => exact guarded_turns (by trivial) (fun h => doList_turns (by trivial) h arg true)
  | retr arg => exact guarded_turns (by trivial) (fun h => doRetr_turns (by trivial) h arg)
  | stor arg => exact guarded_turns (by trivial) (fun h => doStor_turns h arg)
  | size arg => exact guarded_turns (by trivial) (fun h => doSize_turns (by trivial) h arg)
  | dele arg => exact guarded_turns (by trivial) (fun h => doDele_turns (by trivial) h arg)
  | mkd arg => exact guarded_turns (by trivial) (fun h => doMkd_turns (by trivial) h arg)
  | rnfr arg => exact guarded_turns (by trivial) (fun _ => doRnfr_turns (by trivial) arg)
  | rnto arg => exact guarded_turns (by trivial) (fun h => doRnto_turns (by trivial) h arg)

theorem close_turns (h : s.Next ctx line s') : Turns ctx s line (s'.pasv, last) s'.close := by
  unfold Session.close
  cases hpasv : s'.pasv with
  | none => exact ⟨h, hpasv⟩
  | some port => exact ⟨⟨.quiet trivial, rfl⟩, fun _ => ⟨h.drop, rfl⟩⟩

theorem turn_turns (ctx : Ctx) (s : Session) (line : Option Command) (last : Option (BitVec 16)) :
    Turns ctx s line (s.pasv, last) (s.turn ctx line) := by
  cases line with
  | none => exact close_turns (.same (by trivial) s.pasv)
  | some cmd =>
    refine .bind (dispatch_turns ctx s cmd) (fun held r hr => ?_)
    obtain ⟨s', goesOn⟩ := r
    obtain ⟨_, last⟩ := held
    obtain ⟨hnext, rfl⟩ := hr
    cases goesOn with
    | false => exact close_turns hnext
    | true => exact ⟨hnext, rfl⟩

theorem turn_meets (ctx : Ctx) (s : Session) (line : Option Command) :
    (s.turn ctx line).Meets (s.Made line) (fun r => s.Next ctx line r.1) :=
  Prog.Tracks.meets (p := s.turns ctx line) (fun _ _ h => h.1) (fun _ _ h => h.1)
    (turn_turns ctx s line none)

end

/-! ## The connection -/

/-- A control connection: its session, what is around it, the calls it has made, and whether it is over. -/
structure Live (σ : Type) where
  session : Session
  world : σ
  log : List FtpCall := []
  ended : Bool := false

section

variable {σ : Type} (env : (c : FtpCall) → σ → c.Answer × σ) (ctx : Ctx)

def Live.start (peer : IpAddr) (world : σ) : Live σ :=
  let greeting := env (.reply 220 "ts-ftp ready".toList) world
  { session := Session.new ctx peer
    world := greeting.2
    log := [.reply 220 "ts-ftp ready".toList]
    ended := !greeting.1 }

def Live.made (l : Live σ) (line : Option Command) : List FtpCall :=
  if l.ended then [] else (l.session.turn ctx line).calls env l.world

def Live.step (l : Live σ) (line : Option Command) : Live σ :=
  if l.ended then l
  else
    let r := (l.session.turn ctx line).exec env l.world
    { session := r.1.1, world := r.2, log := l.log ++ l.made env ctx line, ended := !r.1.2 }

theorem live_step (l : Live σ) (line : Option Command) :
    (l.ended = true ∧ l.step env ctx line = l ∧ l.made env ctx line = []) ∨
    (l.ended = false ∧ l.session.Next ctx line (l.step env ctx line).session ∧
      (∀ c ∈ l.made env ctx line, l.session.Made line c) ∧
      (l.step env ctx line).log = l.log ++ l.made env ctx line) := by
  unfold Live.step Live.made
  cases hover : l.ended with
  | true => exact .inl ⟨rfl, rfl, rfl⟩
  | false =>
    obtain ⟨hcalls, hnext⟩ := (turn_meets ctx l.session line).exec env l.world
    exact .inr ⟨rfl, hnext, hcalls, rfl⟩

end

end TailscaleVita.Ftp

import TailscaleVita.CtlNetmap
import TailscaleVita.LittleEndian
/-!
# CtlMap — a map session and what it persists (`ts-control/src/map.rs`, `ts-control/src/error.rs`)

A session's resume token, sequence number and handle, lives in two files of the state directory.
-/
namespace TailscaleVita.Ctl

/-- Why a control call failed; the texts no decision reads are left out. -/
inductive ControlError where
  | io
  | http (status : BitVec 16)
  | transport (message : Text)
  | json
  | badServerKey
  | serverKeyChanged
  | unpinnedHttpControl
  | url
  | httpParse
  | authRejected
  | mapWatchdog
  | mapFrameTooLarge
  | mapDecode
  | mapConnectionLost
  | tls
deriving DecidableEq

inductive HandleFile where
  | notFound
  | unreadable
  | utf8 (text : Text)
  | notUtf8
deriving DecidableEq

/-- The two session files; `lastSeq` is `none` when it cannot be read, for whatever reason. -/
structure StateDir where
  lastSeq : Option Bytes := none
  sessionHandle : HandleFile := .notFound
deriving DecidableEq

inductive Replacing where
  | done
  | kept
  | removed
deriving DecidableEq

namespace StateDir

def i64OfLeBytes (bs : Bytes) : Int64 := Int64.ofBitVec (fromLeBytes 64 bs)

def i64ToLeBytes (x : Int64) : Bytes := leBytes 8 x.toBitVec.toNat

def loadLastSeq (dir : StateDir) : Int64 :=
  match dir.lastSeq with
  | some b => if b.length = 8 then i64OfLeBytes b else 0
  | none => 0

def loadHandle (dir : StateDir) : Except ControlError Text :=
  match dir.sessionHandle with
  | .utf8 s => .ok (trim s)
  | .notUtf8 => .ok []
  | .notFound => .ok []
  | .unreadable => .error .io

def loadSessionState (dir : StateDir) : Except ControlError (Int64 × Text) :=
  match dir.loadHandle with
  | .ok h => .ok (dir.loadLastSeq, h)
  | .error e => .error e

def persistLastSeq (dir : StateDir) (seq : Int64) : (how : Replacing := .done) → StateDir
  | .done => { dir with lastSeq := some (i64ToLeBytes seq) }
  | .kept => dir
  | .removed => { dir with lastSeq := none }

def persistSessionHandle (dir : StateDir) (handle : Text) : (how : Replacing := .done) → StateDir
  | .done => { dir with sessionHandle := .utf8 handle }
  | .kept => dir
  | .removed => { dir with sessionHandle := .notFound }

inductive Deletion where
  | removed
  | emptied
  | left
deriving DecidableEq

def deleteSessionState (dir : StateDir) (seqFile handleFile : Deletion) : StateDir where
  lastSeq := match seqFile with
    | .removed => none
    | .emptied => some []
    | .left => dir.lastSeq
  sessionHandle := match handleFile with
    | .removed => .notFound
    | .emptied => .utf8 []
    | .left => dir.sessionHandle

theorem loadSessionState_ok {dir : StateDir} {q : Int64} {hd : Text} (h : dir.loadSessionState = .ok (q, hd)) :
    dir.loadLastSeq = q ∧ dir.loadHandle = .ok hd := by
  unfold loadSessionState at h
  split at h
  next hd' hload =>
    cases h
    exact ⟨rfl, hload⟩
  · cases h

variable (dir : StateDir)

@[simp] theorem loadHandle_persistSessionHandle (h : Text) :
    (dir.persistSessionHandle h).loadHandle = .ok (trim h) := rfl

end StateDir

structure NetMapSnapshot where
  seq : Int64
  ourAddrs : List AllowedIp
  peerCount : Nat
  derpRegionCount : Nat
  packetFilter : Option PacketFilter
  delta : NetMapDelta

def snapshotOf (r : NetMap × NetMapDelta) : NetMapSnapshot where
  seq := r.2.seq
  ourAddrs := r.1.ourAddrs
  peerCount := r.1.peers.keys.card
  derpRegionCount := r.1.derpRegions.keys.card
  packetFilter := r.1.packetFilter
  delta := r.2

inductive MapEvent where
  | snapshot (snap : NetMapSnapshot)
  | keepAlive (seq : Int64)
  | idle

structure MapRequest where
  mapSessionSeq : Int64
  mapSessionHandle : Text
deriving DecidableEq

structure MapClient where
  netmap : NetMap

namespace MapClient

/-- `MapClient::start`: the request sent, if any, and the client; `opened` is how the server answers. -/
def start (dir : StateDir) (opened : Except ControlError Unit) :
    Option MapRequest × Except ControlError MapClient :=
  match dir.loadSessionState with
  | .error e => (none, .error e)
  | .ok (lastSeq, sessionHandle) =>
    match opened with
    | .error e => (some ⟨lastSeq, sessionHandle⟩, .error e)
    | .ok () => (some ⟨lastSeq, sessionHandle⟩, .ok ⟨{ lastSeq := lastSeq, sessionHandle := sessionHandle }⟩)

structure FrameIo where
  seqFile : Replacing := .done
  handleFile : Replacing := .done

def afterSeqWrite (dir : StateDir) (seq : Int64) : StateDir := if 0 < seq then dir.persistLastSeq seq else dir

def handleFrame (c : MapClient) (dir : StateDir) (ord : HashOrder NodeKey) (io : FrameIo) (resp : MapResponseWire) :
    MapClient × StateDir × Except ControlError MapEvent :=
  if resp.keepAlive then (c, dir, .ok (.keepAlive resp.seq))
  else
    let prevHandle := c.netmap.sessionHandle
    let r := c.netmap.apply ord resp
    if 0 < r.2.seq ∧ io.seqFile ≠ .done then (⟨r.1⟩, dir.persistLastSeq r.2.seq io.seqFile, .error .io)
    else
      let dir := afterSeqWrite dir r.2.seq
      if r.1.sessionHandle ≠ [] ∧ r.1.sessionHandle ≠ prevHandle then
        let dir := dir.persistSessionHandle r.1.sessionHandle io.handleFile
        if io.handleFile = .done then (⟨r.1⟩, dir, .ok (.snapshot (snapshotOf r))) else (⟨r.1⟩, dir, .error .io)
      else (⟨r.1⟩, dir, .ok (.snapshot (snapshotOf r)))

inductive Polled where
  | frame (io : FrameIo) (resp : MapResponseWire)
  | timeout
  | error (e : ControlError)

def nextEvent (c : MapClient) (dir : StateDir) (ord : HashOrder NodeKey) :
    Polled → MapClient × StateDir × Except ControlError MapEvent
  | .frame io resp => c.handleFrame dir ord io resp
  | .timeout => (c, dir, .ok .idle)
  | .error e => (c, dir, .error e)

theorem start_ok {dir : StateDir} {opened : Except ControlError Unit} {req : Option MapRequest} {c : MapClient}
    (h : start dir opened = (req, .ok c)) :
    ∃ q hd, dir.loadSessionState = .ok (q, hd) ∧ req = some ⟨q, hd⟩ ∧
      c.netmap = { lastSeq := q, sessionHandle := hd } := by
  unfold start at h
  cases hl : dir.loadSessionState with
  | error e =>
    rw [hl] at h
    cases h
  | ok p =>
    obtain ⟨q, hd⟩ := p
    rw [hl] at h
    cases opened with
    | error e => cases h
    | ok u =>
      cases h
      exact ⟨q, hd, rfl, rfl, rfl⟩

end MapClient

end TailscaleVita.Ctl

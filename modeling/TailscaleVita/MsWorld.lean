import TailscaleVita.MsState
import TailscaleVita.Threads
/-!
# MsWorld — magicsock's threads (`ts-magicsock/src/lib.rs`)

A call that takes the lock more than once is a `Task` between two acquisitions: it has read its clock, its scan or its
sender's node, and other calls may come in before it goes on. Opening a datagram is the AEAD's part: what a handler
sees is the sender's key and the message, or nothing. `called` and `did` say once what a request and a section can do.
-/
namespace TailscaleVita.Ms

open Ctl (NodeKey)

inductive DiscoMessage where
  | ping (txId : TxId)
  | pong (txId : TxId)
  | callMeMaybe (endpoints : List SocketAddr)
deriving DecidableEq

abbrev Opened := Option (DiscoKey × DiscoMessage)

inductive AfterPings where
  | cmmPump
  | nothing
deriving DecidableEq

abbrev PingJob := NodeKey × DiscoKey × SocketAddr

inductive Task where
  | finished
  | scanning (now : Instant)
  | pinging (now : Instant) (jobs : List PingJob) (after : AfterPings)
  | recording (now : Instant) (nodePub : NodeKey) (addr : SocketAddr) (txId : TxId) (jobs : List PingJob)
      (after : AfterPings)
  | cmmScanning (now : Instant)
  | cmmQueueing (now : Instant) (endpoints : List SocketAddr) (peers : List (NodeKey × DiscoKey))
  | calledMaybe (now : Instant) (senderPub : DiscoKey) (advertised : List SocketAddr)
  | pinged (senderPub : DiscoKey) (src : SocketAddr) (txId : TxId)
  | learning (now : Instant) (nodePub : NodeKey) (senderPub : DiscoKey) (src : SocketAddr) (txId : TxId)
  | ponged (now : Instant) (senderPub : DiscoKey) (src : SocketAddr) (txId : TxId)
  | accepting (now : Instant) (senderPub : DiscoKey) (src : SocketAddr) (txId : TxId)
  | picking (nodePub : NodeKey)
  | registering (nodePub : NodeKey) (target : SocketAddr) (discoPub : DiscoKey)
  | sending (nodePub : NodeKey) (target : SocketAddr) (txId : TxId)
  | awaiting (txId : TxId)
  | givingUp (txId : TxId) (error : MagicState.MagicError)
  | returned (result : Except MagicState.MagicError (SocketAddr × Nat))

inductive Observed where
  | sent (nodePub : NodeKey) (addr : SocketAddr) (txId : TxId)
  | pong (at' : Instant) (src : SocketAddr) (senderPub : DiscoKey) (txId : TxId)
  /-- A pong was taken for the answer of `addr`, on account of `nodePub`. -/
  | answered (nodePub : NodeKey) (addr : SocketAddr) (txId : TxId)
  | replied (senderPub : DiscoKey) (src : SocketAddr) (txId : TxId)
deriving DecidableEq

inductive Request where
  | upsertPeer (ord : Orders) (nodePub : NodeKey) (discoPub : DiscoKey) (endpoints : List SocketAddr)
  | removePeer (nodePub : NodeKey)
  | setLocalEndpoints (endpoints : List SocketAddr)
  | takePendingCmm
  | pump
  | datagram (src : SocketAddr) (opened : Opened)
  | derpFrame (opened : Opened)
  | pingNow (nodePub : NodeKey)

/-- What a section meets: the orders of the hash maps, the id drawn for a ping and whether it could be sent, the bytes
of a CallMeMaybe if it could be built, and whether a `ping_now` gives up. -/
structure Met where
  ord : Orders
  txId : TxId := 0
  sends : Bool := true
  built : Option Bytes := none
  timedOut : Bool := true

def handleDisco (now : Instant) (src : SocketAddr) : Opened → Option Task × List Observed
  | some (senderPub, .ping txId) => (some (.pinged senderPub src txId), [])
  | some (senderPub, .pong txId) => (some (.ponged now senderPub src txId), [.pong now src senderPub txId])
  | some (senderPub, .callMeMaybe endpoints) => (some (.calledMaybe now senderPub endpoints), [])
  | none => (none, [])

def handleDiscoFromDerp (now : Instant) : Opened → Option Task
  | some (senderPub, .callMeMaybe endpoints) => some (.calledMaybe now senderPub endpoints)
  | _ => none

def call (now : Instant) (s : MagicState) : Request → MagicState × Option Task × List Observed
  | .upsertPeer ord nodePub discoPub endpoints => (s.upsertPeer ord now nodePub discoPub endpoints, none, [])
  | .removePeer nodePub => (s.removePeer nodePub, none, [])
  | .setLocalEndpoints endpoints => ({ s with localEndpoints := endpoints }, none, [])
  | .takePendingCmm => ({ s with cmmPending := [] }, none, [])
  | .pump => (s, some (.scanning now), [])
  | .datagram src opened => (s, handleDisco now src opened)
  | .derpFrame opened => (s, handleDiscoFromDerp now opened, [])
  | .pingNow nodePub => (s, some (.picking nodePub), [])

def AfterPings.task (now : Instant) : AfterPings → Task
  | .cmmPump => .cmmScanning now
  | .nothing => .finished

def resume (now id : Nat) (s : MagicState) (t : Task) (met : Met) : MagicState × Task × List Observed :=
  match t with
  | .finished => (s, .finished, [])
  | .scanning at' => (s, .pinging at' (s.toPing met.ord at') .cmmPump, [])
  | .pinging at' [] after => (s, after.task at', [])
  | .pinging at' ((nodePub, _, addr) :: jobs) after =>
    -- no socket for the address, or the send failed
    if met.sends then (s, .recording at' nodePub addr met.txId jobs after, [.sent nodePub addr met.txId])
    else (s, .pinging at' jobs after, [])
  | .recording at' nodePub addr txId jobs after =>
    (s.recordPing at' nodePub addr txId, .pinging at' jobs after, [])
  | .cmmScanning at' =>
    let r := s.toCmm met.ord at'
    (s, .cmmQueueing at' r.1 r.2, [])
  | .cmmQueueing _ _ [] => (s, .finished, [])
  | .cmmQueueing at' endpoints ((nodePub, _) :: peers) =>
    match met.built with
    | some bytes => (s.queueCmm at' nodePub bytes, .cmmQueueing at' endpoints peers, [])
    | none => (s, .cmmQueueing at' endpoints peers, [])
  | .calledMaybe at' senderPub advertised =>
    let r := s.mergeEndpoints senderPub advertised
    match r.2 with
    | some (nodePub, discoPub) =>
      (r.1, .pinging at' (advertised.map (fun ep => (nodePub, discoPub, ep))) .nothing, [])
    | none => (r.1, .finished, [])
  | .pinged senderPub src txId =>
    match s.discoToNode.lookup senderPub with
    | some nodePub => (s, .learning now nodePub senderPub src txId, [])
    | none => (s, .finished, [.replied senderPub src txId])
  | .learning at' nodePub senderPub src txId =>
    (s.learnSource at' nodePub src, .finished, [.replied senderPub src txId])
  | .ponged at' senderPub src txId =>
    (s.returnPing at' txId, .accepting at' senderPub src txId, [])
  | .accepting at' senderPub src txId =>
    let r := s.acceptPong at' senderPub src txId
    (r.1, .finished,
      match r.2 with
      | some nodePub => [.answered nodePub src txId]
      | none => [])
  | .picking nodePub =>
    match s.pickTarget met.ord now nodePub with
    | .ok (target, discoPub) => (s, .registering nodePub target discoPub, [])
    | .error e => (s, .returned (.error e), [])
  | .registering nodePub target _ => (s.registerPing now met.txId target id, .sending nodePub target met.txId, [])
  | .sending nodePub target txId =>
    if met.sends then (s, .awaiting txId, [.sent nodePub target txId])
    else (s, .givingUp txId .sendFailed, [])
  | .awaiting txId =>
    match s.channels.lookup id with
    | some result => (s, .returned (.ok result), [])
    | none => if met.timedOut then (s, .givingUp txId .pingTimeout, []) else (s, .awaiting txId, [])
  | .givingUp txId e => (s.unregisterPing txId, .returned (.error e), [])
  | .returned result => (s, .returned result, [])

theorem acceptPong_none {s : MagicState} {now : Instant} {d : DiscoKey} {src : SocketAddr} {tx : TxId}
    (h : (s.acceptPong now d src tx).2 = none) : (s.acceptPong now d src tx).1 = s := by
  unfold MagicState.acceptPong at h ⊢
  split
  · rfl
  · split
    · rfl
    · split
      · rfl
      · split
        next htx => simp_all
        · rfl

def Task.isOpen : Task → Bool
  | .recording .. => true
  | .ponged .. => true
  | .accepting .. => true
  | _ => false

inductive Called (now : Instant) : Option Task × List Observed → Prop where
  | pong (d : DiscoKey) (src : SocketAddr) (tx : TxId) :
      Called now (some (.ponged now d src tx), [.pong now src d tx])
  | other {started : Option Task} (ht : ∀ t, started = some t → t.isOpen = false := by simp [Task.isOpen]) :
      Called now (started, [])

theorem called (now : Instant) (s : MagicState) (request : Request) : Called now (call now s request).2 := by
  cases request with
  | datagram src opened =>
    rcases opened with _ | ⟨d, message⟩
    · exact .other
    · cases message with
      | pong tx => exact .pong d src tx
      | _ => exact .other
  | derpFrame opened =>
    simp only [call, handleDiscoFromDerp]
    split <;> exact .other
  | _ => exact .other

inductive Quiet (s : MagicState) : MagicState → Prop where
  | kept {s' : MagicState} (h : s'.peers = s.peers := by rfl) (hd : s'.discoToNode = s.discoToNode := by rfl) :
      Quiet s s'
  | merged (d : DiscoKey) (advertised : List SocketAddr) : Quiet s (s.mergeEndpoints d advertised).1
  | learned (at' : Instant) (n : NodeKey) (src : SocketAddr) : Quiet s (s.learnSource at' n src)

inductive Did (s : MagicState) : Task → MagicState × Task × List Observed → Prop where
  | sends (at' : Instant) (n : NodeKey) (d : DiscoKey) (a : SocketAddr) (jobs : List PingJob) (after : AfterPings)
      (tx : TxId) :
      Did s (.pinging at' ((n, d, a) :: jobs) after) (s, .recording at' n a tx jobs after, [.sent n a tx])
  | records (at' : Instant) (n : NodeKey) (a : SocketAddr) (tx : TxId) (jobs : List PingJob) (after : AfterPings) :
      Did s (.recording at' n a tx jobs after) (s.recordPing at' n a tx, .pinging at' jobs after, [])
  | passes (at' : Instant) (d : DiscoKey) (src : SocketAddr) (tx : TxId) :
      Did s (.ponged at' d src tx) (s.returnPing at' tx, .accepting at' d src tx, [])
  | answers (at' : Instant) (d : DiscoKey) (src : SocketAddr) (tx : TxId) (n : NodeKey)
      (hn : (s.acceptPong at' d src tx).2 = some n) :
      Did s (.accepting at' d src tx) ((s.acceptPong at' d src tx).1, .finished, [.answered n src tx])
  | other {t : Task} {r : MagicState × Task × List Observed} (hq : Quiet s r.1 := by exact .kept)
      (ht : r.2.1.isOpen = false := by rfl) (hlog : ∀ n a tx, .answered n a tx ∉ r.2.2 := by simp) : Did s t r

theorem did (now id : Nat) (s : MagicState) (t : Task) (met : Met) : Did s t (resume now id s t met) := by
  cases t with simp only [resume]
  | recording at' n a tx jobs after => exact .records at' n a tx jobs after
  | ponged at' d src tx => exact .passes at' d src tx
  | accepting at' d src tx =>
    cases hm : (s.acceptPong at' d src tx).2 with
    | some n => exact .answers at' d src tx n hm
    | none =>
      rw [acceptPong_none hm]
      exact .other
  | pinging at' jobs after =>
    rcases jobs with _ | ⟨⟨n, d, a⟩, jobs⟩
    · cases after <;> exact .other
    · simp only
      split
      · exact .sends at' n d a jobs after met.txId
      · exact .other
  | cmmQueueing at' endpoints peers =>
    rcases peers with _ | ⟨⟨n, d⟩, peers⟩
    · exact .other
    · simp only
      split <;> exact .other
  | calledMaybe at' d advertised =>
    have hmerge : Quiet s (s.mergeEndpoints d advertised).1 := .merged d advertised
    split <;> exact .other hmerge
  | learning at' n d src => exact .other (.learned at' n src)
  | pinged | picking | sending => split <;> exact .other
  | awaiting tx =>
    split
    · exact .other
    · split <;> exact .other
  | _ => exact .other

def magicsock : Threads MagicState Task Observed Request Met where
  call := call
  resume := resume

abbrev MagicWorld := World MagicState Task Observed

abbrev MagicEvent := WorldEvent Request Met

def bound : MagicWorld := { shared := {} }

def socketAfter (es : List MagicEvent) : MagicWorld := run (World.step magicsock) bound es

end TailscaleVita.Ms

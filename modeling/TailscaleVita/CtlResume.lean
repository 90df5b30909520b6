import TailscaleVita.CtlMap
import TailscaleVita.CtlNodeTable
/-!
# CtlResume — the resume token across frames, crashes and restarts

A run is any sequence of starts, frames, crashes between a frame's two writes, and ends of a session, on one state
directory. `log` remembers every frame received with the session it belongs to: the one its handle names, or the one in
force when it carries none.
-/
namespace TailscaleVita.Ctl

open MapClient

inductive ClientState where
  | none
  | live (c : MapClient)
  | failed (c : MapClient)

structure SessionWorld where
  dir : StateDir := {}
  client : ClientState := .none
  log : List (Text × MapResponseWire) := []

inductive SessionEvent where
  | start (opened : Except ControlError Unit)
  | frame (ord : HashOrder NodeKey) (io : MapClient.FrameIo) (resp : MapResponseWire)
  | crash (ord : HashOrder NodeKey) (resp : MapResponseWire)
  | stop
  | forget (seqFile handleFile : StateDir.Deletion)

def handleAfter (c : MapClient) (resp : MapResponseWire) : Text :=
  if resp.mapSessionHandle.isEmpty then c.netmap.sessionHandle else resp.mapSessionHandle

def seqAfter (c : MapClient) (resp : MapResponseWire) : Int64 :=
  if c.netmap.lastSeq < resp.seq then resp.seq else c.netmap.lastSeq

def logFrame (log : List (Text × MapResponseWire)) (c : MapClient) (resp : MapResponseWire) :
    List (Text × MapResponseWire) := if resp.keepAlive then log else log ++ [(handleAfter c resp, resp)]

namespace SessionWorld

def step (w : SessionWorld) : SessionEvent → SessionWorld
  | .start opened =>
    match (start w.dir opened).2 with
    | .ok c => { w with client := .live c }
    | .error _ => { w with client := .none }
  | .frame ord io resp =>
    match w.client with
    | .live c =>
      let r := c.handleFrame w.dir ord io resp
      { dir := r.2.1
        client := match r.2.2 with
          | .ok _ => .live r.1
          | .error _ => .failed r.1
        log := logFrame w.log c resp }
    | _ => w
  | .crash ord resp =>
    match w.client with
    | .live c =>
      { dir := if resp.keepAlive then w.dir else afterSeqWrite w.dir (c.netmap.apply ord resp).2.seq
        client := .none
        log := logFrame w.log c resp }
    | _ => { w with client := .none }
  | .stop => { w with client := .none }
  | .forget seqFile handleFile => { w with dir := w.dir.deleteSessionState seqFile handleFile, client := .none }

end SessionWorld

/-! ## The pair of handle and sequence number -/

/-- Paired: the number is 0, or was received in a frame of the session the handle names. -/
def Paired (log : List (Text × MapResponseWire)) (handle : Text) (seq : Int64) : Prop :=
  seq = 0 ∨ ∃ f ∈ log, f.1 = handle ∧ f.2.seq = seq

instance (log : List (Text × MapResponseWire)) (handle : Text) (seq : Int64) : Decidable (Paired log handle seq) :=
  inferInstanceAs (Decidable (_ ∨ _))

theorem Paired.logFrame {log : List (Text × MapResponseWire)} {handle : Text} {seq : Int64}
    (h : Paired log handle seq) (c : MapClient) (resp : MapResponseWire) : Paired (logFrame log c resp) handle seq := by
  unfold Ctl.logFrame
  split
  · exact h
  · exact h.imp_right (fun ⟨f, hf, hs⟩ => ⟨f, List.mem_append_left _ hf, hs⟩)

variable {resp : MapResponseWire}

structure Linked (dir : StateDir) (c : MapClient) : Prop where
  nonneg : ¬ c.netmap.lastSeq < 0
  seq : dir.loadLastSeq = c.netmap.lastSeq
  handle : ∃ hd, dir.loadHandle = .ok hd ∧ (hd = c.netmap.sessionHandle ∨ hd = trim c.netmap.sessionHandle)

variable {w : SessionWorld}

variable {c : MapClient}

theorem apply_token (ord : HashOrder NodeKey) (c : MapClient) (resp : MapResponseWire) :
    (c.netmap.apply ord resp).1.lastSeq = seqAfter c resp ∧
      (c.netmap.apply ord resp).1.sessionHandle = handleAfter c resp ∧
      (c.netmap.apply ord resp).2.seq = seqAfter c resp := by
  rw [NetMap.apply_delta_seq]
  exact ⟨NetMap.apply_lastSeq ord _ resp, NetMap.apply_sessionHandle ord _ resp, NetMap.apply_lastSeq ord _ resp⟩

theorem handleFrame_cases (c : MapClient) (dir : StateDir) (ord : HashOrder NodeKey) (io : MapClient.FrameIo)
    (hk : resp.keepAlive = false) :
    let r := c.handleFrame dir ord io resp
    r.1.netmap.lastSeq = seqAfter c resp ∧ r.1.netmap.sessionHandle = handleAfter c resp ∧
      ((∃ e, r.2.2 = .error e) ∧
          (io.seqFile ≠ .done ∧ r.2.1 = dir.persistLastSeq (seqAfter c resp) io.seqFile ∨
            io.handleFile ≠ .done ∧ handleAfter c resp ≠ c.netmap.sessionHandle ∧
              r.2.1 = (afterSeqWrite dir (seqAfter c resp)).persistSessionHandle (handleAfter c resp) io.handleFile) ∨
        (∃ ev, r.2.2 = .ok ev) ∧
          (r.2.1 = (afterSeqWrite dir (seqAfter c resp)).persistSessionHandle (handleAfter c resp) ∨
            (handleAfter c resp = [] ∨ handleAfter c resp = c.netmap.sessionHandle) ∧
              r.2.1 = afterSeqWrite dir (seqAfter c resp))) := by
  obtain ⟨hseq, hhandle, hdelta⟩ := apply_token ord c resp
  simp only [handleFrame, hk, Bool.false_eq_true, if_false, hdelta, hhandle]
  split
  next hw => exact ⟨hseq, hhandle, .inl ⟨⟨_, rfl⟩, .inl ⟨hw.2, rfl⟩⟩⟩
  · split
    next hnew =>
      split
      next hw =>
        rw [hw]
        exact ⟨hseq, hhandle, .inr ⟨⟨_, rfl⟩, .inl rfl⟩⟩
      next hw => exact ⟨hseq, hhandle, .inl ⟨⟨_, rfl⟩, .inr ⟨hw, hnew.2, rfl⟩⟩⟩
    next hsame =>
      refine ⟨hseq, hhandle, .inr ⟨⟨_, rfl⟩, .inr ⟨?_, rfl⟩⟩⟩
      rwa [not_and_or, not_not, not_not] at hsame

theorem loadHandle_afterSeqWrite (dir : StateDir) (seq : Int64) :
    (afterSeqWrite dir seq).loadHandle = dir.loadHandle := by
  unfold afterSeqWrite
  split <;> rfl

section

variable {w : SessionWorld} {c : MapClient} {resp : MapResponseWire}

theorem handleAfter_eq_nil (h : handleAfter c resp = []) : handleAfter c resp = c.netmap.sessionHandle := by
  unfold handleAfter at h ⊢
  split
  · rfl
  next hne =>
    rw [if_neg hne] at h
    rw [h] at hne
    exact absurd rfl hne

end

section

variable {w : SessionWorld} {c : MapClient} {resp : MapResponseWire}

end

def serverNetmap (ord : HashOrder NodeKey) (log : List (Text × MapResponseWire)) (handle : Text) (seq : Int64) :
    NetMap :=
  let sent := log.filter (fun f => decide (f.1 = handle ∧ f.2.seq ≤ seq))
  { netmapAfter (sent.map (fun f => (ord, f.2))) with lastSeq := seq, sessionHandle := handle }

/-- **A resumed session is sound exactly when there was nothing to resume**: in every run, the netmap a session starts
from is the one the server had at the number requested only if that one is empty. -/
theorem resumed_netmap_iff_nothing_sent (es : List SessionEvent) (opened : Except ControlError Unit)
    (ord : HashOrder NodeKey) (req : MapRequest) (c : MapClient)
    (h : start (run SessionWorld.step {} es).dir opened = (some req, .ok c)) :
    let server := serverNetmap ord (run SessionWorld.step {} es).log req.mapSessionHandle req.mapSessionSeq
    (c.netmap = server ↔ server = { lastSeq := req.mapSessionSeq, sessionHandle := req.mapSessionHandle }) ∧
      ∀ k ∈ server.peers.keys, k ∉ c.netmap.peers.keys := by
  intro server
  obtain ⟨q, hd, -, hreq, hnm⟩ := start_ok h
  cases hreq
  rw [hnm]
  exact ⟨eq_comm, fun k _ hk => Finset.notMem_empty k hk⟩

theorem MapClient.start_of_loaded {dir : StateDir} {q : Int64} {hd : Text} (h : dir.loadSessionState = .ok (q, hd)) :
    start dir (.ok ()) = (some ⟨q, hd⟩, .ok ⟨{ lastSeq := q, sessionHandle := hd }⟩) := by
  rw [start, h]

theorem resumed_netmap_iff_nothing_sent_quiet : let es : List SessionEvent :=
      [.start (.ok ()), .frame nodeKeyOrder {} { mapSessionHandle := "s1".toList, seq := 1 }, .stop]
    let w := run SessionWorld.step {} es
    ∃ c, start w.dir (.ok ()) = (some ⟨1, "s1".toList⟩, .ok c) ∧
      c.netmap = serverNetmap nodeKeyOrder w.log "s1".toList 1 := by
  intro es w
  have hdir : w.dir.loadSessionState = .ok (1, "s1".toList) := by decide +kernel
  have hstart := start_of_loaded hdir
  refine ⟨_, hstart, ((resumed_netmap_iff_nothing_sent es (.ok ()) nodeKeyOrder _ _ hstart).1).2 ?_⟩
  rfl

/-- **After a restart the peers are gone**: the request resumes the session at a number at which the server had sent a
node, and the netmap starts without it. -/
theorem resume_forgets_peers : let es : List SessionEvent :=
      [.start (.ok ()),
       .frame nodeKeyOrder {}
         { mapSessionHandle := "s1".toList, seq := 1, peers := some [{ id := 1, key := keyText '1' }] },
       .stop]
    let w := run SessionWorld.step {} es
    ∃ c, start w.dir (.ok ()) = (some ⟨1, "s1".toList⟩, .ok c) ∧
      keyOf 0x11 ∈ (serverNetmap nodeKeyOrder w.log "s1".toList 1).peers.keys ∧ keyOf 0x11 ∉ c.netmap.peers.keys ∧
      c.netmap ≠ serverNetmap nodeKeyOrder w.log "s1".toList 1 := by
  intro es w
  have hdir : w.dir.loadSessionState = .ok (1, "s1".toList) := by decide +kernel
  have hstart := start_of_loaded hdir
  have hin : keyOf 0x11 ∈ (serverNetmap nodeKeyOrder w.log "s1".toList 1).peers.keys := by decide +kernel
  have hout : keyOf 0x11 ∉ ({ lastSeq := 1, sessionHandle := "s1".toList } : NetMap).peers.keys :=
    Finset.notMem_empty _
  refine ⟨_, hstart, hin, hout, fun he => hout ?_⟩
  simp only at he
  rwa [he]

end TailscaleVita.Ctl

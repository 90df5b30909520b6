import TailscaleVita.FtpSession
import TailscaleVita.NetStream
import TailscaleVita.VitaFs
/-!
# FtpStor — an upload, from the data connection to the file

A `STOR` reads its data connection to the end, into a file beside the target, and then renames. Here the session's
program runs over a stream of the stack and over the files of `vita_fs`. The end of the body is a read of nothing; a
stream that was reset gives that as well, and a body cut short by a reset is stored as if it were complete
(`stor_commits_iff`).
-/
namespace TailscaleVita.Ftp

open Fs List

structure Upload where
  files : Fs.Files
  stream : Net.Stream
  wires : List (List Net.Wire)
  disk : List Fs.Sce
  peer : Option IpAddr
  seq : BitVec 64
  online : Bool
  replies : List Nat := []

namespace Upload

def onPath (w : Upload) (path : Text) (f : Fs.Sce → Fs.Name → Fs.Files → Bool × Fs.Files) : Bool × Upload :=
  match pathName path with
  | none => (false, w)
  | some n =>
    let r := f (w.disk.headD {}) n w.files
    (r.1, { w with files := r.2, disk := w.disk.tail })

def dataRead (w : Upload) (len : Nat) : Option Bytes × Upload :=
  let r := (run Net.Stream.next w.stream ((w.wires.headD []).map .wire)).step (.read len)
  let w := { w with stream := r.2, wires := w.wires.tail }
  match r.1 with
  | .read bs => (some bs, w)
  | _ => (none, w)

def env : (c : FtpCall) → Upload → c.Answer × Upload
  | .reply code _, w | .replyMultiline code _ _ _, w => (w.online, { w with replies := w.replies ++ [code] })
  | .fs (.write path data), w => w.onPath path (fun io n => write io n data)
  | .fs (.append path data), w => w.onPath path (fun io n => append io n data)
  | .fs (.removeFile path), w => w.onPath path removeFile
  | .fs (.rename source target), w =>
    match pathName target with
    | none => (false, w)
    | some m => w.onPath source (fun io n => rename io n m)
  | .fs (.readDir _), w | .fs (.read _), w => (none, w)
  | .fs (.createDirAll _), w => (false, w)
  | .tailnetIp, w => (none, w)
  | .claimPort _ _, w => (0, w)
  | .bindHandle _, w | .dataWriteAll _, w => (false, w)
  | .acceptTimeout _, w => (w.peer, w)
  | .partialSeq, w => (w.seq, { w with seq := w.seq + 1 })
  | .dataRead len, w => w.dataRead len
  | .dropListener _, w => ((), w)
  | .dataClose, w => ((), { w with stream := w.stream.startDrop })

def start (files : Fs.Files) (wires : List (List Net.Wire)) (disk : List Fs.Sce) (peer : Option IpAddr)
    (seq : BitVec 64) (online : Bool) : Upload :=
  { files, stream := Net.Stream.established 0, wires, disk, peer, seq, online }

end Upload

/-! ## How the peer ends the body -/

inductive Ending where
  | fin
  | reset
  | silent
  | tooLong
deriving DecidableEq

def peerEnds (maxBytes : Nat) : (turns total : Nat) → Net.Socket → List (List Net.Wire) → Ending
  | 0, _, _, _ => .tooLong
  | turns + 1, total, sock, wires =>
    let sock := (wires.headD []).foldl Net.Socket.wire sock
    if sock.rx = [] then if sock.reset then .reset else if sock.finReceived then .fin else .silent
    else if maxBytes < total + min 8192 sock.rx.length then .tooLong
    else peerEnds maxBytes turns (total + min 8192 sock.rx.length) { sock with rx := sock.rx.drop 8192 } wires.tail

def Orderly (s : Net.Stream) : Prop := s.sock.finReceived = true ∧ s.sock.reset = false

def PeerOnly (s : Net.Socket) : Prop :=
  match s.state with
  | .established => s.reset = false ∧ s.finReceived = false
  | .closeWait => s.finReceived = true ∧ s.reset = false
  | .closed => s.reset = true
  | _ => False

structure Reading (s : Net.Stream) : Prop where
  live : s.phase = .live
  notClosed : s.closed = false
  peerOnly : PeerOnly s.sock

theorem peerOnly_wire {s : Net.Socket} (h : PeerOnly s) (e : Net.Wire) : PeerOnly (s.wire e) := by
  obtain ⟨state, rx, unacked, finQueued, rstQueued, finReceived, reset⟩ := s
  cases e with
  | ack n => exact h
  | _ => cases state <;> simp_all [PeerOnly, Net.Socket.wire]

theorem wires_live : ∀ (ws : List Net.Wire) {s : Net.Stream}, Reading s →
    run Net.Stream.next s (ws.map .wire) = { s with sock := ws.foldl Net.Socket.wire s.sock } ∧
      PeerOnly (ws.foldl Net.Socket.wire s.sock)
  | [], _, h => ⟨rfl, h.peerOnly⟩
  | e :: ws, s, h => by
    have hgone : s.phase ≠ .gone := by rw [h.live]; exact nofun
    have hnext : s.next (.wire e) = { s with sock := s.sock.wire e } := by
      simp [Net.Stream.next, Net.Stream.step, if_neg hgone]
    rw [map_cons, run_cons, hnext]
    exact wires_live ws ⟨h.live, h.notClosed, peerOnly_wire h.peerOnly e⟩

theorem reading_start : Reading (Net.Stream.established 0) := ⟨rfl, rfl, rfl, rfl⟩

variable {w : Upload}

theorem dataRead_cases (h : Reading w.stream) :
    let sock := (w.wires.headD []).foldl Net.Socket.wire w.stream.sock
    (sock.rx ≠ [] ∧ (w.dataRead 8192).1 = some (sock.rx.take 8192) ∧ Reading (w.dataRead 8192).2.stream ∧
      (w.dataRead 8192).2.stream.sock = { sock with rx := sock.rx.drop 8192 }) ∨
    (sock.rx = [] ∧ (w.dataRead 8192).1 = some [] ∧ (w.dataRead 8192).2.stream.sock = sock ∧
      (sock.reset = true ∨ sock.finReceived = true ∧ sock.reset = false)) ∨
    (sock.rx = [] ∧ (w.dataRead 8192).1 = none ∧ sock.reset = false ∧ sock.finReceived = false) := by
  intro sock
  obtain ⟨hrun, hpeer⟩ := wires_live (w.wires.headD []) h
  have hread : ({ w.stream with sock := sock } : Net.Stream).step (.read 8192) =
      Net.Stream.read { w.stream with sock := sock } 8192 := by
    simp [Net.Stream.step, h.live]
  unfold Upload.dataRead
  rw [hrun, hread]
  by_cases hrx : sock.rx = []
  · refine .inr ?_
    cases hm : sock.mayRecv with
    | false =>
      refine .inl ?_
      rw [Net.Stream.read_end (s := { w.stream with sock := sock }) h.notClosed hrx hm]
      refine ⟨hrx, rfl, rfl, ?_⟩
      unfold PeerOnly at hpeer
      cases hs : sock.state with
      | established => simp [Net.Socket.mayRecv, hs] at hm
      | closeWait => rw [hs] at hpeer; exact .inr hpeer
      | closed => rw [hs] at hpeer; exact .inl hpeer
      | _ => rw [hs] at hpeer; exact absurd hpeer id
    | true =>
      refine .inr ?_
      rw [Net.Stream.read_wait (s := { w.stream with sock := sock }) h.notClosed hrx hm]
      refine ⟨hrx, rfl, ?_⟩
      unfold PeerOnly at hpeer
      cases hs : sock.state with
      | established => rw [hs] at hpeer; exact hpeer
      | closeWait | closed => simp [Net.Socket.mayRecv, hs, hrx] at hm
      | _ => rw [hs] at hpeer; exact absurd hpeer id
  · refine .inl ?_
    rw [Net.Stream.read_data (s := { w.stream with sock := sock }) h.notClosed hrx (by decide)]
    exact ⟨hrx, rfl, ⟨h.live, h.notClosed, hpeer⟩, rfl⟩

/-! ## Receiving the body -/

theorem dataRead_frame (w : Upload) (len : Nat) :
    (w.dataRead len).2 = { w with stream := (w.dataRead len).2.stream, wires := w.wires.tail } := by
  unfold Upload.dataRead
  dsimp only
  split <;> rfl

theorem onPath_frame (w : Upload) (path : Text) (f : Fs.Sce → Fs.Name → Fs.Files → Bool × Fs.Files) :
    (w.onPath path f).2 = { w with files := (w.onPath path f).2.files, disk := (w.onPath path f).2.disk } := by
  unfold Upload.onPath
  cases pathName path <;> rfl

variable {n : Fs.Name}

theorem onPath_files {f : Fs.Sce → Fs.Name → Fs.Files → Bool × Fs.Files}
    (hf : ∀ io m files, n ≠ m → (f io m files).2.lookup n = files.lookup n) {path : Text}
    (hn : pathName path ≠ some n) : (w.onPath path f).2.files.lookup n = w.files.lookup n := by
  unfold Upload.onPath
  cases hp : pathName path with
  | none => rfl
  | some m => exact hf _ m _ (fun he => hn (by rw [hp, he]))

def Writable (files : Fs.Files) (path : Text) : Prop := ∃ n, pathName path = some n ∧ files.lookup n ≠ some .dir

def Present (files : Fs.Files) (path : Text) : Prop := ∃ n c, pathName path = some n ∧ files.lookup n = some (.file c)

theorem Present.writable {files : Fs.Files} {path : Text} (h : Present files path) : Writable files path := by
  obtain ⟨n, c, hn, hc⟩ := h
  exact ⟨n, hn, by rw [hc]; exact nofun⟩

def Upload.append (w : Upload) (path : Text) (data : Bytes) : Bool × Upload :=
  w.onPath path (fun io n => Fs.append io n data)

theorem append_present {path : Text} (data : Bytes) (h : Present w.files path) :
    ((w.append path data).1 = true → Present (w.append path data).2.files path) ∧
    (w.disk = [] → (w.append path data).1 = true ∧ (w.append path data).2.disk = []) := by
  obtain ⟨n, c, hn, hc⟩ := h
  unfold Upload.append Upload.onPath
  rw [hn]
  refine ⟨fun hok => ?_, fun hd => ?_⟩
  · obtain ⟨c', hc'⟩ := append_ok _ hok
    exact ⟨n, c', hn, hc'⟩
  · rw [hd]
    refine ⟨show (Fs.append {} n data w.files).1 = true from ?_, rfl⟩
    unfold Fs.append
    rw [hc]
    cases data <;> rfl

structure Stored (path : Text) (ending : Ending) (w : Upload) (r : Except RecvError Nat × Upload) : Prop where
  files : ∀ n, pathName path ≠ some n → r.2.files.lookup n = w.files.lookup n
  replies : r.2.replies = w.replies
  ok : ∀ k, r.1 = .ok k → Writable w.files path ∧
    (ending = .fin ∧ Orderly r.2.stream ∨ ending = .reset ∧ r.2.stream.sock.reset = true)
  works : w.disk = [] → Writable w.files path → ending = .fin ∨ ending = .reset →
    (∃ k, r.1 = .ok k) ∧ r.2.disk = [] ∧ Present r.2.files path

theorem Stored.failed {path : Text} {ending : Ending} {w w' : Upload} (e : RecvError)
    (hfiles : ∀ n, pathName path ≠ some n → w'.files.lookup n = w.files.lookup n) (hreplies : w'.replies = w.replies)
    (hend : w.disk = [] → Writable w.files path → ¬ (ending = .fin ∨ ending = .reset)) :
    Stored path ending w (.error e, w') :=
  ⟨hfiles, hreplies, nofun, fun hd hwr h => absurd h (hend hd hwr)⟩

section

variable {path : Text} {maxBytes turns total : Nat} {w : Upload}

theorem exec_dataRead (n : Nat) : (Prog.perform (FtpCall.dataRead n)).exec Upload.env w =
    ((w.dataRead n).1, (w.dataRead n).2) := rfl

theorem streamLoop_timeout (h : (w.dataRead 8192).1 = none) :
    (streamLoop path maxBytes (turns + 1) total).exec Upload.env w = (.error .other, (w.dataRead 8192).2) := by
  rw [streamLoop, Prog.exec_bind, exec_dataRead, h]
  rfl

theorem streamLoop_end (h : (w.dataRead 8192).1 = some []) :
    (streamLoop path maxBytes (turns + 1) total).exec Upload.env w = (.ok total, (w.dataRead 8192).2) := by
  rw [streamLoop, Prog.exec_bind, exec_dataRead, h]
  rfl

theorem streamLoop_more {b : BitVec 8} {bs : Bytes} (h : (w.dataRead 8192).1 = some (b :: bs)) :
    (streamLoop path maxBytes (turns + 1) total).exec Upload.env w =
      let w1 := (w.dataRead 8192).2
      let appended := w1.append path (b :: bs)
      if maxBytes < total + (b :: bs).length then (.error .fileTooLarge, w1)
      else if appended.1 then
        (streamLoop path maxBytes turns (total + (b :: bs).length)).exec Upload.env appended.2
      else (.error .other, appended.2) := by
  rw [streamLoop, Prog.exec_bind, exec_dataRead, h]
  dsimp only
  split
  · rfl
  · rw [Prog.exec_bind]
    show Prog.exec Upload.env (if (((w.dataRead 8192).2.append path _).1 : Bool) then _ else _) _ = _
    split <;> rfl

end

theorem streamLoop_stored (path : Text) (maxBytes : Nat) : ∀ (turns total : Nat) (w : Upload), Reading w.stream →
    Present w.files path → Stored path (peerEnds maxBytes turns total w.stream.sock w.wires) w
      ((streamLoop path maxBytes turns total).exec Upload.env w)
  | 0, _, w, _, _ => .failed _ (fun _ _ => rfl) rfl (fun _ _ => by simp [peerEnds])
  | turns + 1, total, w, h, hfile => by
    have hframe := dataRead_frame w 8192
    have hcases := dataRead_cases h
    rw [peerEnds]
    generalize (w.wires.headD []).foldl Net.Socket.wire w.stream.sock = sock at hcases ⊢
    obtain ⟨hrx, hgot, hreading, hsock⟩ | ⟨hrx, hgot, hsock, hend⟩ | ⟨hrx, hgot, hreset, hfin⟩ := hcases
    · rw [if_neg hrx]
      obtain ⟨b, bs, hbs⟩ : ∃ b bs, sock.rx.take 8192 = b :: bs := by
        obtain ⟨b, rest, hcons⟩ := exists_cons_of_ne_nil hrx
        exact ⟨b, rest.take 8191, by rw [hcons]; rfl⟩
      have hlen : (b :: bs).length = min 8192 sock.rx.length := by rw [← hbs, length_take]
      rw [streamLoop_more (by rw [hgot, hbs]), hlen]
      dsimp only
      generalize (w.dataRead 8192).2 = w1 at hframe hreading hsock ⊢
      split
      · exact .failed _ (fun _ _ => by rw [hframe]) (by rw [hframe]) (fun _ _ => by simp)
      · have happend : (w1.append path (b :: bs)).2 = _ := onPath_frame w1 path _
        have hother : ∀ n, pathName path ≠ some n → (w1.append path (b :: bs)).2.files.lookup n = w1.files.lookup n :=
          fun n hn => onPath_files (fun io m files hm => lookup_append_ne io hm _ files) hn
        obtain ⟨hkept, hworks⟩ := append_present (w := w1) (b :: bs) (by rw [hframe]; exact hfile)
        generalize w1.append path (b :: bs) = appended at happend hother hkept hworks ⊢
        obtain ⟨ok, w2⟩ := appended
        dsimp only at happend
        have hfiles : ∀ n, pathName path ≠ some n → w2.files.lookup n = w.files.lookup n := fun n hn =>
          (hother n hn).trans (by rw [hframe])
        have hreplies : w2.replies = w.replies := by rw [happend, hframe]
        have hdisk : w.disk = [] → ok = true ∧ w2.disk = [] := fun hd => hworks (by rw [hframe]; exact hd)
        cases ok with
        | false => exact .failed _ hfiles hreplies (fun hd _ => absurd (hdisk hd).1 Bool.false_ne_true)
        | true =>
          have hstream : w2.stream = w1.stream := by rw [happend]
          have hwires : w2.wires = w.wires.tail := by rw [happend, hframe]
          have ih := streamLoop_stored path maxBytes turns (total + min 8192 sock.rx.length) w2
            (by rw [hstream]; exact hreading) (hkept rfl)
          rw [hstream, hsock, hwires] at ih
          exact ⟨fun n hn => (ih.files n hn).trans (hfiles n hn), ih.replies.trans hreplies,
            fun k hk => ⟨hfile.writable, (ih.ok k hk).2⟩,
            fun hd _ => ih.works (hdisk hd).2 (hkept rfl).writable⟩
    · rw [if_pos hrx, streamLoop_end hgot]
      refine ⟨fun _ _ => by rw [hframe], by rw [hframe], fun k _ => ⟨hfile.writable, ?_⟩,
        fun hd _ _ => ⟨⟨total, rfl⟩, by rw [hframe]; exact hd, by rw [hframe]; exact hfile⟩⟩
      obtain hreset | ⟨hfin, hreset⟩ := hend
      · exact .inr ⟨by simp [hreset], by rw [hsock]; exact hreset⟩
      · exact .inl ⟨by simp [hreset, hfin], by unfold Orderly; rw [hsock]; exact ⟨hfin, hreset⟩⟩
    · rw [if_pos hrx, streamLoop_timeout hgot]
      exact .failed _ (fun _ _ => by rw [hframe]) (by rw [hframe]) (fun _ _ => by simp [hreset, hfin])

/-! ## The temporary file -/

theorem partial_suffix (id : BitVec 64) {c : Char} (hc : c ∈ '.' :: (hex16 id.toNat ++ ".upload.partial".toList)) :
    c ≠ ':' ∧ c ≠ '\x00' := by
  rcases mem_cons.1 hc with rfl | hc
  · decide
  · rcases mem_append.1 hc with hc | hc
    · have hdigit := hex16_digits hc
      constructor <;> rintro rfl <;> revert hdigit <;> decide
    · constructor <;> rintro rfl <;> revert hc <;> decide

theorem pathName_partial (real : Text) (id : BitVec 64) :
    (pathName real = none ∧ pathName (partialName real id) = none) ∨
    ∃ n m, pathName real = some n ∧ pathName (partialName real id) = some m ∧ n ≠ m := by
  have hcolon : ':' ∉ '.' :: (hex16 id.toNat ++ ".upload.partial".toList) := fun h => (partial_suffix id h).1 rfl
  have hnul : '\x00' ∉ '.' :: (hex16 id.toNat ++ ".upload.partial".toList) := fun h => (partial_suffix id h).2 rfl
  unfold pathName partialName
  by_cases h : '\x00' ∈ real
  · exact .inl ⟨if_pos h, if_pos (mem_append_left _ h)⟩
  · refine .inr ⟨_, _, if_neg h, if_neg (fun hm => (mem_append.1 hm).elim h hnul), fun he => ?_⟩
    rw [norm_append hcolon (by decide), utf8, utf8, flatMap_append] at he
    have hlen := congrArg List.length he
    rw [length_append, flatMap_cons, length_append] at hlen
    have hdot : ((String.utf8EncodeChar '.').map UInt8.toBitVec).length = 1 := rfl
    omega

theorem pathName_partial_ne {real : Text} (hn : pathName real = some n) (id : BitVec 64) :
    pathName (partialName real id) ≠ some n := by
  obtain ⟨hnone, -⟩ | ⟨n', m, hn', hm, hne⟩ := pathName_partial real id
  · rw [hn] at hnone
    cases hnone
  · rw [hn] at hn'
    cases hn'
    rw [hm]
    exact fun he => hne (Option.some.inj he).symm

section

variable {path : Text} {w : Upload}

def Upload.create (w : Upload) (path : Text) : Bool × Upload := w.onPath path (fun io n => write io n [])

theorem create_files {n : Fs.Name} (hn : pathName path ≠ some n) :
    (w.create path).2.files.lookup n = w.files.lookup n :=
  onPath_files (fun io _ files hm => lookup_write_ne io hm _ files) hn

theorem create_ok (h : (w.create path).1 = true) :
    Writable w.files path ∧ Present (w.create path).2.files path := by
  unfold Upload.create Upload.onPath at h ⊢
  cases hp : pathName path with
  | none => rw [hp] at h; cases h
  | some n =>
    rw [hp] at h
    obtain ⟨hdir, c, hc⟩ := write_empty _ n w.files h
    exact ⟨⟨n, hp, hdir⟩, n, c, hp, hc⟩

theorem create_works (hd : w.disk = []) (h : Writable w.files path) :
    (w.create path).1 = true ∧ (w.create path).2.disk = [] := by
  obtain ⟨n, hn, hdir⟩ := h
  unfold Upload.create Upload.onPath
  rw [hn, hd]
  exact ⟨write_empty_works hdir, rfl⟩

theorem streamToFile_exec (path : Text) (maxBytes : Nat) (w : Upload) :
    (streamToFile path maxBytes).exec Upload.env w =
      if (w.create path).1 then (streamLoop path maxBytes (maxBytes + 1) 0).exec Upload.env (w.create path).2
      else (.error .other, (w.create path).2) := by
  rw [streamToFile, Prog.exec_bind]
  show Prog.exec Upload.env (if ((w.create path).1 : Bool) then _ else _) _ = _
  split <;> rfl

end

theorem streamToFile_stored (path : Text) (maxBytes : Nat) (h : Reading w.stream) :
    Stored path (peerEnds maxBytes (maxBytes + 1) 0 w.stream.sock w.wires) w
      ((streamToFile path maxBytes).exec Upload.env w) := by
  have hframe : (w.create path).2 = _ := onPath_frame w path _
  rw [streamToFile_exec]
  cases hok : (w.create path).1 with
  | false =>
    rw [if_neg Bool.false_ne_true]
    refine .failed _ (fun n hn => create_files hn) (by rw [hframe]) (fun hd hwr => ?_)
    exact absurd (hok.symm.trans (create_works hd hwr).1) Bool.false_ne_true
  | true =>
    rw [if_pos rfl]
    obtain ⟨hwr, hfile⟩ := create_ok hok
    have hstream : (w.create path).2.stream = w.stream := by rw [hframe]
    have hwires : (w.create path).2.wires = w.wires := by rw [hframe]
    have hloop := streamLoop_stored path maxBytes (maxBytes + 1) 0 (w.create path).2 (by rwa [hstream]) hfile
    rw [hstream, hwires] at hloop
    exact ⟨fun m hm => (hloop.files m hm).trans (create_files hm), hloop.replies.trans (by rw [hframe]),
      fun k hk => ⟨hwr, (hloop.ok k hk).2⟩, fun hd _ => hloop.works (create_works hd hwr).2 hfile.writable⟩

/-! ## From the body to the reply -/

def Replaced (real : Text) (w w' : Upload) : Prop :=
  226 ∈ w'.replies ∨ ∃ n, pathName real = some n ∧ w'.files.lookup n ≠ w.files.lookup n

def Upload.renamed (w : Upload) (temp real : Text) : Bool × Upload := Upload.env (.fs (.rename temp real)) w

/-- The rest of an upload, once its body is in the temporary file or was given up. -/
def finished (temp real : Text) (r : Except RecvError Nat × Upload) : Upload :=
  let w1 := { r.2 with stream := r.2.stream.startDrop }
  let renamed := w1.renamed temp real
  match r.1 with
  | .ok _ =>
    if renamed.1 then { renamed.2 with replies := renamed.2.replies ++ [226] }
    else
      let w2 := (renamed.2.onPath temp removeFile).2
      { w2 with replies := w2.replies ++ [550] }
  | .error e =>
    let w2 := (w1.onPath temp removeFile).2
    { w2 with replies := w2.replies ++ [if e = .fileTooLarge then 552 else 426] }

theorem receiveUpload_finished (s : Session) (real : Text) (h : Reading w.stream) :
    ∃ r, Stored (partialName real w.seq) (peerEnds s.maxTransferBytes (s.maxTransferBytes + 1) 0 w.stream.sock w.wires)
        { w with seq := w.seq + 1 } r ∧
      ((s.receiveUpload real).exec Upload.env w).2 = finished (partialName real w.seq) real r := by
  refine ⟨_, streamToFile_stored (partialName real w.seq) s.maxTransferBytes (w := { w with seq := w.seq + 1 }) h, ?_⟩
  show (Prog.exec Upload.env (streamToFile (partialName real w.seq) _ >>= _) { w with seq := w.seq + 1 }).2 = _
  rw [Prog.exec_bind]
  obtain ⟨recv, w0⟩ := (streamToFile (partialName real w.seq) s.maxTransferBytes).exec Upload.env _
  cases recv with
  | error e => rfl
  | ok k =>
    let renamed := Upload.renamed { w0 with stream := w0.stream.startDrop } (partialName real w.seq) real
    show (Prog.exec Upload.env (if (renamed.1 : Bool) then _ else _) renamed.2).2 = if (renamed.1 : Bool) then _ else _
    split <;> rfl

theorem removeFile_files {path : Text} (hn : pathName path ≠ some n) :
    (w.onPath path removeFile).2.files.lookup n = w.files.lookup n :=
  onPath_files (fun io _ files hm => lookup_removeFile_ne io hm files) hn

theorem renamed_eq (w : Upload) (temp real : Text) : w.renamed temp real =
    match pathName real with
    | none => (false, w)
    | some m => w.onPath temp (fun io n => rename io n m) := rfl

theorem renamed_unwritable (temp real : Text) (h : ¬ Writable w.files real) :
    (w.renamed temp real).1 = false ∧ (w.renamed temp real).2.files = w.files := by
  rw [renamed_eq]
  cases hp : pathName real with
  | none => exact ⟨rfl, rfl⟩
  | some m =>
    have hdir : w.files.lookup m = some .dir := not_ne_iff.1 (fun hd => h ⟨m, hp, hd⟩)
    unfold Upload.onPath
    cases pathName temp with
    | none => exact ⟨rfl, rfl⟩
    | some t =>
      dsimp only
      rw [rename_dir _ t hdir]
      exact ⟨rfl, rfl⟩

theorem renamed_frame (w : Upload) (temp real : Text) :
    (w.renamed temp real).2.replies = w.replies ∧ (w.renamed temp real).2.stream = w.stream := by
  rw [renamed_eq]
  cases pathName real with
  | none => exact ⟨rfl, rfl⟩
  | some m =>
    rw [onPath_frame]
    exact ⟨rfl, rfl⟩

theorem startDrop_peer (s : Net.Stream) :
    s.startDrop.sock.finReceived = s.sock.finReceived ∧ s.startDrop.sock.reset = s.sock.reset := by
  unfold Net.Stream.startDrop
  split
  · exact ⟨rfl, rfl⟩
  · show s.sock.close.finReceived = _ ∧ s.sock.close.reset = _
    unfold Net.Socket.close
    split <;> exact ⟨rfl, rfl⟩

theorem receiveUpload_replaced (s : Session) (real : Text) (h : Reading w.stream) (hfresh : 226 ∉ w.replies)
    (hrep : Replaced real w ((s.receiveUpload real).exec Upload.env w).2) :
    Writable w.files real ∧ Writable w.files (partialName real w.seq) ∧
    (peerEnds s.maxTransferBytes (s.maxTransferBytes + 1) 0 w.stream.sock w.wires = .reset ∨
      Orderly ((s.receiveUpload real).exec Upload.env w).2.stream) := by
  obtain ⟨⟨recv, w0⟩, hst, hexec⟩ := receiveUpload_finished s real h
  rw [hexec] at hrep ⊢
  unfold finished at hrep ⊢
  have hkept : ∀ n, pathName real = some n → w0.files.lookup n = w.files.lookup n := fun n hn =>
    hst.files n (pathName_partial_ne hn w.seq)
  have hquiet : 226 ∉ w0.replies := by rw [hst.replies]; exact hfresh
  cases recv with
  | error e =>
    -- given up: no `226`, and nothing but the temporary file was touched
    dsimp only at hrep
    rw [onPath_frame] at hrep
    obtain hmem | ⟨n, hn, hchanged⟩ := hrep
    · rcases mem_append.1 hmem with hmem | hmem
      · exact absurd hmem hquiet
      · exact absurd hmem (by cases e <;> decide)
    · exact (hchanged ((removeFile_files (pathName_partial_ne hn w.seq)).trans (hkept n hn))).elim
  | ok k =>
    obtain ⟨htemp, hend⟩ := hst.ok k rfl
    obtain ⟨hreplies, hstream⟩ := renamed_frame { w0 with stream := w0.stream.startDrop } (partialName real w.seq) real
    have hunwritable := renamed_unwritable (w := { w0 with stream := w0.stream.startDrop }) (partialName real w.seq)
      real
    dsimp only at hrep ⊢
    generalize Upload.renamed _ (partialName real w.seq) real = renamed at hrep hreplies hstream hunwritable ⊢
    obtain ⟨done, w1⟩ := renamed
    have hreal : Writable w0.files real → Writable w.files real := fun ⟨n, hn, hdir⟩ =>
      ⟨n, hn, fun hd => hdir ((hkept n hn).trans hd)⟩
    have horderly : peerEnds s.maxTransferBytes (s.maxTransferBytes + 1) 0 w.stream.sock w.wires = .reset ∨
        Orderly w1.stream := by
      unfold Orderly
      rw [hstream, (startDrop_peer w0.stream).1, (startDrop_peer w0.stream).2]
      exact hend.symm.imp And.left And.right
    cases done with
    | true => exact ⟨hreal (by_contra fun hno => Bool.noConfusion (hunwritable hno).1), htemp, horderly⟩
    | false =>
      rw [if_neg Bool.false_ne_true, onPath_frame] at hrep ⊢
      refine ⟨hreal (by_contra fun hno => ?_), htemp, horderly⟩
      obtain hmem | ⟨n, hn, hchanged⟩ := hrep
      · rcases mem_append.1 hmem with hmem | hmem
        · exact absurd (hreplies ▸ hmem) hquiet
        · exact absurd hmem (by decide)
      · refine hchanged ((removeFile_files (pathName_partial_ne hn w.seq)).trans ?_)
        rw [(hunwritable hno).2]
        exact hkept n hn

theorem receiveUpload_reset (s : Session) (real : Text) (h : Reading w.stream) (hd : w.disk = [])
    (hreal : Writable w.files real) (htemp : Writable w.files (partialName real w.seq))
    (hend : peerEnds s.maxTransferBytes (s.maxTransferBytes + 1) 0 w.stream.sock w.wires = .reset) :
    226 ∈ ((s.receiveUpload real).exec Upload.env w).2.replies ∧
      ((s.receiveUpload real).exec Upload.env w).2.stream.sock.reset = true := by
  obtain ⟨⟨recv, w0⟩, hst, hexec⟩ := receiveUpload_finished s real h
  obtain ⟨n, hn, hdir⟩ := hreal
  obtain ⟨⟨k, rfl⟩, hd0, m, c, hm, hc⟩ := hst.works hd htemp (.inr hend)
  rw [hexec]
  have hrename : (Upload.renamed { w0 with stream := w0.stream.startDrop } (partialName real w.seq) real).1 = true := by
    rw [renamed_eq, hn]
    unfold Upload.onPath
    dsimp only
    rw [hm, hd0]
    exact rename_works (fun he => pathName_partial_ne hn w.seq (he ▸ hm)) hc
      (by rwa [hst.files n (pathName_partial_ne hn w.seq)])
  unfold finished
  dsimp only
  rw [if_pos hrename]
  refine ⟨mem_append_right _ (mem_singleton.2 rfl), ?_⟩
  rw [(renamed_frame _ _ _).2, (startDrop_peer w0.stream).2]
  obtain ⟨-, ⟨hfin, -⟩ | ⟨-, hreset⟩⟩ := hst.ok k rfl
  · rw [hend] at hfin
    cases hfin
  · exact hreset

/-! ## The command -/

def Commits (s : Session) (arg : Text) (w : Upload) : Prop :=
  let w' := ((s.doStor arg).exec Upload.env w).2
  (226 ∈ w'.replies ∨ ∃ vpath, s.vfs.resolve s.cwd arg = some vpath ∧
    ∃ n, pathName (s.vfs.toReal vpath) = some n ∧ w'.files.lookup n ≠ w.files.lookup n) → Orderly w'.stream

structure Uploading (s : Session) (arg : Text) (w : Upload) (vpath : Text) : Prop where
  readOnly : s.readOnly = false
  resolved : s.vfs.resolve s.cwd arg = some vpath
  pasv : s.pasv ≠ none
  online : w.online = true
  peer : w.peer = some s.controlPeerIp

def Truncates (s : Session) (arg : Text) (w : Upload) : Prop :=
  ∃ vpath, Uploading s arg w vpath ∧ Writable w.files (s.vfs.toReal vpath) ∧
    Writable w.files (partialName (s.vfs.toReal vpath) w.seq) ∧
    peerEnds s.maxTransferBytes (s.maxTransferBytes + 1) 0 w.stream.sock w.wires = .reset

theorem withData_exec (s : Session) (port : BitVec 16) (opening : Text) (body : FtpProg Bool) {w : Upload}
    (hfresh : w.replies = []) :
    (w.online = true ∧ w.peer = some s.controlPeerIp ∧ ((s.withData port opening body).exec Upload.env w).2 =
      (body.exec Upload.env { w with replies := [150] }).2) ∨
    ¬ (w.online = true ∧ w.peer = some s.controlPeerIp) ∧
      ((s.withData port opening body).exec Upload.env w).2.files = w.files ∧
      226 ∉ ((s.withData port opening body).exec Upload.env w).2.replies := by
  obtain ⟨files, stream, wires, disk, peer, seq, online, replies⟩ := w
  subst hfresh
  cases online with
  | false => exact .inr ⟨fun h => Bool.false_ne_true h.1, rfl, show 226 ∉ [150] by decide⟩
  | true =>
    cases peer with
    | none => exact .inr ⟨fun h => (by cases h.2), rfl, show 226 ∉ [150, 425] by decide⟩
    | some peer =>
      by_cases hpeer : peer = s.controlPeerIp
      · refine .inl ⟨rfl, congrArg some hpeer, ?_⟩
        show (Prog.exec Upload.env (if peer = s.controlPeerIp then body else _) _).2 = _
        rw [if_pos hpeer]
        rfl
      · refine .inr ⟨fun h => hpeer (Option.some.inj h.2), ?_⟩
        show (Prog.exec Upload.env (if peer = s.controlPeerIp then body else _) _).2.files = _ ∧
          226 ∉ (Prog.exec Upload.env (if peer = s.controlPeerIp then body else _) _).2.replies
        rw [if_neg hpeer]
        exact ⟨rfl, show 226 ∉ [150, 425] by decide⟩

theorem doStor_exec (s : Session) (arg : Text) {w : Upload} (hfresh : w.replies = []) :
    (∃ vpath, Uploading s arg w vpath ∧ ((s.doStor arg).exec Upload.env w).2 =
      ((s.receiveUpload (s.vfs.toReal vpath)).exec Upload.env { w with replies := [150] }).2) ∨
    (¬ ∃ vpath, Uploading s arg w vpath) ∧ ((s.doStor arg).exec Upload.env w).2.files = w.files ∧
      226 ∉ ((s.doStor arg).exec Upload.env w).2.replies := by
  cases hro : s.readOnly with
  | true =>
    refine .inr ⟨fun ⟨_, hup⟩ => Bool.false_ne_true (hup.readOnly.symm.trans hro), ?_⟩
    simp only [Session.doStor, hro, if_true]
    exact ⟨rfl, by show 226 ∉ w.replies ++ [550]; rw [hfresh]; decide⟩
  | false =>
    simp only [Session.doStor, hro, Bool.false_eq_true, if_false]
    cases hv : s.vfs.resolve s.cwd arg with
    | none =>
      refine .inr ⟨fun ⟨_, hup⟩ => (by rw [hup.resolved] at hv; cases hv), rfl, ?_⟩
      show 226 ∉ w.replies ++ [550]
      rw [hfresh]
      decide
    | some vpath =>
      unfold Session.transfer
      cases hp : s.pasv with
      | none =>
        refine .inr ⟨fun ⟨_, hup⟩ => hup.pasv hp, rfl, ?_⟩
        show 226 ∉ w.replies ++ [425]
        rw [hfresh]
        decide
      | some port =>
        have hdrop : ((do
            let ok ← s.withData port "ready to receive".toList (s.receiveUpload (s.vfs.toReal vpath))
            Prog.perform (FtpCall.dropListener port)
            return ({ s with pasv := none }, ok) : FtpProg (Session × Bool)).exec Upload.env w).2 =
            ((s.withData port "ready to receive".toList
              (s.receiveUpload (s.vfs.toReal vpath))).exec Upload.env w).2 := by
          rw [Prog.exec_bind]
          rfl
        rw [hdrop]
        obtain ⟨hon, hpeer, hexec⟩ | ⟨hno, hdone⟩ := withData_exec s port "ready to receive".toList
          (s.receiveUpload (s.vfs.toReal vpath)) hfresh
        · exact .inl ⟨vpath, ⟨hro, hv, by rw [hp]; exact Option.some_ne_none port, hon, hpeer⟩, hexec⟩
        · exact .inr ⟨fun ⟨_, hup⟩ => hno ⟨hup.online, hup.peer⟩, hdone⟩

/-- **When an upload is committed only complete**: whatever the peer does and however the disk fails, if no reset passes
for the end of the body; and where the disk works, only then. -/
theorem stor_commits_iff (s : Session) (arg : Text) (files : Fs.Files) (wires : List (List Net.Wire))
    (disk : List Fs.Sce) (peer : Option IpAddr) (seq : BitVec 64) (online : Bool) :
    let w := Upload.start files wires disk peer seq online
    (¬ Truncates s arg w → Commits s arg w) ∧ (disk = [] → (Commits s arg w ↔ ¬ Truncates s arg w)) := by
  intro w
  have hsound : ¬ Truncates s arg w → Commits s arg w := by
    intro hno hrep
    obtain ⟨vpath, hup, hexec⟩ | ⟨-, hfiles, hreplies⟩ := doStor_exec s arg (w := w) rfl
    · rw [hexec] at hrep ⊢
      have hrep' : Replaced (s.vfs.toReal vpath) { w with replies := [150] }
          ((s.receiveUpload (s.vfs.toReal vpath)).exec Upload.env { w with replies := [150] }).2 := by
        refine hrep.imp_right ?_
        rintro ⟨vpath', hv, hn⟩
        rw [hup.resolved] at hv
        cases hv
        exact hn
      obtain ⟨hreal, htemp, hend | horderly⟩ :=
        receiveUpload_replaced s (s.vfs.toReal vpath) (w := { w with replies := [150] }) reading_start
          (show 226 ∉ [150] by decide) hrep'
      · exact absurd ⟨vpath, hup, hreal, htemp, hend⟩ hno
      · exact horderly
    · obtain hmem | ⟨-, -, n, -, hchanged⟩ := hrep
      · exact absurd hmem hreplies
      · exact absurd (by rw [hfiles]) hchanged
  refine ⟨hsound, fun hd => ⟨?_, hsound⟩⟩
  rintro hcommits ⟨vpath, hup, hreal, htemp, hend⟩
  obtain ⟨vpath', hup', hexec⟩ | ⟨hnone, -⟩ := doStor_exec s arg (w := w) rfl
  · obtain rfl : vpath' = vpath := Option.some.inj (hup'.resolved.symm.trans hup.resolved)
    obtain ⟨hmem, hreset⟩ := receiveUpload_reset s (s.vfs.toReal vpath') (w := { w with replies := [150] })
      reading_start hd hreal htemp hend
    have horderly := hcommits (.inl (by rw [hexec]; exact hmem))
    rw [hexec] at horderly
    exact absurd (horderly.2.symm.trans hreset) Bool.false_ne_true
  · exact hnone ⟨vpath, hup⟩

/-- Two bytes of a body arrive and the connection is reset: the session replies `226`, and the file is replaced. -/
theorem stor_commits_truncated : let s : Session :=
      { vfs := Vfs.new "ux0:/data".toList false, cwd := ['/'], authed := true, pendingUser := none,
        controlPeerIp := .v4 7, pasv := some 30000, renameFrom := none, readOnly := false, maxTransferBytes := 1024 }
    let target := utf8 "ux0:data/a".toList
    let old : Fs.Files := (∅ : Fs.Files).insert target (.file [1, 2, 3, 4])
    let w := Upload.start old [[.data 1 [2], .rst]] [] (some (.v4 7)) 0 true
    let w' := ((s.doStor "a".toList).exec Upload.env w).2
    226 ∈ w'.replies ∧ w'.files.lookup target = some (.file [1, 2]) ∧ w'.stream.sock.finReceived = false ∧
      ¬ Commits s "a".toList w := by
  intro s target old w w'
  have hmem : 226 ∈ w'.replies := by decide +kernel
  have hfin : w'.stream.sock.finReceived = false := by decide +kernel
  refine ⟨hmem, by decide +kernel, hfin, fun h => ?_⟩
  exact absurd (hfin.symm.trans (h (.inl hmem)).1) Bool.false_ne_true

end TailscaleVita.Ftp

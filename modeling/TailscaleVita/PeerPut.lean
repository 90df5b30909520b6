import TailscaleVita.Framing
import TailscaleVita.PeerName
import TailscaleVita.Threads
/-!
# PeerPut — dropped files (`ts-peerapi/src/handler.rs`)

A request is served by a thread of its own: it streams the body to a temporary file, and under a lock moves that to a
name that the directory does not have. All requests share the directory, and each call of the file system is a section.
-/
namespace TailscaleVita.Peer

open List
open Fs (Name Node Files Sce Free)

def bodyChunk : Nat := 32 * 1024

def putPrefix : Bytes := ascii "/v0/put/"

structure PutRequest where
  method : Bytes
  path : Bytes
  contentLength : Option Nat
  leftover : Bytes
  socket : List Arrival
deriving DecidableEq

structure Put where
  req : PutRequest
  name : Name
  contentLength : Nat
  partialId : Nat
  named : sanitizeFilename (req.path.drop putPrefix.length) = .ok name
  announced : req.contentLength = some contentLength
deriving DecidableEq

def Put.body (p : Put) : Bytes := (p.req.leftover ++ unread p.req.socket).take p.contentLength

def Put.temp (p : Put) : Name := ascii ".taildrop-" ++ utf8 (hex16 p.partialId) ++ ascii ".partial"

structure PeerApi where
  files : Files
  maxSize : Nat
  inFlight : Nat := 0
  partialSeq : Nat := 0
  finalizeLock : Option Nat := none

/-- A request in progress, before its next call of the file system or of the socket. `moved` is whether the
temporary file has been renamed. -/
inductive PutTask where
  | creating (p : Put)
  | streaming (p : Put) (initial : Bytes) (remaining : Nat) (socket : List Arrival)
  | locking (p : Put)
  | listing (p : Put)
  | moving (p : Put) (finalName : Name)
  | verifying (p : Put) (finalName : Name)
  | removing (p : Put) (status : Nat) (moved : Bool)
  | finished
deriving DecidableEq

inductive PutObserved where
  | refused (req : PutRequest) (status : Nat)
  | answered (p : Put) (status : Nat) (finalName : Option Name)
deriving DecidableEq

structure PutMet where
  io : Sce := {}
  socketFails : Bool := false

namespace PeerApi

def reserveInFlight (s : PeerApi) (bytes : Nat) : Option PeerApi :=
  if 2 ^ 64 ≤ s.inFlight + bytes ∨ s.maxSize < s.inFlight + bytes then none
  else some { s with inFlight := s.inFlight + bytes }

def release (s : PeerApi) (p : Put) : PeerApi := { s with inFlight := s.inFlight - p.contentLength }

def unlock (s : PeerApi) : PeerApi := { s with finalizeLock := none }

def writeChunk (s : PeerApi) (io : Sce) (p : Put) (chunk : Bytes) (remaining : Nat) (socket : List Arrival) :
    PeerApi × PutTask × List PutObserved :=
  match Fs.append io p.temp chunk s.files with
  | (true, files) => ({ s with files }, .streaming p [] (remaining - chunk.length) socket, [])
  | (false, files) => ({ s with files }, .removing p 500 false, [])

def entrySize (s : PeerApi) (io : Sce) (name : Name) : Option Nat :=
  match io.lists, s.files.lookup name with
  | true, some (.file content) => some content.length
  | _, _ => none

end PeerApi

def asciiLower (b : BitVec 8) : BitVec 8 := if 0x41 ≤ b ∧ b ≤ 0x5A then b + 0x20 else b

open PeerApi

def putCall (s : PeerApi) (req : PutRequest) : PeerApi × Option PutTask × List PutObserved :=
  if req.method.map asciiLower ≠ ascii "put" then (s, none, [.refused req 405])
  else if ¬ putPrefix <+: req.path then (s, none, [.refused req 400])
  else
    match named : sanitizeFilename (req.path.drop putPrefix.length) with
    | .error _ => (s, none, [.refused req 400])
    | .ok name =>
      match announced : req.contentLength with
      | none => (s, none, [.refused req 411])
      | some contentLength =>
        if s.maxSize < contentLength then (s, none, [.refused req 413])
        else
          match s.reserveInFlight contentLength with
          | none => (s, none, [.refused req 503])
          | some s =>
            ({ s with partialSeq := s.partialSeq + 1 },
              some (.creating { req, name, contentLength, partialId := s.partialSeq, named, announced }), [])

def putResume (id : Nat) (s : PeerApi) (met : PutMet) : PutTask → PeerApi × PutTask × List PutObserved
  | .creating p =>
    match Fs.write met.io p.temp [] s.files with
    | (true, files) => ({ s with files }, .streaming p p.req.leftover p.contentLength p.req.socket, [])
    | (false, files) => ({ s with files }.release p, .finished, [.answered p 500 none])
  | .streaming p initial remaining socket =>
    if remaining = 0 then (s, .locking p, [])
    else if initial ≠ [] then s.writeChunk met.io p (initial.take remaining) remaining socket
    else if met.socketFails then (s, .removing p 500 false, [])
    else
      match recv (min bodyChunk remaining) socket with
      | (.ok (b :: bs), socket) => s.writeChunk met.io p (b :: bs) remaining socket
      | _ => (s, .removing p 400 false, [])
  | .locking p =>
    match s.finalizeLock with
    | none => ({ s with finalizeLock := some id }, .listing p, [])
    | some _ => (s, .locking p, [])
  | .listing p =>
    -- a directory that cannot be read counts as empty
    match nextFreeName p.name ((Fs.readDir met.io s.files).getD ∅) with
    | none => (s.unlock, .removing p 500 false, [])
    | some finalName => (s, .moving p finalName, [])
  | .moving p finalName =>
    match Fs.rename met.io p.temp finalName s.files with
    | (true, files) => ({ s with files }, .verifying p finalName, [])
    | (false, files) => ({ s with files }.unlock, .removing p 500 false, [])
  | .verifying p finalName =>
    match s.entrySize met.io finalName with
    | some size =>
      if p.contentLength ≤ size then (s.unlock.release p, .finished, [.answered p 200 (some finalName)])
      else (s.unlock, .removing p 500 true, [])
    | none => (s.unlock, .removing p 500 true, [])
  | .removing p status _ =>
    ({ s with files := (Fs.removeFile met.io p.temp s.files).2 }.release p, .finished, [.answered p status none])
  | .finished => (s, .finished, [])

def putThreads : Threads PeerApi PutTask PutObserved PutRequest PutMet where
  call _ s req := putCall s req
  resume _ id s t met := putResume id s met t

abbrev PutWorld := World PeerApi PutTask PutObserved

abbrev PutEvent := WorldEvent PutRequest PutMet

def putStep (w : PutWorld) (e : PutEvent) : PutWorld := w.step putThreads e

def PutWorld.new (files : Files) (maxSize : Nat) : PutWorld := { shared := { files, maxSize } }

/-- The condition on a section: there is no file where a temporary file is created, where it is renamed to, and,
once it was renamed, where it is removed. -/
def PutTask.Clear (files : Files) : PutTask → Prop
  | .creating p => Free files p.temp
  | .moving _ finalName => Free files finalName
  | .removing p _ true => Free files p.temp
  | _ => True

instance (files : Files) : (t : PutTask) → Decidable (t.Clear files)
  | .creating p => inferInstanceAs (Decidable (Free files p.temp))
  | .moving _ finalName => inferInstanceAs (Decidable (Free files finalName))
  | .removing p _ true => inferInstanceAs (Decidable (Free files p.temp))
  | .streaming _ _ _ _ | .locking _ | .listing _ | .verifying _ _ | .removing _ _ false | .finished => isTrue trivial

def ClearStep (w : PutWorld) : PutEvent → Prop
  | .resume id _ => ∀ t ∈ w.tasks[id]?, t.Clear w.shared.files
  | _ => True

instance (w : PutWorld) : (e : PutEvent) → Decidable (ClearStep w e)
  | .resume id _ => inferInstanceAs (Decidable (∀ t ∈ w.tasks[id]?, t.Clear w.shared.files))
  | .wait _ | .call _ => isTrue trivial

/-! ## Who owns which file -/

def PutTask.owned : PutTask → Option Name
  | .streaming p _ _ _ | .locking p | .listing p | .moving p _ | .removing p _ false => some p.temp
  | .creating _ | .verifying _ _ | .removing _ _ true | .finished => none

def PutTask.Holds (content : Bytes) : PutTask → Prop
  | .streaming p initial remaining socket => content ++ (initial ++ unread socket).take remaining = p.body
  | .locking p | .listing p | .moving p _ => content = p.body
  | _ => True

def PutTask.placed : PutTask → Option (Name × Bytes)
  | .verifying p finalName => some (finalName, p.body)
  | _ => none

def Owns (files : Files) (t : PutTask) : Prop :=
  ∀ n, t.owned = some n → ∃ content, files.lookup n = some (.file content) ∧ t.Holds content

structure Did (s : PeerApi) (t : PutTask) (r : PeerApi × PutTask × List PutObserved) : Prop where
  frame : ∀ n x, s.files.lookup n = some x → t.owned ≠ some n → r.1.files.lookup n = some x
  fresh : ∀ n, r.2.1.owned = some n → t.owned = some n ∨ s.files.lookup n = none
  owns : Owns r.1.files r.2.1
  placed : ∀ n body, r.2.1.placed = some (n, body) →
    s.files.lookup n = none ∧ r.1.files.lookup n = some (.file body) ∧ r.2.1.owned = none
  answered : ∀ p n, .answered p 200 (some n) ∈ r.2.2 → t.placed = some (n, p.body) ∧
    ∃ content, s.files.lookup n = some (.file content) ∧ p.contentLength ≤ content.length

variable {s : PeerApi} {n : Name}

theorem file_of_entrySize {io : Sce} {size : Nat} (h : s.entrySize io n = some size) :
    ∃ content, s.files.lookup n = some (.file content) ∧ content.length = size := by
  unfold entrySize at h
  split at h
  next content _ hfile => exact ⟨content, hfile, Option.some.inj h⟩
  · cases h

variable {t : PutTask} {content : Bytes}

theorem owns_of_file {files : Files} (howned : t.owned = some n) (hfile : files.lookup n = some (.file content))
    (hholds : t.Holds content) :
    Owns files t := by
  intro m hm
  rw [howned] at hm
  cases hm
  exact ⟨content, hfile, hholds⟩

theorem did_nothing {r : PeerApi × PutTask × List PutObserved}
    (hfiles : r.1.files = s.files) (hfresh : ∀ n, r.2.1.owned = some n → t.owned = some n) (howns : Owns s.files r.2.1)
    (hplaced : r.2.1.placed = none) (hanswered : ∀ p n, .answered p 200 (some n) ∈ r.2.2 → t.placed = some (n, p.body) ∧
      ∃ content, s.files.lookup n = some (.file content) ∧ p.contentLength ≤ content.length) : Did s t r where
  frame n x h _ := by rw [hfiles]; exact h
  fresh n h := .inl (hfresh n h)
  owns := by rw [hfiles]; exact howns
  placed n body h := by rw [hplaced] at h; cases h
  answered := hanswered

variable {p : Put}

theorem did_create (hclear : Free s.files p.temp) (id : Nat) (met : PutMet) :
    Did s (.creating p) (putResume id s met (.creating p)) := by
  simp only [putResume]
  rcases Fs.write_empty_of_free met.io hclear with ⟨hnone, h⟩ | h
  · rw [h]
    refine ⟨fun n x hn _ => ?_, fun n hn => ?_, fun n hn => ?_, nofun, nofun⟩
    · have hne : n ≠ p.temp := fun he => by rw [he, hnone] at hn; cases hn
      simp only [Finmap.lookup_insert_of_ne _ hne]
      exact hn
    · cases hn
      exact .inr hnone
    · cases hn
      exact ⟨[], Finmap.lookup_insert _, rfl⟩
  · rw [h]
    refine did_nothing rfl nofun nofun rfl (fun q n hmem => ?_)
    cases mem_singleton.1 hmem

theorem did_chunk {initial socket socket' : List _} {remaining : Nat} {content chunk : Bytes}
    (hfile : s.files.lookup p.temp = some (.file content))
    (hchunk : content ++ chunk ++ (unread socket').take (remaining - chunk.length) = p.body) (io : Sce) :
    Did s (.streaming p initial remaining socket) (s.writeChunk io p chunk remaining socket') := by
  have hframe : ∀ n x, s.files.lookup n = some x → (PutTask.streaming p initial remaining socket).owned ≠ some n →
      (Fs.append io p.temp chunk s.files).2.lookup n = some x := fun n x hn hown => by
    have hne : n ≠ p.temp := fun he => hown (congrArg some he.symm)
    rwa [Fs.lookup_append_ne io hne]
  have happend := Fs.append_file io hfile chunk
  unfold writeChunk
  generalize Fs.append io p.temp chunk s.files = r at hframe happend ⊢
  obtain ⟨ok, files⟩ := r
  rcases happend with ⟨rfl, hnew⟩ | ⟨rfl, content', hnew⟩
  · refine ⟨hframe, fun n hn => .inl hn, fun n hn => ?_, nofun, nofun⟩
    cases hn
    exact ⟨_, hnew, hchunk⟩
  · refine ⟨hframe, fun n hn => .inl hn, fun n hn => ?_, nofun, nofun⟩
    cases hn
    exact ⟨_, hnew, trivial⟩

theorem did_give_up {s s' : PeerApi} (hfiles : s'.files = s.files) (howned : t.owned = some p.temp)
    (hfile : s.files.lookup p.temp = some (.file content)) (status : Nat) :
    Did s t (s', .removing p status false, []) :=
  did_nothing hfiles (fun _ hn => howned.trans hn) (owns_of_file rfl hfile trivial) rfl nofun

theorem did_stream {initial : Bytes} {remaining : Nat} {socket : List Arrival}
    (hfile : s.files.lookup p.temp = some (.file content))
    (hholds : content ++ (initial ++ unread socket).take remaining = p.body) (id : Nat) (met : PutMet) :
    Did s (.streaming p initial remaining socket) (putResume id s met (.streaming p initial remaining socket)) := by
  have hgive_up : ∀ status, Did s (.streaming p initial remaining socket) (s, .removing p status false, []) :=
    did_give_up rfl rfl hfile
  simp only [putResume]
  split
  next hzero =>
    rw [hzero, take_zero, append_nil] at hholds
    exact did_nothing rfl (fun n hn => hn) (owns_of_file rfl hfile hholds) rfl nofun
  · split
    · -- what came with the head goes first
      refine did_chunk hfile ?_ met.io
      rw [take_append] at hholds
      rw [length_take, append_assoc, ← hholds]
      congr 3
      omega
    next hrem hnil =>
      have hnil : initial = [] := not_not.1 hnil
      subst hnil
      split
      · exact hgive_up 500
      · have hrecv := recv_spec (n := min bodyChunk remaining) (by unfold bodyChunk; omega) socket
        generalize recv (min bodyChunk remaining) socket = got at hrecv ⊢
        cases hrecv with
        | eof | timedOut as => exact hgive_up 400
        | @got _ socket' b bs hn hu hw ht =>
          refine did_chunk hfile ?_ met.io
          have hfit : (b :: bs).length ≤ remaining := by omega
          rw [nil_append, hu, take_append, take_of_length_le hfit] at hholds
          rwa [append_assoc]

theorem did_move {finalName : Name} (hclear : Free s.files finalName)
    (hfile : s.files.lookup p.temp = some (.file p.body)) (id : Nat) (met : PutMet) :
    Did s (.moving p finalName) (putResume id s met (.moving p finalName)) := by
  simp only [putResume]
  rcases Fs.rename_of_free met.io hfile hclear with ⟨hnone, h⟩ | h
  · rw [h]
    refine ⟨fun n x hn hown => ?_, nofun, nofun, fun n body hn => ?_, nofun⟩
    · have htemp : n ≠ p.temp := fun he => hown (congrArg some he.symm)
      have hfinal : n ≠ finalName := fun he => by rw [he, hnone] at hn; cases hn
      simp only [Finmap.lookup_insert_of_ne _ hfinal, Finmap.lookup_erase_ne htemp]
      exact hn
    · cases hn
      exact ⟨hnone, Finmap.lookup_insert _, rfl⟩
  · rw [h]
    refine did_give_up ?_ ?_ hfile 500 <;> rfl

theorem did_verify (s : PeerApi) (p : Put) (finalName : Name) (id : Nat) (met : PutMet) :
    Did s (.verifying p finalName) (putResume id s met (.verifying p finalName)) := by
  simp only [putResume]
  split
  next size hsize =>
    split
    next hle =>
      refine did_nothing rfl nofun nofun rfl (fun q n hmem => ?_)
      cases mem_singleton.1 hmem
      obtain ⟨content, hfile, rfl⟩ := file_of_entrySize hsize
      exact ⟨rfl, content, hfile, hle⟩
    · exact did_nothing rfl nofun nofun rfl nofun
  · exact did_nothing rfl nofun nofun rfl nofun

theorem did_remove {status : Nat} {moved : Bool} (hclear : (PutTask.removing p status moved).Clear s.files) (id : Nat)
    (met : PutMet) :
    Did s (.removing p status moved) (putResume id s met (.removing p status moved)) := by
  simp only [putResume]
  refine ⟨fun n x hn hown => ?_, nofun, nofun, nofun, fun q n hmem => by cases mem_singleton.1 hmem⟩
  by_cases he : n = p.temp
  · subst he
    cases moved with
    | false => exact absurd rfl hown
    | true =>
      simp only [release, Fs.lookup_removeFile_of_free met.io hclear]
      exact hn
  · simp only [release, Fs.lookup_removeFile_ne met.io he]
    exact hn

theorem did (hclear : t.Clear s.files) (howns : Owns s.files t) (id : Nat) (met : PutMet) :
    Did s t (putResume id s met t) := by
  cases t with
  | creating p => exact did_create hclear id met
  | streaming p initial remaining socket =>
    obtain ⟨content, hfile, hholds⟩ := howns p.temp rfl
    exact did_stream hfile hholds id met
  | locking p =>
    simp only [putResume]
    split <;> exact did_nothing rfl (fun n hn => hn) howns rfl nofun
  | listing p =>
    obtain ⟨content, hfile, -⟩ := howns p.temp rfl
    simp only [putResume]
    split
    · refine did_give_up ?_ ?_ hfile 500 <;> rfl
    · exact did_nothing rfl (fun n hn => hn) howns rfl nofun
  | moving p finalName =>
    obtain ⟨content, hfile, hholds⟩ := howns p.temp rfl
    have hbody : content = p.body := hholds
    rw [hbody] at hfile
    exact did_move hclear hfile id met
  | verifying p finalName => exact did_verify s p finalName id met
  | removing p status moved => exact did_remove hclear id met
  | finished => exact did_nothing rfl (fun n hn => hn) howns rfl nofun

theorem putCall_spec (s : PeerApi) (req : PutRequest) :
    (putCall s req).1.files = s.files ∧ (∀ t ∈ (putCall s req).2.1, ∃ p, t = .creating p) ∧
    ∀ p n, .answered p 200 (some n) ∉ (putCall s req).2.2 := by
  have hrefused : ∀ status, ∀ p n, PutObserved.answered p 200 (some n) ∉ [PutObserved.refused req status] :=
    fun status p n hmem => by cases mem_singleton.1 hmem
  unfold putCall reserveInFlight
  split
  · exact ⟨rfl, nofun, hrefused _⟩
  · split
    · exact ⟨rfl, nofun, hrefused _⟩
    · split
      · exact ⟨rfl, nofun, hrefused _⟩
      · split
        · exact ⟨rfl, nofun, hrefused _⟩
        · split
          · exact ⟨rfl, nofun, hrefused _⟩
          · split
            · exact ⟨rfl, nofun, hrefused _⟩
            next hreserve =>
              split at hreserve
              · cases hreserve
              · cases hreserve
                exact ⟨rfl, fun t ht => ⟨_, (Option.some.inj ht).symm⟩, nofun⟩

/-! ## Over a run -/

def Safe (w : PutWorld) (n : Name) (x : Node) : Prop :=
  w.shared.files.lookup n = some x ∧ ∀ t ∈ w.tasks, t.owned ≠ some n

structure PutInv (w : PutWorld) : Prop where
  owns : ∀ t ∈ w.tasks, Owns w.shared.files t
  apart : ∀ (i j : Nat) (t u : PutTask) (n : Name), w.tasks[i]? = some t → w.tasks[j]? = some u →
    t.owned = some n → u.owned = some n → i = j
  finals : ∀ t ∈ w.tasks, ∀ n body, t.placed = some (n, body) → Safe w n (.file body)
  delivered : ∀ p n, .answered p 200 (some n) ∈ w.log → Safe w n (.file p.body) ∧ p.body.length = p.contentLength

section

variable {w : PutWorld} {id : Nat} {t : PutTask} {r : PeerApi × PutTask × List PutObserved}

def afterResume (w : PutWorld) (id : Nat) (r : PeerApi × PutTask × List PutObserved) : PutWorld :=
  { w with shared := r.1, tasks := w.tasks.set id r.2.1, log := w.log ++ r.2.2 }

variable {n : Name}

theorem safe_resume (ht : w.tasks[id]? = some t) (h : Did w.shared t r) {x : Node} (hs : Safe w n x) :
    Safe (afterResume w id r) n x := by
  refine ⟨h.frame n x hs.1 (hs.2 t (mem_of_getElem? ht)), fun u hu hown => ?_⟩
  rcases mem_or_eq_of_mem_set hu with hu | rfl
  · exact hs.2 u hu hown
  · rcases h.fresh n hown with hold | hnone
    · exact hs.2 t (mem_of_getElem? ht) hold
    · rw [hs.1] at hnone
      cases hnone

theorem owns_other (hi : PutInv w) (ht : w.tasks[id]? = some t) (h : Did w.shared t r) {j : Nat} {u : PutTask}
    (hj : w.tasks[j]? = some u) (hne : j ≠ id) : Owns r.1.files u := by
  intro n hn
  obtain ⟨content, hfile, hholds⟩ := hi.owns u (mem_of_getElem? hj) n hn
  exact ⟨content, h.frame n _ hfile (fun hown => hne (hi.apart j id u t n hj ht hn hown)), hholds⟩

theorem apart_other (hi : PutInv w) (ht : w.tasks[id]? = some t) (h : Did w.shared t r) {j : Nat} {u : PutTask}
    (hj : w.tasks[j]? = some u) (hn : u.owned = some n) (hown : r.2.1.owned = some n) : j = id := by
  rcases h.fresh n hown with hold | hnone
  · exact hi.apart j id u t n hj ht hn hold
  · obtain ⟨content, hfile, -⟩ := hi.owns u (mem_of_getElem? hj) n hn
    rw [hnone] at hfile
    cases hfile

theorem safe_placed (hi : PutInv w) (h : Did w.shared t r) {body : Bytes}
    (hn : r.2.1.placed = some (n, body)) : Safe (afterResume w id r) n (.file body) := by
  obtain ⟨hnone, hfile, howned⟩ := h.placed n body hn
  refine ⟨hfile, fun u hu hown => ?_⟩
  rcases mem_or_eq_of_mem_set hu with hu | rfl
  · obtain ⟨content, hold, -⟩ := hi.owns u hu n hown
    rw [hnone] at hold
    cases hold
  · rw [howned] at hown
    cases hown

theorem putInv_resume (hi : PutInv w) (ht : w.tasks[id]? = some t) (h : Did w.shared t r) :
    PutInv (afterResume w id r) := by
  have hget : ∀ j u, (afterResume w id r).tasks[j]? = some u →
      (j = id ∧ u = r.2.1) ∨ (j ≠ id ∧ w.tasks[j]? = some u) := by
    intro j u hu
    simp only [afterResume, getElem?_set] at hu
    by_cases hj : j = id
    · subst hj
      rw [if_pos rfl] at hu
      split at hu
      · exact .inl ⟨rfl, (Option.some.inj hu).symm⟩
      · cases hu
    · rw [if_neg (Ne.symm hj)] at hu
      exact .inr ⟨hj, hu⟩
  refine ⟨fun u hu => ?_, fun i j u v n hu hv hun hvn => ?_, fun u hu n body hn => ?_, fun p n hmem => ?_⟩
  · obtain ⟨j, hj⟩ := mem_iff_getElem?.1 hu
    rcases hget j u hj with ⟨-, rfl⟩ | ⟨hne, hj⟩
    · exact h.owns
    · exact owns_other hi ht h hj hne
  · rcases hget i u hu with ⟨rfl, rfl⟩ | ⟨-, hiu⟩ <;> rcases hget j v hv with ⟨rfl, rfl⟩ | ⟨-, hjv⟩
    · rfl
    · exact (apart_other hi ht h hjv hvn hun).symm
    · exact apart_other hi ht h hiu hun hvn
    · exact hi.apart i j u v n hiu hjv hun hvn
  · rcases mem_or_eq_of_mem_set hu with hu | rfl
    · exact safe_resume ht h (hi.finals u hu n body hn)
    · exact safe_placed hi h hn
  · rcases mem_append.1 hmem with hmem | hmem
    · exact ⟨safe_resume ht h (hi.delivered p n hmem).1, (hi.delivered p n hmem).2⟩
    · -- the file that was verified is the one that was moved
      obtain ⟨hplaced, content, hfile, hlen⟩ := h.answered p n hmem
      have hsafe := hi.finals t (mem_of_getElem? ht) n p.body hplaced
      refine ⟨safe_resume ht h hsafe, ?_⟩
      cases hfile.symm.trans hsafe.1
      exact Nat.le_antisymm (by unfold Put.body; exact length_take_le _ _) hlen

end

theorem putInv_call {w w' : PutWorld} {ts : List PutTask} {more : List PutObserved} (hi : PutInv w)
    (hfiles : w'.shared.files = w.shared.files) (htasks : w'.tasks = w.tasks ++ ts) (hlog : w'.log = w.log ++ more)
    (hts : ∀ t ∈ ts, ∃ p, t = .creating p) (hmore : ∀ p n, .answered p 200 (some n) ∉ more) :
    PutInv w' ∧ ∀ n x, Safe w n x → Safe w' n x := by
  have hold : ∀ t ∈ w'.tasks, t ∈ w.tasks ∨ ∃ p, t = .creating p := fun t ht => by
    rw [htasks] at ht
    exact (mem_append.1 ht).imp id (hts t)
  have hsafe : ∀ n x, Safe w n x → Safe w' n x := fun n x hs => by
    refine ⟨hfiles ▸ hs.1, fun t ht hown => ?_⟩
    rcases hold t ht with ht | ⟨p, rfl⟩
    · exact hs.2 t ht hown
    · cases hown
  have howner : ∀ (i : Nat) (t : PutTask) (n : Name), w'.tasks[i]? = some t → t.owned = some n →
      w.tasks[i]? = some t := by
    intro i t n hit hown
    rw [htasks] at hit
    by_cases hlt : i < w.tasks.length
    · rwa [getElem?_append_left hlt] at hit
    · rw [getElem?_append_right (Nat.le_of_not_lt hlt)] at hit
      obtain ⟨p, rfl⟩ := hts t (mem_of_getElem? hit)
      cases hown
  refine ⟨⟨fun t ht n hn => ?_, fun i j t u n hit hju htn hun => ?_, fun t ht n body hn => ?_, fun p n hmem => ?_⟩,
    hsafe⟩
  · rcases hold t ht with ht | ⟨p, rfl⟩
    · rw [hfiles]
      exact hi.owns t ht n hn
    · cases hn
  · exact hi.apart i j t u n (howner i t n hit htn) (howner j u n hju hun) htn hun
  · rcases hold t ht with ht | ⟨p, rfl⟩
    · exact hsafe n _ (hi.finals t ht n body hn)
    · cases hn
  · rw [hlog] at hmem
    rcases mem_append.1 hmem with hmem | hmem
    · exact ⟨hsafe n _ (hi.delivered p n hmem).1, (hi.delivered p n hmem).2⟩
    · exact absurd hmem (hmore p n)

theorem putInv_step (w : PutWorld) (e : PutEvent) (hi : PutInv w) (hclear : ClearStep w e) :
    PutInv (putStep w e) ∧ ∀ n x, Safe w n x → Safe (putStep w e) n x := by
  unfold putStep
  rcases w.step_cases putThreads e with ⟨d, hd⟩ | ⟨req, -, hr⟩ | ⟨id, t, met, rfl, ht, hr⟩
  · rw [hd]
    exact ⟨⟨hi.owns, hi.apart, hi.finals, hi.delivered⟩, fun n x hs => hs⟩
  · obtain ⟨hfiles, htask, hlog⟩ := putCall_spec w.shared req
    rw [hr]
    exact putInv_call hi hfiles rfl rfl (fun t ht => htask t (Option.mem_toList.1 ht)) hlog
  · rw [hr]
    have hdid : Did w.shared t (putResume id w.shared met t) :=
      did (hclear t ht) (hi.owns t (mem_of_getElem? ht)) id met
    exact ⟨putInv_resume hi ht hdid, fun n x hs => safe_resume ht hdid hs⟩

theorem putInv_run {es : List PutEvent} {w : PutWorld} (hi : PutInv w) (hclear : Along putStep ClearStep w es) :
    PutInv (run putStep w es) ∧ ∀ n x, Safe w n x → Safe (run putStep w es) n x := by
  refine run_inv (fun w' => PutInv w' ∧ ∀ n x, Safe w n x → Safe w' n x) (fun w' e hw' he => ?_) es w
    ⟨hi, fun n x hs => hs⟩ hclear
  obtain ⟨hi', hsafe⟩ := putInv_step w' e hw'.1 he
  exact ⟨hi', fun n x hs => hsafe n x (hw'.2 n x hs)⟩

theorem putInv_new (files : Files) (maxSize : Nat) : PutInv (PutWorld.new files maxSize) where
  owns := by nofun
  apart i j t u n hi := by cases hi
  finals := by nofun
  delivered := by nofun

theorem frame_step {w : PutWorld} (hi : PutInv w) {e : PutEvent} (hclear : ClearStep w e) {x : Node}
    (hn : w.shared.files.lookup n = some x)
    (hother : ∀ id met t, e = .resume id met → w.tasks[id]? = some t → t.owned ≠ some n) :
    (putStep w e).shared.files.lookup n = some x := by
  unfold putStep
  rcases w.step_cases putThreads e with ⟨d, hd⟩ | ⟨req, -, hr⟩ | ⟨id, t, met, rfl, ht, hr⟩
  · rwa [hd]
  · rw [hr]
    simp only [putThreads, (putCall_spec w.shared req).1]
    exact hn
  · rw [hr]
    exact (did (hclear t ht) (hi.owns t (mem_of_getElem? ht)) id met).frame n x hn (hother id met t rfl ht)

def PutTask.leaves (files : Files) : PutTask → Option Node
  | .creating _ => some (.file [])
  | .moving p finalName => (files.erase finalName).lookup p.temp
  | _ => none

theorem unclear_takes_place (id : Nat) (h : ¬ t.Clear s.files) :
    ∃ n content, s.files.lookup n = some (.file content) ∧
      (putResume id s {} t).1.files.lookup n = t.leaves s.files := by
  have hfind : ∀ n, ¬ Free s.files n → ∃ content, s.files.lookup n = some (.file content) := fun n hn => by
    simpa only [Free, not_forall, not_not] using hn
  cases t with
  | creating p =>
    obtain ⟨content, hfile⟩ := hfind p.temp h
    refine ⟨p.temp, content, hfile, ?_⟩
    simp [putResume, Fs.write, Fs.sceIoRemove, Fs.append, Fs.writeAtEnd, hfile, PutTask.leaves]
  | moving p finalName =>
    obtain ⟨content, hfile⟩ := hfind finalName h
    refine ⟨finalName, content, hfile, ?_⟩
    cases hmoved : (s.files.erase finalName).lookup p.temp with
    | none => simp [putResume, Fs.rename, Fs.sceIoRemove, hfile, hmoved, PutTask.leaves, unlock]
    | some node => simp [putResume, Fs.rename, Fs.sceIoRemove, hfile, hmoved, PutTask.leaves]
  | removing p status moved =>
    cases moved with
    | false => exact absurd trivial h
    | true =>
      obtain ⟨content, hfile⟩ := hfind p.temp h
      refine ⟨p.temp, content, hfile, ?_⟩
      simp [putResume, Fs.removeFile, hfile, PutTask.leaves, release]
  | streaming p initial remaining socket | locking p | listing p | verifying p finalName | finished =>
    exact absurd trivial h

/-- **Dropped files and the files already there.**  Whatever requests come, and whichever system calls fail: in every
run whose sections are all clear, the file of every 200 holds exactly the body of its request, every entry of the
directory is what it was, and no section touches a file but its own request's temporary file. A section that is not
clear takes the place of a file, when its system calls go through. -/
theorem taildrop_keeps_files (files : Files) (maxSize : Nat) (es : List PutEvent)
    (hclear : Along putStep ClearStep (PutWorld.new files maxSize) es) :
    (∀ p n, .answered p 200 (some n) ∈ (run putStep (PutWorld.new files maxSize) es).log →
      (run putStep (PutWorld.new files maxSize) es).shared.files.lookup n = some (.file p.body) ∧
      p.body.length = p.contentLength) ∧
    (∀ n x, files.lookup n = some x → (run putStep (PutWorld.new files maxSize) es).shared.files.lookup n = some x) ∧
    (∀ es₁ e es₂ n x, es = es₁ ++ e :: es₂ →
      (run putStep (PutWorld.new files maxSize) es₁).shared.files.lookup n = some x →
      (∀ id met t, e = .resume id met → (run putStep (PutWorld.new files maxSize) es₁).tasks[id]? = some t →
        t.owned ≠ some n) →
      (putStep (run putStep (PutWorld.new files maxSize) es₁) e).shared.files.lookup n = some x) ∧
    (∀ (s : PeerApi) (t : PutTask) (id : Nat), ¬ t.Clear s.files → ∃ n content,
      s.files.lookup n = some (.file content) ∧ (putResume id s {} t).1.files.lookup n = t.leaves s.files) := by
  have hnew := putInv_new files maxSize
  obtain ⟨hi, hsafe⟩ := putInv_run hnew hclear
  refine ⟨fun p n hmem => ?_, fun n x hn => ?_, fun es₁ e es₂ n x hes hn hother => ?_, fun s t id h => ?_⟩
  · exact ⟨(hi.delivered p n hmem).1.1, (hi.delivered p n hmem).2⟩
  · exact (hsafe n x ⟨hn, nofun⟩).1
  · subst hes
    have hsplit := (along_append (e :: es₂) es₁ _).1 hclear
    exact frame_step (putInv_run hnew hsplit.1).1 hsplit.2.1 hn hother
  · exact unclear_takes_place id h

/-! ## Runs on a small directory -/

def dropRequest (name : Name) (body : Bytes) : PutRequest :=
  { method := ascii "PUT", path := putPrefix ++ name, contentLength := some body.length, leftover := body,
    socket := [] }

def sections (id k : Nat) : List PutEvent := List.replicate k (.resume id {})

def PutObserved.answer : PutObserved → Nat × Option Name
  | .refused _ status => (status, none)
  | .answered _ status finalName => (status, finalName)

def oneFile : Files := (∅ : Files).insert (ascii "a") (.file [9])

def twoAtOnce : List PutEvent :=
  [.call (dropRequest (ascii "a") [1, 2]), .call (dropRequest (ascii "a") [3])] ++ sections 0 2 ++ sections 1 3 ++
    sections 0 5 ++ sections 1 4

theorem taildrop_keeps_files_two_at_once :
    Along putStep ClearStep (PutWorld.new oneFile 10) twoAtOnce ∧
    (run putStep (PutWorld.new oneFile 10) twoAtOnce).log.map PutObserved.answer =
      [(200, some (ascii "a (1)")), (200, some (ascii "a (2)"))] ∧
    (run putStep (PutWorld.new oneFile 10) twoAtOnce).shared.files.lookup (ascii "a") = some (.file [9]) :=
  ⟨by decide +kernel, by decide +kernel,
    (taildrop_keeps_files oneFile 10 twoAtOnce (by decide +kernel)).2.1 (ascii "a") (.file [9]) (by decide +kernel)⟩

def listingFails : List PutEvent :=
  .call (dropRequest (ascii "a") [1, 2]) :: sections 0 4 ++ .resume 0 { io := { lists := false } } :: sections 0 2

def firstPartial : Name := ascii ".taildrop-0000000000000000.partial"

def secondPartial : Name := ascii ".taildrop-0000000000000001.partial"

def namedAsPartial : List PutEvent :=
  [.call (dropRequest secondPartial [7])] ++ sections 0 7 ++ [.call (dropRequest (ascii "b") [8])] ++ sections 1 7

def deliveredBeforeRemoval : List PutEvent :=
  [.call (dropRequest (ascii "b") [8])] ++ sections 0 6 ++ [.resume 0 { io := { lists := false } }] ++
    [.call (dropRequest firstPartial [7])] ++ sections 1 7 ++ sections 0 1

/-- **Three ways to lose a file**: it is overwritten, emptied and moved away, or removed. -/
theorem taildrop_loses_files :
    ((run putStep (PutWorld.new oneFile 10) listingFails).log.map PutObserved.answer = [(200, some (ascii "a"))] ∧
      (run putStep (PutWorld.new oneFile 10) listingFails).shared.files.lookup (ascii "a") = some (.file [1, 2])) ∧
    ((run putStep (PutWorld.new ∅ 10) namedAsPartial).log.map PutObserved.answer =
        [(200, some secondPartial), (200, some (ascii "b"))] ∧
      (run putStep (PutWorld.new ∅ 10) namedAsPartial).shared.files.lookup secondPartial = none) ∧
    (run putStep (PutWorld.new ∅ 10) deliveredBeforeRemoval).log.map PutObserved.answer =
        [(200, some firstPartial), (500, none)] ∧
      (run putStep (PutWorld.new ∅ 10) deliveredBeforeRemoval).shared.files.lookup firstPartial = none := by
  decide +kernel

end TailscaleVita.Peer

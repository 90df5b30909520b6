import TailscaleVita.Calls
import TailscaleVita.VitaFs
/-!
# LogWriter — the writer of the log (`vita-log/src/writer.rs`)

A process appends its lines to the log, counts the bytes it has written, and at `rotate_bytes` shifts the rotated files
up by one and makes the log the first of them. Each of these keeps to one protocol (`logging`).
-/
namespace TailscaleVita.Log

/-! ## The writer -/

structure LogConfig where
  rotateBytes : Nat
  keepFiles : Nat
  rotates : 0 < rotateBytes
  keeps : 0 < keepFiles

inductive Slot where
  | active
  | numbered (idx : Nat)
deriving DecidableEq

inductive LogCall where
  | openAppend
  | write (line : Bytes)
  | newline
  | remove (slot : Slot)
  | rename (source target : Slot)
deriving DecidableEq

abbrev LogCall.Answer : LogCall → Type
  | .openAppend | .write _ => Bool
  | .newline | .remove _ | .rename _ _ => Unit

abbrev LogProg := Prog LogCall LogCall.Answer

def rotateLoop : (i : Nat) → LogProg Unit
  | 0 => return ()
  | i + 1 => do
    Prog.perform (LogCall.remove (.numbered (i + 1)))
    Prog.perform (LogCall.rename (.numbered i) (.numbered (i + 1)))
    rotateLoop i

def rotate (cfg : LogConfig) (written : Nat) : LogProg Nat := do
  rotateLoop cfg.keepFiles
  Prog.perform (LogCall.remove (.numbered 0))
  Prog.perform (LogCall.rename .active (.numbered 0))
  if ← Prog.perform LogCall.openAppend then return 0 else return written

def writeLine (cfg : LogConfig) (written : Nat) (line : Bytes) : LogProg Nat := do
  if ← Prog.perform (LogCall.write line) then
    if line.getLast? = some 10 then
      if cfg.rotateBytes ≤ written + line.length then rotate cfg (written + line.length)
      else return written + line.length
    else
      Prog.perform LogCall.newline
      if cfg.rotateBytes ≤ written + 1 + line.length then rotate cfg (written + 1 + line.length)
      else return written + 1 + line.length
  else return written

def startMarker : Bytes := utf8 "=== vita-log start ===\n".toList

def openLog (cfg : LogConfig) : LogProg (Option Nat) := do
  if ← Prog.perform LogCall.openAppend then
    let written ← writeLine cfg 0 startMarker
    let _ ← Prog.perform LogCall.openAppend
    return some written
  else return none

def logLine (cfg : LogConfig) (written : Nat) (line : Bytes) : LogProg (Option Nat) := do
  return some (← writeLine cfg written line)

def reopenAppend (written : Nat) : LogProg (Option Nat) := do
  let _ ← Prog.perform LogCall.openAppend
  return some written

/-! ## What a process does, stage by stage -/

inductive Stage where
  | ready (count : Nat)
  | vacating (j : Nat)
  | filling (j : Nat)
  | reopening
  | broken

def logging (cfg : LogConfig) : Protocol LogCall LogCall.Answer Stage where
  may
    | .ready n, .write _ => n < cfg.rotateBytes
    | .ready _, .newline | .ready _, .openAppend => True
    | .ready _, .remove slot => slot = .numbered cfg.keepFiles
    | .vacating j, .remove slot => slot = .numbered j
    | .filling 0, .rename source target => source = .active ∧ target = .numbered 0
    | .filling (j + 1), .rename source target => source = .numbered j ∧ target = .numbered (j + 1)
    | .reopening, .openAppend | .broken, _ => True
    | _, _ => False
  after stage c :=
    match stage, c with
    | .ready n, .write line => fun ok => if ok then .ready (n + line.length) else .broken
    | .ready n, .newline => fun _ => .ready (n + 1)
    | .ready n, .openAppend => fun ok => if ok then .ready n else .broken
    | .ready _, .remove _ => fun _ => .filling cfg.keepFiles
    | .vacating j, .remove _ => fun _ => .filling j
    | .filling 0, .rename _ _ => fun _ => .reopening
    | .filling (j + 1), .rename _ _ => fun _ => .vacating j
    | .reopening, .openAppend => fun ok => if ok then .ready 0 else .broken
    | _, _ => fun _ => .broken

def Counts (cfg : LogConfig) (stage : Stage) (written : Nat) : Prop :=
  stage = .broken ∨ stage = .ready written ∧ written < cfg.rotateBytes

section

variable {cfg : LogConfig}

theorem rotateLoop_tracks : ∀ i : Nat,
    (rotateLoop i).Tracks (logging cfg) (fun stage _ => stage = .vacating 0) (.vacating i)
  | 0 => rfl
  | i + 1 => ⟨rfl, fun _ => ⟨⟨rfl, rfl⟩, fun _ => rotateLoop_tracks i⟩⟩

theorem rotate_tracks (n written : Nat) : (rotate cfg written).Tracks (logging cfg) (Counts cfg) (.ready n) := by
  have hloop : (rotateLoop cfg.keepFiles).Tracks (logging cfg) (fun stage _ => stage = .vacating 0) (.ready n) := by
    obtain ⟨k, hk⟩ : ∃ k, cfg.keepFiles = k + 1 := ⟨cfg.keepFiles - 1, by have := cfg.keeps; omega⟩
    rw [hk]
    refine ⟨by rw [← hk]; rfl, fun _ => ?_⟩
    show Prog.Tracks (logging cfg) _ (.filling cfg.keepFiles) _
    rw [hk]
    exact ⟨⟨rfl, rfl⟩, fun _ => rotateLoop_tracks k⟩
  refine .bind hloop (fun stage _ hstage => ?_)
  subst hstage
  refine ⟨rfl, fun _ => ⟨⟨rfl, rfl⟩, fun _ => ⟨trivial, fun opened => ?_⟩⟩⟩
  cases opened with
  | true => exact .inr ⟨rfl, cfg.rotates⟩
  | false => exact .inl rfl

variable {written : Nat}

theorem writeLine_tracks (h : written < cfg.rotateBytes) (line : Bytes) :
    (writeLine cfg written line).Tracks (logging cfg) (Counts cfg) (.ready written) := by
  refine ⟨h, fun ok => ?_⟩
  cases ok with
  | false => exact .inl rfl
  | true =>
    have hend : ∀ n count : Nat, count = n → Prog.Tracks (logging cfg) (Counts cfg) (.ready n)
        (if cfg.rotateBytes ≤ count then rotate cfg count else return count) := by
      rintro n _ rfl
      split
      · exact rotate_tracks _ _
      next hless => exact .inr ⟨rfl, Nat.not_le.1 hless⟩
    split
    · exact hend _ _ rfl
    · exact ⟨trivial, fun _ => hend _ _ (by omega)⟩

theorem openLog_tracks :
    (openLog cfg).Tracks (logging cfg) (fun stage r => ∀ n ∈ r, Counts cfg stage n) (.ready 0) := by
  refine ⟨trivial, fun opened => ?_⟩
  cases opened with
  | false => exact fun n hn => by cases hn
  | true =>
    show Prog.Tracks (logging cfg) _ (.ready 0) (writeLine cfg 0 startMarker >>= _)
    refine .bind (writeLine_tracks cfg.rotates startMarker) (fun stage written hcounts => ?_)
    rcases hcounts with rfl | ⟨rfl, hless⟩
    · exact ⟨trivial, fun _ n _ => .inl rfl⟩
    · refine ⟨trivial, fun opened n hn => ?_⟩
      cases hn
      cases opened with
      | true => exact .inr ⟨rfl, hless⟩
      | false => exact .inl rfl

theorem logLine_tracks (h : written < cfg.rotateBytes) (line : Bytes) :
    (logLine cfg written line).Tracks (logging cfg) (fun stage r => ∀ n ∈ r, Counts cfg stage n) (.ready written) := by
  refine .bind (writeLine_tracks h line) (fun stage written hcounts n hn => ?_)
  cases hn
  exact hcounts

theorem reopenAppend_tracks (h : written < cfg.rotateBytes) :
    (reopenAppend written).Tracks (logging cfg) (fun stage r => ∀ n ∈ r, Counts cfg stage n) (.ready written) := by
  refine ⟨trivial, fun opened n hn => ?_⟩
  cases hn
  cases opened with
  | true => exact .inr ⟨rfl, h⟩
  | false => exact .inl rfl

end

end TailscaleVita.Log

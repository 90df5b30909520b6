import TailscaleVita.VitaFs
/-!
# PeerName — the names of dropped files (`ts-peerapi/src/name.rs`)

A name comes percent-encoded in the request's path, is decoded once and must be a plain file name. A file that is
already there gets no second content: the new one is numbered, up to a limit.
-/
namespace TailscaleVita.Peer

open Fs (Name)

def ascii (s : String) : Bytes := s.toList.map (fun c => BitVec.ofNat 8 c.toNat)

inductive NameError where
  | empty
  | dotOrDotDot
  | separator
  | control
  | tooLong
  | badEncoding
deriving DecidableEq

def maxNameBytes : Nat := 255

def maxCollision : Nat := 100

def hexVal (b : BitVec 8) : Option (BitVec 8) :=
  if 0x30 ≤ b ∧ b ≤ 0x39 then some (b - 0x30)
  else if 0x61 ≤ b ∧ b ≤ 0x66 then some (b - 0x61 + 10)
  else if 0x41 ≤ b ∧ b ≤ 0x46 then some (b - 0x41 + 10)
  else none

def percentDecodeOnce : Bytes → Except NameError Bytes
  | [] => .ok []
  | b :: input =>
    if b = 0x25 then
      match input with
      | h :: l :: input =>
        match hexVal h, hexVal l with
        | some hi, some lo => (percentDecodeOnce input).map (fun out => ((hi <<< 4) ||| lo) :: out)
        | _, _ => .error .badEncoding
      | _ => .error .badEncoding
    else (percentDecodeOnce input).map (fun out => b :: out)

def badByte (b : BitVec 8) : Option NameError :=
  if b = 0x2F ∨ b = 0x5C ∨ b = 0x3A then some .separator
  else if b ≤ 0x1F ∨ b = 0x7F then some .control
  else none

def validate (name : Name) : Except NameError Unit :=
  if name = [] then .error .empty
  else if name = ascii "." ∨ name = ascii ".." then .error .dotOrDotDot
  else if maxNameBytes < name.length then .error .tooLong
  else
    match name.findSome? badByte with
    | some e => .error e
    | none => .ok ()

def sanitizeFilename (raw : Bytes) : Except NameError Name :=
  match percentDecodeOnce raw with
  | .error e => .error e
  | .ok name =>
    if utf8Valid name then
      match validate name with
      | .error e => .error e
      | .ok () => .ok name
    else .error .badEncoding

def splitStemExt (name : Name) : Name × Name :=
  match name.reverse.findIdx? (fun b => decide (b = 0x2E)) with
  | some k => if 0 < name.length - 1 - k then name.splitAt (name.length - 1 - k) else (name, [])
  | none => (name, [])

def numbered (base : Name) (n : Nat) : Name :=
  (splitStemExt base).1 ++ ascii " (" ++ ascii (toString n) ++ ascii ")" ++ (splitStemExt base).2

def nextFreeName (base : Name) (existing : Finset Name) : Option Name :=
  if base ∉ existing then some base
  else ((List.range' 1 maxCollision).map (numbered base)).find? (fun candidate => decide (candidate ∉ existing))

end TailscaleVita.Peer

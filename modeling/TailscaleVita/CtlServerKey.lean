import TailscaleVita.CtlKeys
import TailscaleVita.CtlPersist
/-!
# CtlServerKey — the cached key of the control server (`ts-control/src/server_key.rs`)

The cache is two files: the text of the key, and the time it was fetched at. A write makes both anew beside them and
renames one after the other, and can be cut short anywhere. What is in `server.pub` is still the key of one fetch, or
not a key (`sound_step`), and what `server.pub.meta` says, if the clock does not go back, no later than that fetch
(`dated_step`). The URL of the fetch is not kept, and a date in the future passes for one of now
(`server_key_cache_steady`).
-/
namespace TailscaleVita.Ctl

open Fs List Option

open Fs (Name Node Files Io SceCall SceProg)

abbrev WallClock := Int

def unixSecs (t : WallClock) : Option Nat := if t < 0 then none else some (t / 1000000000).toNat

def serverKeyCacheTtl : Nat := 3600

/-! ## The files -/

def keyCacheFile : Text := "server.pub".toList
def keyCacheMetaFile : Text := "server.pub.meta".toList
def tmpExt : Text := ".tmp".toList

def keyPath (dir : Text) : Text := join dir keyCacheFile
def metaPath (dir : Text) : Text := join dir keyCacheMetaFile
def keyTmp (dir : Text) : Text := join dir (keyCacheFile ++ tmpExt)
def metaTmp (dir : Text) : Text := join dir (keyCacheMetaFile ++ tmpExt)

def keyLine (key : MachinePublic) : Text := key.toMkeyString ++ ['\n']

def metaLead : Text := "fetched_at_unix=".toList

def metaLine (now : WallClock) : Text := metaLead ++ ((toString ((unixSecs now).getD 0)).toList ++ ['\n'])

def writeCachedKey (dir : Text) (key : MachinePublic) (now : WallClock) : SceProg Bool := do
  if ← createDirAll dir then
    if ← writeFile (keyTmp dir) (utf8 (keyLine key)) then
      if ← writeFile (metaTmp dir) (utf8 (metaLine now)) then
        if ← renameFile (keyTmp dir) (keyPath dir) then renameFile (metaTmp dir) (metaPath dir)
        else return false
      else return false
    else return false
  else return false

def invalidateServerKeyCache (dir : Text) : SceProg Unit := do
  removeAt (keyPath dir)
  removeAt (metaPath dir)

/-- A call of `fetch_server_key_cached`: the URL, what the clock says and whether the files can be read, what a
fetch would give and the clock behind it, and the system calls of the write. -/
structure KeyRequest where
  url : Text
  now : WallClock
  readsKey : Bool := true
  readsMeta : Bool := true
  answer : Except ControlError MachinePublic
  fetchedAt : WallClock
  ios : List Io := []

def fetchedUnix (metaStr : Text) : Option Nat :=
  (((lines metaStr).findSome? fun line => (stripLeading metaLead line).map trim).bind (fromStrRadix 64 10)).map
    BitVec.toNat

def readCachedKey (dir : Text) (r : KeyRequest) (fs : Files) : Option MachinePublic := do
  let keyStr ← readToString r.readsKey (keyPath dir) fs
  let metaStr ← readToString r.readsMeta (metaPath dir) fs
  let fetched ← fetchedUnix metaStr
  let now ← unixSecs r.now
  -- the subtraction saturates
  if serverKeyCacheTtl ≤ now - fetched then none
  else (fromMkeyStr (trim keyStr)).toOption

def fetchServerKeyCached (dir : Text) (r : KeyRequest) (fs : Files) : Except ControlError MachinePublic × Files :=
  match readCachedKey dir r fs, r.answer with
  | some cached, _ => (.ok cached, fs)
  | none, .error e => (.error e, fs)
  | none, .ok fresh => (.ok fresh, Prog.cut sceIo (writeCachedKey dir fresh r.fetchedAt) fs r.ios)

/-! ## Where a key is from -/

structure Fetch where
  url : Text
  key : MachinePublic
  time : WallClock
deriving DecidableEq

def origin (key : Name) (current : Option Fetch) (io : Io) : SceCall → Files → Option Fetch → Option Fetch
  | .rename source n, fs, was =>
    if n = key ∧ (sceIo io (.rename source n) fs).1 = true then
      current.filter (fun f => fs.lookup source = some (.file (utf8 (keyLine f.key))))
    else was
  | .remove n, fs, was => if n = key ∧ (sceIo io (.remove n) fs).1 = true then none else was
  | _, _, was => was

def watch (key : Name) (current : Option Fetch) (io : Io) (c : SceCall) (w : Files × Option Fetch) :
    c.Answer × (Files × Option Fetch) :=
  ((sceIo io c w.1).1, (sceIo io c w.1).2, origin key current io c w.1 w.2)

/-- The cache, with every fetch there was, and the one whose key is stored. -/
structure KeyCache where
  fs : Files
  fetches : List Fetch := []
  stored : Option Fetch := none

inductive CacheEvent where
  | call (r : KeyRequest)
  | invalidate (ios : List Io)

def keyName (dir : Text) : Name := utf8 (norm (keyPath dir))
def keyTmpName (dir : Text) : Name := utf8 (norm (keyTmp dir))
def metaName (dir : Text) : Name := utf8 (norm (metaPath dir))
def metaTmpName (dir : Text) : Name := utf8 (norm (metaTmp dir))

namespace KeyCache

def call (dir : Text) (s : KeyCache) (r : KeyRequest) : KeyCache :=
  match readCachedKey dir r s.fs, r.answer with
  | some _, _ | none, .error _ => s
  | none, .ok fresh =>
    let f : Fetch := ⟨r.url, fresh, r.fetchedAt⟩
    let w := Prog.cut (watch (keyName dir) (some f)) (writeCachedKey dir fresh r.fetchedAt) (s.fs, s.stored) r.ios
    ⟨w.1, s.fetches ++ [f], w.2⟩

def invalidate (dir : Text) (s : KeyCache) (ios : List Io) : KeyCache :=
  let w := Prog.cut (watch (keyName dir) none) (invalidateServerKeyCache dir) (s.fs, s.stored) ios
  ⟨w.1, s.fetches, w.2⟩

def step (dir : Text) (s : KeyCache) : CacheEvent → KeyCache
  | .call r => s.call dir r
  | .invalidate ios => s.invalidate dir ios

end KeyCache

/-! ## What the file of a key reads as -/

def keyIn (content : Bytes) : Option MachinePublic :=
  (fromUtf8 content).bind fun s => (fromMkeyStr (trim s)).toOption

theorem tight_mkey (key : MachinePublic) (front : Text) (h : ∀ c, (front ++ ['m']).head? = some c → c = 'm') :
    Tight (front ++ key.toMkeyString) := by
  have hhex : encodeHex key.bytes ≠ [] := by
    intro hnil
    have hlen := length_encodeHex key.bytes
    rw [hnil, key.size] at hlen
    cases hlen
  constructor
  · intro c hc
    have hm : c = 'm' := h c (by cases front <;> exact hc)
    rw [hm]
    decide
  · intro c hc
    rw [MachinePublic.toMkeyString, ← append_assoc, getLast?_append_of_ne_nil _ hhex] at hc
    exact (digit_plain (encodeHex_digits (mem_of_getLast? hc))).2

theorem utf8Len_mkey (key : MachinePublic) : utf8Len key.toMkeyString = 69 := by
  rw [MachinePublic.toMkeyString, utf8Len_append, utf8Len_encodeHex, key.size]
  decide

theorem trim_keyLine (key : MachinePublic) (front : Text) (h : ∀ c, (front ++ ['m']).head? = some c → c = 'm') :
    trim (front ++ keyLine key) = front ++ key.toMkeyString := by
  rw [keyLine, ← append_assoc]
  exact trim_append (tight_mkey key front h) (append_ne_nil_of_right_ne_nil _ (cons_ne_nil _ _)) ['\n']
    (fun c hc => by rw [mem_singleton.1 hc]; decide)

theorem keyIn_keyLine (key : MachinePublic) : keyIn (utf8 (keyLine key)) = some key := by
  have hm : ∀ c, (([] : Text) ++ ['m']).head? = some c → c = 'm' := fun c hc => (Option.some.inj hc).symm
  have htrim : trim (keyLine key) = key.toMkeyString := trim_keyLine key [] hm
  have hread : fromMkeyStr (trim (keyLine key)) = .ok key :=
    fromMkeyStr_toMkeyString key (by rw [htrim]; exact trim_of_tight (tight_mkey key [] hm))
  unfold keyIn
  rw [fromUtf8_utf8, bind_some, hread]
  rfl

def Loose (content : Bytes) : Prop :=
  (∀ b ∈ content, b.toNat < 128) ∧ ∀ b, content.head? = some b → b = 109

theorem keyIn_behind {junk : Bytes} (hjunk : Loose junk) (hne : junk ≠ []) (key : MachinePublic) :
    keyIn (junk ++ utf8 (keyLine key)) = none := by
  obtain ⟨b, bs, rfl⟩ := exists_cons_of_ne_nil hne
  have hb : b = 109 := hjunk.2 b rfl
  have hm : ∀ c, (asciiText (b :: bs) ++ ['m']).head? = some c → c = 'm' := fun c hc => by
    rw [← Option.some.inj hc, hb]
    decide
  have htext : (b :: bs) ++ utf8 (keyLine key) = utf8 (asciiText (b :: bs) ++ keyLine key) := by
    rw [utf8_append, utf8_asciiText hjunk.1]
  have hlong : 69 < utf8Len (trim (trim (asciiText (b :: bs) ++ keyLine key))) := by
    rw [trim_keyLine key _ hm, trim_of_tight (tight_mkey key _ hm), utf8Len_append, utf8Len_mkey]
    show 69 < utf8Len (Char.ofNat b.toNat :: asciiText bs) + 69
    have hpos := (Char.ofNat b.toNat).utf8Size_pos
    rw [utf8Len_cons]
    omega
  obtain ⟨e, he⟩ := fromMkeyStr_too_long hlong
  unfold keyIn
  rw [htext, fromUtf8_utf8, bind_some, he]
  rfl

theorem keyLine_ascii (key : MachinePublic) : ∀ b ∈ utf8 (keyLine key), b.toNat < 128 := by
  have halphabet : ("0123456789abcdef".toList ++ mkeyLead ++ ['\n']).all
      (fun c => (utf8 [c]).all (fun b => b.toNat < 128)) = true := by decide
  intro b hb
  obtain ⟨c, hc, hb⟩ := mem_flatMap.1 hb
  have hmem : c ∈ "0123456789abcdef".toList ++ mkeyLead ++ ['\n'] := by
    rcases mem_append.1 hc with hc | hc
    · rcases mem_append.1 hc with hc | hc
      · exact mem_append_left _ (mem_append_right _ hc)
      · exact mem_append_left _ (mem_append_left _ (encodeHex_digits hc))
    · exact mem_append_right _ hc
  have hchar := all_eq_true.1 (all_eq_true.1 halphabet c hmem) b
    (mem_flatMap.2 ⟨c, mem_singleton_self c, hb⟩)
  exact of_decide_eq_true hchar

theorem loose_of_leftover {key : MachinePublic} {content : Bytes} (h : Leftover Loose (utf8 (keyLine key)) content) :
    Loose content := by
  obtain ⟨junk, done, hjunk, ⟨rest, hdone⟩, rfl⟩ := h
  have hascii : ∀ b ∈ done, b.toNat < 128 := fun b hb =>
    keyLine_ascii key b (by rw [← hdone]; exact mem_append_left rest hb)
  have hhead : ∀ b, done.head? = some b → b = 109 := by
    intro b hb
    obtain ⟨done, rfl⟩ : ∃ tail, done = b :: tail := ⟨done.tail, eq_cons_of_mem_head? hb⟩
    have hline : (utf8 (keyLine key)).head? = some 109 := rfl
    rw [← hdone] at hline
    exact Option.some.inj hline
  obtain rfl | hjunk := hjunk
  · exact ⟨hascii, hhead⟩
  · refine ⟨fun b hb => (mem_append.1 hb).elim (hjunk.1 b) (hascii b), fun b hb => ?_⟩
    cases junk with
    | nil => exact hhead b hb
    | cons j junk => exact hjunk.2 b hb

/-! ## What the file of the date reads as -/

def Fetch.secs (f : Fetch) : Nat := (unixSecs f.time).getD 0

def dateIn : Option Node → Option Nat
  | some (.file content) => (fromUtf8 content).bind fetchedUnix
  | _ => none

theorem fetchedUnix_metaLine (now : WallClock) (h : (unixSecs now).getD 0 < 2 ^ 64) :
    fetchedUnix (metaLine now) = some ((unixSecs now).getD 0) := by
  unfold metaLine
  generalize (unixSecs now).getD 0 = secs at h ⊢
  rw [toList_toString]
  have hdigit : ∀ c ∈ Nat.toDigits 10 secs, c.isDigit = true := fun c hc =>
    Nat.isDigit_of_mem_toDigits (by decide) (by decide) hc
  have hplain : ∀ c ∈ metaLead ++ Nat.toDigits 10 secs, c ≠ '\n' ∧ c ≠ '\r' := by
    intro c hc
    rcases mem_append.1 hc with hc | hc
    · have hlead : metaLead.all (fun c => c ≠ '\n' ∧ c ≠ '\r') = true := by decide
      exact of_decide_eq_true (all_eq_true.1 hlead c hc)
    · have hc := hdigit c hc
      constructor <;> rintro rfl <;> revert hc <;> decide
  have hspace : ∀ c ∈ Nat.toDigits 10 secs, isWhitespace c = false := fun c hc => isWhitespace_of_isDigit (hdigit c hc)
  have htrim : trim (Nat.toDigits 10 secs) = Nat.toDigits 10 secs :=
    trim_of_tight ⟨fun c hc => hspace c (mem_of_mem_head? hc), fun c hc => hspace c (mem_of_getLast? hc)⟩
  unfold fetchedUnix
  rw [← append_assoc, lines_of_plain hplain, findSome?_cons, stripLeading_append, map_some, htrim, bind_some,
    fromStrRadix_toDigits h, map_some, BitVec.toNat_ofNat, Nat.mod_eq_of_lt h]

theorem date_le {f : Fetch} {v : Nat} (h : dateIn (some (.file (utf8 (metaLine f.time)))) = some v) : v ≤ f.secs := by
  obtain ⟨metaStr, htext, h⟩ := bind_eq_some_iff.1 h
  rw [fromUtf8_utf8] at htext
  cases htext
  by_cases hsmall : f.secs < 2 ^ 64
  · rw [fetchedUnix_metaLine _ hsmall] at h
    exact Nat.le_of_eq (Option.some.inj h).symm
  · -- a date too long for 64 bits is read as none, or as one that is not
    obtain ⟨b, -, rfl⟩ := map_eq_some_iff.1 h
    exact Nat.le_trans (Nat.le_of_lt b.isLt) (Nat.not_lt.1 hsmall)

/-! ## The names of the files -/

section

variable (dir : Text)

theorem utf8_norm_ext (rest : Text) (h : ':' ∉ '.' :: rest) :
    utf8 (norm (join dir (keyCacheFile ++ '.' :: rest))) = keyName dir ++ utf8 ('.' :: rest) := by
  rw [join_append, norm_append h (by decide), utf8_append]
  rfl

def cacheNames : List Name := [keyName dir, keyTmpName dir, metaName dir, metaTmpName dir]

theorem cacheNames_eq : cacheNames dir =
    ([[], utf8 ".tmp".toList, utf8 ".meta".toList, utf8 ".meta.tmp".toList].map (keyName dir ++ ·)) := by
  have htmp : keyTmpName dir = _ := utf8_norm_ext dir "tmp".toList (by decide)
  have hmeta : metaName dir = _ := utf8_norm_ext dir "meta".toList (by decide)
  have hmetaTmp : metaTmpName dir = _ := utf8_norm_ext dir "meta.tmp".toList (by decide)
  unfold cacheNames
  rw [htmp, hmeta, hmetaTmp, map_cons, append_nil]
  rfl

theorem cacheNames_nodup : (cacheNames dir).Nodup := by
  rw [cacheNames_eq]
  exact Nodup.map (fun _ _ h => append_cancel_left h) (by decide)

theorem cacheName_longer : ∀ n ∈ cacheNames dir, (utf8 (norm dir)).length < n.length := by
  have hlong : (utf8 (norm dir)).length < (keyName dir).length := utf8_norm_join (by decide) (by decide) dir
  intro n hn
  rw [cacheNames_eq] at hn
  obtain ⟨ext, -, rfl⟩ := mem_map.1 hn
  rw [length_append]
  omega

theorem names_ne : keyName dir ≠ keyTmpName dir ∧ keyName dir ≠ metaName dir ∧ keyName dir ≠ metaTmpName dir ∧
    keyTmpName dir ≠ metaName dir ∧ keyTmpName dir ≠ metaTmpName dir ∧ metaName dir ≠ metaTmpName dir := by
  have h := cacheNames_nodup dir
  simpa [cacheNames, and_assoc] using h

end

/-! ## In what order the files change -/

def inTurn (key date : Name) : Protocol SceCall SceCall.Answer Bool where
  may placed c := ∀ source, c = .rename source date → placed = true
  after placed
    | .rename _ n => fun moved => if n = key then moved else placed
    | .mkdir _ | .remove _ | .openAppend _ | .write _ _ | .sync _ | .close _ => fun _ => placed

section

variable {tmp target key date : Name}

theorem inTurn_of_apart {α : Type} {m : SceProg α} (h : m.Meets (Apart key date) (fun _ => True)) (placed : Bool) :
    m.Tracks (inTurn key date) (fun placed' _ => placed' = placed ∧ True) placed := by
  refine Prog.Tracks.of_meets (p := inTurn key date) (fun c hc => ⟨?_, ?_⟩) h
  · rintro source rfl
    exact absurd (.inr rfl) hc.2
  · cases c with
    | rename source n => exact fun _ => if_neg (fun he => hc.1 (.inr he))
    | _ => exact fun _ => rfl

theorem writeFile_apart (path : Text) (data : Bytes) (htmp : utf8 (norm path) ≠ tmp)
    (htarget : utf8 (norm path) ≠ target) : (writeFile path data).Meets (Apart tmp target) (fun _ => True) :=
  (writeFile_touches path data).mono (fun _ hc => ⟨fun ht => htmp (hc _ ht), fun ht => htarget (hc _ ht)⟩)
    (fun _ h => h)

theorem renameFile_apart (source path : Text) (hsource : utf8 (norm source) ≠ tmp ∧ utf8 (norm source) ≠ target)
    (hpath : utf8 (norm path) ≠ tmp ∧ utf8 (norm path) ≠ target) :
    (renameFile source path).Meets (Apart tmp target) (fun _ => True) :=
  (renameFile_touches source path).mono (fun _ hc => ⟨fun ht => (hc _ ht).elim hsource.1 hpath.1,
    fun ht => (hc _ ht).elim hsource.2 hpath.2⟩) (fun _ h => h)

variable (dir : Text)

theorem createDirAll_apart (htmp : tmp ∈ cacheNames dir) (htarget : target ∈ cacheNames dir) :
    (createDirAll dir).Meets (Apart tmp target) (fun _ => True) :=
  (createDirAll_touches dir (cacheName_longer dir tmp htmp)).and
    (createDirAll_touches dir (cacheName_longer dir target htarget))

variable (k : MachinePublic) (now : WallClock)

theorem writeCachedKey_tracks : (writeCachedKey dir k now).Tracks
    (writing (keyTmpName dir) (keyName dir) (utf8 (keyLine k))) (fun _ _ => True) .before := by
  obtain ⟨-, hkm, hkd, htm, htd, -⟩ := names_ne dir
  refine (tracks_of_apart (createDirAll_apart dir (by simp [cacheNames]) (by simp [cacheNames])) .before).ite ?_
  rintro _ ⟨rfl, -⟩
  refine (writeFile_tracks (keyTmp dir)).ite (fun stage hstage => ?_)
  rw [hstage rfl]
  refine (tracks_of_apart (writeFile_apart (metaTmp dir) _ htd.symm hkd.symm) _).ite ?_
  rintro _ ⟨rfl, -⟩
  refine (renameFile_tracks (keyTmp dir) (keyPath dir)).ite (fun stage _ => ?_)
  exact (tracks_of_apart (renameFile_apart (metaTmp dir) (metaPath dir) ⟨htd.symm, hkd.symm⟩
    ⟨htm.symm, hkm.symm⟩) stage).mono (fun _ _ _ => trivial)

theorem writeCachedMeta_tracks : (writeCachedKey dir k now).Tracks
    (writing (metaTmpName dir) (metaName dir) (utf8 (metaLine now))) (fun _ _ => True) .before := by
  obtain ⟨-, hkm, hkd, htm, htd, -⟩ := names_ne dir
  refine (tracks_of_apart (createDirAll_apart dir (by simp [cacheNames]) (by simp [cacheNames])) .before).ite ?_
  rintro _ ⟨rfl, -⟩
  refine (tracks_of_apart (writeFile_apart (keyTmp dir) _ htd htm) _).ite ?_
  rintro _ ⟨rfl, -⟩
  refine (writeFile_tracks (metaTmp dir)).ite (fun stage hstage => ?_)
  rw [hstage rfl]
  refine (tracks_of_apart (renameFile_apart (keyTmp dir) (keyPath dir) ⟨htd, htm⟩ ⟨hkd, hkm⟩) _).ite ?_
  rintro _ ⟨rfl, -⟩
  exact renameFile_tracks (metaTmp dir) (metaPath dir)

theorem writeCachedKey_inTurn : (writeCachedKey dir k now).Tracks
    (inTurn (keyName dir) (metaName dir)) (fun _ _ => True) false := by
  obtain ⟨hkt, hkm, hkd, htm, -, hmd⟩ := names_ne dir
  have hkey : (renameFile (keyTmp dir) (keyPath dir)).Tracks (inTurn (keyName dir) (metaName dir))
      (fun placed ok => ok = true → placed = true) false := by
    unfold renameFile
    split
    next n m hn hm =>
      rw [pathName_eq hm]
      refine ⟨fun _ => nofun, fun _ => ⟨fun _ he => absurd (SceCall.rename.inj he).2 hkm, fun moved hok => ?_⟩⟩
      exact (if_pos rfl).trans hok
    · exact fun hok => absurd hok Bool.false_ne_true
  have hmeta : (renameFile (metaTmp dir) (metaPath dir)).Tracks (inTurn (keyName dir) (metaName dir))
      (fun _ _ => True) true := by
    unfold renameFile
    split
    · exact ⟨fun _ _ => rfl, fun _ => ⟨fun _ _ => rfl, fun _ => trivial⟩⟩
    · trivial
  refine (inTurn_of_apart (createDirAll_apart dir (by simp [cacheNames]) (by simp [cacheNames])) false).ite ?_
  rintro _ ⟨rfl, -⟩
  refine (inTurn_of_apart (writeFile_apart (keyTmp dir) _ hkt.symm htm) _).ite ?_
  rintro _ ⟨rfl, -⟩
  refine (inTurn_of_apart (writeFile_apart (metaTmp dir) _ hkd.symm hmd.symm) _).ite ?_
  rintro _ ⟨rfl, -⟩
  refine hkey.ite (fun placed hplaced => ?_)
  rwa [hplaced rfl]

theorem invalidate_removes : (invalidateServerKeyCache dir).Meets
    (fun c => c = .remove (keyName dir) ∨ c = .remove (metaName dir)) (fun _ => True) := by
  unfold invalidateServerKeyCache removeAt
  refine Prog.Meets.bind (Q := fun _ => True) ?_ (fun _ _ => ?_)
  · cases hn : pathName (keyPath dir) with
    | none => trivial
    | some n => exact ⟨.inl (by rw [pathName_eq hn]; rfl), fun _ => trivial⟩
  · cases hn : pathName (metaPath dir) with
    | none => trivial
    | some n => exact ⟨.inr (by rw [pathName_eq hn]; rfl), fun _ => trivial⟩

end

/-! ## The stored key -/

/-- What `server.pub` holds is the key of the fetch it is from, or no key. -/
def KeyHeld (fetches : List Fetch) (key : Name) (w : Files × Option Fetch) : Prop :=
  match w.2 with
  | some f => f ∈ fetches ∧ w.1.lookup key = some (.file (utf8 (keyLine f.key)))
  | none => ∀ content, w.1.lookup key = some (.file content) → keyIn content = none

section

variable {fetches : List Fetch} {key tmp : Name} {w : Files × Option Fetch} {current : Option Fetch} {io : Io}

theorem keyHeld_frame {w' : Files × Option Fetch} (hlookup : w'.1.lookup key = w.1.lookup key) (horigin : w'.2 = w.2)
    (h : KeyHeld fetches key w) : KeyHeld fetches key w' := by
  unfold KeyHeld at h ⊢
  rwa [hlookup, horigin]

theorem keyHeld_of_apart {c : SceCall} (hc : ¬ c.Touches key) (h : KeyHeld fetches key w) :
    KeyHeld fetches key (watch key current io c w).2 := by
  refine keyHeld_frame (lookup_sceIo_of_apart io hc w.1) ?_ h
  cases c with
  | rename source n => exact if_neg (fun hs => hc (.inr hs.1))
  | remove n => exact if_neg (fun hs => hc hs.1)
  | _ => rfl

theorem keyHeld_remove (h : KeyHeld fetches key w) : KeyHeld fetches key (watch key current io (.remove key) w).2 := by
  cases hok : (sceIo io (.remove key) w.1).1 with
  | false =>
    have hsame : (sceIo io (.remove key) w.1).2 = w.1 := by
      simp only [sceIo, sceIoRemove] at hok ⊢
      split at hok
      · cases hok
      · rfl
    refine keyHeld_frame (congrArg (Finmap.lookup key) hsame) ?_ h
    exact if_neg (fun hs => by rw [hok] at hs; exact Bool.false_ne_true hs.2)
  | true =>
    have horigin : (watch key current io (.remove key) w).2.2 = none := if_pos ⟨rfl, hok⟩
    have hgone : (watch key current io (.remove key) w).2.1.lookup key = none := by
      simp only [watch, sceIo, sceIoRemove] at hok ⊢
      split at hok
      · exact Finmap.lookup_erase key w.1
      · cases hok
    unfold KeyHeld
    rw [horigin, hgone]
    exact fun content hc => (by cases hc)

theorem keyHeld_rename {f : Fetch} (hf : f ∈ fetches) {junk : Bytes} (hjunk : junk = [] ∨ Loose junk)
    (htmp : w.1.lookup tmp = some (.file (junk ++ utf8 (keyLine f.key)))) (h : KeyHeld fetches key w) :
    KeyHeld fetches key (watch key (some f) io (.rename tmp key) w).2 := by
  cases hok : (sceIo io (.rename tmp key) w.1).1 with
  | false =>
    have hsame : (sceIo io (.rename tmp key) w.1).2 = w.1 := by
      simp only [sceIo] at hok ⊢
      split at hok
      · cases hok
      · rfl
    refine keyHeld_frame (congrArg (Finmap.lookup key) hsame) ?_ h
    exact if_neg (fun hs => by rw [hok] at hs; exact Bool.false_ne_true hs.2)
  | true =>
    have hmoved : (watch key (some f) io (.rename tmp key) w).2.1.lookup key =
        some (.file (junk ++ utf8 (keyLine f.key))) := by
      simp only [watch, sceIo] at hok ⊢
      split at hok
      next node _ hnode _ =>
        rw [htmp] at hnode
        cases hnode
        exact Finmap.lookup_insert _
      · cases hok
    have horigin : (watch key (some f) io (.rename tmp key) w).2.2 =
        (some f).filter (fun f => w.1.lookup tmp = some (.file (utf8 (keyLine f.key)))) := if_pos ⟨rfl, hok⟩
    unfold KeyHeld
    rw [horigin, hmoved, htmp]
    by_cases hnil : junk = []
    · subst hnil
      simp only [nil_append, decide_true, filter_some, if_true]
      exact ⟨hf, trivial⟩
    · have hne : junk ++ utf8 (keyLine f.key) ≠ utf8 (keyLine f.key) := fun he =>
        hnil (append_left_eq_self.1 he)
      have hno : decide (some (Node.file (junk ++ utf8 (keyLine f.key))) = some (.file (utf8 (keyLine f.key)))) =
          false := decide_eq_false (fun he => hne (Node.file.inj (Option.some.inj he)))
      simp only [filter_some, hno, Bool.false_eq_true, if_false]
      intro content hc
      cases hc
      exact keyIn_behind (hjunk.resolve_left hnil) hnil f.key

theorem keyHeld_mono {fetches' : List Fetch} (hsub : ∀ f ∈ fetches, f ∈ fetches') (h : KeyHeld fetches key w) :
    KeyHeld fetches' key w := by
  unfold KeyHeld at h ⊢
  split at h
  · exact ⟨hsub _ h.1, h.2⟩
  · exact h

end

def KeyCache.Sound (dir : Text) (s : KeyCache) : Prop :=
  (∀ content, s.fs.lookup (keyTmpName dir) = some (.file content) → Loose content) ∧
  KeyHeld s.fetches (keyName dir) (s.fs, s.stored)

section

variable {dir : Text} {s : KeyCache}

theorem watch_writing {fetches : List Fetch} {key tmp : Name} (hne : key ≠ tmp) {f : Fetch} (hf : f ∈ fetches) (io : Io)
    (stage : Stage) (c : SceCall) (w : Files × Option Fetch)
    (hmay : (writing tmp key (utf8 (keyLine f.key))).may stage c)
    (h : TmpHolds Loose tmp (utf8 (keyLine f.key)) stage w.1 ∧ KeyHeld fetches key w) :
    KeyHeld fetches key (watch key (some f) io c w).2 := by
  obtain hapart | hown := hmay
  · exact keyHeld_of_apart hapart.2 h.2
  · cases c with
    | remove n =>
      obtain ⟨rfl, rfl⟩ | ⟨rfl, rfl⟩ := hown
      · exact keyHeld_of_apart (c := .remove n) hne.symm h.2
      · exact keyHeld_remove h.2
    | openAppend n =>
      obtain ⟨rfl, rfl⟩ := hown
      exact keyHeld_of_apart (c := .openAppend n) hne.symm h.2
    | write n data =>
      obtain ⟨rfl, rfl⟩ := hown
      exact keyHeld_of_apart (c := .write n data) hne.symm h.2
    | rename source n =>
      obtain ⟨rfl, rfl, rfl⟩ := hown
      obtain ⟨⟨junk, done, hjunk, hnew, hlookup⟩, hheld⟩ := h
      rw [append_nil] at hnew
      rw [← hnew] at hlookup
      exact keyHeld_rename hf hjunk hlookup hheld
    | mkdir n | sync n | close n => exact hown.elim

theorem sound_call (h : s.Sound dir) (r : KeyRequest) : (s.call dir r).Sound dir := by
  unfold KeyCache.call
  split
  · exact h
  · exact h
  next fresh _ _ =>
    have hne := (names_ne dir).1
    have hmem : (⟨r.url, fresh, r.fetchedAt⟩ : Fetch) ∈ s.fetches ++ [⟨r.url, fresh, r.fetchedAt⟩] :=
      mem_append_right _ (mem_singleton_self _)
    obtain ⟨stage, htmp, hheld⟩ := (writeCachedKey_tracks dir fresh r.fetchedAt).cut
      (watch (keyName dir) (some ⟨r.url, fresh, r.fetchedAt⟩))
      (fun stage (w : Files × Option Fetch) => TmpHolds Loose (keyTmpName dir) (utf8 (keyLine fresh)) stage w.1 ∧
        KeyHeld (s.fetches ++ [⟨r.url, fresh, r.fetchedAt⟩]) (keyName dir) w)
      (w := (s.fs, s.stored)) ⟨h.1, keyHeld_mono (fun _ hf => mem_append_left _ hf) h.2⟩
      (fun io stage c w hmay hw => ⟨sceIo_tmpHolds hne hmay hw.1, watch_writing hne hmem io stage c w hmay hw⟩) r.ios
    exact ⟨fun content hc => loose_of_leftover (leftover_of_tmpHolds htmp hc), hheld⟩

theorem sound_invalidate (h : s.Sound dir) (ios : List Io) : (s.invalidate dir ios).Sound dir := by
  obtain ⟨hkt, hkm, -, htm, -⟩ := names_ne dir
  refine (invalidate_removes dir).cut (watch (keyName dir) none) (fun (w : Files × Option Fetch) =>
      (∀ content, w.1.lookup (keyTmpName dir) = some (.file content) → Loose content) ∧
      KeyHeld s.fetches (keyName dir) w) (w := (s.fs, s.stored)) h (fun io c w hc hw => ?_) ios
  have htmp : ∀ n, n ≠ keyTmpName dir → ∀ content,
      (sceIo io (.remove n) w.1).2.lookup (keyTmpName dir) = some (.file content) → Loose content := by
    intro n hn content hlookup
    rw [lookup_sceIo_of_apart io (c := .remove n) hn w.1] at hlookup
    exact hw.1 content hlookup
  obtain rfl | rfl := hc
  · exact ⟨htmp _ hkt, keyHeld_remove hw.2⟩
  · exact ⟨htmp _ htm.symm, keyHeld_of_apart (c := .remove _) hkm.symm hw.2⟩

theorem sound_step (h : s.Sound dir) : ∀ e, (s.step dir e).Sound dir
  | .call r => sound_call h r
  | .invalidate ios => sound_invalidate h ios

theorem sound_start {fs : Files} (hkey : Fs.Free fs (keyName dir)) (htmp : Fs.Free fs (keyTmpName dir)) :
    KeyCache.Sound dir { fs := fs } :=
  ⟨fun content hc => absurd hc (htmp content), fun content hc => absurd hc (hkey content)⟩

end

/-! ## The date beside it -/

/-- `server.pub.meta` does not say a later time than that of the fetch whose key is stored. -/
def Dated (fetches : List Fetch) (date : Name) (w : Files × Option Fetch) : Prop :=
  ∀ v, dateIn (w.1.lookup date) = some v → (∃ f ∈ fetches, v ≤ f.secs) ∧ ∀ f, w.2 = some f → v ≤ f.secs

theorem origin_from {key : Name} {current was : Option Fetch} {io : Io} {c : SceCall} {fs : Files} {f : Fetch}
    (h : origin key current io c fs was = some f) : was = some f ∨ current = some f := by
  cases c with
  | rename source n =>
    simp only [origin] at h
    split at h
    · exact .inr (filter_eq_some_iff.1 h).1
    · exact .inl h
  | remove n =>
    simp only [origin] at h
    split at h
    · cases h
    · exact .inl h
  | _ => exact .inl h

section

variable {fetches : List Fetch} {key date tmp : Name} {w : Files × Option Fetch} {io : Io} {c : SceCall}

theorem dated_frame {current : Option Fetch} (hcurrent : ∀ f, current = some f → ∀ g ∈ fetches, g.secs ≤ f.secs)
    (hlookup : (sceIo io c w.1).2.lookup date = w.1.lookup date ∨ (sceIo io c w.1).2.lookup date = none)
    (h : Dated fetches date w) : Dated fetches date (watch key current io c w).2 := by
  intro v hv
  replace hv : dateIn ((sceIo io c w.1).2.lookup date) = some v := hv
  obtain hlookup | hlookup := hlookup
  · rw [hlookup] at hv
    obtain ⟨⟨g, hg, hle⟩, hstored⟩ := h v hv
    refine ⟨⟨g, hg, hle⟩, fun f hf => ?_⟩
    obtain hf | hf := origin_from hf
    · exact hstored f hf
    · exact Nat.le_trans hle (hcurrent f hf g hg)
  · rw [hlookup] at hv
    cases hv

theorem placed_after {f : Fetch} {placed : Bool} (h : placed = true → ∀ g, w.2 = some g → g = f)
    (hplaced : (inTurn key date).after placed c (watch key (some f) io c w).1 = true) (g : Fetch)
    (hg : (watch key (some f) io c w).2.2 = some g) : g = f := by
  obtain hwas | hnew := origin_from hg
  · cases c with
    | rename source n =>
      by_cases hn : n = key
      · have hmoved : (sceIo io (.rename source n) w.1).1 = true := (if_pos hn).symm.trans hplaced
        have horigin : (watch key (some f) io (.rename source n) w).2.2 = Option.filter _ (some f) :=
          if_pos ⟨hn, hmoved⟩
        rw [horigin] at hg
        exact (Option.some.inj (filter_eq_some_iff.1 hg).1).symm
      · exact h ((if_neg hn).symm.trans hplaced) g hwas
    | _ => exact h hplaced g hwas
  · exact (Option.some.inj hnew).symm

theorem watch_dated (hdate : date ≠ tmp) (hkey : key ≠ date) {f : Fetch} (hf : f ∈ fetches)
    (hlast : ∀ g ∈ fetches, g.secs ≤ f.secs) {stage : Stage} {placed : Bool}
    (hmay : (writing tmp date (utf8 (metaLine f.time))).may stage c) (hturn : (inTurn key date).may placed c)
    (htmp : TmpHolds (fun _ => False) tmp (utf8 (metaLine f.time)) stage w.1)
    (hplaced : placed = true → ∀ g, w.2 = some g → g = f) (h : Dated fetches date w) :
    Dated fetches date (watch key (some f) io c w).2 := by
  have hcurrent : ∀ g, some f = some g → ∀ g' ∈ fetches, g'.secs ≤ g.secs := by
    rintro _ ⟨⟩
    exact hlast
  obtain hsame | hgone | ⟨rfl, junk, hjunk, hmoved⟩ := lookup_target io hdate hmay htmp
  · exact dated_frame hcurrent (.inl hsame) h
  · exact dated_frame hcurrent (.inr hgone) h
  · intro v hv
    replace hv : dateIn ((sceIo io (.rename tmp date) w.1).2.lookup date) = some v := hv
    rw [hmoved, hjunk.resolve_right id, nil_append] at hv
    refine ⟨⟨f, hf, date_le hv⟩, fun g hg => ?_⟩
    have hwas : w.2 = some g := (if_neg (fun he => hkey he.1.symm)).symm.trans hg
    rw [hplaced (hturn tmp rfl) g hwas]
    exact date_le hv

end

/-- The call is for the URL of the stored key, and by a clock that has not been set back by the TTL since its fetch; a
fetch of its own is not before an earlier one by the clock, and finds no temporary file of a date left behind. -/
def Steady (dir : Text) (s : KeyCache) : CacheEvent → Prop
  | .call r =>
    (∀ f, s.stored = some f → f.url = r.url ∧ 0 ≤ f.time ∧ f.time < r.now + serverKeyCacheTtl * 1000000000) ∧
    (readCachedKey dir r s.fs = none →
      (∀ f ∈ s.fetches, f.time ≤ r.fetchedAt) ∧ Fs.Free s.fs (metaTmpName dir))
  | .invalidate _ => True

section

variable {dir : Text} {s : KeyCache}

theorem secs_mono {t t' : Int} (h : t ≤ t') : (unixSecs t).getD 0 ≤ (unixSecs t').getD 0 := by
  unfold unixSecs
  by_cases hneg : t < 0
  · rw [if_pos hneg]
    exact Nat.zero_le _
  · have hpos : ¬ t' < 0 := by omega
    rw [if_neg hneg, if_neg hpos, getD_some, getD_some]
    omega

theorem dated_call (h : Dated s.fetches (metaName dir) (s.fs, s.stored)) {r : KeyRequest}
    (hsteady : Steady dir s (.call r)) :
    Dated (s.call dir r).fetches (metaName dir) ((s.call dir r).fs, (s.call dir r).stored) := by
  unfold KeyCache.call
  split
  · exact h
  · exact h
  next fresh hread _ =>
    obtain ⟨-, hkm, -, -, -, hmd⟩ := names_ne dir
    obtain ⟨hlater, hfree⟩ := hsteady.2 hread
    let f : Fetch := ⟨r.url, fresh, r.fetchedAt⟩
    have hmem : f ∈ s.fetches ++ [f] := mem_append_right _ (mem_singleton_self f)
    have hlast : ∀ g ∈ s.fetches ++ [f], g.secs ≤ f.secs := by
      intro g hg
      rcases mem_append.1 hg with hg | hg
      · exact secs_mono (hlater g hg)
      · rw [mem_singleton.1 hg]
    have hstart : Dated (s.fetches ++ [f]) (metaName dir) (s.fs, s.stored) := fun v hv =>
      ⟨(h v hv).1.imp fun g hg => ⟨mem_append_left _ hg.1, hg.2⟩, (h v hv).2⟩
    obtain ⟨t, -, hdated, -⟩ :=
      ((writeCachedMeta_tracks dir fresh r.fetchedAt).prod (writeCachedKey_inTurn dir fresh r.fetchedAt)).cut
        (watch (keyName dir) (some f))
        (fun (t : Stage × Bool) (w : Files × Option Fetch) =>
          TmpHolds (fun _ => False) (metaTmpName dir) (utf8 (metaLine r.fetchedAt)) t.1 w.1 ∧
          Dated (s.fetches ++ [f]) (metaName dir) w ∧ (t.2 = true → ∀ g, w.2 = some g → g = f))
        (t := (Stage.before, false)) (w := (s.fs, s.stored)) ⟨hfree, hstart, nofun⟩
        (fun io t c w hmay hw => ⟨sceIo_tmpHolds hmd hmay.1 hw.1,
          watch_dated hmd hkm hmem hlast hmay.1 hmay.2 hw.1 hw.2.2 hw.2.1,
          @placed_after _ (metaName dir) _ _ _ _ _ hw.2.2⟩) r.ios
    exact hdated

theorem dated_invalidate (h : Dated s.fetches (metaName dir) (s.fs, s.stored)) (ios : List Io) :
    Dated s.fetches (metaName dir) ((s.invalidate dir ios).fs, (s.invalidate dir ios).stored) := by
  refine (invalidate_removes dir).cut (watch (keyName dir) none) (Dated s.fetches (metaName dir))
    (w := (s.fs, s.stored)) h (fun io c w hc hw => dated_frame nofun ?_ hw) ios
  obtain rfl | rfl := hc
  · exact .inl (lookup_sceIo_of_apart io (c := .remove _) (names_ne dir).2.1 w.1)
  · simp only [sceIo, sceIoRemove]
    split
    · exact .inr (Finmap.lookup_erase _ w.1)
    · exact .inl rfl

theorem dated_step (h : Dated s.fetches (metaName dir) (s.fs, s.stored)) : ∀ e, Steady dir s e →
    Dated (s.step dir e).fetches (metaName dir) ((s.step dir e).fs, (s.step dir e).stored)
  | .call _, hsteady => dated_call h hsteady
  | .invalidate ios, _ => dated_invalidate h ios

theorem dated_start {fs : Files} (hmeta : Fs.Free fs (metaName dir)) : Dated [] (metaName dir) (fs, none) := by
  intro v hv
  unfold dateIn at hv
  split at hv
  next content hc => exact absurd hc (hmeta content)
  · cases hv

end

def Fresh (dir : Text) (r : KeyRequest) (fs : Files) : Prop :=
  r.readsKey = true ∧ ∃ metaStr fetched now, readToString r.readsMeta (metaPath dir) fs = some metaStr ∧
    fetchedUnix metaStr = some fetched ∧ unixSecs r.now = some now ∧ now - fetched < serverKeyCacheTtl

variable {dir : Text}

theorem keyPath_name {r : KeyRequest} {fs : Files} (h : Fresh dir r fs) :
    pathName (keyPath dir) = some (keyName dir) := by
  obtain ⟨-, metaStr, -, -, hread, -⟩ := h
  obtain ⟨-, n, -, hn, -⟩ := readToString_eq_some.1 hread
  have hmeta : metaPath dir = keyPath dir ++ '.' :: "meta".toList := join_append dir keyCacheFile ('.' :: "meta".toList)
  unfold pathName at hn ⊢
  refine if_neg (fun hnul => ?_)
  rw [if_pos (by rw [hmeta]; exact mem_append_left _ hnul)] at hn
  cases hn

theorem readCachedKey_iff (dir : Text) (r : KeyRequest) (fs : Files) (key : MachinePublic) :
    readCachedKey dir r fs = some key ↔ Fresh dir r fs ∧
      ∃ content, fs.lookup (keyName dir) = some (.file content) ∧ keyIn content = some key := by
  constructor
  · intro h
    obtain ⟨keyStr, hkey, h⟩ := bind_eq_some_iff.1 h
    obtain ⟨metaStr, hmeta, h⟩ := bind_eq_some_iff.1 h
    obtain ⟨fetched, hfetched, h⟩ := bind_eq_some_iff.1 h
    obtain ⟨now, hnow, h⟩ := bind_eq_some_iff.1 h
    split at h
    · cases h
    next hage =>
      obtain ⟨hreads, n, content, hn, hlookup, htext⟩ := readToString_eq_some.1 hkey
      refine ⟨⟨hreads, metaStr, fetched, now, hmeta, hfetched, hnow, Nat.not_le.1 hage⟩, content, ?_, ?_⟩
      · rw [← hlookup, pathName_eq hn]
        rfl
      · unfold keyIn
        rwa [htext]
  · rintro ⟨hfresh, content, hlookup, hkey⟩
    have hname := keyPath_name hfresh
    obtain ⟨hreads, metaStr, fetched, now, hmeta, hfetched, hnow, hage⟩ := hfresh
    obtain ⟨keyStr, htext, hkey⟩ := bind_eq_some_iff.1 hkey
    have hkeyStr : readToString r.readsKey (keyPath dir) fs = some keyStr :=
      readToString_eq_some.2 ⟨hreads, keyName dir, content, hname, hlookup, htext⟩
    unfold readCachedKey
    rw [hkeyStr, hmeta]
    show ((fetchedUnix metaStr).bind fun fetched => (unixSecs r.now).bind fun now => _) = some key
    rw [hfetched, hnow]
    exact (if_neg (Nat.not_le.2 hage)).trans hkey

theorem readCachedKey_stored {s : KeyCache} (h : s.Sound dir) (r : KeyRequest) (key : MachinePublic) :
    readCachedKey dir r s.fs = some key ↔ Fresh dir r s.fs ∧ ∃ f, s.stored = some f ∧ f ∈ s.fetches ∧ f.key = key := by
  rw [readCachedKey_iff]
  refine and_congr_right fun _ => ?_
  have hheld := h.2
  unfold KeyHeld at hheld
  constructor
  · rintro ⟨content, hlookup, hkey⟩
    split at hheld
    next f hf =>
      rw [hlookup] at hheld
      obtain ⟨hmem, he⟩ := hheld
      cases he
      rw [keyIn_keyLine] at hkey
      exact ⟨f, hf, hmem, Option.some.inj hkey⟩
    · rw [hheld content hlookup] at hkey
      cases hkey
  · rintro ⟨f, hf, hmem, rfl⟩
    rw [hf] at hheld
    exact ⟨_, hheld.2, keyIn_keyLine f.key⟩

/-! ## Whose key the cache gives -/

def Near (t t' : WallClock) : Prop := (t - t').natAbs < serverKeyCacheTtl * 1000000000

/-- A key from the cache was fetched from the URL it is given for, at a time near the call's. -/
def Genuine (dir : Text) (s : KeyCache) : CacheEvent → Prop
  | .call r => ∀ key, readCachedKey dir r s.fs = some key →
    ∃ f ∈ s.fetches, s.stored = some f ∧ f.key = key ∧ f.url = r.url ∧ Near r.now f.time
  | .invalidate _ => True

theorem near_of_age {now t : Int} {secs fetched : Nat} (hpos : 0 ≤ t)
    (hback : t < now + serverKeyCacheTtl * 1000000000) (hnow : unixSecs now = some secs)
    (hle : fetched ≤ (unixSecs t).getD 0) (hage : secs - fetched < serverKeyCacheTtl) : Near now t := by
  have hneg : ¬ t < 0 := by omega
  unfold unixSecs at hnow hle
  rw [if_neg hneg, getD_some] at hle
  split at hnow
  · cases hnow
  · have hsecs := Option.some.inj hnow
    unfold Near
    unfold serverKeyCacheTtl at *
    omega

theorem genuine_of_steady {s : KeyCache} (hsound : s.Sound dir)
    (hdate : Dated s.fetches (metaName dir) (s.fs, s.stored)) :
    ∀ e, Steady dir s e → Genuine dir s e
  | .invalidate _, _ => trivial
  | .call r, hsteady => by
    intro key hread
    obtain ⟨hfresh, f, hf, hmem, hkey⟩ := (readCachedKey_stored hsound r key).1 hread
    obtain ⟨hurl, hpos, hback⟩ := hsteady.1 f hf
    obtain ⟨-, metaStr, fetched, now, hmeta, hfetched, hnow, hage⟩ := hfresh
    obtain ⟨-, n, content, hn, hlookup, htext⟩ := readToString_eq_some.1 hmeta
    have hdated : dateIn (s.fs.lookup (metaName dir)) = some fetched := by
      have hname : n = metaName dir := pathName_eq hn
      rw [← hname, hlookup]
      show (fromUtf8 content).bind fetchedUnix = some fetched
      rwa [htext]
    have hle := (hdate fetched hdated).2 f hf
    exact ⟨f, hmem, hf, hkey, hurl, near_of_age hpos hback hnow hle hage⟩

/-- **When the cache is right**: in a history that starts without the files of the cache, with writes cut short and
calls failing anywhere, every key it gives was fetched from the URL of the call and less than the TTL from it, if the
clock does not go back from fetch to fetch, no fetch finds the temporary file of a date, and each call is for the URL
of the stored key's fetch and not a TTL before it. That the fetch is not a TTL ago is what `server.pub.meta` is for. -/
theorem server_key_cache_steady (dir : Text) (fs : Files) (hkey : Fs.Free fs (keyName dir))
    (htmp : Fs.Free fs (keyTmpName dir)) (hmeta : Fs.Free fs (metaName dir)) (es : List CacheEvent)
    (hsteady : Along (KeyCache.step dir) (Steady dir) { fs := fs } es) :
    Along (KeyCache.step dir) (Genuine dir) { fs := fs } es :=
  along_of_inv (fun s : KeyCache => s.Sound dir ∧ Dated s.fetches (metaName dir) (s.fs, s.stored))
    (fun _ e h hsteady => ⟨sound_step h.1 e, dated_step h.2 e hsteady⟩)
    (fun _ e h hsteady => genuine_of_steady h.1 h.2 e hsteady) es { fs := fs }
    ⟨sound_start hkey htmp, dated_start hmeta⟩ hsteady

/-! ## One call, and a second one -/

def stateDir : Text := "ux0:data/tailscale-vita".toList

def firstKey : MachinePublic := ⟨List.replicate 32 1, rfl⟩

def firstCall : KeyRequest where
  url := "https://controlplane.example.com".toList
  now := 10000000000000
  answer := .ok firstKey
  fetchedAt := 10000000000000
  ios := List.replicate 16 { wrote := 100 }

def firstFetch : Fetch := ⟨firstCall.url, firstKey, firstCall.fetchedAt⟩

def afterFirst : KeyCache := run (KeyCache.step stateDir) { fs := ∅ } [.call firstCall]

def secondCall (url : Text) (now : WallClock) : KeyRequest where
  url := url
  now := now
  answer := .error .io
  fetchedAt := now

theorem free_empty (n : Name) : Fs.Free ∅ n := fun content hc => by
  rw [Finmap.lookup_empty] at hc
  cases hc

/-- **A key is never made up.** After any calls and invalidations, cut short and failing anywhere and with any clocks,
the key that `fetch_server_key_cached` gives is the server's answer to this call or to an earlier one. -/
theorem server_key_answered (dir : Text) (fs : Files) (hkey : Fs.Free fs (keyName dir))
    (htmp : Fs.Free fs (keyTmpName dir)) (es : List CacheEvent) (r : KeyRequest) :
    let s := run (KeyCache.step dir) { fs := fs } es
    (∀ key, (fetchServerKeyCached dir r s.fs).1 = .ok key → r.answer = .ok key ∨ ∃ f ∈ s.fetches, f.key = key) ∧
    ∀ e, (fetchServerKeyCached dir r s.fs).1 = .error e → r.answer = .error e := by
  intro s
  have hsound : s.Sound dir := run_keeps (KeyCache.Sound dir) (fun _ e h => sound_step h e) es _ (sound_start hkey htmp)
  unfold fetchServerKeyCached
  cases hread : readCachedKey dir r s.fs with
  | some key =>
    obtain ⟨-, f, -, hf, hkey⟩ := (readCachedKey_stored hsound r key).1 hread
    refine ⟨fun _ hok => ?_, nofun⟩
    cases hok
    exact .inr ⟨f, hf, hkey⟩
  | none =>
    cases hanswer : r.answer with
    | ok key => exact ⟨fun _ hok => .inl hok, nofun⟩
    | error e => exact ⟨nofun, fun _ he => he⟩

theorem afterFirst_files : afterFirst.stored = some firstFetch ∧ afterFirst.fetches = [firstFetch] ∧
    pathName (metaPath stateDir) = some (utf8 (metaPath stateDir)) ∧
    afterFirst.fs.lookup (utf8 (metaPath stateDir)) = some (.file (utf8 (metaLine firstCall.fetchedAt))) := by
  decide +kernel

theorem secondCall_hit (url : Text) {now : Int} (hpos : 0 ≤ now) (hlt : now < 13600000000000) :
    readCachedKey stateDir (secondCall url now) afterFirst.fs = some firstKey := by
  obtain ⟨hstored, hfetches, hname, hmeta⟩ := afterFirst_files
  have hsound : afterFirst.Sound stateDir := sound_step (sound_start (free_empty _) (free_empty _)) (.call firstCall)
  refine (readCachedKey_stored hsound _ _).2 ⟨⟨rfl, metaLine firstCall.fetchedAt, 10000, (now / 1000000000).toNat,
    readToString_eq_some.2 ⟨rfl, _, _, hname, hmeta, fromUtf8_utf8 _⟩, ?_, if_neg (not_lt.2 hpos), ?_⟩,
    firstFetch, hstored, ?_, rfl⟩
  · exact fetchedUnix_metaLine _ (by decide)
  · unfold serverKeyCacheTtl
    omega
  · rw [hfetches]
    exact mem_singleton_self _

theorem server_key_answered_cached :
    let s := run (KeyCache.step stateDir) { fs := ∅ } [.call firstCall]
    let r := secondCall firstCall.url 10010000000000
    (fetchServerKeyCached stateDir r s.fs).1 = .ok firstKey ∧ ∃ f ∈ s.fetches, f.key = firstKey := by
  intro s r
  have hs : s = afterFirst := rfl
  have hhit : readCachedKey stateDir r s.fs = some firstKey := by
    rw [hs]
    exact secondCall_hit _ (by decide) (by decide)
  have hok : (fetchServerKeyCached stateDir r s.fs).1 = .ok firstKey := by
    unfold fetchServerKeyCached
    rw [hhit]
  have hanswered := (server_key_answered stateDir ∅ (free_empty _) (free_empty _) [.call firstCall] r).1 firstKey hok
  exact ⟨hok, hanswered.resolve_left nofun⟩

theorem server_key_cache_same_url :
    readCachedKey stateDir (secondCall firstCall.url 10010000000000) afterFirst.fs = some firstKey ∧
    Along (KeyCache.step stateDir) (Genuine stateDir) { fs := ∅ }
      [.call firstCall, .call (secondCall firstCall.url 10010000000000)] := by
  have hhit : readCachedKey stateDir (secondCall firstCall.url 10010000000000) afterFirst.fs = some firstKey :=
    secondCall_hit _ (by decide) (by decide)
  refine ⟨hhit, server_key_cache_steady stateDir ∅ (free_empty _) (free_empty _) (free_empty _) _
    ⟨⟨nofun, fun _ => ⟨nofun, free_empty _⟩⟩, ⟨fun f hf => ?_, fun hnone => ?_⟩, trivial⟩⟩
  · have hstored : afterFirst.stored = some f := hf
    rw [afterFirst_files.1] at hstored
    cases hstored
    exact ⟨rfl, by decide, by decide⟩
  · cases hhit.symm.trans hnone

/-- **The key of another server**: a second call for another URL gets the first one's key; so does a call for the first
URL after the clock has been set back by hours. -/
theorem server_key_cache_misled :
    let other := secondCall "http://headscale.local:8080".toList 10010000000000
    let early := secondCall firstCall.url 1000000000000
    (readCachedKey stateDir other afterFirst.fs = some firstKey ∧ ∀ f ∈ afterFirst.fetches, f.url ≠ other.url) ∧
    (readCachedKey stateDir early afterFirst.fs = some firstKey ∧
      ∀ f ∈ afterFirst.fetches, ¬ Near early.now f.time) ∧
    ¬ Genuine stateDir afterFirst (.call other) ∧ ¬ Genuine stateDir afterFirst (.call early) := by
  intro other early
  have hother : readCachedKey stateDir other afterFirst.fs = some firstKey := secondCall_hit _ (by decide) (by decide)
  have hearly : readCachedKey stateDir early afterFirst.fs = some firstKey := secondCall_hit _ (by decide) (by decide)
  have hurl : ∀ f ∈ afterFirst.fetches, f.url ≠ other.url := by
    rw [afterFirst_files.2.1]
    decide
  have hfar : ∀ f ∈ afterFirst.fetches, ¬ Near early.now f.time := by
    rw [afterFirst_files.2.1]
    unfold Near
    decide
  refine ⟨⟨hother, hurl⟩, ⟨hearly, hfar⟩, fun hgenuine => ?_, fun hgenuine => ?_⟩
  · obtain ⟨f, hmem, -, -, hsame, -⟩ := hgenuine firstKey hother
    exact hurl f hmem hsame
  · obtain ⟨f, hmem, -, -, -, hnear⟩ := hgenuine firstKey hearly
    exact hfar f hmem hnear

end TailscaleVita.Ctl

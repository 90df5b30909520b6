import TailscaleVita.CtlServerKey
import TailscaleVita.CtlUpgrade
/-!
# CtlBootstrap — the server key over calls of `establish_control_conn` (`tailscale-vita/src/runtime.rs`)

A call takes the key from a pin, from the cache or from the server. A handshake that cannot be built or finished drops
the files of the cache; a response that does not come to 51 bytes leaves them.
-/
namespace TailscaleVita.Ctl

open Fs (Name Files Io)

structure ControlConfig where
  controlUrl : Text
  controlServerKey : Option Text := none
  insecureAllowHttpControl : Bool := false

def httpScheme : Text := "http://".toList

inductive ConnError where
  | serverKey (e : ControlError)
  | handshaker (e : Noise.ControlError)
  | initHeader (e : Noise.ControlError)
  | upgrade (e : Noise.ControlError)
  | response (e : Noise.ControlError)
  | finalize (e : Noise.ControlError)
  | http2 (e : Noise.ControlError)
deriving DecidableEq

structure Handshaker where
  buildInitHeader : Except Noise.ControlError Text
  finalize : Bytes → Except Noise.ControlError Noise.NoiseTransport

/-- What one call meets: the cache and the fetch, the handshake, what the socket brings behind the upgrade request,
the early payload and HTTP/2 (`opens`), and the system calls of an invalidation. -/
structure ConnAttempt where
  request : KeyRequest
  handshaker : MachinePublic → Except Noise.ControlError Handshaker
  parser : Noise.HttpParser
  addr : Text := []
  dial : Text → Except Noise.ControlError (List Arrival)
  setReadTimeout : Except Noise.ControlError Unit := .ok ()
  opens : Noise.NoiseStream → Except Noise.ControlError Unit := fun _ => .ok ()
  ios : List Io := []

def ControlConfig.asksCache (cfg : ControlConfig) : Bool :=
  !(httpScheme.isPrefixOf cfg.controlUrl) || (cfg.controlServerKey.isNone && cfg.insecureAllowHttpControl)

def serverPub (cfg : ControlConfig) (dir : Text) (r : KeyRequest) (fs : Files) :
    Except ControlError MachinePublic × Files :=
  if httpScheme <+: cfg.controlUrl then
    match cfg.controlServerKey with
    | some pin => ((fromMkeyStr pin).mapError (fun _ => .badServerKey), fs)
    | none =>
      if cfg.insecureAllowHttpControl then fetchServerKeyCached dir { r with url := cfg.controlUrl } fs
      else (.error .unpinnedHttpControl, fs)
  else fetchServerKeyCached dir { r with url := cfg.controlUrl } fs

def dialAndUpgrade (a : ConnAttempt) (header : Text) : Except Noise.ControlError (Bytes × List Arrival) :=
  match a.dial header with
  | .error e => .error e
  | .ok arrivals =>
    match Noise.read101 a.parser a.addr arrivals with
    | (.error e, _) => .error e
    | (.ok leftover, arrivals) => .ok (leftover, arrivals)

def readResponse (a : ConnAttempt) (leftover : Bytes) (arrivals : List Arrival) :
    Except Noise.ControlError (Bytes × Bytes) :=
  match a.setReadTimeout with
  | .error e => .error e
  | .ok () => (Noise.readServerResponse leftover arrivals).1

def handshake (dir : Text) (a : ConnAttempt) (key : MachinePublic) (fs : Files) : Except ConnError Unit × Files :=
  let invalidated := Prog.cut Fs.sceIo (invalidateServerKeyCache dir) fs a.ios
  match a.handshaker key with
  | .error e => (.error (.handshaker e), invalidated)
  | .ok hs =>
    match hs.buildInitHeader with
    | .error e => (.error (.initHeader e), fs)
    | .ok header =>
      match dialAndUpgrade a header with
      | .error e => (.error (.upgrade e), fs)
      | .ok (leftover, arrivals) =>
        match readResponse a leftover arrivals with
        | .error e => (.error (.response e), fs)
        | .ok (response, leftover) =>
          match hs.finalize response with
          | .error e => (.error (.finalize e), invalidated)
          | .ok nt =>
            match a.opens (Noise.NoiseStream.new nt leftover) with
            | .error e => (.error (.http2 e), fs)
            | .ok () => (.ok (), fs)

def establishControlConn (cfg : ControlConfig) (dir : Text) (a : ConnAttempt) (fs : Files) :
    Except ConnError Unit × Files :=
  match serverPub cfg dir a.request fs with
  | (.error e, fs) => (.error (.serverKey e), fs)
  | (.ok key, fs) => handshake dir a key fs

def bootstrapStep (cfg : ControlConfig) (dir : Text) (fs : Files) (a : ConnAttempt) : Files :=
  (establishControlConn cfg dir a fs).2

section

variable (cfg : ControlConfig) (dir : Text)

def UsesCached (fs : Files) (a : ConnAttempt) : Prop :=
  cfg.asksCache = true ∧ ∃ key, readCachedKey dir a.request fs = some key

def FailsShaking (fs : Files) (a : ConnAttempt) : Prop :=
  ∃ e, (establishControlConn cfg dir a fs).1 = .error (.response e) ∨
    (establishControlConn cfg dir a fs).1 = .error (.finalize e)

/-- A call that uses a cached key and fails so leaves a cache that answers no call, whenever and however it is made. -/
def Refetches (fs : Files) (a : ConnAttempt) : Prop :=
  UsesCached cfg dir fs a → FailsShaking cfg dir fs a →
    ∀ next : ConnAttempt, ¬ UsesCached cfg dir (bootstrapStep cfg dir fs a) next

def removed (ios : List Io) (i : Nat) : Bool := ios[i]?.any (fun io => io.works)

def Removes (ios : List Io) : Prop := removed ios 0 = true ∨ removed ios 1 = true

def Responds (fs : Files) (a : ConnAttempt) : Prop :=
  a.setReadTimeout = .ok () ∧
  ∃ key hs header leftover arrivals, readCachedKey dir a.request fs = some key ∧ a.handshaker key = .ok hs ∧
    hs.buildInitHeader = .ok header ∧ dialAndUpgrade a header = .ok (leftover, arrivals) ∧
    Noise.serverRespLen ≤ (leftover ++ Noise.inTime arrivals).length

/-- It is on the server's response that the handshake fails, and one of the two files is removed. -/
def Clears (fs : Files) (a : ConnAttempt) : Prop :=
  UsesCached cfg dir fs a → FailsShaking cfg dir fs a → Responds dir fs a ∧ Removes a.ios

theorem serverPub_of_asks (h : cfg.asksCache = true) (r : KeyRequest) (fs : Files) :
    serverPub cfg dir r fs = fetchServerKeyCached dir { r with url := cfg.controlUrl } fs := by
  unfold serverPub
  by_cases hhttp : httpScheme <+: cfg.controlUrl
  · have hscheme : httpScheme.isPrefixOf cfg.controlUrl = true := List.isPrefixOf_iff_prefix.2 hhttp
    simp only [ControlConfig.asksCache, hscheme, Bool.not_true, Bool.false_or, Bool.and_eq_true,
      Option.isNone_iff_eq_none] at h
    rw [if_pos hhttp, h.1]
    rw [if_pos h.2]
  · rw [if_neg hhttp]

variable {a : ConnAttempt}

theorem establish_of_cached {fs : Files} {key : MachinePublic} (hasks : cfg.asksCache = true)
    (hkey : readCachedKey dir a.request fs = some key) :
    establishControlConn cfg dir a fs = handshake dir a key fs := by
  have hpub : serverPub cfg dir a.request fs = (.ok key, fs) := by
    rw [serverPub_of_asks cfg dir hasks]
    unfold fetchServerKeyCached
    rw [show readCachedKey dir { a.request with url := cfg.controlUrl } fs = some key from hkey]
  unfold establishControlConn
  rw [hpub]

theorem handshake_files {key : MachinePublic} {fs : Files} {e : Noise.ControlError} :
    ((handshake dir a key fs).1 = .error (.response e) → (handshake dir a key fs).2 = fs) ∧
    ((handshake dir a key fs).1 = .error (.finalize e) →
      (handshake dir a key fs).2 = Prog.cut Fs.sceIo (invalidateServerKeyCache dir) fs a.ios) := by
  unfold handshake
  repeat' split
  all_goals exact ⟨fun h => by cases h <;> rfl, fun h => by cases h <;> rfl⟩

theorem readResponse_iff (leftover : Bytes) (arrivals : List Arrival) :
    (readResponse a leftover arrivals).isOk = true ↔
      a.setReadTimeout = .ok () ∧ Noise.serverRespLen ≤ (leftover ++ Noise.inTime arrivals).length := by
  rw [← Noise.readServerResponse_iff]
  unfold readResponse
  cases a.setReadTimeout with
  | error e => exact iff_of_false Bool.false_ne_true (fun h => by cases h.1)
  | ok u => exact (and_iff_right rfl).symm

theorem handshake_responds {key : MachinePublic} {fs : Files} {e : Noise.ControlError}
    (hkey : readCachedKey dir a.request fs = some key) :
    ((handshake dir a key fs).1 = .error (.response e) → ¬ Responds dir fs a) ∧
    ((handshake dir a key fs).1 = .error (.finalize e) → Responds dir fs a) := by
  unfold handshake
  split
  · exact ⟨nofun, nofun⟩
  next hs hhs =>
    split
    · exact ⟨nofun, nofun⟩
    next header hheader =>
      split
      · exact ⟨nofun, nofun⟩
      next leftover arrivals hupgrade =>
        have hiff := @readResponse_iff a leftover arrivals
        split
        next hread =>
          refine ⟨fun _ hresponds => ?_, nofun⟩
          obtain ⟨htimeout, key', hs', header', leftover', arrivals', hkey', hhs', hheader', hupgrade', hlen⟩ :=
            hresponds
          rw [hkey] at hkey'
          cases hkey'
          rw [hhs] at hhs'
          cases hhs'
          rw [hheader] at hheader'
          cases hheader'
          rw [hupgrade] at hupgrade'
          cases hupgrade'
          have hok := hiff.2 ⟨htimeout, hlen⟩
          rw [hread] at hok
          cases hok
        next hread =>
          rw [hread] at hiff
          obtain ⟨htimeout, hlen⟩ := hiff.1 rfl
          have hresponds : Responds dir fs a :=
            ⟨htimeout, key, hs, header, leftover, arrivals, hkey, hhs, hheader, hupgrade, hlen⟩
          exact ⟨fun h => by split at h <;> [cases h; split at h <;> cases h], fun _ => hresponds⟩

end

/-! ## An invalidation -/

section

variable {dir : Text} {fs : Files}

variable {key : MachinePublic} {r : KeyRequest}

theorem files_of_cached (h : readCachedKey dir r fs = some key) :
    Fs.pathName (keyPath dir) = some (keyName dir) ∧ (∃ content, fs.lookup (keyName dir) = some (.file content)) ∧
    Fs.pathName (metaPath dir) = some (metaName dir) ∧ ∃ content, fs.lookup (metaName dir) = some (.file content) := by
  obtain ⟨hfresh, content, hlookup, -⟩ := (readCachedKey_iff dir r fs key).1 h
  have hname := keyPath_name hfresh
  obtain ⟨-, metaStr, -, -, hread, -⟩ := hfresh
  obtain ⟨-, n, content', hn, hmeta, -⟩ := Fs.readToString_eq_some.1 hread
  have hn' : n = metaName dir := Fs.pathName_eq hn
  subst hn'
  exact ⟨hname, ⟨content, hlookup⟩, hn, content', hmeta⟩

theorem readCachedKey_none_of_key (h : fs.lookup (keyName dir) = none) (r : KeyRequest) :
    readCachedKey dir r fs = none := by
  refine Option.eq_none_iff_forall_ne_some.2 (fun key hkey => ?_)
  obtain ⟨-, ⟨content, hlookup⟩, -⟩ := files_of_cached hkey
  rw [h] at hlookup
  cases hlookup

theorem readCachedKey_none_of_meta (h : fs.lookup (metaName dir) = none) (r : KeyRequest) :
    readCachedKey dir r fs = none := by
  refine Option.eq_none_iff_forall_ne_some.2 (fun key hkey => ?_)
  obtain ⟨-, -, -, content, hlookup⟩ := files_of_cached hkey
  rw [h] at hlookup
  cases hlookup

theorem sceIo_remove_eq {n : Name} (io : Io) (hfile : ∃ content, fs.lookup n = some (.file content)) :
    (Fs.sceIo io (.remove n) fs).2 = if io.works then fs.erase n else fs := by
  obtain ⟨content, hlookup⟩ := hfile
  simp only [Fs.sceIo, Fs.sceIoRemove, hlookup]
  cases io.works <;> rfl

theorem cut_done {α : Type} (a : α) (fs : Files) : ∀ ios : List Io, Prog.cut Fs.sceIo (.done a) fs ios = fs
  | [] => rfl
  | _ :: ios => cut_done a fs ios

theorem cut_invalidate (h : readCachedKey dir r fs = some key) (ios : List Io) :
    Prog.cut Fs.sceIo (invalidateServerKeyCache dir) fs ios =
      let fs1 := if removed ios 0 then fs.erase (keyName dir) else fs
      if removed ios 1 then fs1.erase (metaName dir) else fs1 := by
  obtain ⟨hkey, hkeyFile, hmeta, content, hmetaFile⟩ := files_of_cached h
  have hne : metaName dir ≠ keyName dir := (names_ne dir).2.1.symm
  have hprog : invalidateServerKeyCache dir =
      .call (.remove (keyName dir)) (fun _ => .call (.remove (metaName dir)) (fun _ => .done ())) := by
    unfold invalidateServerKeyCache Fs.removeAt
    rw [hkey, hmeta]
    rfl
  rw [hprog]
  match ios with
  | [] => rfl
  | [io] => exact sceIo_remove_eq io hkeyFile
  | io :: io' :: ios =>
    have hstill : (if io.works then fs.erase (keyName dir) else fs).lookup (metaName dir) = some (.file content) := by
      split
      · rw [Finmap.lookup_erase_ne hne]
        exact hmetaFile
      · exact hmetaFile
    show Prog.cut Fs.sceIo (.done ()) (Fs.sceIo io' (.remove (metaName dir))
      (Fs.sceIo io (.remove (keyName dir)) fs).2).2 ios = _
    rw [cut_done, sceIo_remove_eq io hkeyFile, sceIo_remove_eq io' ⟨content, hstill⟩]
    rfl

theorem invalidated_iff (h : readCachedKey dir r fs = some key) (ios : List Io) :
    (∀ next : KeyRequest, readCachedKey dir next (Prog.cut Fs.sceIo (invalidateServerKeyCache dir) fs ios) = none) ↔
      Removes ios := by
  have hne := (names_ne dir).2.1
  rw [cut_invalidate h]
  unfold Removes
  cases removed ios 0 with
  | true =>
    refine ⟨fun _ => .inl rfl, fun _ next => readCachedKey_none_of_key ?_ next⟩
    cases removed ios 1 with
    | true => exact (Finmap.lookup_erase_ne hne).trans (Finmap.lookup_erase _ fs)
    | false => exact Finmap.lookup_erase _ fs
  | false =>
    cases removed ios 1 with
    | true => exact ⟨fun _ => .inr rfl, fun _ next => readCachedKey_none_of_meta (Finmap.lookup_erase _ fs) next⟩
    | false =>
      refine ⟨fun hnone => ?_, fun hr => (hr.elim Bool.noConfusion Bool.noConfusion)⟩
      have hsame : readCachedKey dir r fs = none := hnone r
      rw [h] at hsame
      cases hsame

end

/-! ## When the next call fetches again -/

theorem refetches_iff_clears (cfg : ControlConfig) (dir : Text) (fs : Files) (a : ConnAttempt) :
    Refetches cfg dir fs a ↔ Clears cfg dir fs a := by
  refine forall_congr' fun hused => forall_congr' fun hfails => ?_
  obtain ⟨hasks, key, hkey⟩ := hused
  have hcall := establish_of_cached cfg dir hasks hkey
  -- with one configuration, the next call asks the cache too
  have hnext : (∀ next : ConnAttempt, ¬ UsesCached cfg dir (bootstrapStep cfg dir fs a) next) ↔
      ∀ next : KeyRequest, readCachedKey dir next (handshake dir a key fs).2 = none := by
    unfold bootstrapStep
    rw [hcall]
    refine ⟨fun h next => ?_, fun h next hused => ?_⟩
    · refine Option.eq_none_iff_forall_ne_some.2 (fun key' hkey' => h { a with request := next } ⟨hasks, key', hkey'⟩)
    · obtain ⟨-, key', hkey'⟩ := hused
      rw [h next.request] at hkey'
      cases hkey'
  rw [hnext]
  unfold FailsShaking at hfails
  rw [hcall] at hfails
  obtain ⟨e, hresponse | hfinalize⟩ := hfails
  · rw [(handshake_files dir).1 hresponse]
    refine ⟨fun hnone => ?_, fun h => ?_⟩
    · rw [hnone a.request] at hkey
      cases hkey
    · exact absurd h.1 ((handshake_responds dir hkey).1 hresponse)
  · rw [(handshake_files dir).2 hfinalize, invalidated_iff hkey]
    exact (and_iff_right ((handshake_responds dir hkey).2 hfinalize)).symm

/-- **When a stale key is given up.** In every run of calls under one configuration, from any files: each call that
uses a cached key and fails behind the `101` and before the handshake is complete leaves a cache that answers no next
call, exactly when each such call gets the 51 bytes of a response in time, and one of the two files is removed then. -/
theorem stale_key_given_up_iff (cfg : ControlConfig) (dir : Text) (fs : Files) (as : List ConnAttempt) :
    Along (bootstrapStep cfg dir) (Refetches cfg dir) fs as ↔ Along (bootstrapStep cfg dir) (Clears cfg dir) fs as :=
  along_iff_of_inv (fun _ => True) (fun _ _ _ => trivial) (fun fs a _ => refetches_iff_clears cfg dir fs a) as fs
    trivial

def tlsConfig : ControlConfig := { controlUrl := firstCall.url }

def closedAttempt : ConnAttempt where
  request := secondCall firstCall.url 10001000000000
  handshaker := fun _ => .ok ⟨.ok [], fun _ => .error (.transport [])⟩
  parser := ⟨fun buf => .ok (some ⟨buf.length, some 101, none⟩), fun _ => []⟩
  dial := fun _ => .ok [.data 13 [10, 13, 10]]
  ios := [{}, {}]

/-- **A server that closes behind the `101` leaves the stale key**: the call fails for want of a response, and the same
call again gets the same key from the cache. -/
theorem stale_key_kept :
    UsesCached tlsConfig stateDir afterFirst.fs closedAttempt ∧
    (establishControlConn tlsConfig stateDir closedAttempt afterFirst.fs).1 =
      .error (.response (.transport "noise: server closed before sending 51 bytes".toList)) ∧
    readCachedKey stateDir closedAttempt.request (bootstrapStep tlsConfig stateDir afterFirst.fs closedAttempt) =
      some firstKey ∧
    ¬ Along (bootstrapStep tlsConfig stateDir) (Refetches tlsConfig stateDir) afterFirst.fs [closedAttempt] := by
  have hasks : tlsConfig.asksCache = true := by decide
  have hkey : readCachedKey stateDir closedAttempt.request afterFirst.fs = some firstKey :=
    secondCall_hit firstCall.url (by decide) (by decide)
  have hcall := establish_of_cached tlsConfig stateDir hasks hkey
  have hfails : (handshake stateDir closedAttempt firstKey afterFirst.fs).1 =
      .error (.response (.transport "noise: server closed before sending 51 bytes".toList)) := rfl
  have hfiles : bootstrapStep tlsConfig stateDir afterFirst.fs closedAttempt = afterFirst.fs := by
    unfold bootstrapStep
    rw [hcall]
    exact (handshake_files stateDir).1 hfails
  rw [hfiles, hcall]
  refine ⟨⟨hasks, firstKey, hkey⟩, hfails, hkey, fun hrun => ?_⟩
  have hnone := hrun.1 ⟨hasks, firstKey, hkey⟩ ⟨_, .inl (by rw [hcall]; exact hfails)⟩ closedAttempt
  rw [hfiles] at hnone
  exact hnone ⟨hasks, firstKey, hkey⟩

end TailscaleVita.Ctl

import TailscaleVita.MsWorld
/-!
# MsPeers — who is registered with magicsock

A peer is registered under its node key, with the disco key of its record. Only the requests `upsert_peer` and
`remove_peer` change that.
-/
namespace TailscaleVita.Ms

open Function

open Ctl (NodeKey)

def MagicState.registered (s : MagicState) (k : NodeKey) : Option DiscoKey := (s.peers.lookup k).map PeerState.discoPub

namespace MagicState

variable (s : MagicState)

theorem registered_setPeer (n : NodeKey) (peer : PeerState) :
    (s.setPeer n peer).registered = update s.registered n (some peer.discoPub) := by
  funext k
  unfold registered setPeer
  rw [HashMap.lookup_insert_eq, update_apply]
  split <;> rfl

theorem registered_setPeer_same {s : MagicState} {n : NodeKey} {peer peer' : PeerState}
    (h : s.peers.lookup n = some peer) (hd : peer'.discoPub = peer.discoPub) :
    (s.setPeer n peer').registered = s.registered := by
  have hn : s.registered n = some peer'.discoPub := by
    rw [registered, h, hd]
    rfl
  rw [registered_setPeer, ← hn, update_eq_self]

theorem registered_upsertPeer (ord : Orders) (now : Instant) (n : NodeKey) (d : DiscoKey)
    (endpoints : List SocketAddr) :
    (s.upsertPeer ord now n d endpoints).registered = update s.registered n (some d) :=
  registered_setPeer s n (upsertPaths ord now d endpoints ((s.peers.lookup n).getD ⟨d, [], ∅⟩))

theorem registered_removePeer (n : NodeKey) :
    (s.removePeer n).registered = update s.registered n none := by
  funext k
  unfold removePeer
  rw [update_apply]
  cases hp : s.peers.lookup n with
  | some peer =>
    unfold registered
    rw [HashMap.lookup_erase_eq]
    split <;> rfl
  | none =>
    simp only
    split
    next hk =>
      rw [hk, registered, hp]
      rfl
    · rfl

variable (now : Instant)

theorem registered_learnSource (n : NodeKey) (src : SocketAddr) :
    (s.learnSource now n src).registered = s.registered := by
  unfold learnSource
  split
  · rfl
  next peer hp =>
    split
    · exact registered_setPeer_same hp rfl
    · split
      · exact registered_setPeer_same hp rfl
      · rfl

theorem registered_acceptPong (d : DiscoKey) (src : SocketAddr) (tx : TxId) :
    (s.acceptPong now d src tx).1.registered = s.registered := by
  unfold acceptPong
  split
  · rfl
  · split
    · rfl
    next peer hp =>
      split
      · rfl
      · split
        · exact registered_setPeer_same hp rfl
        · rfl

theorem discoPub_mergeEndpoints : ∀ (l : List SocketAddr) (peer : PeerState),
    (l.foldl mergeEndpoint peer).discoPub = peer.discoPub
  | [], _ => rfl
  | ep :: l, peer => by rw [List.foldl_cons, discoPub_mergeEndpoints l, mergeEndpoint]

theorem registered_mergeEndpoints (d : DiscoKey) (advertised : List SocketAddr) :
    (s.mergeEndpoints d advertised).1.registered = s.registered := by
  unfold mergeEndpoints
  split
  · rfl
  · split
    · rfl
    next peer hp => exact registered_setPeer_same hp (discoPub_mergeEndpoints advertised peer)

theorem registered_recordPing (n : NodeKey) (addr : SocketAddr) (tx : TxId) :
    (s.recordPing now n addr tx).registered = s.registered := by
  unfold recordPing
  split
  · rfl
  next peer hp => exact registered_setPeer_same hp rfl

theorem registered_returnPing (tx : TxId) :
    (s.returnPing now tx).registered = s.registered := by
  unfold returnPing
  split <;> rfl

end MagicState

open MagicState

theorem registered_of_quiet {s s' : MagicState} (h : Quiet s s') : s'.registered = s.registered := by
  cases h with
  | kept hp =>
    funext k
    unfold registered
    rw [hp]
  | merged d advertised => exact registered_mergeEndpoints s d advertised
  | learned at' n src => exact registered_learnSource s at' n src

def Request.registers (r : NodeKey → Option DiscoKey) : Request → NodeKey → Option DiscoKey
  | .upsertPeer _ n d _ => update r n (some d)
  | .removePeer n => update r n none
  | _ => r

theorem registered_call (now : Instant) (s : MagicState) (request : Request) :
    (call now s request).1.registered = request.registers s.registered := by
  cases request with
  | upsertPeer ord n d endpoints => exact registered_upsertPeer s ord now n d endpoints
  | removePeer n => exact registered_removePeer s n
  | _ => rfl

theorem registered_resume (now id : Nat) (s : MagicState) (t : Task) (met : Met) :
    (resume now id s t met).1.registered = s.registered := by
  have hdid := did now id s t met
  generalize resume now id s t met = r at hdid ⊢
  cases hdid with
  | sends => rfl
  | records at' n a tx => exact registered_recordPing s at' n a tx
  | passes at' d src tx => exact registered_returnPing s at' tx
  | answers at' d src tx => exact registered_acceptPong s at' d src tx
  | other hq => exact registered_of_quiet hq

def ofOthers : MagicEvent → Bool
  | .call (.upsertPeer ..) => false
  | .call (.removePeer _) => false
  | _ => true

theorem registered_ofOthers (w : MagicWorld) {e : MagicEvent} (h : ofOthers e = true) :
    (w.step magicsock e).shared.registered = w.shared.registered := by
  rcases w.step_cases magicsock e with ⟨d, hd⟩ | ⟨request, rfl, hr⟩ | ⟨id, t, met, -, -, hr⟩
  · rw [hd]
  · rw [hr]
    refine (registered_call w.clock w.shared request).trans ?_
    cases request with
    | upsertPeer | removePeer => cases h
    | _ => rfl
  · rw [hr]
    exact registered_resume w.clock id w.shared t met

end TailscaleVita.Ms

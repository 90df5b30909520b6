import TailscaleVita.CtlNetmap
import TailscaleVita.Run
/-!
# CtlSelf — what the netmap says about ourselves (`ts-control/src/netmap.rs`)

A frame may bring our own node or not, and a node may leave fields out; the profile of our user may come in another
frame. Each field keeps the last value that was sent, by its own rule of what counts as sent.
-/
namespace TailscaleVita.Ctl

/-! What a node and a frame send. -/

def NodeWire.sentAddrs (node : NodeWire) : Option (List AllowedIp) :=
  if (parseAddrs node.addresses).isEmpty then none else some (parseAddrs node.addresses)

def NodeWire.sentUser (node : NodeWire) : Option Int64 := if node.user ≠ 0 then some node.user else none

def MapResponseWire.sentDomain (resp : MapResponseWire) : Option Text :=
  if resp.domain.isEmpty then none else some resp.domain

namespace NetMap

def ourLoginName (nm : NetMap) : Option Text := do
  let id ← nm.ourUserId
  let profile ← nm.userProfiles.lookup id
  if profile.loginName.isEmpty then none else some profile.loginName

structure Self where
  ourAddrs : List AllowedIp
  ourTags : List Text
  ourKeyExpiry : Option Text
  ourUserId : Option Int64
  domain : Text
  userProfiles : HashMap Int64 UserProfile
  derpRegions : HashMap (BitVec 16) DerpRegionSnapshot

def self (nm : NetMap) : Self :=
  ⟨nm.ourAddrs, nm.ourTags, nm.ourKeyExpiry, nm.ourUserId, nm.domain, nm.userProfiles, nm.derpRegions⟩

theorem self_applyHeader (nm : NetMap) (resp : MapResponseWire) :
    (nm.applyHeader resp).self = { nm.self with domain := resp.sentDomain.getD nm.domain } := by
  simp only [self, applyHeader, MapResponseWire.sentDomain]
  split <;> rfl

theorem self_applyNode (nm : NetMap) (node : Option NodeWire) : (nm.applyNode node).1.self =
    { nm.self with
      ourAddrs := (node.bind NodeWire.sentAddrs).getD nm.ourAddrs
      ourTags := (node.map NodeWire.tags).getD nm.ourTags
      ourKeyExpiry := (node.bind NodeWire.keyExpiry).or nm.ourKeyExpiry
      ourUserId := (node.bind NodeWire.sentUser).or nm.ourUserId } := by
  cases node with
  | none => rfl
  | some node =>
    -- addresses that have not changed are left, which is to take them over
    have haddrs : (if !(parseAddrs node.addresses).isEmpty && parseAddrs node.addresses != nm.ourAddrs
        then parseAddrs node.addresses else nm.ourAddrs) = node.sentAddrs.getD nm.ourAddrs := by
      unfold NodeWire.sentAddrs
      by_cases hempty : (parseAddrs node.addresses).isEmpty = true
      · simp [hempty]
      · by_cases hsame : parseAddrs node.addresses = nm.ourAddrs
        · simp only [hsame, bne_self_eq_false, Bool.and_false, Bool.false_eq_true, if_false]
          split <;> rfl
        · simp [hempty, hsame]
    have huser : (if node.user ≠ 0 then some node.user else nm.ourUserId) = node.sentUser.or nm.ourUserId := by
      unfold NodeWire.sentUser
      split <;> rfl
    simp only [applyNode, self, haddrs, huser, Option.bind_some, Option.map_some, Option.getD_some]

theorem self_applyDerpMap (nm : NetMap) (dmap : Option DerpMapWire) :
    (nm.applyDerpMap dmap).self = { nm.self with derpRegions := (dmap.map parseDerpRegions).getD nm.derpRegions } := by
  cases dmap <;> rfl

theorem self_applyPacketFilter (nm : NetMap) (pf : PacketFilterWire) : (nm.applyPacketFilter pf).1.self = nm.self := by
  cases pf with
  | missing => rfl
  | rules rs =>
    simp only [applyPacketFilter]
    split <;> rfl

def Self.merge (self : Self) (resp : MapResponseWire) : Self where
  ourAddrs := (resp.node.bind NodeWire.sentAddrs).getD self.ourAddrs
  ourTags := (resp.node.map NodeWire.tags).getD self.ourTags
  ourKeyExpiry := (resp.node.bind NodeWire.keyExpiry).or self.ourKeyExpiry
  ourUserId := (resp.node.bind NodeWire.sentUser).or self.ourUserId
  domain := resp.sentDomain.getD self.domain
  userProfiles := resp.userProfiles.foldl (fun m up => m.insert up.id (userProfileFromWire up)) self.userProfiles
  derpRegions := (resp.derpMap.map parseDerpRegions).getD self.derpRegions

theorem self_apply (ord : HashOrder NodeKey) (nm : NetMap) (resp : MapResponseWire) :
    (nm.apply ord resp).1.self = nm.self.merge resp := by
  have hnode := self_applyNode (nm.applyHeader resp) resp.node
  rw [self_applyHeader] at hnode
  refine (self_applyPacketFilter _ resp.packetFilter).trans ((self_applyDerpMap _ resp.derpMap).trans ?_)
  obtain ⟨haddrs, htags, hexpiry, huser, hdomain, hprofiles, hderp⟩ := Self.mk.inj hnode
  simp only [self, applyUserProfiles, haddrs, htags, hexpiry, huser, hdomain, hprofiles, hderp]
  rfl

abbrev Frame := HashOrder NodeKey × MapResponseWire

def applyFrame (nm : NetMap) (frame : Frame) : NetMap := (nm.apply frame.1 frame.2).1

theorem self_applyFrame (nm : NetMap) (frame : Frame) : (nm.applyFrame frame).self = nm.self.merge frame.2 :=
  self_apply frame.1 nm frame.2

def selfNodes (frames : List Frame) : List NodeWire := frames.filterMap (fun frame => frame.2.node)

def profiles (frames : List Frame) : List UserProfileWire := frames.flatMap (fun frame => frame.2.userProfiles)

theorem run_last_node {α : Type} (view : Self → α) (sent : NodeWire → Option α)
    (h : ∀ (self : Self) (resp : MapResponseWire), view (self.merge resp) = (resp.node.bind sent).getD (view self))
    (frames : List Frame) (nm : NetMap) :
    view (run applyFrame nm frames).self = ((selfNodes frames).filterMap sent).getLast?.getD (view nm.self) := by
  rw [run_last (fun nm => view nm.self) (fun frame => frame.2.node.bind sent)
    (fun nm frame => (congrArg view (self_applyFrame nm frame)).trans (h nm.self frame.2)), selfNodes,
    List.filterMap_filterMap]

theorem run_last_node_option {α : Type} (view : Self → Option α) (sent : NodeWire → Option α)
    (h : ∀ (self : Self) (resp : MapResponseWire), view (self.merge resp) = (resp.node.bind sent).or (view self))
    (frames : List Frame) (nm : NetMap) :
    view (run applyFrame nm frames).self = ((selfNodes frames).filterMap sent).getLast?.or (view nm.self) := by
  have hsome : ∀ (o : Option α) (x : Option α), (o.map some).getD x = o.or x := fun o x => by cases o <;> rfl
  rw [run_last_node view (fun node => (sent node).map some) (fun self resp => ?_), ← List.map_filterMap,
    List.getLast?_map, hsome]
  rw [h self resp]
  cases resp.node with
  | none => rfl
  | some node => exact (hsome _ _).symm

theorem run_userProfiles : ∀ (frames : List Frame) (nm : NetMap), (run applyFrame nm frames).userProfiles =
    (profiles frames).foldl (fun m up => m.insert up.id (userProfileFromWire up)) nm.userProfiles
  | [], _ => rfl
  | frame :: frames, nm => by
    have hframe := congrArg Self.userProfiles (self_applyFrame nm frame)
    have hprofiles : profiles (frame :: frames) = frame.2.userProfiles ++ profiles frames := rfl
    rw [run_cons, run_userProfiles frames (applyFrame nm frame), hprofiles, List.foldl_append]
    rw [show (applyFrame nm frame).userProfiles = _ from hframe]
    rfl

theorem ourLoginName_eq_some {nm : NetMap} {login : Text} : nm.ourLoginName = some login ↔
    login ≠ [] ∧ ∃ id profile, nm.ourUserId = some id ∧ nm.userProfiles.lookup id = some profile ∧
      profile.loginName = login := by
  unfold ourLoginName
  simp only [bind, Option.bind_eq_some_iff]
  constructor
  · rintro ⟨id, hid, profile, hprofile, hlogin⟩
    by_cases hempty : profile.loginName.isEmpty = true
    · rw [if_pos hempty] at hlogin
      cases hlogin
    · rw [if_neg hempty] at hlogin
      cases hlogin
      exact ⟨fun hnil => hempty (by rw [hnil]; rfl), id, profile, hid, hprofile, rfl⟩
  · rintro ⟨hne, id, profile, hid, hprofile, rfl⟩
    refine ⟨id, hid, profile, hprofile, if_neg ?_⟩
    rwa [List.isEmpty_iff]

/-! ## The fields of our own node -/

section

variable (frames : List Frame) (nm : NetMap)

theorem run_ourAddrs : (run applyFrame nm frames).ourAddrs =
    ((selfNodes frames).filterMap NodeWire.sentAddrs).getLast?.getD nm.ourAddrs :=
  run_last_node Self.ourAddrs NodeWire.sentAddrs (fun _ _ => rfl) frames nm

theorem run_ourTags : (run applyFrame nm frames).ourTags =
    ((selfNodes frames).map NodeWire.tags).getLast?.getD nm.ourTags := by
  rw [← List.filterMap_eq_map]
  exact run_last_node Self.ourTags (fun node => some node.tags)
    (fun _ resp => by unfold Self.merge; cases resp.node <;> rfl) frames nm

theorem run_ourKeyExpiry : (run applyFrame nm frames).ourKeyExpiry =
    ((selfNodes frames).filterMap NodeWire.keyExpiry).getLast?.or nm.ourKeyExpiry :=
  run_last_node_option Self.ourKeyExpiry NodeWire.keyExpiry (fun _ _ => rfl) frames nm

theorem run_ourUserId : (run applyFrame nm frames).ourUserId =
    ((selfNodes frames).filterMap NodeWire.sentUser).getLast?.or nm.ourUserId :=
  run_last_node_option Self.ourUserId NodeWire.sentUser (fun _ _ => rfl) frames nm

theorem run_of_same {frames' : List Frame} (hnodes : selfNodes frames' = selfNodes frames)
    (hprofiles : profiles frames' = profiles frames) :
    let nm' := run applyFrame nm frames
    let nm'' := run applyFrame nm frames'
    nm''.ourAddrs = nm'.ourAddrs ∧ nm''.ourTags = nm'.ourTags ∧ nm''.ourKeyExpiry = nm'.ourKeyExpiry ∧
      nm''.ourUserId = nm'.ourUserId ∧ nm''.userProfiles = nm'.userProfiles ∧
      nm''.ourLoginName = nm'.ourLoginName := by
  intro nm' nm''
  have huser : nm''.ourUserId = nm'.ourUserId := by rw [run_ourUserId, run_ourUserId, hnodes]
  have htable : nm''.userProfiles = nm'.userProfiles := by rw [run_userProfiles, run_userProfiles, hprofiles]
  refine ⟨?_, ?_, ?_, huser, htable, ?_⟩
  · rw [run_ourAddrs, run_ourAddrs, hnodes]
  · rw [run_ourTags, run_ourTags, hnodes]
  · rw [run_ourKeyExpiry, run_ourKeyExpiry, hnodes]
  · unfold ourLoginName
    rw [huser, htable]

end

theorem applyFrame_keeps (nm : NetMap) (frame : Frame) :
    let nm' := nm.applyFrame frame
    (frame.2.node.bind NodeWire.sentAddrs = none → nm'.ourAddrs = nm.ourAddrs) ∧
    (frame.2.node = none → nm'.ourTags = nm.ourTags) ∧
    (frame.2.node.bind NodeWire.keyExpiry = none → nm'.ourKeyExpiry = nm.ourKeyExpiry) ∧
    (frame.2.node.bind NodeWire.sentUser = none → nm'.ourUserId = nm.ourUserId) ∧
    (frame.2.sentDomain = none → nm'.domain = nm.domain) ∧
    (frame.2.derpMap = none → nm'.derpRegions = nm.derpRegions) ∧
    ∀ id, (∀ up ∈ frame.2.userProfiles, up.id ≠ id) → nm'.userProfiles.lookup id = nm.userProfiles.lookup id := by
  intro nm'
  have hmerge := self_applyFrame nm frame
  refine ⟨fun h => ?_, fun h => ?_, fun h => ?_, fun h => ?_, fun h => ?_, fun h => ?_, fun id h => ?_⟩
  · exact (congrArg Self.ourAddrs hmerge).trans (by simp only [Self.merge, h]; rfl)
  · exact (congrArg Self.ourTags hmerge).trans (by simp only [Self.merge, h]; rfl)
  · exact (congrArg Self.ourKeyExpiry hmerge).trans (by simp only [Self.merge, h]; rfl)
  · exact (congrArg Self.ourUserId hmerge).trans (by simp only [Self.merge, h]; rfl)
  · exact (congrArg Self.domain hmerge).trans (by simp only [Self.merge, h]; rfl)
  · exact (congrArg Self.derpRegions hmerge).trans (by simp only [Self.merge, h]; rfl)
  · have hnone : frame.2.userProfiles.filter (fun up => decide (up.id = id)) = [] :=
      List.filter_eq_nil_iff.2 (fun up hup => by simpa using h up hup)
    rw [show nm'.userProfiles = _ from congrArg Self.userProfiles hmerge]
    refine (HashMap.lookup_foldl_insert UserProfileWire.id userProfileFromWire _ nm.userProfiles id).trans ?_
    rw [hnone]
    rfl

/-- **The self state is merged field by field.** For every netmap and every sequence of frames, whatever they leave
out: each field is the last value that was sent, or what it was; a frame that does not send a field leaves it; our own
nodes and the profiles may come among each other in any way; and the login name is the one of the current user's
profile, if it is not empty. -/
theorem self_state_merged (nm : NetMap) (frames : List Frame) :
    let nm' := run applyFrame nm frames
    (nm'.ourAddrs = ((selfNodes frames).filterMap NodeWire.sentAddrs).getLast?.getD nm.ourAddrs ∧
      nm'.ourTags = ((selfNodes frames).map NodeWire.tags).getLast?.getD nm.ourTags ∧
      nm'.ourKeyExpiry = ((selfNodes frames).filterMap NodeWire.keyExpiry).getLast?.or nm.ourKeyExpiry ∧
      nm'.ourUserId = ((selfNodes frames).filterMap NodeWire.sentUser).getLast?.or nm.ourUserId ∧
      nm'.domain = (frames.filterMap (fun frame => frame.2.sentDomain)).getLast?.getD nm.domain ∧
      nm'.derpRegions =
        ((frames.filterMap (fun frame => frame.2.derpMap)).getLast?.map parseDerpRegions).getD nm.derpRegions ∧
      ∀ id, nm'.userProfiles.lookup id = (((profiles frames).filter (fun up => decide (up.id = id))).getLast?.map
        userProfileFromWire).or (nm.userProfiles.lookup id)) ∧
    (∀ frame, let nm'' := nm'.applyFrame frame
      (frame.2.node.bind NodeWire.sentAddrs = none → nm''.ourAddrs = nm'.ourAddrs) ∧
      (frame.2.node = none → nm''.ourTags = nm'.ourTags) ∧
      (frame.2.node.bind NodeWire.keyExpiry = none → nm''.ourKeyExpiry = nm'.ourKeyExpiry) ∧
      (frame.2.node.bind NodeWire.sentUser = none → nm''.ourUserId = nm'.ourUserId) ∧
      (frame.2.sentDomain = none → nm''.domain = nm'.domain) ∧
      (frame.2.derpMap = none → nm''.derpRegions = nm'.derpRegions) ∧
      ∀ id, (∀ up ∈ frame.2.userProfiles, up.id ≠ id) →
        nm''.userProfiles.lookup id = nm'.userProfiles.lookup id) ∧
    (∀ frames', selfNodes frames' = selfNodes frames → profiles frames' = profiles frames →
      let nm'' := run applyFrame nm frames'
      nm''.ourAddrs = nm'.ourAddrs ∧ nm''.ourTags = nm'.ourTags ∧ nm''.ourKeyExpiry = nm'.ourKeyExpiry ∧
        nm''.ourUserId = nm'.ourUserId ∧ nm''.userProfiles = nm'.userProfiles ∧
        nm''.ourLoginName = nm'.ourLoginName) ∧
    ∀ login, nm'.ourLoginName = some login ↔ login ≠ [] ∧ ∃ id profile, nm'.ourUserId = some id ∧
      nm'.userProfiles.lookup id = some profile ∧ profile.loginName = login := by
  intro nm'
  refine ⟨⟨run_ourAddrs frames nm, run_ourTags frames nm, run_ourKeyExpiry frames nm, run_ourUserId frames nm, ?_, ?_,
    fun id => ?_⟩, applyFrame_keeps nm', fun frames' => run_of_same frames nm, fun login => ourLoginName_eq_some⟩
  · exact run_last (fun nm : NetMap => nm.domain) (fun frame : Frame => frame.2.sentDomain)
      (fun nm frame => congrArg Self.domain (self_applyFrame nm frame)) frames nm
  · rw [← List.getLast?_map, List.map_filterMap]
    exact run_last (fun nm : NetMap => nm.derpRegions) (fun frame : Frame => frame.2.derpMap.map parseDerpRegions)
      (fun nm frame => congrArg Self.derpRegions (self_applyFrame nm frame)) frames nm
  · rw [show nm'.userProfiles = _ from run_userProfiles frames nm]
    exact HashMap.lookup_foldl_insert UserProfileWire.id userProfileFromWire (profiles frames) nm.userProfiles id

theorem self_state_either_order :
    let ord : HashOrder NodeKey := HashOrder.byRank BitVec.toNat (fun _ _ => BitVec.eq_of_toNat_eq)
    let node : Frame := (ord, { node := some { id := 1, key := [], user := 7 } })
    let profile : Frame := (ord, { userProfiles := [⟨7, "ada".toList, []⟩] })
    (run applyFrame {} [node, profile]).ourLoginName = some "ada".toList ∧
      (run applyFrame {} [profile, node]).ourLoginName = some "ada".toList := by
  intro ord node profile
  have hfirst : (run applyFrame {} [node, profile]).ourLoginName = some "ada".toList := by decide +kernel
  have hsame := ((self_state_merged {} [node, profile]).2.2.1 [profile, node] rfl rfl).2.2.2.2.2
  exact ⟨hfirst, hsame.trans hfirst⟩

end NetMap
end TailscaleVita.Ctl

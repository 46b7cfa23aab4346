import ENetChat.Chat.HostSteps
import ENetChat.Lib.Transition

/-!
# Addresses

A host keeps the address of each peer in its table, next to what it
serialises. `addresses_stay`: two runs of a host that differ in nothing but
the addresses pass the same payloads to the same peers.
-/

namespace ENetChat

open Exec Transition

variable {app app' : ChatApp} {nick : Bytes} {user user' : UserInfo} {id : UserId}
  {net net' : ENetWrapper} {m m' : UserMap} {event event' : AppEvent} {h h' : Happening}

-- ---------------------------------------------------------------------------
-- Runs that differ in the addresses
-- ---------------------------------------------------------------------------

/-- Events that differ in nothing but the address of their peer. -/
inductive AppEvent.Alike : AppEvent → AppEvent → Prop
  | input : Alike (.input line) (.input line)
  | none : Alike (.network .none) (.network .none)
  | connect : peer.incomingPeerID = peer'.incomingPeerID →
      Alike (.network (.connect peer)) (.network (.connect peer'))
  | disconnect : peer.incomingPeerID = peer'.incomingPeerID →
      Alike (.network (.disconnect peer)) (.network (.disconnect peer'))
  | receive : peer.incomingPeerID = peer'.incomingPeerID →
      Alike (.network (.receive peer packet)) (.network (.receive peer' packet))

structure Happening.Alike (h h' : Happening) : Prop where
  u : h.u = h'.u
  event : h.event.Alike h'.event

/-- A wrapper that finds a peer in every slot. -/
def everyPeer : ENetWrapper :=
  { mPeers := (List.finRange maxConnections).foldl
      (fun peers slot => peers.insert (ENetPeer.ofSlot slot).incomingPeerID (.ofSlot slot)) ∅ }

def ChatApp.next (app : ChatApp) (h : Happening) : Option ChatApp :=
  match app.exec (handle h.u h.event) with
  | .ok _ w => some w.app
  | .error _ _ => none

/-- What a handler hands to ENet, to its end or to its halt. -/
def ChatApp.sent (app : ChatApp) (h : Happening) : List Passed :=
  passed (worldOf (app.exec (handle h.u h.event))).out

/-- What it passes to `ENetWrapper::send` and `ENetWrapper::broadcast`: what
it would hand to ENet if every peer were there. -/
def ChatApp.asked (app : ChatApp) (h : Happening) : List Passed :=
  ChatApp.sent { app with mEnet := app.mEnet.map fun _ => everyPeer } h

-- ---------------------------------------------------------------------------
-- Tables without addresses
-- ---------------------------------------------------------------------------

def UserInfo.anonymous (user : UserInfo) : UserInfo := { user with address := {} }

/-- The table without nodes and addresses. -/
def UserMap.anonymous (m : UserMap) : Std.ExtTreeMap UserId UserInfo :=
  m.map fun _ n => n.user.anonymous

/-- The slots that have a peer. -/
def ENetWrapper.slots (w : ENetWrapper) : Std.ExtTreeMap PeerId PeerId :=
  w.mPeers.map fun _ peer => peer.incomingPeerID

theorem UserMap.getElem?_anonymous : m.anonymous[id]? = (m.user? id).map UserInfo.anonymous := by
  unfold UserMap.anonymous UserMap.user?
  rw [Std.ExtTreeMap.getElem?_map, Option.map_map]
  rfl

theorem anonymous_insertUser : (app.insertUser user).mUsers.anonymous =
    app.mUsers.anonymous.insertIfNew user.userId user.anonymous := by
  have hmem : user.userId ∈ app.mUsers.anonymous ↔ (app.mUsers.user? user.userId).isSome := by
    rw [← Std.ExtTreeMap.isSome_getElem?_iff_mem, UserMap.getElem?_anonymous, Option.isSome_map]
  refine Std.ExtTreeMap.ext_getElem? fun id => ?_
  rw [UserMap.getElem?_anonymous, user?_insertUser, Std.ExtTreeMap.getElem?_insertIfNew,
    UserMap.getElem?_anonymous]
  simp only [hmem]
  by_cases hid : id = user.userId
  · subst hid
    cases app.mUsers.user? user.userId <;> simp
  · have hne : ¬ user.userId = id := fun heq => hid heq.symm
    simp [hid, hne]

theorem anonymous_erase : UserMap.anonymous (m.erase id) = m.anonymous.erase id := by
  refine Std.ExtTreeMap.ext_getElem? fun k => ?_
  rw [UserMap.getElem?_anonymous, UserMap.user?_erase, Std.ExtTreeMap.getElem?_erase,
    UserMap.getElem?_anonymous]
  by_cases hk : k = id
  · simp [hk]
  · have hne : ¬ id = k := fun heq => hk heq.symm
    simp [hk, hne]

theorem users_anonymous : m.users.map UserInfo.anonymous = m.anonymous.toList.map (·.2) := by
  simp [UserMap.users, UserMap.anonymous, Std.ExtTreeMap.toList_map]

/-- A snapshot does not tell the addresses. -/
theorem snapshot_layout (id : UserId) (hm : m.anonymous = m'.anonymous) :
    (Package.usernameAck (.ofMap id m)).layout = (Package.usernameAck (.ofMap id m')).layout := by
  have hflat (m : UserMap) : m.users.flatMap UserInfo.layout =
      (m.anonymous.toList.map (·.2)).flatMap UserInfo.layout := by
    rw [← users_anonymous, List.flatMap_map]
    rfl
  simp only [Package.layout, Package.body, Package.packetType, UsernameAckPackage.ofMap, hflat, hm]

/-- Two hosts that know the same of their users and peers, addresses apart. -/
structure Alike (nick : Bytes) (app app' : ChatApp) : Prop where
  left : Hosting nick app
  right : Hosting nick app'
  users : app.mUsers.anonymous = app'.mUsers.anonymous
  peers : app.mEnet.map ENetWrapper.slots = app'.mEnet.map ENetWrapper.slots

-- ---------------------------------------------------------------------------
-- Steps
-- ---------------------------------------------------------------------------

theorem Alike.user? (ha : Alike nick app app') (id : UserId) :
    (app.mUsers.user? id).map UserInfo.anonymous =
      (app'.mUsers.user? id).map UserInfo.anonymous := by
  rw [← UserMap.getElem?_anonymous, ha.users, UserMap.getElem?_anonymous]

theorem Alike.contains (ha : Alike nick app app') (id : UserId) :
    app.mUsers.contains id = app'.mUsers.contains id := by
  have h := congrArg Option.isSome (ha.user? id)
  simpa [UserMap.contains_eq] using h

theorem Alike.nets (ha : Alike nick app app') (hw : app.mEnet = some net)
    (hw' : app'.mEnet = some net') : net.slots = net'.slots := by
  have h := ha.peers
  rw [hw, hw'] at h
  exact Option.some.inj h

theorem passed_send_alike (hn : net.slots = net'.slots) :
    passed ((net.send p data).map .enet) = passed ((net'.send p data).map .enet) := by
  have h := congrArg (·[p]?) hn
  simp only [ENetWrapper.slots, Std.ExtTreeMap.getElem?_map] at h
  rw [passed_sent, passed_sent]
  cases hp : net.mPeers[p]? <;> cases hp' : net'.mPeers[p]? <;> simp [hp, hp'] at h ⊢
  exact h

theorem Alike.welcome (ha : Alike nick app app') (hu : user.anonymous = user'.anonymous)
    (hn : net.slots = net'.slots) :
    passed (welcome nick app net user) = passed (welcome nick app' net' user') := by
  have hid : user.userId = user'.userId := (congrArg UserInfo.userId hu :)
  have hadd : user.layout = user'.layout := (congrArg UserInfo.layout hu :)
  have hmap : (app.insertUser user).mUsers.anonymous =
      (app'.insertUser user').mUsers.anonymous := by
    rw [anonymous_insertUser, anonymous_insertUser, ha.users, hid, hu]
  have hack := snapshot_layout user'.userId hmap
  rw [passed_welcome, passed_welcome, hid, hack, passed_send_alike hn]
  simp only [Package.layout, Package.body, Package.packetType, hadd]

/-- A host halts on the same events. -/
theorem Alike.handleable (ha : Alike nick app app') (hh : h.Alike h') :
    Handleable app h ↔ Handleable app' h' := by
  have haccept (pkg : Package) : app.Accepts pkg ↔ app'.Accepts pkg := by
    simp only [ChatApp.Accepts, ha.left.state, ha.right.state, if_true]
    cases pkg <;> simp only [ha.contains]
  obtain ⟨u, event⟩ := h
  obtain ⟨u', event'⟩ := h'
  obtain ⟨hu, he⟩ := hh
  simp only at hu he
  subst hu
  cases he with
  | receive hp =>
    constructor
    · rintro hh _ _ ⟨⟩ -
      simpa only [haccept] using hh _ _ rfl (.inl ha.left.state)
    · rintro hh _ _ ⟨⟩ -
      simpa only [haccept] using hh _ _ rfl (.inl ha.right.state)
  | _ => exact iff_of_true (by rintro _ _ ⟨⟩) (by rintro _ _ ⟨⟩)

theorem Alike.withNet (ha : Alike nick app app') (hn : net.slots = net'.slots) :
    Alike nick { app with mEnet := some net } { app' with mEnet := some net' } :=
  ⟨ha.left.withNet, ha.right.withNet, ha.users, congrArg some hn⟩

theorem slots_insert (peer : ENetPeer) :
    ({ net with mPeers := net.mPeers.insert peer.incomingPeerID peer } : ENetWrapper).slots =
      net.slots.insert peer.incomingPeerID peer.incomingPeerID := by
  refine Std.ExtTreeMap.ext_getElem? fun p => ?_
  simp only [ENetWrapper.slots, Std.ExtTreeMap.getElem?_map, Std.ExtTreeMap.getElem?_insert]
  split <;> rfl

theorem slots_erase (p : PeerId) :
    ({ net with mPeers := net.mPeers.erase p } : ENetWrapper).slots = net.slots.erase p := by
  refine Std.ExtTreeMap.ext_getElem? fun q => ?_
  simp only [ENetWrapper.slots, Std.ExtTreeMap.getElem?_map, Std.ExtTreeMap.getElem?_erase]
  split <;> rfl

theorem Alike.insertUser (ha : Alike nick app app') (hu : user.anonymous = user'.anonymous)
    (hid : user.userId.toNat ≤ maxConnections) (hname : user.name.length ≤ maximumPacketSize) :
    Alike nick (app.insertUser user) (app'.insertUser user') := by
  have hid' : user.userId = user'.userId := (congrArg UserInfo.userId hu :)
  have hname' : user.name = user'.name := (congrArg UserInfo.name hu :)
  refine ⟨ha.left.insertUser hid hname, ha.right.insertUser (hid' ▸ hid) (hname' ▸ hname), ?_,
    ha.peers⟩
  rw [anonymous_insertUser, anonymous_insertUser, ha.users, hid', hu]

theorem Alike.withoutUser (ha : Alike nick app app') (hid : id ≠ 0) :
    Alike nick (app.withoutUser id) (app'.withoutUser id) := by
  refine ⟨ha.left.withoutUser hid, ha.right.withoutUser hid, ?_, ha.peers⟩
  simp only [ChatApp.withoutUser, anonymous_erase, ha.users]

/-- Two handlers passed on the same, and left two hosts or two that have quit. -/
def AlikeAfter (nick : Bytes) (s s' : ChatApp × List Effect) : Prop :=
  passed s.2 = passed s'.2 ∧
    (Alike nick s.1 s'.1 ∨ s.1.mState = .to .quitState ∧ s'.1.mState = .to .quitState)

section Steps

variable {peer peer' : ENetPeer} (ha : Alike nick app app') (hn : net.slots = net'.slots)
  (hp : peer.incomingPeerID = peer'.incomingPeerID)

include ha hn hp

theorem Alike.disconnect : AlikeAfter nick (hostNext nick net app (.network (.disconnect peer)))
    (hostNext nick net' app' (.network (.disconnect peer'))) := by
  have hslots : ({ net with mPeers := net.mPeers.erase peer'.incomingPeerID } : ENetWrapper).slots =
      ({ net' with mPeers := net'.mPeers.erase peer'.incomingPeerID } : ENetWrapper).slots := by
    rw [slots_erase, slots_erase, hn]
  have hu := ha.user? (toUserID peer'.incomingPeerID)
  simp only [hostNext, hp]
  cases hl : app.mUsers.user? (toUserID peer'.incomingPeerID) with
  | none =>
    rw [hl, Option.map_none] at hu
    rw [Option.map_eq_none_iff.mp hu.symm]
    exact ⟨rfl, .inl (ha.withNet hslots)⟩
  | some user =>
    rw [hl, Option.map_some] at hu
    obtain ⟨user', hr, heq⟩ := Option.map_eq_some_iff.mp hu.symm
    have hid : user'.userId = user.userId := (congrArg UserInfo.userId heq :)
    have hne : user.userId ≠ 0 := by
      rw [ha.left.tidy.userId hl]
      exact toUserID_ne_zero peer'.inHost
    simp only [hr, hid]
    exact ⟨by simp [hid], .inl ((ha.withoutUser hne).withNet hslots)⟩

theorem Alike.receive (packet : ENetPacket) :
    AlikeAfter nick (hostNext nick net app (.network (.receive peer packet)))
      (hostNext nick net' app' (.network (.receive peer' packet))) := by
  simp only [hostNext]
  cases hpkg : packet.package? with
  | none => exact ⟨rfl, .inl ha⟩
  | some pkg =>
    cases pkg with
    | username pckt =>
      have hname := username_fits (package?_eq_some.mp hpkg)
      have hu : ((NetworkTraffic.ofPeer peer packet.data).announces pckt.username).anonymous =
          ((NetworkTraffic.ofPeer peer' packet.data).announces pckt.username).anonymous := by
        simp only [NetworkTraffic.announces, NetworkTraffic.ofPeer, UserInfo.anonymous, hp]
      exact ⟨ha.welcome hu hn, .inl (ha.insertUser hu (toUserID_le peer.inHost) hname)⟩
    | message pckt =>
      have hu := ha.user? pckt.userId
      simp only [hostReceive]
      cases hl : app.mUsers.user? pckt.userId with
      | none =>
        rw [hl, Option.map_none] at hu
        rw [Option.map_eq_none_iff.mp hu.symm]
        exact ⟨rfl, .inl ha⟩
      | some user =>
        rw [hl, Option.map_some] at hu
        obtain ⟨user', hr, -⟩ := Option.map_eq_some_iff.mp hu.symm
        rw [hr]
        exact ⟨by simp, .inl ha⟩
    | _ => exact ⟨rfl, .inl ha⟩

end Steps

theorem Alike.next (ha : Alike nick app app') (hn : net.slots = net'.slots)
    (he : event.Alike event') :
    AlikeAfter nick (hostNext nick net app event) (hostNext nick net' app' event') := by
  cases he with
  | input =>
    simp only [hostNext]
    split
    · exact ⟨rfl, .inl ha⟩
    split
    · exact ⟨by simp, .inr ⟨rfl, rfl⟩⟩
    · exact ⟨by simp, .inl ha⟩
  | none => exact ⟨rfl, .inl ha⟩
  | connect hp =>
    refine ⟨rfl, .inl (ha.withNet ?_)⟩
    rw [slots_insert, slots_insert, hn, hp]
  | disconnect hp => exact ha.disconnect hn hp
  | receive hp => exact ha.receive hn hp _

theorem Alike.step (ha : Alike nick app app') (hh : h.Alike h') :
    app.sent h = app'.sent h' ∧
      Option.Rel (fun s s' => Alike nick s s' ∨
        s.mState = .to .quitState ∧ s'.mState = .to .quitState) (app.next h) (app'.next h') := by
  obtain ⟨net, hw⟩ := ha.left.net
  obtain ⟨net', hw'⟩ := ha.right.net
  obtain ⟨hsame, hafter⟩ := ha.next (ha.nets hw hw') hh.event
  unfold ChatApp.sent ChatApp.next
  obtain ⟨hc, hexec⟩ | ⟨hc, halt, hexec⟩ := ha.left.exec_cases hw h
  · obtain ⟨-, hexec'⟩ | ⟨hc', -⟩ := ha.right.exec_cases hw' h'
    · rw [hexec, hexec']
      exact ⟨hsame, .some hafter⟩
    · exact absurd ((ha.handleable hh).mp hc) hc'
  · obtain ⟨hc', -⟩ | ⟨-, halt', hexec'⟩ := ha.right.exec_cases hw' h'
    · exact absurd ((ha.handleable hh).mpr hc') hc
    · rw [hexec, hexec']
      exact ⟨rfl, .none⟩

theorem Alike.asked (ha : Alike nick app app') (hh : h.Alike h') : app.asked h = app'.asked h' := by
  obtain ⟨net, hw⟩ := ha.left.net
  obtain ⟨net', hw'⟩ := ha.right.net
  unfold ChatApp.asked
  rw [hw, hw']
  exact ((ha.withNet rfl).step hh).1

theorem quit_sent (hs : app.mState = .to .quitState) : app.sent h = [] := by
  unfold ChatApp.sent
  cases hr : app.exec (handle h.u h.event) with
  | ok _ w => simp [worldOf, (quit_step hs hr).2]
  | error _ w => simp [worldOf, quit_halt hs hr]

theorem quit_next (hs : app.mState = .to .quitState) (hn : app.next h = some app') :
    app'.mState = .to .quitState := by
  unfold ChatApp.next at hn
  split at hn
  · next hr =>
    cases hn
    exact (quit_step hs hr).1
  · cases hn

-- ---------------------------------------------------------------------------
-- Runs
-- ---------------------------------------------------------------------------

theorem Opened.alike (ho : Opened nick app) (ho' : Opened nick app') : Alike nick app app' := by
  refine ⟨ho.toHosting, ho'.toHosting, Std.ExtTreeMap.ext_getElem? fun id => ?_, ?_⟩
  · rw [UserMap.getElem?_anonymous, UserMap.getElem?_anonymous]
    by_cases hid : id = 0
    · rw [hid, ho.user?_zero, ho'.user?_zero]
    · rw [ho.user?_none hid, ho'.user?_none hid]
  · rw [ho.peers, ho'.peers]

/-- Two runs of a host under one nickname, over events that differ in the
addresses only, ask the same of `ENetWrapper` and hand the same to ENet. -/
theorem addresses_stay (hstart : startHost u z nickname = some app)
    (hstart' : startHost u' z' nickname = some app')
    (hs : List.Forall₂ Happening.Alike events events') :
    observe ChatApp.next ChatApp.asked app events =
        observe ChatApp.next ChatApp.asked app' events' ∧
      observe ChatApp.next ChatApp.sent app events =
        observe ChatApp.next ChatApp.sent app' events' := by
  obtain ⟨_, hopen, ho⟩ := startHost_opened u z nickname
  obtain ⟨_, hopen', ho'⟩ := startHost_opened u' z' nickname
  cases hstart.symm.trans hopen
  cases hstart'.symm.trans hopen'
  have ha := ho.alike ho'
  have hquiet (s : ChatApp) (h : Happening) (hq : s.mState = .to .quitState) :
      s.sent h = [] ∧ ∀ s', s.next h = some s' → s'.mState = .to .quitState :=
    ⟨quit_sent hq, fun s' => quit_next hq⟩
  constructor
  · have hmute (s : ChatApp) (h : Happening) (hq : s.mState = .to .quitState) :
        s.asked h = [] ∧ ∀ s', s.next h = some s' → s'.mState = .to .quitState :=
      ⟨quit_sent hq, (hquiet s h hq).2⟩
    exact observe_eq hmute (fun _ _ _ _ ha hh => ⟨ha.asked hh, (ha.step hh).2⟩) ha hs
  · exact observe_eq hquiet (fun _ _ _ _ ha hh => ha.step hh) ha hs

/-- Dan comes and says his name, from an address. -/
def visit (address : Address) : List Happening :=
  [.connect (.ofSlot 0 address),
    .receive (.ofSlot 0 address)
      ⟨[0, 3, 0, 0, 0, 0, 0, 0, 0, 68, 97, 110], 0, by decide⟩].map fun e => ⟨default, .network e⟩

theorem visit_alike (a b : Address) : List.Forall₂ Happening.Alike (visit a) (visit b) :=
  .cons ⟨rfl, .connect rfl⟩ (.cons ⟨rfl, .receive rfl⟩ .nil)

theorem addresses_stay_visit : ∃ app, startHost default true ann = some app ∧
    let events := visit { host := 0x0100007F, port := 7777 }
    let events' := visit { host := 0x0200007F, port := 8888 }
    observe ChatApp.next ChatApp.asked app events =
        observe ChatApp.next ChatApp.asked app events' ∧
      observe ChatApp.next ChatApp.sent app events =
        observe ChatApp.next ChatApp.sent app events' := by
  obtain ⟨app, happ, -⟩ := startHost_opened default true ann
  exact ⟨app, happ, addresses_stay happ happ (visit_alike _ _)⟩

end ENetChat

import ENetChat.Chat.EventLaws
import Mathlib.Data.List.Nodup
import Mathlib.Data.List.Perm.Subperm

/-!
# The host

`Hosting nick` is the invariant of `ChatState_Host`: the local pointer points
to entry 0, the nickname's, and every other entry has the id of a peer slot.
Then no packet outgrows a `ByteStream`, and each handler completes with a
known effect, but for one: `receiveMessageEvent` wants its user.
-/

namespace ENetChat

open Exec ByteStream LittleEndian

variable {u : Unspecified} {nick : Bytes} {app : ChatApp} {out : List Effect} {user : UserInfo}
  {w : ENetWrapper} {p : PeerId} {a : Address} {id : UserId}

/-- The entry that `ChatState_Host::beginState` makes. -/
abbrev hostUser (nick : Bytes) : UserInfo := { userId := 0, name := nick }

structure Hosting (nick : Bytes) (app : ChatApp) : Prop where
  state : app.mState = .to .chatStateHost
  quit : app.mQuit = false
  enet : app.mEnet.isSome
  tidy : app.Tidy
  me : ∃ node, app.mLocaluserPtr = .entry 0 node ∧
    app.mUsers[(0 : UserId)]? = some ⟨node, hostUser nick⟩
  slots : ∀ {id user}, app.mUsers.user? id = some user →
    id.toNat ≤ maxConnections ∧ user.name.length ≤ maximumPacketSize

namespace Hosting

theorem local? (h : Hosting nick app) : app.local? = some (some (hostUser nick)) := by
  obtain ⟨node, hp, hn⟩ := h.me
  simp [ChatApp.local?, hp, ChatApp.pointee?, hn]

theorem user?_zero (h : Hosting nick app) : app.mUsers.user? 0 = some (hostUser nick) := by
  obtain ⟨node, -, hn⟩ := h.me
  exact UserMap.user?_eq_some.mpr ⟨node, hn⟩

theorem net (h : Hosting nick app) : ∃ net, app.mEnet = some net :=
  Option.isSome_iff_exists.mp h.enet

theorem withNet (h : Hosting nick app) : Hosting nick { app with mEnet := some w } :=
  ⟨h.state, h.quit, rfl, ⟨h.tidy.keyed, h.tidy.nodes, h.tidy.pointer⟩, h.me, h.slots⟩

theorem insertUser (h : Hosting nick app) (hid : user.userId.toNat ≤ maxConnections)
    (hname : user.name.length ≤ maximumPacketSize) : Hosting nick (app.insertUser user) := by
  refine ⟨h.state, h.quit, h.enet, h.tidy.insertUser user, ?_, ?_⟩
  · obtain ⟨node, hp, hn⟩ := h.me
    exact ⟨node, hp, by simp [getElem?_insertUser, hn]⟩
  · intro id user' hu
    rw [user?_insertUser, Option.or_eq_some_iff] at hu
    obtain hu | ⟨-, hu⟩ := hu
    · exact h.slots hu
    · split at hu
      · next heq => cases hu; exact ⟨heq ▸ hid, hname⟩
      · cases hu

theorem withoutUser (h : Hosting nick app) (hid : id ≠ 0) : Hosting nick (app.withoutUser id) := by
  refine ⟨h.state, h.quit, h.enet, h.tidy.erase id, ?_, ?_⟩
  · obtain ⟨node, hp, hn⟩ := h.me
    exact ⟨node, hp, by simp [ChatApp.withoutUser, Ne.symm hid, hn]⟩
  · intro id' user' hu
    rw [ChatApp.withoutUser, UserMap.user?_erase] at hu
    split at hu
    · cases hu
    · exact h.slots hu

end Hosting

-- ---------------------------------------------------------------------------
-- Sizes
-- ---------------------------------------------------------------------------

theorem length_stringLayout (str : Bytes) : (stringLayout str).length = 8 + str.length := by
  simp [stringLayout]

theorem length_message (pkg : MessagePackage) :
    (Package.message pkg).layout.length = 11 + pkg.message.length := by
  simp [Package.layout, Package.body, length_stringLayout]
  omega

theorem length_addUser (pkg : AddUserPackage) :
    (Package.addUser pkg).layout.length = 11 + pkg.user.name.length := by
  simp [Package.layout, Package.body, UserInfo.layout, length_stringLayout]
  omega

theorem length_username (pkg : UsernamePackage) :
    (Package.username pkg).layout.length = 9 + pkg.username.length := by
  simp [Package.layout, Package.body, length_stringLayout]
  omega

/-- A name or a text is no longer than its packet. -/
theorem username_fits {packet : ENetPacket} (h : Package.Decodes packet.data (.username pckt)) :
    pckt.username.length ≤ maximumPacketSize := by
  have hlen := Nat.le_trans (decodes_length h) packet.fits
  rw [length_username] at hlen
  omega

theorem message_fits {packet : ENetPacket} (h : Package.Decodes packet.data (.message pckt)) :
    pckt.message.length ≤ maximumPacketSize := by
  have hlen := Nat.le_trans (decodes_length h) packet.fits
  rw [length_message] at hlen
  omega

theorem length_flatMap_layout {users : List UserInfo}
    (h : ∀ user ∈ users, user.name.length ≤ n) :
    (users.flatMap UserInfo.layout).length ≤ users.length * (10 + n) := by
  induction users with
  | nil => simp
  | cons user users ih =>
    have h1 := h user (by simp)
    have h2 := ih fun x hx => h x (by simp [hx])
    have h3 : user.layout.length = 10 + user.name.length := by
      simp [UserInfo.layout, length_stringLayout]
      omega
    simp only [List.flatMap_cons, List.length_append, List.length_cons, Nat.add_mul, Nat.one_mul]
    omega

theorem length_users {m : UserMap} (h : ∀ {id user}, m.user? id = some user → id.toNat ≤ n) :
    m.users.length ≤ n + 1 := by
  have hnd : (m.keys.map UInt16.toNat).Nodup := by
    exact List.Nodup.map (fun _ _ => UInt16.toNat_inj.mp) Std.ExtTreeMap.nodup_keys
  have hsub : m.keys.map UInt16.toNat ⊆ List.range (n + 1) := by
    intro i hi
    obtain ⟨id, hid, rfl⟩ := List.mem_map.mp hi
    have hmem : id ∈ m := Std.ExtTreeMap.mem_keys.mp hid
    have hu : m.user? id = some m[id].user := by
      simp [UserMap.user?, Std.ExtTreeMap.getElem?_eq_some_getElem hmem]
    exact List.mem_range.mpr (Nat.lt_succ_of_le (h hu))
  have hlen := (hnd.subperm hsub).length_le
  simpa [UserMap.users] using hlen

theorem Hosting.ack_fits (h : Hosting nick app) (id : UserId) :
    (Package.usernameAck (.ofMap id app.mUsers)).layout.length < 2 ^ 31 := by
  have hn : app.mUsers.users.length ≤ maxConnections + 1 := length_users fun hu => (h.slots hu).1
  have hl : (app.mUsers.users.flatMap UserInfo.layout).length ≤
      app.mUsers.users.length * (10 + maximumPacketSize) := by
    refine length_flatMap_layout fun user hu => ?_
    exact (h.slots (h.tidy.mem_users.mp hu)).2
  have hm := Nat.mul_le_mul_right (10 + maximumPacketSize) hn
  simp only [Package.layout, Package.body, UsernameAckPackage.ofMap, List.length_cons,
    List.length_append, length_toLE]
  simp only [maxConnections, maximumPacketSize] at hm hl
  omega

-- ---------------------------------------------------------------------------
-- Handlers
-- ---------------------------------------------------------------------------

/-- The user that a USERNAME from `e` announces. -/
def NetworkTraffic.announces (e : NetworkTraffic) (name : Bytes) : UserInfo :=
  { userId := toUserID e.peerId, name, address := e.peerAddress }

theorem toUserID_toNat (h : p.toNat < maxConnections) : (toUserID p).toNat = p.toNat + 1 := by
  simp only [maxConnections] at h
  simp [toUserID, UInt16.toNat_add]
  omega

theorem toUserID_le (h : p.toNat < maxConnections) : (toUserID p).toNat ≤ maxConnections := by
  rw [toUserID_toNat h]
  exact h

theorem toUserID_ne_zero (h : p.toNat < maxConnections) : toUserID p ≠ 0 := by
  intro h0
  have := toUserID_toNat h
  rw [h0] at this
  simp at this

/-- What the host does about a name, once the user is in. -/
def welcome (nick : Bytes) (app : ChatApp) (w : ENetWrapper) (user : UserInfo) : List Effect :=
  let users := (app.insertUser user).mUsers
  listCalls (some (hostUser nick)) users.users ++
    [.window (.log (user.name ++ ascii " connected [" ++ user.address.str ++ ascii "]"))] ++
    (w.send (toPeerID user.userId) (Package.usernameAck (.ofMap user.userId users)).layout).map
      .enet ++
    [.enet (.hostBroadcast (Package.addUser { user }).layout 0)]

/-- What the host does about a registered peer that disconnects. -/
def farewell (nick : Bytes) (app : ChatApp) (user : UserInfo) : List Effect :=
  [.window (.log (user.name ++ ascii " disconnected [" ++ user.address.str ++ ascii "]")),
    .enet (.hostBroadcast (Package.removeUser { userId := user.userId }).layout 0)] ++
    listCalls (some (hostUser nick)) (app.withoutUser user.userId).mUsers.users

/-- A message on the host's window, and its broadcast. -/
def relay (name : Bytes) (isLocal : Bool) (pkg : MessagePackage) : List Effect :=
  [.window (.printFrom name pkg.message isLocal),
    .enet (.hostBroadcast (Package.message pkg).layout 0)]

theorem withUser_remote : app.withUser u user false = app.insertUser user := rfl

section Handlers

variable {e : NetworkTraffic} {peer : ENetPeer} {pkg : Package} (h : Hosting nick app)

include h

theorem Hosting.receiveUsername (pckt : UsernamePackage) (user : UserInfo) (hw : app.mEnet = some w)
    (hid : user.userId.toNat ≤ maxConnections) (hname : user.name.length ≤ maximumPacketSize) :
    (ChatStateHost.receiveUsernameEvent u (some user) pckt).run ⟨app, out⟩ =
      .ok () ⟨app.insertUser user, out ++ welcome nick app w user⟩ := by
  have h' := h.insertUser hid hname
  have hadd := addUser_run (u := u) false out h'.local?
  rw [withUser_remote] at hadd
  have hw' : (app.insertUser user).mEnet = some w := hw
  have hb : (Package.addUser { user }).layout.length < 2 ^ 31 := by
    rw [length_addUser]
    simp only [maximumPacketSize] at hname ⊢
    omega
  simp only [ChatStateHost.receiveUsernameEvent, EStateM.run_bind, hadd, window_run, getApp_run,
    send_run (h'.ack_fits user.userId) hw', broadcast_run hb hw', welcome, List.append_assoc]

theorem Hosting.receive_username (out : List Effect) (hw : app.mEnet = some w)
    (hid : e.peerId.toNat < maxConnections) (hname : pckt.username.length ≤ maximumPacketSize) :
    (receivePackage u e (.username pckt)).run ⟨app, out⟩ =
      .ok () ⟨app.insertUser (e.announces pckt.username),
        out ++ welcome nick app w (e.announces pckt.username)⟩ := by
  simp only [receivePackage, withState_run h.state]
  exact h.receiveUsername pckt (e.announces pckt.username) hw (toUserID_le hid) hname

theorem Hosting.receive_message (out : List Effect) (hw : app.mEnet = some w)
    (hu : app.mUsers.user? pckt.userId = some user)
    (hm : pckt.message.length ≤ maximumPacketSize) :
    (receivePackage u e (.message pckt)).run ⟨app, out⟩ =
      .ok () ⟨app, out ++ relay user.name false pckt⟩ := by
  have hb : (Package.message pckt).layout.length < 2 ^ 31 := by
    rw [length_message]
    simp only [maximumPacketSize] at hm
    omega
  simp only [receivePackage, EStateM.run_bind, getUserInfoPtr_run, withState_run h.state, hu,
    State.receiveMessageEvent, ChatStateHost.receiveMessageEvent, deref_some, EStateM.run_pure,
    window_run, broadcast_run hb hw, relay, List.append_assoc, List.singleton_append]

/-- `user->name` for a user that is not there. -/
theorem Hosting.receive_message_null (hu : app.mUsers.user? pckt.userId = none) :
    (receivePackage u e (.message pckt)).run ⟨app, out⟩ = .error .nullDeref ⟨app, out⟩ := by
  simp only [receivePackage, EStateM.run_bind, getUserInfoPtr_run, withState_run h.state, hu,
    State.receiveMessageEvent, ChatStateHost.receiveMessageEvent, deref_none, run_throw]

theorem Hosting.receive_other (hn : pkg.type ≠ .username) (hm : pkg.type ≠ .message) :
    (receivePackage u e pkg).run ⟨app, out⟩ = .ok () ⟨app, out⟩ := by
  cases pkg with
  | username => exact absurd rfl hn
  | message => exact absurd rfl hm
  | _ => simp [receivePackage, withState_run h.state, State.receiveUsernameAckEvent,
      State.receiveAddUserEvent, State.receiveRemoveUserEvent]

theorem Hosting.connectionEvent_run :
    (connectionEvent u e).run ⟨app, out⟩ = .ok () ⟨app, out⟩ := by
  simp [connectionEvent, withState_run h.state, State.receiveConnectionEvent,
    ChatStateHost.receiveConnectionEvent]

theorem Hosting.disconnectEvent_some (hw : app.mEnet = some w)
    (hid : e.peerId.toNat < maxConnections)
    (hu : app.mUsers.user? (toUserID e.peerId) = some user) :
    (disconnectEvent u e).run ⟨app, out⟩ =
      .ok () ⟨app.withoutUser user.userId, out ++ farewell nick app user⟩ := by
  have hne : user.userId ≠ 0 := by
    rw [h.tidy.userId hu]
    exact toUserID_ne_zero hid
  have hb : (Package.removeUser { userId := user.userId }).layout.length < 2 ^ 31 := by
    simp [Package.layout, Package.body]
  simp only [disconnectEvent, withState_run h.state, State.receiveDisconnectEvent,
    ChatStateHost.receiveDisconnectEvent, EStateM.run_bind, getUserInfoPtr_run, hu, window_run,
    broadcast_run hb hw, removeUser_run (h.withoutUser hne).local?, farewell, List.append_assoc,
    List.cons_append, List.nil_append]

theorem Hosting.disconnectEvent_none (hu : app.mUsers.user? (toUserID e.peerId) = none) :
    (disconnectEvent u e).run ⟨app, out⟩ = .ok () ⟨app,
      out ++ [.window (.error (ascii "Disconnect from user not found in records"))]⟩ := by
  simp only [disconnectEvent, withState_run h.state, State.receiveDisconnectEvent,
    ChatStateHost.receiveDisconnectEvent, EStateM.run_bind, getUserInfoPtr_run, hu, window_run]

theorem Hosting.handleInput_run (hw : app.mEnet = some w) (hi : input ≠ exitCommand)
    (hl : input.length < 80) :
    (ChatStateHost.handleInput u input).run ⟨app, out⟩ =
      .ok () ⟨app, out ++ relay nick true { userId := 0, message := input }⟩ := by
  have hb : (Package.message { userId := 0, message := input }).layout.length < 2 ^ 31 := by
    rw [length_message]
    simp only
    omega
  simp only [ChatStateHost.handleInput, hi, if_false, EStateM.run_bind, localUser_run h.local?,
    window_run, broadcast_run hb hw, relay, List.append_assoc, List.singleton_append]

end Handlers

-- ---------------------------------------------------------------------------
-- Steps
-- ---------------------------------------------------------------------------

/-- Where a packet takes a host whose handler completes, and what it does
outside. -/
def hostReceive (nick : Bytes) (w : ENetWrapper) (app : ChatApp) (e : NetworkTraffic) :
    Option Package → ChatApp × List Effect
  | some (.username pckt) =>
    (app.insertUser (e.announces pckt.username), welcome nick app w (e.announces pckt.username))
  | some (.message pckt) =>
    match app.mUsers.user? pckt.userId with
    | some user => (app, relay user.name false pckt)
    | none => (app, [])
  | _ => (app, [])

/-- The same for any event. -/
def hostNext (nick : Bytes) (w : ENetWrapper) (app : ChatApp) : AppEvent → ChatApp × List Effect
  | .input line =>
    if line.text = [] then (app, [])
    else if line.text = exitCommand then (app.quitting, quitEffects app)
    else (app, relay nick true { userId := 0, message := line.text })
  | .network .none => (app, [])
  | .network (.connect peer) =>
    ({ app with mEnet := some { w with mPeers := w.mPeers.insert peer.incomingPeerID peer } }, [])
  | .network (.disconnect peer) =>
    let w' := { w with mPeers := w.mPeers.erase peer.incomingPeerID }
    match app.mUsers.user? (toUserID peer.incomingPeerID) with
    | some user =>
      ({ app.withoutUser user.userId with mEnet := some w' }, farewell nick app user)
    | none =>
      ({ app with mEnet := some w' },
        [.window (.error (ascii "Disconnect from user not found in records"))])
  | .network (.receive peer packet) =>
    hostReceive nick w app (.ofPeer peer packet.data) packet.package?

theorem Hosting.handle_ok (h : Hosting nick app) (hw : app.mEnet = some w)
    (hr : app.exec (handle u event) = .ok () t) :
    t = ⟨(hostNext nick w app event).1, (hostNext nick w app event).2⟩ := by
  unfold ChatApp.exec at hr
  cases event with
  | input line =>
    by_cases hl : line.text = []
    · rw [handle_input_skip h.state (.inr (by simp [hl]))] at hr
      cases hr
      simp [hostNext, hl]
    · rw [handle_input_run h.state h.quit (List.length_pos_iff.mpr hl)] at hr
      by_cases hi : line.text = exitCommand
      · rw [State.handleInput, ChatStateHost.handleInput, if_pos hi, goToState_quit h.state] at hr
        cases hr
        simp only [hostNext, hi, if_true, List.nil_append]
        rfl
      · rw [State.handleInput, h.handleInput_run hw hi line.fits] at hr
        cases hr
        simp [hostNext, hl, hi]
  | network ev =>
    rw [handle_network_run hw] at hr
    cases ev with
    | none => cases hr; rfl
    | connect peer =>
      simp only [listen, EStateM.run_bind, modifyApp_run, hw, Option.map_some] at hr
      rw [h.withNet.connectionEvent_run] at hr
      cases hr
      rfl
    | disconnect peer =>
      simp only [listen, EStateM.run_bind] at hr
      cases hu : app.mUsers.user? (toUserID peer.incomingPeerID) with
      | none =>
        rw [h.disconnectEvent_none (e := .ofPeer peer []) hu] at hr
        simp only [modifyApp_run, hw, Option.map_some, List.nil_append] at hr
        cases hr
        simp only [hostNext, hu]
      | some user =>
        rw [h.disconnectEvent_some (e := .ofPeer peer []) hw peer.inHost hu] at hr
        have hw' : (app.withoutUser user.userId).mEnet = some w := hw
        simp only [modifyApp_run, hw', Option.map_some, List.nil_append] at hr
        cases hr
        simp only [hostNext, hu]
    | receive peer packet =>
      obtain ⟨hn, rfl⟩ | ⟨pkg, hp, hd, hr⟩ := receive_ok hr
      · simp only [hostNext, hn, hostReceive]
      · cases pkg with
        | username pckt =>
          rw [h.receive_username _ hw peer.inHost (username_fits hd)] at hr
          cases hr
          simp only [hostNext, hp, hostReceive, List.nil_append]
        | message pckt =>
          cases hu : app.mUsers.user? pckt.userId with
          | none => rw [h.receive_message_null hu] at hr; cases hr
          | some user =>
            rw [h.receive_message _ hw hu (message_fits hd)] at hr
            cases hr
            simp only [hostNext, hp, hostReceive, hu, List.nil_append]
        | _ =>
          rw [h.receive_other (by simp [Package.type]) (by simp [Package.type])] at hr
          cases hr
          simp only [hostNext, hp, hostReceive]

/-- A host stays a host until it quits. -/
theorem Hosting.next (h : Hosting nick app) :
    Hosting nick (hostNext nick w app event).1 ∨
      (hostNext nick w app event).1 = app.quitting := by
  cases event with
  | input line =>
    by_cases hl : line.text = []
    · exact .inl (by simpa [hostNext, hl] using h)
    · by_cases hi : line.text = exitCommand
      · exact .inr (by simp only [hostNext, hi, if_true]; rfl)
      · exact .inl (by simpa [hostNext, hl, hi] using h)
  | network ev =>
    left
    cases ev with
    | none => exact h
    | connect peer => exact h.withNet
    | disconnect peer =>
      cases hu : app.mUsers.user? (toUserID peer.incomingPeerID) with
      | none => simpa only [hostNext, hu] using h.withNet
      | some user =>
        have hne : user.userId ≠ 0 := by
          rw [h.tidy.userId hu]
          exact toUserID_ne_zero peer.inHost
        simpa only [hostNext, hu] using (h.withoutUser hne).withNet
    | receive peer packet =>
      cases hp : packet.package? with
      | none => simpa only [hostNext, hp, hostReceive] using h
      | some pkg =>
        cases pkg with
        | username pckt =>
          simp only [hostNext, hp, hostReceive]
          exact h.insertUser (toUserID_le peer.inHost) (username_fits (package?_eq_some.mp hp))
        | message pckt =>
          cases hu : app.mUsers.user? pckt.userId <;>
            simpa only [hostNext, hp, hostReceive, hu] using h
        | _ => simpa only [hostNext, hp, hostReceive] using h

theorem Hosting.step (h : Hosting nick app) (hr : app.exec (handle u event) = .ok () t) :
    Hosting nick t.app ∨ t.app = app.quitting := by
  obtain ⟨w, hw⟩ := h.net
  rw [h.handle_ok hw hr]
  exact h.next

end ENetChat

import ENetChat.Chat.Runs
import ENetChat.Chat.UserMapLaws
import ENetChat.Lib.Exec
import ENetChat.Network.ProtocolLaws

/-!
# What the functions of the application do

Where each function that a handler calls takes the application: `*_run` when
nothing stops it, `*_wild` when a pointer that it reads cannot be read. `receiveEvent`
is `receivePackage` on the package that the payload holds, a stop, or nothing
(`receiveEvent_decodes`, `receiveEvent_throws`, `receiveEvent_unknown`).
-/

namespace ENetChat

open Exec

variable {u : Unspecified} {w : World} {app : ChatApp} {out : List Effect} {pkg : Package}
  {e : NetworkTraffic} {user : UserInfo} {id userId : UserId}

-- ---------------------------------------------------------------------------
-- Primitives
-- ---------------------------------------------------------------------------

@[simp] theorem getApp_run : getApp.run ⟨app, out⟩ = .ok app ⟨app, out⟩ := rfl

@[simp] theorem modifyApp_run : (modifyApp f).run ⟨app, out⟩ = .ok () ⟨f app, out⟩ := rfl

@[simp] theorem emit_run : (emit effects).run ⟨app, out⟩ = .ok () ⟨app, out ++ effects⟩ := rfl

@[simp] theorem window_run :
    (window call).run ⟨app, out⟩ = .ok () ⟨app, out ++ [.window call]⟩ := rfl

@[simp] theorem getUserInfoPtr_run :
    (getUserInfoPtr userId).run ⟨app, out⟩ = .ok (app.mUsers.user? userId) ⟨app, out⟩ := rfl

@[simp] theorem containsUser_run :
    (containsUser user).run ⟨app, out⟩ = .ok (app.mUsers.contains user.userId) ⟨app, out⟩ := rfl

@[simp] theorem deref_some : deref (some user) = pure user := rfl

@[simp] theorem deref_none : deref none = throw .nullDeref := rfl

theorem loadState_run (h : app.mState = .to state) :
    loadState.run ⟨app, out⟩ = .ok (some state) ⟨app, out⟩ := by
  simp [loadState, h]

theorem withState_run {call : State → AppM Unit} (h : app.mState = .to state) :
    (withState call).run ⟨app, out⟩ = (call state).run ⟨app, out⟩ := by
  simp [withState, loadState_run h]

-- ---------------------------------------------------------------------------
-- The local user and the user list
-- ---------------------------------------------------------------------------

/-- What `getLocalUserPtr()` finds: `none` when it cannot be read, `some none`
for NULL. -/
def ChatApp.local? (app : ChatApp) : Option (Option UserInfo) :=
  match app.mLocaluserPtr with
  | .unassigned => none
  | .null => some none
  | .entry id node => (app.pointee? id node).map some

theorem localUser_run (h : app.local? = some me) :
    localUser.run ⟨app, out⟩ = .ok me ⟨app, out⟩ := by
  unfold ChatApp.local? at h
  unfold localUser
  cases hp : app.mLocaluserPtr with
  | unassigned => simp [hp] at h
  | null => simp [hp] at h; simp [hp, ← h]
  | entry id node =>
    cases he : app.pointee? id node with
    | none => simp [hp, he] at h
    | some user => simp [hp, he] at h; simp [hp, he, ← h]

theorem localUser_wild (h : app.local? = none) :
    localUser.run ⟨app, out⟩ = .error .wildRead ⟨app, out⟩ := by
  unfold ChatApp.local? at h
  unfold localUser
  cases hp : app.mLocaluserPtr with
  | unassigned => simp [hp]
  | null => simp [hp] at h
  | entry id node =>
    cases he : app.pointee? id node with
    | none => simp [hp, he]
    | some user => simp [hp, he] at h

def listCall (me : Option UserInfo) (user : UserInfo) : Effect :=
  .window (.addUser user.name (me.any (·.userId == user.userId)))

/-- The effects of `refreshUserList`. -/
def listCalls (me : Option UserInfo) (users : List UserInfo) : List Effect :=
  .window .clearUserList :: users.map (listCall me)

theorem listUser_run (h : app.local? = some me) :
    (listUser user).run ⟨app, out⟩ = .ok () ⟨app, out ++ [listCall me user]⟩ := by
  cases me <;> simp [listUser, localUser_run h, listCall]

theorem listUser_wild (h : app.local? = none) :
    (listUser user).run ⟨app, out⟩ = .error .wildRead ⟨app, out⟩ := by
  simp [listUser, localUser_wild h]

theorem forM_listUser_run {users : List UserInfo} (h : app.local? = some me) :
    (users.forM listUser).run ⟨app, out⟩ = .ok () ⟨app, out ++ users.map (listCall me)⟩ := by
  induction users generalizing out with
  | nil => simp
  | cons user users ih =>
    rw [run_forM_cons, EStateM.run_bind, listUser_run h]
    simp only [ih, List.append_assoc, List.map_cons, List.cons_append, List.nil_append]

theorem refreshUserList_run (h : app.local? = some me) :
    refreshUserList.run ⟨app, out⟩ = .ok () ⟨app, out ++ listCalls me app.mUsers.users⟩ := by
  simp only [refreshUserList, EStateM.run_bind, window_run, getApp_run, forM_listUser_run h,
    List.append_assoc, List.singleton_append, listCalls]

/-- With a pointer that cannot be read, the loop must have nothing to do. -/
theorem refreshUserList_completes :
    Completes refreshUserList ⟨app, out⟩ ↔ app.local? ≠ none ∨ app.mUsers.users = [] := by
  cases h : app.local? with
  | some me => simp [Completes, refreshUserList_run h]
  | none =>
    cases hu : app.mUsers.users with
    | nil => simp [Completes, refreshUserList, hu]
    | cons user users => simp [Completes, refreshUserList, hu, listUser_wild h]

/-- `refreshUserList` changes nothing but the window. -/
theorem refreshUserList_ok (h : refreshUserList.run ⟨app, out⟩ = .ok () w) :
    ∃ me, w = ⟨app, out ++ listCalls me app.mUsers.users⟩ := by
  cases hl : app.local? with
  | some me =>
    rw [refreshUserList_run hl] at h
    cases h
    exact ⟨me, rfl⟩
  | none =>
    have hu := refreshUserList_completes.mp ⟨(), w, h⟩
    simp only [hl, ne_eq, not_true_eq_false, false_or] at hu
    simp [refreshUserList, hu] at h
    exact ⟨none, by simp [← h, listCalls, hu]⟩

theorem refreshUserList_error (h : refreshUserList.run ⟨app, out⟩ = .error halt w) :
    halt = .wildRead := by
  cases hl : app.local? with
  | some me =>
    rw [refreshUserList_run hl] at h
    cases h
  | none =>
    cases hu : app.mUsers.users with
    | nil => simp [refreshUserList, hu] at h
    | cons user users =>
      simp [refreshUserList, hu, listUser_wild hl] at h
      exact h.1.symm

-- ---------------------------------------------------------------------------
-- Adding and removing users
-- ---------------------------------------------------------------------------

/-- The local pointer points to the entry of `userId`, there or not. -/
def ChatApp.pointsTo (app : ChatApp) (userId : UserId) : Bool :=
  match app.mLocaluserPtr with
  | .entry id _ => id == userId
  | _ => false

/-- What `addUser` makes of the members. -/
def ChatApp.withUser (u : Unspecified) (app : ChatApp) (user : UserInfo) (isLocal : Bool) :
    ChatApp :=
  if isLocal then (app.insertUser user).setLocal u user.userId else app.insertUser user

/-- What `removeUser` makes of the members. -/
def ChatApp.withoutUser (app : ChatApp) (userId : UserId) : ChatApp :=
  { app with mUsers := app.mUsers.erase userId }

theorem pointee?_insertUser (h : node < app.nextNode) :
    (app.insertUser user).pointee? id node = app.pointee? id node := by
  unfold ChatApp.pointee?
  rw [getElem?_insertUser]
  cases app.mUsers[id]? with
  | some n => rfl
  | none =>
    by_cases heq : id = user.userId
    · simp [heq, Nat.ne_of_gt h]
    · simp [heq]

theorem local?_insertUser (h : app.Tidy) : (app.insertUser user).local? = app.local? := by
  have hp : (app.insertUser user).mLocaluserPtr = app.mLocaluserPtr := rfl
  unfold ChatApp.local?
  rw [hp]
  cases hp : app.mLocaluserPtr with
  | unassigned => rfl
  | null => rfl
  | entry id node => simp only [pointee?_insertUser (h.pointer hp)]

theorem local?_setLocal (u : Unspecified) (app : ChatApp) (user : UserInfo) :
    ∃ me, ((app.insertUser user).setLocal u user.userId).local? = some (some me) ∧
      (app.insertUser user).mUsers.user? user.userId = some me := by
  obtain ⟨node, heq, me, hn⟩ := setLocal_insertUser u app user
  refine ⟨me, ?_, UserMap.user?_eq_some.mpr ⟨node, hn⟩⟩
  rw [heq]
  simp [ChatApp.local?, ChatApp.pointee?, hn]

theorem local?_withoutUser :
    (app.withoutUser userId).local? = if app.pointsTo userId then none else app.local? := by
  unfold ChatApp.local? ChatApp.pointsTo ChatApp.withoutUser
  cases app.mLocaluserPtr with
  | unassigned => rfl
  | null => rfl
  | entry id node =>
    by_cases h : id = userId
    · simp [ChatApp.pointee?, h]
    · simp [ChatApp.pointee?, h]

theorem mUsers_withUser : (app.withUser u user isLocal).mUsers = (app.insertUser user).mUsers := by
  unfold ChatApp.withUser
  split
  · obtain ⟨node, heq, -⟩ := setLocal_insertUser u app user
    rw [heq]
  · rfl

theorem tidy_withUser (h : app.Tidy) : (app.withUser u user isLocal).Tidy := by
  unfold ChatApp.withUser
  split
  · exact h.setLocal
  · exact h.insertUser user

theorem addUser_run (isLocal : Bool) (out : List Effect)
    (h : (app.withUser u user isLocal).local? = some me) :
    (addUser u user isLocal).run ⟨app, out⟩ = .ok () ⟨app.withUser u user isLocal,
      out ++ listCalls me (app.withUser u user isLocal).mUsers.users⟩ := by
  simp only [addUser, EStateM.run_bind, modifyApp_run]
  exact refreshUserList_run h

theorem addUser_ok (h : (addUser u user isLocal).run ⟨app, out⟩ = .ok () w) :
    ∃ me, w = ⟨app.withUser u user isLocal,
      out ++ listCalls me (app.withUser u user isLocal).mUsers.users⟩ := by
  simp only [addUser, EStateM.run_bind, modifyApp_run] at h
  exact refreshUserList_ok h

/-- A user is listed, so the pointer is read. -/
theorem addUser_completes (user : UserInfo) (isLocal : Bool) (out : List Effect) (h : app.Tidy) :
    Completes (addUser u user isLocal) ⟨app, out⟩ ↔ isLocal = true ∨ app.local? ≠ none := by
  have hrefresh : Completes (addUser u user isLocal) ⟨app, out⟩ ↔
      Completes refreshUserList ⟨app.withUser u user isLocal, out⟩ := by
    simp only [Completes, addUser, EStateM.run_bind, modifyApp_run]
    rfl
  have hne : (app.insertUser user).mUsers.users ≠ [] := by
    rw [Ne, UserMap.users_eq_nil]
    intro hnil
    have := hnil user.userId
    rw [user?_insertUser] at this
    cases hu : app.mUsers.user? user.userId <;> simp [hu] at this
  rw [hrefresh, refreshUserList_completes, mUsers_withUser]
  simp only [hne, or_false, ChatApp.withUser]
  cases isLocal with
  | true =>
    obtain ⟨me, hme, -⟩ := local?_setLocal u app user
    simp [hme]
  | false => simp [local?_insertUser h]

theorem removeUser_run (h : (app.withoutUser userId).local? = some me) :
    (removeUser userId).run ⟨app, out⟩ = .ok () ⟨app.withoutUser userId,
      out ++ listCalls me (app.withoutUser userId).mUsers.users⟩ := by
  simp only [removeUser, EStateM.run_bind, modifyApp_run]
  exact refreshUserList_run h

theorem removeUser_ok (h : (removeUser userId).run ⟨app, out⟩ = .ok () w) :
    ∃ me, w = ⟨app.withoutUser userId,
      out ++ listCalls me (app.withoutUser userId).mUsers.users⟩ := by
  simp only [removeUser, EStateM.run_bind, modifyApp_run] at h
  exact refreshUserList_ok h

theorem removeUser_completes (out : List Effect) :
    Completes (removeUser userId) ⟨app, out⟩ ↔
      (app.local? ≠ none ∧ app.pointsTo userId = false) ∨
        ∀ id, id ≠ userId → app.mUsers.user? id = none := by
  have hrefresh : Completes (removeUser userId) ⟨app, out⟩ ↔
      Completes refreshUserList ⟨app.withoutUser userId, out⟩ := by
    simp only [Completes, removeUser, EStateM.run_bind, modifyApp_run]
    rfl
  have husers : (app.withoutUser userId).mUsers.users = [] ↔
      ∀ id, id ≠ userId → app.mUsers.user? id = none := by
    rw [UserMap.users_eq_nil]
    simp only [ChatApp.withoutUser, UserMap.user?_erase]
    refine forall_congr' fun id => ?_
    by_cases h : id = userId <;> simp [h]
  rw [hrefresh, refreshUserList_completes, husers, local?_withoutUser]
  cases app.pointsTo userId <;> simp

-- ---------------------------------------------------------------------------
-- Sending
-- ---------------------------------------------------------------------------

theorem serialized_run (h : pkg.layout.length < 2 ^ 31) : serialized u pkg = pure pkg.layout := by
  obtain ⟨s, hs, hbuf⟩ := serialize_fresh u u 0 h
  simp [serialized, hs, hbuf]

theorem enet_run {call : ENetWrapper → List ENetCall} (h : app.mEnet = some net) :
    (enet call).run ⟨app, out⟩ = .ok () ⟨app, out ++ (call net).map .enet⟩ := by
  simp [enet, h]

theorem broadcast_run (hs : pkg.layout.length < 2 ^ 31) (h : app.mEnet = some net) :
    (broadcast u pkg).run ⟨app, out⟩ =
      .ok () ⟨app, out ++ [.enet (.hostBroadcast pkg.layout 0)]⟩ := by
  simp [broadcast, serialized_run hs, enet_run h, ENetWrapper.broadcast]

theorem send_run (hs : pkg.layout.length < 2 ^ 31) (h : app.mEnet = some net) :
    (send u userId pkg).run ⟨app, out⟩ =
      .ok () ⟨app, out ++ (net.send (toPeerID userId) pkg.layout).map .enet⟩ := by
  simp [send, serialized_run hs, enet_run h]

@[simp] theorem toPeerID_toUserID (h : p.toNat < maxConnections) : toPeerID (toUserID p) = p := by
  have : p + 1 ≠ 0 := by
    intro h0
    have := congrArg UInt16.toNat h0
    simp [UInt16.toNat_add, maxConnections] at *
    omega
  simp [toPeerID, toUserID, this]

-- ---------------------------------------------------------------------------
-- Quitting
-- ---------------------------------------------------------------------------

/-- What `goToState(new QuitState)` makes of the members. -/
def ChatApp.quitting (app : ChatApp) : ChatApp :=
  { app with mState := .to .quitState, mQuit := true }

/-- What it does outside. -/
def quitEffects (app : ChatApp) : List Effect :=
  .window .clearAll :: (if app.mEnet.isSome then [.enet .disconnectAll] else []) ++
    [.window (.print (ascii "Press Enter to close window..."))]

theorem goToState_quit (h : app.mState = .to state) :
    (goToState u .quitState).run ⟨app, out⟩ = .ok () ⟨app.quitting, out ++ quitEffects app⟩ := by
  cases hw : app.mEnet with
  | none =>
    simp [goToState, loadState_run h, State.endState, State.beginState, QuitState.beginState, quit,
      hw, ChatApp.quitting, quitEffects]
  | some net =>
    simp [goToState, loadState_run h, State.endState, State.beginState, QuitState.beginState, quit,
      hw, ChatApp.quitting, quitEffects, enet, ENetWrapper.disconnectAll]

-- ---------------------------------------------------------------------------
-- Receiving
-- ---------------------------------------------------------------------------

theorem receiveEvent_decodes (hb : e.packetData.length < 2 ^ 32)
    (h : Package.Decodes e.packetData pkg) : receiveEvent u e = receivePackage u e pkg := by
  have := read_decodes (u := u) hb h
  rw [payloadStream] at this
  simp [receiveEvent, this]

theorem receiveEvent_throws (hb : e.packetData.length < 2 ^ 32)
    (ht : PacketType.ofValue (typeByte u e.packetData) ≠ none) (h : ¬ WellFormed e.packetData) :
    ∃ ex, receiveEvent u e = throw (.threw ex) := by
  obtain ⟨t, ht⟩ := Option.ne_none_iff_exists'.mp ht
  obtain ⟨ex, s', hs⟩ := read_throws (u := u) hb ht h
  rw [payloadStream] at hs
  exact ⟨ex, by simp [receiveEvent, hs]⟩

theorem receiveEvent_unknown (hb : e.packetData.length < 2 ^ 32)
    (ht : PacketType.ofValue (typeByte u e.packetData) = none) : receiveEvent u e = pure () := by
  have := read_unknown (u := u) hb ht
  rw [payloadStream] at this
  simp [receiveEvent, this]

theorem not_wellFormed_of_unknown (ht : PacketType.ofValue (typeByte u b) = none) :
    ¬ WellFormed b := by
  rintro ⟨pkg, h⟩
  rw [typeByte_decodes h] at ht
  cases ht

/-- A payload is a package, of no type, or a reason to throw. -/
theorem receiveEvent_cases (u : Unspecified) (hb : e.packetData.length < 2 ^ 32) :
    (∃ pkg, Package.Decodes e.packetData pkg ∧ receiveEvent u e = receivePackage u e pkg) ∨
    (¬ WellFormed e.packetData ∧ PacketType.ofValue (typeByte u e.packetData) = none ∧
      receiveEvent u e = pure ()) ∨
    (¬ WellFormed e.packetData ∧ PacketType.ofValue (typeByte u e.packetData) ≠ none ∧
      ∃ ex, receiveEvent u e = throw (.threw ex)) := by
  by_cases ht : PacketType.ofValue (typeByte u e.packetData) = none
  · exact .inr (.inl ⟨not_wellFormed_of_unknown ht, ht, receiveEvent_unknown hb ht⟩)
  · by_cases hw : WellFormed e.packetData
    · obtain ⟨pkg, h⟩ := hw
      exact .inl ⟨pkg, h, receiveEvent_decodes hb h⟩
    · exact .inr (.inr ⟨hw, ht, receiveEvent_throws hb ht hw⟩)

theorem receiveEvent_triple {Q : Unit → World → Prop} {E : Halt → World → Prop}
    (hb : e.packetData.length < 2 ^ 32)
    (hpkg : ∀ pkg, Package.Decodes e.packetData pkg → Triple (receivePackage u e pkg) w Q E)
    (hnone : Q () w) (hthrow : ∀ ex, E (.threw ex) w) : Triple (receiveEvent u e) w Q E := by
  have hcases := receiveEvent_cases u hb
  generalize receiveEvent u e = m at hcases ⊢
  obtain ⟨pkg, hd, rfl⟩ | ⟨-, -, rfl⟩ | ⟨-, -, ex, rfl⟩ := hcases
  · exact hpkg pkg hd
  · exact Triple.pure' hnone
  · exact Triple.throw' (hthrow ex)

theorem decodes_length (h : Package.Decodes b pkg) : pkg.layout.length ≤ b.length := by
  obtain ⟨-, -, tail, rfl, -⟩ := h
  simp

theorem ENetPacket.lt (packet : ENetPacket) : packet.data.length < 2 ^ 32 := by
  have := packet.fits
  simp only [maximumPacketSize] at this
  omega

/-- The package in a packet. -/
def ENetPacket.package? (packet : ENetPacket) : Option Package :=
  match (Package.read default).run (payloadStream default packet.data) with
  | .ok pkg _ => pkg
  | .error _ _ => none

theorem package?_eq_some {packet : ENetPacket} :
    packet.package? = some pkg ↔ Package.Decodes packet.data pkg := by
  constructor
  · intro h
    by_cases hw : WellFormed packet.data
    · obtain ⟨pkg', hd⟩ := hw
      simp only [ENetPacket.package?, read_decodes packet.lt hd] at h
      cases h
      exact hd
    · cases ht : PacketType.ofValue (typeByte default packet.data) with
      | none => simp [ENetPacket.package?, read_unknown packet.lt ht] at h
      | some t =>
        obtain ⟨ex, s, hs⟩ := read_throws packet.lt ht hw
        simp [ENetPacket.package?, hs] at h
  · intro hd
    simp only [ENetPacket.package?, read_decodes packet.lt hd]

theorem package?_eq_none {packet : ENetPacket} :
    packet.package? = none ↔ ¬ WellFormed packet.data := by
  rw [Option.eq_none_iff_forall_ne_some]
  simp only [ne_eq, package?_eq_some, WellFormed, not_exists]

theorem receive_ok {packet : ENetPacket} {peer : ENetPeer}
    (h : (listen u (.receive peer packet)).run ⟨app, out⟩ = .ok () w) :
    (packet.package? = none ∧ w = ⟨app, out⟩) ∨
    ∃ pkg, packet.package? = some pkg ∧ Package.Decodes packet.data pkg ∧
      (receivePackage u (.ofPeer peer packet.data) pkg).run ⟨app, out⟩ = .ok () w := by
  simp only [listen] at h
  obtain ⟨pkg, hd, heq⟩ | ⟨hw, -, heq⟩ | ⟨-, -, ex, heq⟩ :=
    receiveEvent_cases u (e := .ofPeer peer packet.data) packet.lt
  · rw [heq] at h
    exact .inr ⟨pkg, package?_eq_some.mpr hd, hd, h⟩
  · rw [heq] at h
    cases h
    exact .inl ⟨package?_eq_none.mpr hw, rfl⟩
  · rw [heq] at h
    cases h

-- ---------------------------------------------------------------------------
-- Input
-- ---------------------------------------------------------------------------

/-- A line reaches the state unless the application has quit. -/
theorem handle_input_run {line : InputLine} (hs : app.mState = .to s)
    (hq : app.mQuit = false) (hl : 0 < line.text.length) :
    (handle u (.input line)).run ⟨app, out⟩ = (s.handleInput u line.text).run ⟨app, out⟩ := by
  simp [handle, pollForInput, hq, loadState_run hs, hl]

/-- The lines that `pollForInput` does not hand on. -/
theorem handle_input_skip {line : InputLine} (hs : app.mState = .to state)
    (h : app.mQuit = true ∨ line.text.length = 0) :
    (handle u (.input line)).run ⟨app, out⟩ = .ok () ⟨app, out⟩ := by
  cases hq : app.mQuit with
  | true => simp [handle, pollForInput, hq]
  | false =>
    have hl : line.text = [] := by simpa [hq] using h
    simp [handle, pollForInput, hq, loadState_run hs, hl]

theorem handle_input_cases {line : InputLine} (hs : app.mState = .to state)
    (h : (handle u (.input line)).run ⟨app, out⟩ = .ok () w) :
    w = ⟨app, out⟩ ∨ (state.handleInput u line.text).run ⟨app, out⟩ = .ok () w := by
  by_cases hc : app.mQuit = false ∧ 0 < line.text.length
  · rw [handle_input_run hs hc.1 hc.2] at h
    exact .inr h
  · rw [handle_input_skip hs (by
      cases hq : app.mQuit <;> simp [hq] at hc ⊢
      exact hc)] at h
    cases h
    exact .inl rfl

theorem handle_network_none (h : app.mEnet = none) :
    (handle u (.network ev)).run ⟨app, out⟩ = .ok () ⟨app, out⟩ := by
  simp [handle, h]

theorem handle_network_run (h : app.mEnet = some net) :
    (handle u (.network ev)).run ⟨app, out⟩ = (listen u ev).run ⟨app, out⟩ := by
  simp [handle, h]

end ENetChat

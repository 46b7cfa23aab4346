import ENetChat.Chat.RunLaws

/-!
# Online

An application is online from the moment it has its `ENetWrapper`, under the
nickname it has then. `Online` is what stays so until the end, through every
handler, whether it completes or halts (`online_handle`).
-/

namespace ENetChat

open Exec

variable {u : Unspecified} {asHost : Bool} {nick : Bytes} {app app' : ChatApp} {w : World}
  {out effects : List Effect} {I : World → Prop} {user : UserInfo} {userId : UserId}
  {pkg : Package}

/-- The `ENetWrapper`s that were created, and which of them as hosts. -/
def wrappers (out : List Effect) : List Bool :=
  out.filterMap fun
    | .enet (.hostCreate hosting _ _) => some hosting
    | _ => none

/-- Whoever was sent a USERNAME was told this name. -/
def Introduces (nick : Bytes) (out : List Effect) : Prop :=
  ∀ peer data flags pckt, .enet (.peerSend peer data flags) ∈ out →
    Package.Decodes data (.username pckt) → pckt.username = nick

def chatState (asHost : Bool) : State := if asHost then .chatStateHost else .chatStateClient

structure Online (asHost : Bool) (nick : Bytes) (w : World) : Prop where
  wrappers : wrappers w.out = [asHost]
  introduced : asHost = false → Introduces nick w.out
  enet : w.app.mEnet.isSome
  nickname : w.app.mConfig.nickname = nick
  short : nick.length < 80
  tidy : w.app.Tidy
  me : asHost = true → w.app.mUsers.name? 0 = some nick
  state : (w.app.mState = .to (chatState asHost) ∧ w.app.mQuit = false) ∨
    (w.app.mState = .to .quitState ∧ w.app.mQuit = true)

-- ---------------------------------------------------------------------------
-- What may change
-- ---------------------------------------------------------------------------

@[simp] theorem wrappers_append : wrappers (out ++ effects) = wrappers out ++ wrappers effects :=
  List.filterMap_append

@[simp] theorem wrappers_window : wrappers (.window call :: out) = wrappers out := rfl

@[simp] theorem wrappers_listCalls : wrappers (listCalls me users) = [] := by
  simp [wrappers, listCalls, listCall]

/-- Neither a wrapper that is created nor a USERNAME that lies. -/
structure Modest (asHost : Bool) (nick : Bytes) (effects : List Effect) : Prop where
  wrappers : wrappers effects = []
  introduced : asHost = false → Introduces nick effects

theorem Introduces.append (h : Introduces nick out) (h' : Introduces nick effects) :
    Introduces nick (out ++ effects) := by
  intro peer data flags pckt hs
  obtain hs | hs := List.mem_append.mp hs
  · exact h peer data flags pckt hs
  · exact h' peer data flags pckt hs

theorem Modest.append (h : Modest asHost nick out) (h' : Modest asHost nick effects) :
    Modest asHost nick (out ++ effects) where
  wrappers := by rw [wrappers_append, h.wrappers, h'.wrappers, List.append_nil]
  introduced hc := (h.introduced hc).append (h'.introduced hc)

theorem Online.emit (h : Online asHost nick ⟨app, out⟩) (he : Modest asHost nick effects) :
    Online asHost nick ⟨app, out ++ effects⟩ := by
  refine { h with wrappers := ?_, introduced := fun hc => ?_ }
  · rw [wrappers_append, h.wrappers, he.wrappers, List.append_nil]
  · exact (h.introduced hc).append (he.introduced hc)

theorem Online.change (h : Online asHost nick ⟨app, out⟩) (hr : app.SameRest app')
    (ht : app'.Tidy) (hme : asHost = true → app'.mUsers.name? 0 = some nick) :
    Online asHost nick ⟨app', out⟩ where
  wrappers := h.wrappers
  introduced := h.introduced
  enet := hr.enet ▸ h.enet
  nickname := hr.config ▸ h.nickname
  short := h.short
  tidy := ht
  me := hme
  state := by
    rw [hr.state, hr.quit]
    exact h.state

theorem modest_window (call : WindowCall) : Modest asHost nick [.window call] :=
  ⟨rfl, by simp [Introduces]⟩

theorem modest_broadcast (net : ENetWrapper) (buf : Bytes) :
    Modest asHost nick ((net.broadcast buf).map .enet) :=
  ⟨rfl, by simp [Introduces, ENetWrapper.broadcast]⟩

theorem modest_send (net : ENetWrapper) (p : PeerId) (buf : Bytes)
    (h : asHost = false → ∀ pckt, Package.Decodes buf (.username pckt) → pckt.username = nick) :
    Modest asHost nick ((net.send p buf).map .enet) := by
  unfold ENetWrapper.send
  cases net.getPeerPtr p with
  | none => exact ⟨rfl, by simp [Introduces]⟩
  | some peer =>
    refine ⟨rfl, fun hc _ _ _ pckt hs => ?_⟩
    obtain ⟨-, rfl, -⟩ := by simpa using hs
    exact h hc pckt

-- ---------------------------------------------------------------------------
-- Functions of the application
-- ---------------------------------------------------------------------------

theorem keeps_getApp : Keeps I getApp := fun _ h => Triple.of_run rfl h

theorem keeps_localUser : Keeps I localUser := by
  refine Keeps.bind keeps_getApp fun app => ?_
  cases app.mLocaluserPtr with
  | unassigned => exact Keeps.throw _
  | null => exact Keeps.pure _
  | entry id node =>
    dsimp only
    cases app.pointee? id node with
    | none => exact Keeps.throw _
    | some user => exact Keeps.pure _

theorem keeps_deref (user : Option UserInfo) : Keeps I (deref user) := by
  cases user with
  | none => exact Keeps.throw _
  | some user => exact Keeps.pure _

theorem keeps_getUserInfoPtr : Keeps I (getUserInfoPtr userId) :=
  Keeps.bind keeps_getApp fun _ => Keeps.pure _

theorem keeps_containsUser : Keeps I (containsUser user) :=
  Keeps.bind keeps_getApp fun _ => Keeps.pure _

theorem keeps_isLocalUser (user : Option UserInfo) : Keeps I (isLocalUser user) := by
  cases user with
  | none => exact Keeps.pure _
  | some user =>
    refine Keeps.bind keeps_localUser fun me => ?_
    cases me with
    | none => exact Keeps.pure _
    | some me => exact Keeps.pure _

theorem keeps_serialized : Keeps I (serialized u pkg) := by
  unfold serialized
  split
  · exact Keeps.pure _
  · exact Keeps.throw _

theorem online_window (call : WindowCall) : Keeps (Online asHost nick) (window call) :=
  fun _ h => Triple.of_run window_run (h.emit (modest_window call))

theorem online_refreshUserList : Keeps (Online asHost nick) refreshUserList := by
  refine Keeps.bind (online_window _) fun _ => Keeps.bind keeps_getApp fun app => ?_
  refine Keeps.forM _ fun user => Keeps.bind keeps_localUser fun me => ?_
  cases me with
  | none => exact online_window _
  | some me => exact online_window _

theorem online_addUser (user : UserInfo) (isLocal : Bool) :
    Keeps (Online asHost nick) (addUser u user isLocal) := by
  refine Keeps.bind (fun w h => ?_) fun _ => online_refreshUserList
  refine Triple.of_run modifyApp_run (h.change (sameRest_withUser w.app user isLocal)
    (tidy_withUser h.tidy) fun hc => ?_)
  show (ChatApp.withUser u w.app user isLocal).mUsers.name? 0 = _
  rw [name?_withUser, h.me hc]
  rfl

theorem online_removeUser (hid : asHost = true → userId ≠ 0) :
    Keeps (Online asHost nick) (removeUser userId) := by
  refine Keeps.bind (fun w h => ?_) fun _ => online_refreshUserList
  refine Triple.of_run modifyApp_run (h.change sameRest_withoutUser (h.tidy.erase userId)
    fun hc => ?_)
  rw [UserMap.name?_erase, if_neg (hid hc).symm, h.me hc]

/-- The wrapper is there. -/
theorem online_enet {call : ENetWrapper → List ENetCall}
    (hcall : ∀ net, Modest asHost nick ((call net).map .enet)) :
    Keeps (Online asHost nick) (enet call) := by
  intro w h
  obtain ⟨net, hw⟩ := Option.isSome_iff_exists.mp h.enet
  exact Triple.of_run (enet_run hw) (h.emit (hcall net))

theorem online_broadcast : Keeps (Online asHost nick) (broadcast u pkg) :=
  Keeps.bind keeps_serialized fun buf => online_enet fun net => modest_broadcast net buf

theorem online_send_host : Keeps (Online true nick) (send u userId pkg) :=
  Keeps.bind keeps_serialized fun buf => online_enet fun net => modest_send net _ buf (by simp)

/-- A client sends what tells no other name than its own. -/
theorem online_send_client (htag : pkg.Tagged) (hsize : pkg.layout.length < 2 ^ 31)
    (hown : ∀ pckt, pkg = .username pckt → pckt.username = nick) :
    Keeps (Online false nick) (send u userId pkg) := by
  unfold send
  rw [serialized_run hsize, pure_bind]
  refine online_enet fun net => modest_send net _ _ fun _ pckt hd => ?_
  have hlt : pkg.layout.length < 2 ^ 32 := by omega
  have hpkg := decodes_unique hlt (decodes_received htag) hd
  cases pkg with
  | username p => exact hown pckt hpkg
  | _ => cases hpkg

theorem modest_quitEffects (app : ChatApp) : Modest asHost nick (quitEffects app) := by
  unfold quitEffects
  split <;> exact ⟨rfl, by simp [Introduces]⟩

theorem online_goToState_quit : Keeps (Online asHost nick) (goToState u .quitState) := by
  intro w h
  obtain ⟨state, hs⟩ : ∃ state, w.app.mState = .to state := by
    obtain ⟨hs, -⟩ | ⟨hs, -⟩ := h.state <;> exact ⟨_, hs⟩
  have hquit := h.emit (modest_quitEffects w.app)
  exact Triple.of_run (goToState_quit hs) { hquit with
    tidy := ⟨h.tidy.keyed, h.tidy.nodes, h.tidy.pointer⟩
    state := .inr ⟨rfl, rfl⟩ }

theorem online_withPeers (f : ENetWrapper → ENetWrapper) :
    Keeps (Online asHost nick) (modifyApp fun app => { app with mEnet := app.mEnet.map f }) := by
  intro w h
  refine Triple.of_run modifyApp_run { h with enet := ?_, tidy := tidy_withNet h.tidy }
  simpa using h.enet

-- ---------------------------------------------------------------------------
-- The host
-- ---------------------------------------------------------------------------

theorem online_host_handleInput (input : Bytes) :
    Keeps (Online asHost nick) (ChatStateHost.handleInput u input) := by
  unfold ChatStateHost.handleInput
  split
  · exact online_goToState_quit
  · refine Keeps.bind keeps_localUser fun me => ?_
    cases me with
    | none => exact Keeps.pure _
    | some me => exact Keeps.bind (online_window _) fun _ => online_broadcast

/-- The user that leaves is not the host's own. -/
theorem online_host_disconnect {peerId : PeerId} (hp : peerId.toNat < maxConnections)
    (address : Address) :
    Keeps (Online asHost nick) (ChatStateHost.receiveDisconnectEvent u peerId address) := by
  intro w h
  have hfind : Triple (getUserInfoPtr (toUserID peerId)) w
      (fun found w' => Online asHost nick w' ∧ ∀ user, found = some user → user.userId ≠ 0)
      fun _ => Online asHost nick := by
    refine Triple.of_run getUserInfoPtr_run ⟨h, fun user hu => ?_⟩
    rw [h.tidy.userId hu]
    exact toUserID_ne_zero hp
  refine Triple.bind hfind fun found w' hfound => ?_
  obtain ⟨h', hne⟩ := hfound
  cases found with
  | none => exact online_window _ w' h'
  | some user =>
    refine Keeps.bind (online_window _) (fun _ => Keeps.bind online_broadcast fun _ => ?_) w' h'
    exact online_removeUser fun _ => hne user rfl

theorem online_host_username (user : Option UserInfo) (pckt : UsernamePackage) :
    Keeps (Online true nick) (ChatStateHost.receiveUsernameEvent u user pckt) := by
  cases user with
  | none => exact online_window _
  | some user =>
    refine Keeps.bind (online_addUser user false) fun _ => Keeps.bind (online_window _) fun _ => ?_
    refine Keeps.bind keeps_getApp fun app => Keeps.bind online_send_host fun _ => ?_
    exact online_broadcast

theorem online_host_message (user : Option UserInfo) (pckt : MessagePackage) :
    Keeps (Online asHost nick) (ChatStateHost.receiveMessageEvent u user pckt) := by
  refine Keeps.bind (keeps_deref user) fun user => Keeps.bind (online_window _) fun _ => ?_
  exact online_broadcast

-- ---------------------------------------------------------------------------
-- The client
-- ---------------------------------------------------------------------------

theorem online_client_handleInput {input : Bytes} (hl : input.length < 80) :
    Keeps (Online false nick) (ChatStateClient.handleInput u input) := by
  unfold ChatStateClient.handleInput
  split
  · exact online_goToState_quit
  · refine Keeps.bind keeps_localUser fun me => ?_
    cases me with
    | none => exact Keeps.pure _
    | some me =>
      refine Keeps.bind (online_window _) fun _ => online_send_client rfl ?_ (by simp)
      rw [length_message]
      dsimp only
      omega

theorem online_client_connection (peerId : PeerId) (address : Address) :
    Keeps (Online false nick) (ChatStateClient.receiveConnectionEvent u peerId address) := by
  intro w h
  have hsize : (Package.username { username := nick }).layout.length < 2 ^ 31 := by
    have := h.short
    rw [length_username]
    dsimp only
    omega
  have hsend : Keeps (Online false nick) (send u 0 (.username { username := nick })) :=
    online_send_client rfl hsize fun pckt hp => by cases hp; rfl
  refine Triple.of_eq ?_ (hsend w h)
  rw [← h.nickname]
  rfl

theorem online_client_disconnect (peerId : PeerId) (address : Address) :
    Keeps (Online asHost nick) (ChatStateClient.receiveDisconnectEvent u peerId address) :=
  Keeps.bind (online_window _) fun _ => online_goToState_quit

theorem online_client_ack (pckt : UsernameAckPackage) :
    Keeps (Online asHost nick) (ChatStateClient.receiveUsernameAckEvent u pckt) :=
  Keeps.forM _ fun user => online_addUser user _

theorem online_client_add (user : UserInfo) (pckt : AddUserPackage) :
    Keeps (Online asHost nick) (ChatStateClient.receiveAddUserEvent u user pckt) := by
  refine Keeps.bind keeps_containsUser fun known => ?_
  cases known with
  | true => exact Keeps.pure _
  | false => exact Keeps.bind (online_window _) fun _ => online_addUser user false

theorem online_client_remove (user : Option UserInfo) (pckt : RemoveUserPackage) :
    Keeps (Online false nick) (ChatStateClient.receiveRemoveUserEvent user pckt) := by
  refine Keeps.bind (keeps_deref user) fun user => Keeps.bind (online_window _) fun _ => ?_
  exact online_removeUser (by simp)

theorem online_client_message (user : Option UserInfo) (pckt : MessagePackage) :
    Keeps (Online asHost nick) (ChatStateClient.receiveMessageEvent user pckt) := by
  refine Keeps.bind (keeps_isLocalUser user) fun mine => ?_
  cases mine with
  | true => exact Keeps.pure _
  | false => exact Keeps.bind (keeps_deref user) fun user => online_window _

-- ---------------------------------------------------------------------------
-- Events
-- ---------------------------------------------------------------------------

/-- A virtual call finds the chat's state or `QuitState`. -/
theorem online_withState {call : State → AppM Unit}
    (hchat : Keeps (Online asHost nick) (call (chatState asHost)))
    (hquit : Keeps (Online asHost nick) (call .quitState)) :
    Keeps (Online asHost nick) (withState call) := by
  intro w h
  obtain ⟨hs, -⟩ | ⟨hs, -⟩ := h.state
  · exact Triple.of_eq (withState_run hs) (hchat w h)
  · exact Triple.of_eq (withState_run hs) (hquit w h)

theorem online_connectionEvent (e : NetworkTraffic) :
    Keeps (Online asHost nick) (connectionEvent u e) := by
  refine online_withState ?_ (Keeps.pure _)
  cases asHost with
  | true => exact Keeps.pure _
  | false => exact online_client_connection e.peerId e.peerAddress

theorem online_disconnectEvent {e : NetworkTraffic} (hp : e.peerId.toNat < maxConnections) :
    Keeps (Online asHost nick) (disconnectEvent u e) := by
  refine online_withState ?_ (Keeps.pure _)
  cases asHost with
  | true => exact online_host_disconnect hp e.peerAddress
  | false => exact online_client_disconnect e.peerId e.peerAddress

theorem online_receivePackage (e : NetworkTraffic) (pkg : Package) :
    Keeps (Online asHost nick) (receivePackage u e pkg) := by
  cases pkg with
  | username pckt =>
    refine online_withState ?_ (Keeps.pure _)
    cases asHost with
    | true => exact online_host_username (some (e.announces pckt.username)) pckt
    | false => exact Keeps.pure _
  | usernameAck pckt =>
    refine online_withState ?_ (Keeps.pure _)
    cases asHost with
    | true => exact Keeps.pure _
    | false => exact online_client_ack pckt
  | addUser pckt =>
    refine online_withState ?_ (Keeps.pure _)
    cases asHost with
    | true => exact Keeps.pure _
    | false => exact online_client_add pckt.user pckt
  | removeUser pckt =>
    refine Keeps.bind keeps_getUserInfoPtr fun user => online_withState ?_ (Keeps.pure _)
    cases asHost with
    | true => exact Keeps.pure _
    | false => exact online_client_remove user pckt
  | message pckt =>
    refine Keeps.bind keeps_getUserInfoPtr fun user => online_withState ?_ (Keeps.pure _)
    cases asHost with
    | true => exact online_host_message user pckt
    | false => exact online_client_message user pckt

theorem online_listen (ev : ENetEvent) : Keeps (Online asHost nick) (listen u ev) := by
  cases ev with
  | none => exact Keeps.pure _
  | connect peer => exact Keeps.bind (online_withPeers _) fun _ => online_connectionEvent _
  | disconnect peer =>
    exact Keeps.bind (online_disconnectEvent peer.inHost) fun _ => online_withPeers _
  | receive peer packet =>
    intro w h
    rw [listen]
    exact receiveEvent_triple packet.lt (fun pkg _ => online_receivePackage _ pkg w h) h fun _ => h

theorem online_input (line : InputLine) :
    Keeps (Online asHost nick) (handle u (.input line)) := by
  intro w h
  obtain ⟨hs, hq⟩ | ⟨hs, hq⟩ := h.state
  · by_cases hl : 0 < line.text.length
    · refine Triple.of_eq (handle_input_run hs hq hl) ?_
      cases asHost with
      | true => exact online_host_handleInput line.text w h
      | false => exact online_client_handleInput line.fits w h
    · exact Triple.of_run (handle_input_skip hs (.inr (by omega))) h
  · exact Triple.of_run (handle_input_skip hs (.inl hq)) h

/-- Whatever happens, and whether the handler completes or halts. -/
theorem online_handle (event : AppEvent) : Keeps (Online asHost nick) (handle u event) := by
  cases event with
  | input line => exact online_input line
  | network ev =>
    intro w h
    obtain ⟨net, hw⟩ := Option.isSome_iff_exists.mp h.enet
    exact Triple.of_eq (handle_network_run hw) (online_listen ev w h)

end ENetChat

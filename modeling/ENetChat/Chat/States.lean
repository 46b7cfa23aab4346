import ENetChat.Chat.ChatApp

/-!
# The states

The classes of `chat/state/*.h`, one namespace each with the members it
overrides, and the virtual calls on `State`, which is what a handler that is
not overridden inherits: nothing. `goToState` stands before the handlers that
call it, since no `beginState` does.
-/

namespace ENetChat

/-- `EXIT`. -/
def exitCommand : Bytes := ascii "/exit"

-- ---------------------------------------------------------------------------
-- Entering a state
-- ---------------------------------------------------------------------------

def QuitState.beginState : AppM Unit := do
  quit
  window (.print (ascii "Press Enter to close window..."))

def PromptStateConn.beginState : AppM Unit := do
  window .clearAll
  window (.print (ascii "Please select an option:"))
  window (.print (ascii "1. Host"))
  window (.print (ascii "2. Join"))
  window (.print (ascii "3. Exit"))

def PromptStateName.beginState : AppM Unit :=
  window (.print (ascii "Please Enter Your Username..."))

def ChatStateHost.beginState (u : Unspecified) : AppM Unit := do
  window (.log (ascii "Started new session [hosting]..."))
  addUser u { userId := 0, name := (← getApp).mConfig.nickname } true
  host defaultPort maxConnections

def ChatStateClient.beginState : AppM Unit := do
  window (.log (ascii "Connected to session [client]..."))
  connect (ascii "127.0.0.1") defaultPort

def State.beginState (u : Unspecified) : State → AppM Unit
  | .promptStateConn => PromptStateConn.beginState
  | .promptStateName => PromptStateName.beginState
  | .chatStateHost => ChatStateHost.beginState u
  | .chatStateClient => ChatStateClient.beginState
  | .quitState => QuitState.beginState

/-- No class overrides it. -/
def State.endState (_ : State) : AppM Unit := window .clearAll

def goToState (u : Unspecified) (state : State) : AppM Unit := do
  match ← loadState with
  | some old => old.endState
  | none => pure ()
  modifyApp fun app => { app with mState := .to state }
  state.beginState u

-- ---------------------------------------------------------------------------
-- The prompts
-- ---------------------------------------------------------------------------

/-- `HOST`, `JOIN` and `QUIT` are "1", "2" and "3". -/
def PromptStateConn.handleInput (u : Unspecified) (input : Bytes) : AppM Unit := do
  if input = ascii "1" then
    modifyApp fun app => { app with mConfig := { app.mConfig with connAsHost := true } }
    goToState u .promptStateName
  else if input = ascii "2" then
    goToState u .promptStateName
  else if input = ascii "3" then
    goToState u .quitState
  else
    return ()

def PromptStateName.handleInput (u : Unspecified) (input : Bytes) : AppM Unit := do
  if input = exitCommand then
    goToState u .quitState
  else
    modifyApp fun app => { app with mConfig := { app.mConfig with nickname := input } }
    if (← getApp).mConfig.connAsHost then
      goToState u .chatStateHost
    else
      goToState u .chatStateClient

-- ---------------------------------------------------------------------------
-- The host
-- ---------------------------------------------------------------------------

namespace ChatStateHost

def handleInput (u : Unspecified) (input : Bytes) : AppM Unit := do
  if input = exitCommand then
    goToState u .quitState
  else
    match ← localUser with
    | none => return ()
    | some me =>
      window (.printFrom me.name input true)
      broadcast u (.message { userId := 0, message := input })

/-- The host waits for the name. -/
def receiveConnectionEvent (_ : PeerId) (_ : Address) : AppM Unit := return ()

def receiveDisconnectEvent (u : Unspecified) (peerId : PeerId) (_ : Address) : AppM Unit := do
  match ← getUserInfoPtr (toUserID peerId) with
  | some user =>
    window (.log (user.name ++ ascii " disconnected [" ++ user.address.str ++ ascii "]"))
    broadcast u (.removeUser { userId := user.userId })
    removeUser user.userId
  | none => window (.error (ascii "Disconnect from user not found in records"))

def receiveUsernameEvent (u : Unspecified) (user : Option UserInfo) (_ : UsernamePackage) :
    AppM Unit := do
  match user with
  | some user =>
    addUser u user
    window (.log (user.name ++ ascii " connected [" ++ user.address.str ++ ascii "]"))
    send u user.userId (.usernameAck (.ofMap user.userId (← getApp).mUsers))
    broadcast u (.addUser { user })
  | none => window (.error (ascii "Username received from missing user"))

def receiveMessageEvent (u : Unspecified) (user : Option UserInfo) (pkg : MessagePackage) :
    AppM Unit := do
  window (.printFrom (← deref user).name pkg.message false)
  broadcast u (.message pkg)

end ChatStateHost

-- ---------------------------------------------------------------------------
-- The client
-- ---------------------------------------------------------------------------

namespace ChatStateClient

def handleInput (u : Unspecified) (input : Bytes) : AppM Unit := do
  if input = exitCommand then
    goToState u .quitState
  else
    match ← localUser with
    | none => return ()
    | some me =>
      window (.printFrom me.name input true)
      send u 0 (.message { userId := me.userId, message := input })

def receiveConnectionEvent (u : Unspecified) (_ : PeerId) (_ : Address) : AppM Unit := do
  send u 0 (.username { username := (← getApp).mConfig.nickname })

def receiveDisconnectEvent (u : Unspecified) (_ : PeerId) (_ : Address) : AppM Unit := do
  window (.log (ascii "Disconnected from host, exiting..."))
  goToState u .quitState

def receiveUsernameAckEvent (u : Unspecified) (pkg : UsernameAckPackage) : AppM Unit :=
  pkg.users.forM fun user => addUser u user (pkg.assignedUserId == user.userId)

def receiveAddUserEvent (u : Unspecified) (user : UserInfo) (_ : AddUserPackage) : AppM Unit := do
  if ← containsUser user then
    return ()
  else
    window (.log (user.name ++ ascii " connected"))
    addUser u user

def receiveRemoveUserEvent (user : Option UserInfo) (_ : RemoveUserPackage) : AppM Unit := do
  let user ← deref user
  window (.log (user.name ++ ascii " disconnected"))
  removeUser user.userId

def receiveMessageEvent (user : Option UserInfo) (pkg : MessagePackage) : AppM Unit := do
  if ← isLocalUser user then
    return ()
  else
    window (.printFrom (← deref user).name pkg.message false)

end ChatStateClient

-- ---------------------------------------------------------------------------
-- Virtual calls
-- ---------------------------------------------------------------------------

namespace State

def handleInput (u : Unspecified) (input : Bytes) : State → AppM Unit
  | promptStateConn => PromptStateConn.handleInput u input
  | promptStateName => PromptStateName.handleInput u input
  | chatStateHost => ChatStateHost.handleInput u input
  | chatStateClient => ChatStateClient.handleInput u input
  | quitState => return ()

def receiveConnectionEvent (u : Unspecified) (peerId : PeerId) (address : Address) :
    State → AppM Unit
  | chatStateHost => ChatStateHost.receiveConnectionEvent peerId address
  | chatStateClient => ChatStateClient.receiveConnectionEvent u peerId address
  | _ => return ()

def receiveDisconnectEvent (u : Unspecified) (peerId : PeerId) (address : Address) :
    State → AppM Unit
  | chatStateHost => ChatStateHost.receiveDisconnectEvent u peerId address
  | chatStateClient => ChatStateClient.receiveDisconnectEvent u peerId address
  | _ => return ()

def receiveUsernameEvent (u : Unspecified) (user : Option UserInfo) (pkg : UsernamePackage) :
    State → AppM Unit
  | chatStateHost => ChatStateHost.receiveUsernameEvent u user pkg
  | _ => return ()

def receiveUsernameAckEvent (u : Unspecified) (pkg : UsernameAckPackage) : State → AppM Unit
  | chatStateClient => ChatStateClient.receiveUsernameAckEvent u pkg
  | _ => return ()

/-- The pointer is to the package's own user, never NULL. -/
def receiveAddUserEvent (u : Unspecified) (user : UserInfo) (pkg : AddUserPackage) :
    State → AppM Unit
  | chatStateClient => ChatStateClient.receiveAddUserEvent u user pkg
  | _ => return ()

def receiveRemoveUserEvent (user : Option UserInfo) (pkg : RemoveUserPackage) : State → AppM Unit
  | chatStateClient => ChatStateClient.receiveRemoveUserEvent user pkg
  | _ => return ()

def receiveMessageEvent (u : Unspecified) (user : Option UserInfo) (pkg : MessagePackage) :
    State → AppM Unit
  | chatStateHost => ChatStateHost.receiveMessageEvent u user pkg
  | chatStateClient => ChatStateClient.receiveMessageEvent user pkg
  | _ => return ()

end State

end ENetChat

import ENetChat.Network.ENetWrapper
import ENetChat.Network.Protocol

/-!
# The application

`ChatApp` of `chat/chat_app.{h,cpp}` up to its states: the members, and the
functions that states call. A handler is an `AppM` computation: it changes
the members, appends what it does outside to `out`, and may halt. Handlers
run one at a time.

The constructor leaves `m_state` and `m_localuser_ptr` unassigned. Whether
their memory happens to be zero is a parameter: a zero reads as NULL, and
reading anything else, `unassigned`, halts with `wildRead`.
-/

namespace ENetChat

/-- The operations of `ChatWindow` that a handler calls. -/
inductive WindowCall where
  | init
  | print (msg : Bytes)
  | printFrom (username msg : Bytes) (isLocal : Bool)
  | log (msg : Bytes)
  | error (msg : Bytes)
  | clearAll
  | clearUserList
  | addUser (username : Bytes) (isLocal : Bool)
  deriving DecidableEq, Repr

/-- What a handler does outside the application's members. -/
inductive Effect where
  | window (call : WindowCall)
  | enet (call : ENetCall)
  deriving DecidableEq, Repr

/-- The classes derived from `State`. -/
inductive State where
  | promptStateConn
  | promptStateName
  | chatStateHost
  | chatStateClient
  | quitState
  deriving DecidableEq, Repr

inductive StatePtr where
  | unassigned
  | null
  | to (state : State)
  deriving DecidableEq, Repr

/-- A pointer to a map entry names the entry's key and its node. -/
inductive UserPtr where
  | unassigned
  | null
  | entry (id : UserId) (node : Nat)
  deriving DecidableEq, Repr

structure ChatConfig where
  connAsHost : Bool := false
  nickname : Bytes := []
  deriving DecidableEq, Repr

structure ChatApp where
  mEnet : Option ENetWrapper := none
  mConfig : ChatConfig := {}
  mLocaluserPtr : UserPtr
  mUsers : UserMap := ∅
  mState : StatePtr
  mQuit : Bool := false
  nextNode : Nat := 0  -- where the next node of the map is allocated
  deriving DecidableEq

/-- `ChatApp()`, and whether the memory of the two pointers is zero. -/
def ChatApp.construct (localZero stateZero : Bool) : ChatApp :=
  { mLocaluserPtr := if localZero then .null else .unassigned
    mState := if stateZero then .null else .unassigned }

structure World where
  app : ChatApp
  out : List Effect := []

abbrev AppM := EStateM Halt World

def getApp : AppM ChatApp := return (← get).app

def modifyApp (f : ChatApp → ChatApp) : AppM Unit := modify fun w => { w with app := f w.app }

def emit (effects : List Effect) : AppM Unit := modify fun w => { w with out := w.out ++ effects }

def window (call : WindowCall) : AppM Unit := emit [.window call]

-- ---------------------------------------------------------------------------
-- The pointers
-- ---------------------------------------------------------------------------

/-- The value of `m_state`. -/
def loadState : AppM (Option State) := do
  match (← getApp).mState with
  | .unassigned => throw .wildRead
  | .null => return none
  | .to state => return some state

/-- The entry that a pointer points to, if it is still in the map. -/
def ChatApp.pointee? (app : ChatApp) (id : UserId) (node : Nat) : Option UserInfo :=
  match app.mUsers[id]? with
  | some n => if n.node = node then some n.user else none
  | none => none

/-- `getLocalUserPtr()`, dereferenced if it is not NULL. -/
def localUser : AppM (Option UserInfo) := do
  let app ← getApp
  match app.mLocaluserPtr with
  | .unassigned => throw .wildRead
  | .null => return none
  | .entry id node =>
    match app.pointee? id node with
    | some user => return some user
    | none => throw .wildRead

/-- `getUserInfoPtr(user_id)`, `none` for NULL. -/
def getUserInfoPtr (userId : UserId) : AppM (Option UserInfo) :=
  return (← getApp).mUsers.user? userId

/-- `*user`. -/
def deref : Option UserInfo → AppM UserInfo
  | some user => return user
  | none => throw .nullDeref

-- ---------------------------------------------------------------------------
-- Users
-- ---------------------------------------------------------------------------

/-- The loop of `refreshUserList`. -/
def listUser (user : UserInfo) : AppM Unit := do
  match ← localUser with
  | some me => window (.addUser user.name (me.userId == user.userId))
  | none => window (.addUser user.name false)

def refreshUserList : AppM Unit := do
  window .clearUserList
  (← getApp).mUsers.users.forM listUser

/-- `m_users.insert(..)`, which keeps an entry that is there. -/
def ChatApp.insertUser (app : ChatApp) (user : UserInfo) : ChatApp :=
  { app with
    mUsers := app.mUsers.insertIfNew user.userId { node := app.nextNode, user }
    nextNode := app.nextNode + 1 }

/-- `m_localuser_ptr = &m_users[user_id]`, where `operator[]` adds a missing
entry. -/
def ChatApp.setLocal (u : Unspecified) (app : ChatApp) (userId : UserId) : ChatApp :=
  match app.mUsers[userId]? with
  | some n => { app with mLocaluserPtr := .entry userId n.node }
  | none =>
    { app with
      mUsers := app.mUsers.insert userId { node := app.nextNode, user := .unset u }
      nextNode := app.nextNode + 1
      mLocaluserPtr := .entry userId app.nextNode }

def addUser (u : Unspecified) (user : UserInfo) (isLocal : Bool := false) : AppM Unit := do
  modifyApp fun app =>
    if isLocal then (app.insertUser user).setLocal u user.userId else app.insertUser user
  refreshUserList

def removeUser (userId : UserId) : AppM Unit := do
  modifyApp fun app => { app with mUsers := app.mUsers.erase userId }
  refreshUserList

def containsUser (user : UserInfo) : AppM Bool :=
  return (← getApp).mUsers.contains user.userId

/-- The local pointer is read only when `user` is not NULL. -/
def isLocalUser : Option UserInfo → AppM Bool
  | none => return false
  | some user => do
    match ← localUser with
    | some me => return user.userId == me.userId
    | none => return false

def toUserID (peerId : PeerId) : UserId := peerId + 1

def toPeerID (userId : UserId) : PeerId := if userId = 0 then 0 else userId - 1

-- ---------------------------------------------------------------------------
-- The network
-- ---------------------------------------------------------------------------

/-- `m_enet->..`. -/
def enet (call : ENetWrapper → List ENetCall) : AppM Unit := do
  match (← getApp).mEnet with
  | none => throw .nullDeref
  | some w => emit ((call w).map .enet)

/-- `ByteStream s; pkg.serialize(s); s.getBuf()`. -/
def serialized (u : Unspecified) (pkg : Package) : AppM Bytes :=
  match (pkg.serialize u).run (ByteStream.ofCap u 0) with
  | .ok _ s => return s.getBuf u
  | .error h _ => throw h

/-- The five overloads of `send`. -/
def send (u : Unspecified) (userId : UserId) (pkg : Package) : AppM Unit := do
  let buf ← serialized u pkg
  enet (·.send (toPeerID userId) buf)

/-- The three overloads of `broadcast`. -/
def broadcast (u : Unspecified) (pkg : Package) : AppM Unit := do
  let buf ← serialized u pkg
  enet (·.broadcast buf)

/-- `new net::ENetWrapper(..)`. -/
def newENetWrapper (hosting : Bool) (port : UInt32) (maxConnections : Nat) : AppM Unit := do
  emit [.enet (.hostCreate hosting port maxConnections)]
  modifyApp fun app => { app with mEnet := some {} }

def host (port : UInt32) (maxConnections : Nat) : AppM Unit :=
  newENetWrapper true port maxConnections

def connect (address : Bytes) (port : UInt32) : AppM Unit := do
  newENetWrapper false port 1
  emit [.enet (.hostConnect address port)]

def quit : AppM Unit := do
  if (← getApp).mEnet.isSome then
    enet (·.disconnectAll)
  modifyApp fun app => { app with mQuit := true }

end ENetChat

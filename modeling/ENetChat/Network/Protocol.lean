import ENetChat.Chat.UserInfo

/-!
# The packages

The five packages of `network/protocol.h`, each with the decoder that is its
constructor from a `ByteStream` and its `serialize`. `Package` is a package
of any type; `Package.read` is the `switch` at the head of
`ChatApp::receiveEvent`, which looks at the first byte and runs one decoder.
-/

namespace ENetChat

open ByteStream

def defaultPort : UInt32 := 7777

inductive PacketType where
  | username
  | usernameAck
  | stateAddUser
  | stateRemUser
  | message
  deriving DecidableEq, Repr

def PacketType.value : PacketType → Int8
  | .username => 0
  | .usernameAck => 1
  | .stateAddUser => 2
  | .stateRemUser => 3
  | .message => 4

/-- The `case` a value selects, `none` for `default`. -/
def PacketType.ofValue (i : Int8) : Option PacketType :=
  [username, usernameAck, stateAddUser, stateRemUser, message].find? (·.value == i)

/-- `Package::serialize`. -/
def serializeType (u : Unspecified) (packetType : Int8) : Stream Unit := do
  let _ ← writeInt8 u packetType

-- ---------------------------------------------------------------------------
-- USERNAME
-- ---------------------------------------------------------------------------

structure UsernamePackage where
  packetType : Int8 := PacketType.username.value
  username : Bytes
  deriving DecidableEq, Repr

def UsernamePackage.read (u : Unspecified) : Stream UsernamePackage := do
  let packetType ← readInt8 u
  let username ← readString u
  return { packetType, username }

def UsernamePackage.serialize (u : Unspecified) (pkg : UsernamePackage) : Stream Unit := do
  serializeType u pkg.packetType
  let _ ← writeString u pkg.username (UInt64.ofNat pkg.username.length)

-- ---------------------------------------------------------------------------
-- USERNAME_ACK
-- ---------------------------------------------------------------------------

structure UsernameAckPackage where
  packetType : Int8 := PacketType.usernameAck.value
  assignedUserId : UserId
  users : List UserInfo
  deriving DecidableEq, Repr

/-- `UsernameAckPackage(user_id_t user_id, const UserMap& user_map)`. -/
def UsernameAckPackage.ofMap (userId : UserId) (userMap : UserMap) : UsernameAckPackage :=
  { assignedUserId := userId, users := userMap.users }

/-- The body of the loop: one user. -/
def UsernameAckPackage.readUser (u : Unspecified) : Stream UserInfo := do
  let userId ← readUInt16 u
  let name ← readString u
  return { userId, name }

/-- `while (!s.end())`: at most `fuel - 1` users are left to read. -/
def UsernameAckPackage.readUsers (u : Unspecified) : (fuel : Nat) → Stream (List UserInfo)
  | 0 => throw .diverges
  | fuel + 1 => do
    if (← get).atEnd then
      return []
    else
      let user ← readUser u
      let users ← readUsers u fuel
      return user :: users

/-- A round of the loop moves the offset on, so there are no more rounds
than bytes. -/
def UsernameAckPackage.read (u : Unspecified) : Stream UsernameAckPackage := do
  let packetType ← readInt8 u
  let assignedUserId ← readUInt16 u
  let users ← readUsers u ((← get).mLength.toNat + 1)
  return { packetType, assignedUserId, users }

def UsernameAckPackage.serialize (u : Unspecified) (pkg : UsernameAckPackage) : Stream Unit := do
  serializeType u pkg.packetType
  let _ ← writeUInt16 u pkg.assignedUserId
  pkg.users.forM (UserInfo.serialize u)

-- ---------------------------------------------------------------------------
-- STATE_ADD_USER
-- ---------------------------------------------------------------------------

structure AddUserPackage where
  packetType : Int8 := PacketType.stateAddUser.value
  user : UserInfo
  deriving DecidableEq, Repr

def AddUserPackage.read (u : Unspecified) : Stream AddUserPackage := do
  let packetType ← readInt8 u
  let user := UserInfo.unset u
  let userId ← readUInt16 u
  let user := { user with userId }
  let name ← readString u
  let user := { user with name }
  return { packetType, user }

def AddUserPackage.serialize (u : Unspecified) (pkg : AddUserPackage) : Stream Unit := do
  serializeType u pkg.packetType
  pkg.user.serialize u

-- ---------------------------------------------------------------------------
-- STATE_REM_USER
-- ---------------------------------------------------------------------------

structure RemoveUserPackage where
  packetType : Int8 := PacketType.stateRemUser.value
  userId : UserId
  deriving DecidableEq, Repr

def RemoveUserPackage.read (u : Unspecified) : Stream RemoveUserPackage := do
  let packetType ← readInt8 u
  let userId ← readUInt16 u
  return { packetType, userId }

def RemoveUserPackage.serialize (u : Unspecified) (pkg : RemoveUserPackage) : Stream Unit := do
  serializeType u pkg.packetType
  let _ ← writeUInt16 u pkg.userId

-- ---------------------------------------------------------------------------
-- MESSAGE
-- ---------------------------------------------------------------------------

structure MessagePackage where
  packetType : Int8 := PacketType.message.value
  userId : UserId
  message : Bytes
  deriving DecidableEq, Repr

def MessagePackage.read (u : Unspecified) : Stream MessagePackage := do
  let packetType ← readInt8 u
  let userId ← readUInt16 u
  let message ← readString u
  return { packetType, userId, message }

def MessagePackage.serialize (u : Unspecified) (pkg : MessagePackage) : Stream Unit := do
  serializeType u pkg.packetType
  let _ ← writeUInt16 u pkg.userId
  let _ ← writeString u pkg.message (UInt64.ofNat pkg.message.length)

-- ---------------------------------------------------------------------------
-- Any package
-- ---------------------------------------------------------------------------

inductive Package where
  | username (pkg : UsernamePackage)
  | usernameAck (pkg : UsernameAckPackage)
  | addUser (pkg : AddUserPackage)
  | removeUser (pkg : RemoveUserPackage)
  | message (pkg : MessagePackage)
  deriving DecidableEq, Repr

/-- The decoder of a type, as its `case` of the `switch` runs it. -/
def Package.readAs (u : Unspecified) : PacketType → Stream Package
  | .username => return .username (← UsernamePackage.read u)
  | .usernameAck => return .usernameAck (← UsernameAckPackage.read u)
  | .stateAddUser => return .addUser (← AddUserPackage.read u)
  | .stateRemUser => return .removeUser (← RemoveUserPackage.read u)
  | .message => return .message (← MessagePackage.read u)

/-- `switch (s.peekInt8())`, up to the decoded package; `none` for `default`. -/
def Package.read (u : Unspecified) : Stream (Option Package) := do
  match PacketType.ofValue ((← get).peekInt8 u) with
  | some t => return some (← Package.readAs u t)
  | none => return none

/-- The virtual `serialize`. -/
def Package.serialize (u : Unspecified) : Package → Stream Unit
  | .username pkg => pkg.serialize u
  | .usernameAck pkg => pkg.serialize u
  | .addUser pkg => pkg.serialize u
  | .removeUser pkg => pkg.serialize u
  | .message pkg => pkg.serialize u

end ENetChat

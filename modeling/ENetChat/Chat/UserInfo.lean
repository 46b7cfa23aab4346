import ENetChat.Util.ByteStream
import Mathlib.Data.List.Basic

/-!
# Users

`net::Address`, `UserInfo` and `UserMap` of `network/address.h` and
`chat/userinfo.h`. A map entry has a node of its own: a pointer to an entry
is good for as long as that node is in the map.
-/

namespace ENetChat

/-- The bytes of an ASCII literal. -/
def ascii (s : String) : Bytes := s.toList.map fun c => UInt8.ofNat c.toNat

abbrev UserId := UInt16

abbrev PeerId := UInt16

/-- `net::IPv4`. -/
def ipv4 (i : UInt32) : Bytes :=
  let octet (shift : UInt32) := ascii (toString ((i >>> shift) &&& 0xFF).toNat)
  octet 0 ++ ascii "." ++ octet 8 ++ ascii "." ++ octet 16 ++ ascii "." ++ octet 24

structure Address where
  host : UInt32 := 0
  port : UInt16 := 0
  deriving DecidableEq, Repr

def Address.str (a : Address) : Bytes := ipv4 a.host ++ ascii ":" ++ ascii (toString a.port.toNat)

structure UserInfo where
  userId : UserId
  name : Bytes
  address : Address := {}
  deriving DecidableEq, Repr

/-- `UserInfo()`. Its initialiser `name(name)` copies the member out of
itself, before it has a value. The standard leaves that undefined. It is
assumed to complete with some string, as it does in the library of MSVC, for
which the project is set up. -/
def UserInfo.unset (u : Unspecified) : UserInfo := { userId := 0xFFFF, name := u.name }

def UserInfo.serialize (u : Unspecified) (user : UserInfo) : Stream Unit := do
  let _ ← ByteStream.writeUInt16 u user.userId
  let _ ← ByteStream.writeString u user.name (UInt64.ofNat user.name.length)

/-- An entry of the map and the node that holds it. -/
structure UserNode where
  node : Nat
  user : UserInfo
  deriving DecidableEq, Repr

abbrev UserMap := Std.ExtTreeMap UserId UserNode

/-- The entries in the order of a `std::map`'s iterator. -/
def UserMap.users (m : UserMap) : List UserInfo := m.toList.map (·.2.user)

def UserMap.user? (m : UserMap) (id : UserId) : Option UserInfo := m[id]?.map (·.user)

def UserMap.name? (m : UserMap) (id : UserId) : Option Bytes := (m.user? id).map (·.name)

end ENetChat

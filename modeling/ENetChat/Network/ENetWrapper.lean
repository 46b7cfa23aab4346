import ENetChat.Chat.UserInfo

/-!
# The ENet wrapper

What `network/enet_wrapper.h` keeps and what it asks of ENet. The peers of a
host are the 16 slots of its `peers` array; `ENetCall` is a call to ENet.
Creating a host and starting a connection are taken to succeed.
-/

namespace ENetChat

/-- `max_connections` of a host. -/
def maxConnections : Nat := 16

instance : NeZero maxConnections := ⟨by decide⟩

/-- `ENET_HOST_DEFAULT_MAXIMUM_PACKET_SIZE`: the largest packet a peer takes
or hands over. -/
def maximumPacketSize : Nat := 32 * 1024 * 1024

/-- `ENET_PACKET_FLAG_RELIABLE`. -/
def packetFlagReliable : UInt32 := 1

/-- A pointer into `peers`, with the fields read through it. -/
structure ENetPeer where
  incomingPeerID : PeerId
  address : Address
  inHost : incomingPeerID.toNat < maxConnections
  deriving DecidableEq, Repr

structure ENetPacket where
  data : Bytes
  flags : UInt32
  fits : data.length ≤ maximumPacketSize
  deriving DecidableEq, Repr

/-- `host->peers[slot]`. -/
def ENetPeer.ofSlot (slot : Fin maxConnections) (address : Address := {}) : ENetPeer where
  incomingPeerID := UInt16.ofNat slot
  address
  inHost := by
    have := slot.isLt
    simp only [maxConnections] at *
    simp
    omega

/-- `enet_packet_create`, if the packet is one that `enet_peer_send` takes. -/
def ENetPacket.create? (data : Bytes) (flags : UInt32) : Option ENetPacket :=
  if fits : data.length ≤ maximumPacketSize then some { data, flags, fits } else none

inductive ENetEvent where
  | none
  | connect (peer : ENetPeer)
  | disconnect (peer : ENetPeer)
  | receive (peer : ENetPeer) (packet : ENetPacket)
  deriving DecidableEq, Repr

structure NetworkTraffic where
  peerId : PeerId
  peerAddress : Address
  packetData : Bytes  -- `packet_length` bytes
  deriving DecidableEq, Repr

/-- `NetworkTraffic(ENetPeer* peer, ..)`. -/
def NetworkTraffic.ofPeer (peer : ENetPeer) (packetData : Bytes) : NetworkTraffic :=
  { peerId := peer.incomingPeerID, peerAddress := peer.address, packetData }

inductive ENetCall where
  | hostCreate (hosting : Bool) (port : UInt32) (maxConnections : Nat)
  | hostConnect (address : Bytes) (port : UInt32)
  | peerSend (peer : ENetPeer) (data : Bytes) (flags : UInt32)
  | hostBroadcast (data : Bytes) (flags : UInt32)
  | disconnectAll
  deriving DecidableEq, Repr

structure ENetWrapper where
  mPeers : Std.ExtTreeMap PeerId ENetPeer := ∅
  deriving DecidableEq

namespace ENetWrapper

def getPeerPtr (w : ENetWrapper) (peerId : PeerId) : Option ENetPeer := w.mPeers[peerId]?

/-- The packet is created with no flags. -/
def broadcast (_ : ENetWrapper) (msg : Bytes) : List ENetCall := [.hostBroadcast msg 0]

def send (w : ENetWrapper) (peerId : PeerId) (msg : Bytes) : List ENetCall :=
  match w.getPeerPtr peerId with
  | none => []
  | some peer => [.peerSend peer msg 0]

def disconnectAll (_ : ENetWrapper) : List ENetCall := [.disconnectAll]

end ENetWrapper

end ENetChat

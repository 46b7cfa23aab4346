import ENetChat.Chat.ClientLaws
import ENetChat.Lib.Channel
import ENetChat.Lib.Transition

/-!
# Sessions

One application that hosts, applications that join, and ENet between them. A
step is a line typed somewhere, an event that ENet hands to a handler, a
connection that begins or breaks, or a packet that ENet drops. The host's
`/exit` is no step: a session lasts as long as its host.

A connection has a peer slot of the host from its beginning until the host has
handled its DISCONNECT. What a handler has queued when it stops is not sent:
ENet sends at its next service.
-/

namespace ENetChat

open Channel

-- ---------------------------------------------------------------------------
-- Connections
-- ---------------------------------------------------------------------------

/-- A client and its connection, and for the record: what the client was asked
to say and what its window has shown, both since its Ack, and how long the
host's log was when the host sent it. -/
structure Conn where
  slot : Fin maxConnections
  address : Address
  nickname : Nickname
  client : ChatApp
  halt : Option Halt := none
  link : Link := .pending
  toHost : List (Wire ENetPacket) := [.opened]
  toClient : List (Wire ENetPacket) := [.opened]
  acked : Bool := false
  mark : Nat := 0
  typed : List Bytes := []
  echoed : List Bytes := []            -- as the client's own
  shown : List (Bytes × Bytes) := []   -- as others', with their names
  deriving DecidableEq

def isAck : Option Package → Bool
  | some (.usernameAck _) => true
  | _ => false

/-- The host that a client sees, at 127.0.0.1: the only peer of its own. -/
def hostPeer : ENetPeer := .ofSlot 0 { host := 0x0100007F, port := 7777 }

namespace Conn

/-- The peer that the host sees. -/
def peer (c : Conn) : ENetPeer := .ofSlot c.slot c.address

def userId (c : Conn) : UserId := toUserID c.peer.incomingPeerID

/-- The client is in `ChatState_Client`, and has not come to grief. -/
def Running (c : Conn) : Prop := c.halt = none ∧ c.client.mState = .to .chatStateClient

instance (c : Conn) : Decidable c.Running := inferInstanceAs (Decidable (_ ∧ _))

/-- A packet of the host's, if the connection stands. -/
def hear (packet : ENetPacket) (c : Conn) : Conn :=
  { c with toClient := c.link.deliver c.toClient packet }

/-- What a handler of the client's does outside. -/
def effect (c : Conn) : Effect → Conn
  | .window (.printFrom name text isLocal) =>
    if isLocal then { c with echoed := c.echoed ++ [text] }
    else { c with shown := c.shown ++ [(name, text)] }
  | .enet (.peerSend _ data flags) | .enet (.hostBroadcast data flags) =>
    match ENetPacket.create? data flags with
    | some packet => { c with toHost := c.link.send c.toHost packet }
    | none => c
  | _ => c

def run (u : Unspecified) (event : AppEvent) (c : Conn) : Conn :=
  match c.client.exec (handle u event) with
  | .ok _ w => w.out.foldl effect { c with client := w.app }
  | .error h w => { c with client := w.app, halt := some h }

/-- The record starts again with the Ack. -/
def noteAck (ack : Bool) (c : Conn) : Conn :=
  if ack then { c with acked := true, typed := [], echoed := [], shown := [] } else c

/-- The client's next event. -/
def take (u : Unspecified) (c : Conn) : Wire ENetPacket → Conn
  | .opened => c.run u (.network (.connect hostPeer))
  | .item packet => (c.run u (.network (.receive hostPeer packet))).noteAck (isAck packet.package?)
  | .closed => c.run u (.network (.disconnect hostPeer))

/-- A line that a client sends. -/
def typeLine (u : Unspecified) (line : InputLine) (c : Conn) : Conn :=
  run u (.input line) (if line.text = [] ∨ line.text = exitCommand then c
    else { c with typed := c.typed ++ [line.text] })

end Conn

-- ---------------------------------------------------------------------------
-- Sessions
-- ---------------------------------------------------------------------------

structure Session where
  host : ChatApp
  halt : Option Halt := none
  conns : List Conn := []
  log : List (Option Nat × Bytes × Bytes) := []  -- the host's window: from whom, a name, a text
  deriving DecidableEq

inductive Label where
  | join (u : Unspecified) (localZero : Bool) (slot : Fin maxConnections) (address : Address)
      (nickname : Nickname)
  | hostInput (u : Unspecified) (line : InputLine)
  | hostEvent (u : Unspecified) (i : Nat)
  | clientInput (u : Unspecified) (i : Nat) (line : InputLine)
  | clientEvent (u : Unspecified) (i : Nat)
  | hangup (i : Nat) (toHost toClient : Nat)  -- how much still comes through
  | dropToHost (i n : Nat)
  | dropToClient (i n : Nat)

/-- ENet may drop the packets that are not sent as reliable. -/
def droppable : Wire ENetPacket → Bool
  | .item packet => packet.flags &&& packetFlagReliable == 0
  | _ => false

namespace Session

def put (s : Session) (i : Nat) (c : Conn) : Session := { s with conns := s.conns.set i c }

/-- The connection that has the slot gets the packet. -/
def sendTo (s : Session) (peer : ENetPeer) (packet : ENetPacket) (c : Conn) : Conn :=
  if c.link ≠ .gone ∧ c.peer.incomingPeerID = peer.incomingPeerID then
    { c.hear packet with mark := if isAck packet.package? then s.log.length else c.mark }
  else c

/-- What a handler of the host's does outside, about connection `source`. -/
def effect (source : Option Nat) (s : Session) : Effect → Session
  | .window (.printFrom name text _) => { s with log := s.log ++ [(source, name, text)] }
  | .enet (.hostBroadcast data flags) =>
    match ENetPacket.create? data flags with
    | some packet => { s with conns := s.conns.map (Conn.hear packet) }
    | none => s
  | .enet (.peerSend peer data flags) =>
    match ENetPacket.create? data flags with
    | some packet => { s with conns := s.conns.map (s.sendTo peer packet) }
    | none => s
  | _ => s

def run (u : Unspecified) (source : Option Nat) (event : AppEvent) (s : Session) : Session :=
  match s.host.exec (handle u event) with
  | .ok _ w => w.out.foldl (effect source) { s with host := w.app }
  | .error h w => { s with host := w.app, halt := some h }

/-- The host's next event of a connection. -/
def take (u : Unspecified) (s : Session) (i : Nat) (c : Conn) : Wire ENetPacket → Session
  | .opened =>
    (s.put i { c with link := c.link.opened }).run u (some i) (.network (.connect c.peer))
  | .item packet => (s.put i c).run u (some i) (.network (.receive c.peer packet))
  | .closed => (s.put i { c with link := .gone }).run u (some i) (.network (.disconnect c.peer))

def step (s : Session) : Label → Option Session
  | .join u localZero slot address nickname =>
    if ∃ c ∈ s.conns, c.slot = slot ∧ c.link ≠ .gone then none
    else (startClient u localZero nickname).map fun client =>
      { s with conns := s.conns ++ [{ slot, address, nickname, client }] }
  | .hostInput u line =>
    if s.halt = none ∧ line.text ≠ exitCommand then some (s.run u none (.input line)) else none
  | .hostEvent u i => do
    guard (s.halt = none)
    let c ← s.conns[i]?
    let w ← c.toHost.head?
    return s.take u i { c with toHost := c.toHost.tail } w
  | .clientInput u i line => do
    let c ← s.conns[i]?
    guard (c.halt = none)
    return s.put i (c.typeLine u line)
  | .clientEvent u i => do
    let c ← s.conns[i]?
    guard (c.halt = none)
    let w ← c.toClient.head?
    return s.put i (Conn.take u { c with toClient := c.toClient.tail } w)
  | .hangup i toHost toClient => do
    let c ← s.conns[i]?
    guard c.link.live
    return s.put i { c with
      link := .down, toHost := cut toHost c.toHost, toClient := cut toClient c.toClient }
  | .dropToHost i n => do
    let c ← s.conns[i]?
    let w ← c.toHost[n]?
    guard (droppable w)
    return s.put i { c with toHost := c.toHost.eraseIdx n }
  | .dropToClient i n => do
    let c ← s.conns[i]?
    let w ← c.toClient[n]?
    guard (droppable w)
    return s.put i { c with toClient := c.toClient.eraseIdx n }

/-- The session of a host that has just begun. -/
def Starts (nickname : Nickname) (s : Session) : Prop :=
  ∃ u localZero host, startHost u localZero nickname = some host ∧ s = { host }

def system (nickname : Nickname) : Transition.System Session Label where
  init := Starts nickname
  step s l s' := s.step l = some s'

end Session

-- ---------------------------------------------------------------------------
-- Assumptions
-- ---------------------------------------------------------------------------

/-- The labels of channels that lose nothing while they stand. -/
def Label.lossless : Label → Bool
  | dropToHost .. | dropToClient .. => false
  | _ => true

def announces (id : UserId) : Option Package → Bool
  | some (.addUser pckt) => pckt.user.userId == id
  | _ => false

def isUsername : Option Package → Bool
  | some (.username _) => true
  | _ => false

def Channel.Wire.package? (w : Wire ENetPacket) : Option Package := w.item?.bind ENetPacket.package?

/-- The client has a user, or its STATE_ADD_USER is under way to it. -/
def Conn.told (c : Conn) (id : UserId) : Bool :=
  c.client.mUsers.contains id || c.toClient.any fun w => announces id w.package?

namespace Session

/-- The user that the host would broadcast a MESSAGE or STATE_REM_USER about. -/
def about? (s : Session) : Label → Option UserId
  | .hostInput _ line => if line.text = [] then none else some 0
  | .hostEvent _ i => s.conns[i]?.bind fun c =>
    match c.toHost.head? with
    | some (.item packet) => packet.package?.bind Package.about?
    | some .closed => if s.host.mUsers.contains c.userId then some c.userId else none
    | _ => none
  | _ => none

/-- Every client that the host has seen connect but not registered is told of
a user. -/
def Informed (s : Session) (id : UserId) : Prop :=
  ∀ c ∈ s.conns, c.link = .up → c.Running → s.host.mUsers.contains c.userId = false →
    c.told id = true

instance (s : Session) (id : UserId) : Decidable (s.Informed id) :=
  inferInstanceAs (Decidable (∀ c ∈ s.conns, c.link = .up → c.Running → _ = false → _ = true))

/-- A broadcast about a user comes when newcomers are told of it. -/
def Informs (s : Session) (l : Label) : Prop := ∀ id ∈ s.about? l, s.Informed id

instance (s : Session) (l : Label) : Decidable (s.Informs l) :=
  Option.decidableForallMem (s.about? l)

abbrev Orderly (s : Session) (l : Label) : Prop := l.lossless = true ∧ s.Informs l

/-- No USERNAME and no USERNAME_ACK of a client that is connected is dropped. -/
def Spares (s : Session) : Label → Prop
  | .dropToHost i n => ∀ c ∈ s.conns[i]?, c.link.live = true → c.Running →
    isUsername (c.toHost[n]?.bind Wire.package?) = false
  | .dropToClient i n => ∀ c ∈ s.conns[i]?, c.link.live = true → c.Running →
    isAck (c.toClient[n]?.bind Wire.package?) = false
  | _ => True

/-- Where a list of allowed labels takes a session. -/
def after (allowed : Session → Label → Prop) [∀ s l, Decidable (allowed s l)] (s : Session) :
    List Label → Option Session
  | [] => some s
  | l :: ls => if allowed s l then (s.step l).bind (·.after allowed ls) else none

end Session

end ENetChat

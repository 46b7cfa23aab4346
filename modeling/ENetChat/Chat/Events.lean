import ENetChat.Chat.States

/-!
# Input and network events

The rest of `ChatApp`: what its two threads run. `pollForInput` hands the
current state one line; `listen`, of `ENetWrapper`, handles one ENet event
through the callbacks. `handle` is one step of the program: a line or an
event, from whichever thread.
-/

namespace ENetChat

/-- `if (m_state) m_state->..`. -/
def withState (call : State → AppM Unit) : AppM Unit := do
  match ← loadState with
  | some state => call state
  | none => return ()

def connectionEvent (u : Unspecified) (e : NetworkTraffic) : AppM Unit :=
  withState (State.receiveConnectionEvent u e.peerId e.peerAddress)

def disconnectEvent (u : Unspecified) (e : NetworkTraffic) : AppM Unit :=
  withState (State.receiveDisconnectEvent u e.peerId e.peerAddress)

/-- What a `case` of `receiveEvent` does with its package. -/
def receivePackage (u : Unspecified) (e : NetworkTraffic) : Package → AppM Unit
  | .username pckt => do
    let user : UserInfo :=
      { userId := toUserID e.peerId, name := pckt.username, address := e.peerAddress }
    withState (State.receiveUsernameEvent u (some user) pckt)
  | .usernameAck pckt => withState (State.receiveUsernameAckEvent u pckt)
  | .addUser pckt => withState (State.receiveAddUserEvent u pckt.user pckt)
  | .removeUser pckt => do
    let user ← getUserInfoPtr pckt.userId
    withState (State.receiveRemoveUserEvent user pckt)
  | .message pckt => do
    let user ← getUserInfoPtr pckt.userId
    withState (State.receiveMessageEvent u user pckt)

def receiveEvent (u : Unspecified) (e : NetworkTraffic) : AppM Unit := do
  let s := ByteStream.ofBuf u e.packetData (UInt64.ofNat e.packetData.length)
  match (Package.read u).run s with
  | .ok (some pckt) _ => receivePackage u e pckt
  | .ok none _ => return ()
  | .error h _ => throw h

/-- The body of the loop of `ENetWrapper::listen`, once an event is there. -/
def listen (u : Unspecified) : ENetEvent → AppM Unit
  | .none => return ()
  | .connect peer => do
    modifyApp fun app => { app with
      mEnet := app.mEnet.map fun w =>
        { w with mPeers := w.mPeers.insert peer.incomingPeerID peer } }
    connectionEvent u (.ofPeer peer [])
  | .disconnect peer => do
    disconnectEvent u (.ofPeer peer [])
    modifyApp fun app => { app with
      mEnet := app.mEnet.map fun w => { w with mPeers := w.mPeers.erase peer.incomingPeerID } }
  | .receive peer packet => receiveEvent u (.ofPeer peer packet.data)

/-- What `checkInputBox` leaves in `char input[80]`: a C string. `mvwscanw` is
given no width, so a line of 80 characters or more is written past the end of
`input`; such lines are left out. -/
structure InputLine where
  text : Bytes
  fits : text.length < 80
  noNul : 0 ∉ text
  deriving DecidableEq, Repr

/-- The body of the loop of `pollForInput`, once a line is there. -/
def pollForInput (u : Unspecified) (input : InputLine) : AppM Unit := do
  if (← getApp).mQuit then
    return ()
  else
    match ← loadState with
    | some state => if 0 < input.text.length then state.handleInput u input.text else return ()
    | none => return ()

def run (u : Unspecified) : AppM Unit := do
  window .init
  goToState u .promptStateConn

/-- What can happen to a running application. -/
inductive AppEvent where
  | input (line : InputLine)
  | network (e : ENetEvent)
  deriving DecidableEq, Repr

/-- ENet has events for the application once it has created a host. -/
def handle (u : Unspecified) : AppEvent → AppM Unit
  | .input line => pollForInput u line
  | .network e => do
    if (← getApp).mEnet.isSome then listen u e else return ()

/-- Where a handler takes the application. -/
def ChatApp.exec (app : ChatApp) (m : AppM Unit) : EStateM.Result Halt World Unit :=
  m.run { app }

end ENetChat

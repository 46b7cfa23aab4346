import ENetChat.Chat.Delivery

/-!
# Every step of a host

Which events a host handles to their end, that it halts on the others before
it has done anything (`Hosting.exec_cases`), and what it passes to the network.
-/

namespace ENetChat

open Exec

variable {u : Unspecified} {nick : Bytes} {app : ChatApp} {w : ENetWrapper} {peer : ENetPeer}
  {packet : ENetPacket} {user : UserInfo} {data : Bytes}

-- ---------------------------------------------------------------------------
-- Completion
-- ---------------------------------------------------------------------------

theorem Hosting.exec_of_completes (h : Hosting nick app) (hw : app.mEnet = some w)
    (hc : Completes (handle u event) ⟨app, []⟩) : app.exec (handle u event) =
      .ok () ⟨(hostNext nick w app event).1, (hostNext nick w app event).2⟩ := by
  obtain ⟨⟨⟩, t, ht⟩ := hc
  have ht : app.exec (handle u event) = .ok () t := ht
  rw [ht, h.handle_ok hw ht]

theorem Hosting.exit_completes {line : InputLine} (h : Hosting nick app)
    (hi : line.text = exitCommand) : Completes (handle u (.input line)) ⟨app, []⟩ := by
  have hl : 0 < line.text.length := by rw [hi]; decide
  unfold Completes
  rw [handle_input_run h.state h.quit hl, State.handleInput, ChatStateHost.handleInput, if_pos hi]
  exact ⟨(), _, goToState_quit h.state⟩

theorem Hosting.input_completes {line : InputLine} (h : Hosting nick app)
    (hi : line.text ≠ exitCommand) : Completes (handle u (.input line)) ⟨app, []⟩ := by
  obtain ⟨w, hw⟩ := h.net
  by_cases hl : line.text = []
  · exact ⟨(), _, handle_input_skip h.state (.inr (by simp [hl]))⟩
  · unfold Completes
    rw [handle_input_run h.state h.quit (List.length_pos_iff.mpr hl)]
    exact ⟨(), _, h.handleInput_run hw hi line.fits⟩

theorem Hosting.connect_completes (h : Hosting nick app) :
    Completes (handle u (.network (.connect peer))) ⟨app, []⟩ := by
  obtain ⟨w, hw⟩ := h.net
  have h' := h.withNet (w := { w with mPeers := w.mPeers.insert peer.incomingPeerID peer })
  unfold Completes
  rw [handle_network_run hw]
  simp only [listen, EStateM.run_bind, modifyApp_run, hw, Option.map_some]
  exact ⟨(), _, h'.connectionEvent_run⟩

theorem Hosting.disconnect_completes (h : Hosting nick app) :
    Completes (handle u (.network (.disconnect peer))) ⟨app, []⟩ := by
  obtain ⟨w, hw⟩ := h.net
  unfold Completes
  rw [handle_network_run hw]
  simp only [listen, EStateM.run_bind]
  cases hu : app.mUsers.user? (toUserID peer.incomingPeerID) with
  | none =>
    rw [h.disconnectEvent_none (e := .ofPeer peer []) hu]
    exact ⟨(), _, rfl⟩
  | some user =>
    rw [h.disconnectEvent_some (e := .ofPeer peer []) hw peer.inHost hu]
    exact ⟨(), _, rfl⟩

theorem Hosting.receive_completes {pkg : Package} (h : Hosting nick app)
    (hp : packet.package? = some pkg) (ha : app.Accepts pkg) :
    Completes (handle u (.network (.receive peer packet))) ⟨app, []⟩ := by
  obtain ⟨w, hw⟩ := h.net
  have hd := package?_eq_some.mp hp
  have hsize := Nat.le_trans (decodes_length hd) packet.fits
  unfold Completes
  rw [handle_network_run hw, listen, receiveEvent_decodes packet.lt hd]
  exact (host_receive_completes h peer.inHost hsize).mpr ha

/-- A packet that is of no type is dropped, one that is not accepted halts the
host before it has done anything. -/
theorem Hosting.receive_cases (u : Unspecified) (peer : ENetPeer) (packet : ENetPacket)
    (h : Hosting nick app) :
    (Handleable app ⟨u, .network (.receive peer packet)⟩ ∧
      Completes (handle u (.network (.receive peer packet))) ⟨app, []⟩) ∨
    (¬ Handleable app ⟨u, .network (.receive peer packet)⟩ ∧
      ∃ halt, app.exec (handle u (.network (.receive peer packet))) = .error halt ⟨app, []⟩) := by
  obtain ⟨w, hw⟩ := h.net
  unfold ChatApp.exec Completes
  rw [handle_network_run hw, listen]
  obtain ⟨pkg, hd, heq⟩ | ⟨-, ht, heq⟩ | ⟨hwf, ht, ex, heq⟩ :=
    receiveEvent_cases u (e := .ofPeer peer packet.data) packet.lt
  · by_cases ha : app.Accepts pkg
    · have hsize := Nat.le_trans (decodes_length hd) packet.fits
      left
      refine ⟨?_, ?_⟩
      · rintro _ _ ⟨⟩ -
        exact .inr ⟨pkg, hd, ha⟩
      · rw [heq]
        exact (host_receive_completes h peer.inHost hsize).mpr ha
    · right
      refine ⟨fun hh => ?_, ?_⟩
      · obtain ht | ⟨pkg', hd', ha'⟩ := hh _ _ rfl (.inl h.state)
        · exact not_wellFormed_of_unknown ht ⟨pkg, hd⟩
        · obtain rfl := decodes_unique packet.lt hd hd'
          exact ha ha'
      · rw [heq]
        simp only [ChatApp.Accepts, h.state, if_true] at ha
        cases pkg with
        | message pckt =>
          have hu : app.mUsers.user? pckt.userId = none := by
            rw [← Option.not_isSome_iff_eq_none, ← UserMap.contains_eq]
            exact ha
          exact ⟨_, h.receive_message_null hu⟩
        | _ => exact absurd trivial ha
  · left
    refine ⟨?_, ?_⟩
    · rintro _ _ ⟨⟩ -
      exact .inl ht
    · rw [heq]
      exact ⟨(), _, rfl⟩
  · right
    refine ⟨fun hh => ?_, ?_⟩
    · obtain h0 | ⟨pkg, hd, -⟩ := hh _ _ rfl (.inl h.state)
      · exact ht h0
      · exact hwf ⟨pkg, hd⟩
    · rw [heq]
      exact ⟨_, rfl⟩

/-- Only a packet can halt a host. -/
theorem Hosting.completes (h : Hosting nick app)
    (hne : ∀ peer packet, event ≠ .network (.receive peer packet)) :
    Completes (handle u event) ⟨app, []⟩ := by
  cases event with
  | input line =>
    by_cases hi : line.text = exitCommand
    · exact h.exit_completes hi
    · exact h.input_completes hi
  | network ev =>
    cases ev with
    | none =>
      obtain ⟨w, hw⟩ := h.net
      exact ⟨(), _, handle_network_run hw⟩
    | connect peer => exact h.connect_completes
    | disconnect peer => exact h.disconnect_completes
    | receive peer packet => exact absurd rfl (hne peer packet)

theorem Hosting.exec_cases (h : Hosting nick app) (hw : app.mEnet = some w) (hap : Happening) :
    (Handleable app hap ∧ app.exec (handle hap.u hap.event) =
      .ok () ⟨(hostNext nick w app hap.event).1, (hostNext nick w app hap.event).2⟩) ∨
    (¬ Handleable app hap ∧
      ∃ halt, app.exec (handle hap.u hap.event) = .error halt ⟨app, []⟩) := by
  obtain ⟨u, event⟩ := hap
  by_cases hr : ∃ peer packet, event = .network (.receive peer packet)
  · obtain ⟨peer, packet, rfl⟩ := hr
    obtain ⟨hh, hc⟩ | hhalt := h.receive_cases u peer packet
    · exact .inl ⟨hh, h.exec_of_completes hw hc⟩
    · exact .inr hhalt
  · have hne : ∀ peer packet, event ≠ .network (.receive peer packet) :=
      fun peer packet he => hr ⟨peer, packet, he⟩
    refine .inl ⟨fun peer packet he => absurd he (hne peer packet), ?_⟩
    exact h.exec_of_completes hw (h.completes hne)

/-- What a USERNAME packet makes of a host. -/
theorem Hosting.username_step (u : Unspecified) (peer : ENetPeer) (h : Hosting nick app)
    (hw : app.mEnet = some w) (hp : packet.package? = some (.username pckt)) :
    let user := (NetworkTraffic.ofPeer peer packet.data).announces pckt.username
    app.exec (handle u (.network (.receive peer packet))) =
        .ok () ⟨app.insertUser user, welcome nick app w user⟩ ∧
      Hosting nick (app.insertUser user) ∧ user.name.length ≤ maximumPacketSize := by
  have hname := username_fits (package?_eq_some.mp hp)
  have hacc : app.Accepts (.username pckt) := by simp [ChatApp.Accepts, h.state]
  refine ⟨?_, h.insertUser (toUserID_le peer.inHost) hname, hname⟩
  rw [h.exec_of_completes hw (h.receive_completes hp hacc)]
  simp only [hostNext, hp, hostReceive]

/-- The members and what was done outside, at the end or at the halt. -/
def worldOf : EStateM.Result Halt World Unit → World
  | .ok _ w => w
  | .error _ w => w

-- ---------------------------------------------------------------------------
-- Sends and broadcasts
-- ---------------------------------------------------------------------------

/-- A payload and where it goes. -/
inductive Passed where
  | send (peerId : PeerId) (data : Bytes)
  | broadcast (data : Bytes)
  deriving DecidableEq, Repr

def Effect.passed? : Effect → Option Passed
  | .enet (.peerSend peer data _) => some (.send peer.incomingPeerID data)
  | .enet (.hostBroadcast data _) => some (.broadcast data)
  | _ => none

def passed (out : List Effect) : List Passed := out.filterMap Effect.passed?

theorem mem_passed_send (h : .enet (.peerSend peer data flags) ∈ out) :
    .send peer.incomingPeerID data ∈ passed out :=
  List.mem_filterMap.mpr ⟨_, h, rfl⟩

theorem mem_passed_broadcast : .broadcast data ∈ passed out ↔
    ∃ flags, .enet (.hostBroadcast data flags) ∈ out := by
  unfold passed
  rw [List.mem_filterMap]
  constructor
  · rintro ⟨effect, he, hp⟩
    cases effect with
    | window call => cases hp
    | enet call =>
      cases call with
      | hostBroadcast data' flags => cases hp; exact ⟨flags, he⟩
      | _ => cases hp
  · rintro ⟨flags, h⟩
    exact ⟨_, h, rfl⟩

@[simp] theorem passed_append : passed (out ++ out') = passed out ++ passed out' :=
  List.filterMap_append

@[simp] theorem passed_nil : passed [] = [] := rfl

@[simp] theorem passed_window : passed (.window call :: out) = passed out := rfl

@[simp] theorem passed_broadcast :
    passed (.enet (.hostBroadcast data flags) :: out) = .broadcast data :: passed out := rfl

@[simp] theorem passed_listCalls : passed (listCalls me users) = [] := by
  simp [passed, listCalls, listCall, Effect.passed?]

@[simp] theorem passed_relay :
    passed (relay name l pkg) = [.broadcast (Package.message pkg).layout] := rfl

@[simp] theorem passed_farewell : passed (farewell nick app user) =
    [.broadcast (Package.removeUser { userId := user.userId }).layout] := by
  simp [farewell]

@[simp] theorem passed_quitEffects : passed (quitEffects app) = [] := by
  unfold quitEffects
  split <;> rfl

theorem passed_welcome : passed (welcome nick app w user) =
    passed ((w.send (toPeerID user.userId)
      (Package.usernameAck (.ofMap user.userId (app.insertUser user).mUsers)).layout).map .enet) ++
    [.broadcast (Package.addUser { user }).layout] := by
  simp [welcome]

theorem passed_sent : passed ((w.send p data).map .enet) =
    (w.mPeers[p]?.map fun peer => Passed.send peer.incomingPeerID data).toList := by
  unfold ENetWrapper.send ENetWrapper.getPeerPtr
  cases w.mPeers[p]? <;> rfl

end ENetChat

import ENetChat.Chat.RunLaws

/-!
# Packets that arrive

A package that is serialised and received reaches its own `case` as it was
(`serialize_receive`). A payload that is not a package of a known type makes
its decoder throw, which nothing catches: `receive_harmless_iff` says which
payloads a host or a client survives.
-/

namespace ENetChat

open Exec ByteStream

variable {u : Unspecified} {app : ChatApp} {z : Bool} {nick : Bytes} {e : NetworkTraffic}
  {pkg : Package} {out : List Effect}

/-- The journey of a package: into a fresh stream, out of its buffer, and to
the handler of its type, with no byte left over. -/
theorem serialize_receive (pkg : Package) (htag : pkg.Tagged) (hsize : pkg.layout.length < 2 ^ 31)
    (u u' : Unspecified) (peerId : PeerId) (peerAddress : Address) :
    ∃ s, (pkg.serialize u).run (ofCap u 0) = .ok () s ∧
      let e : NetworkTraffic := { peerId, peerAddress, packetData := s.getBuf u }
      PacketType.ofValue ((payloadStream u' e.packetData).peekInt8 u') = some pkg.type ∧
      (∃ s', (Package.read u').run (payloadStream u' e.packetData) = .ok (some pkg.received) s' ∧
        s'.atEnd = true) ∧
      receiveEvent u' e = receivePackage u' e pkg.received := by
  obtain ⟨s, hs, hbuf⟩ := serialize_fresh u u 0 hsize
  have hlt : pkg.layout.length < 2 ^ 32 := by omega
  have hd := decodes_received htag
  refine ⟨s, hs, ?_⟩
  rw [hbuf]
  refine ⟨?_, ⟨_, read_decodes hlt hd, ?_⟩, receiveEvent_decodes hlt hd⟩
  · have hpeek : typeByte u' pkg.layout = pkg.packetType := by
      simpa using typeByte_layout (u := u') pkg []
    rw [peekInt8_payload hlt, hpeek, htag, ofValue_value]
  · have hv : (payloadStream u' pkg.layout).Valid := ofBuf_valid hlt
    have hrest : (payloadStream u' pkg.layout).rest = pkg.layout := ofBuf_rest hlt
    have hle : pkg.layout.length ≤ (payloadStream u' pkg.layout).rest.length := by simp [hrest]
    rw [layout_received, (hv.advance hle).atEnd_iff, hv.rest_advance hle, hrest, List.drop_length]

theorem serialize_receive_ack :
    let pkg : Package := .usernameAck
      { assignedUserId := 1, users := [{ userId := 0, name := ascii "Ann" },
        { userId := 1, name := ascii "Bob", address := { host := 0x0100007F, port := 7777 } }] }
    ∃ s, (pkg.serialize default).run (ofCap default 0) = .ok () s ∧
      let e : NetworkTraffic :=
        { peerId := 0, peerAddress := {}, packetData := s.getBuf default }
      PacketType.ofValue ((payloadStream default e.packetData).peekInt8 default) =
        some .usernameAck ∧
      (∃ s', (Package.read default).run (payloadStream default e.packetData) =
          .ok (some pkg.received) s' ∧ s'.atEnd = true) ∧
      receiveEvent default e = receivePackage default e pkg.received :=
  serialize_receive _ (by decide) (by decide) default default 0 {}

-- ---------------------------------------------------------------------------
-- Any payload
-- ---------------------------------------------------------------------------

def ChatApp.InSession (app : ChatApp) : Prop :=
  app.mState = .to .chatStateHost ∨ app.mState = .to .chatStateClient

/-- A RECEIVE event in a session is handled to its end, and one without a
package leaves the members alone and sends nothing. -/
def Harmless (app : ChatApp) (h : Happening) : Prop :=
  ∀ peer packet, h.event = .network (.receive peer packet) → app.InSession →
    ∃ w, app.exec (listen h.u (.receive peer packet)) = .ok () w ∧
      (¬ WellFormed packet.data → w.app.mUsers = app.mUsers ∧
        w.app.mLocaluserPtr = app.mLocaluserPtr ∧ w.app.mState = app.mState ∧
        ∀ call, .enet call ∉ w.out)

/-- The packages that a host or a client has the users for: a MESSAGE and a
STATE_REM_USER need their own, and a client that draws its list needs a local
pointer that can be read. -/
def ChatApp.Accepts (app : ChatApp) (pkg : Package) : Prop :=
  if app.mState = .to .chatStateHost then
    match pkg with
    | .message p => app.mUsers.contains p.userId = true
    | _ => True
  else
    match pkg with
    | .username _ => True
    | .usernameAck p =>
      app.local? ≠ none ∨ ∀ user, p.users.head? = some user → user.userId = p.assignedUserId
    | .addUser p => app.mUsers.contains p.user.userId = true ∨ app.local? ≠ none
    | .removeUser p => app.mUsers.contains p.userId = true ∧
      ((app.local? ≠ none ∧ app.pointsTo p.userId = false) ∨
        ∀ id, id ≠ p.userId → app.mUsers.user? id = none)
    | .message p => app.mUsers.contains p.userId = true ∧ app.local? ≠ none

/-- The payload is of no type, or a package that is accepted. -/
def Handleable (app : ChatApp) (h : Happening) : Prop :=
  ∀ peer packet, h.event = .network (.receive peer packet) → app.InSession →
    PacketType.ofValue (typeByte h.u packet.data) = none ∨
      ∃ pkg, Package.Decodes packet.data pkg ∧ app.Accepts pkg

theorem host_receive_completes (h : Hosting nick app) (hp : e.peerId.toNat < maxConnections)
    (hsize : pkg.layout.length ≤ maximumPacketSize) :
    Completes (receivePackage u e pkg) ⟨app, out⟩ ↔ app.Accepts pkg := by
  obtain ⟨net, hw⟩ := h.net
  simp only [ChatApp.Accepts, h.state, if_true]
  cases pkg with
  | username pckt =>
    rw [length_username] at hsize
    have hrun := h.receive_username (u := u) out hw hp
      (Nat.le_trans (Nat.le_add_left _ _) hsize)
    simp [Completes, hrun]
  | message pckt =>
    rw [length_message] at hsize
    show _ ↔ app.mUsers.contains pckt.userId = true
    rw [UserMap.contains_eq]
    cases hu : app.mUsers.user? pckt.userId with
    | none => simp [Completes, h.receive_message_null hu]
    | some user =>
      have hrun := h.receive_message (u := u) (e := e) out hw hu
        (Nat.le_trans (Nat.le_add_left _ _) hsize)
      simp [Completes, hrun]
  | _ =>
    refine iff_of_true ⟨(), _, h.receive_other ?_ ?_⟩ trivial <;> simp [Package.type]

theorem client_receive_completes (h : app.Tidy) (hs : app.mState = .to .chatStateClient) :
    Completes (receivePackage u e pkg) ⟨app, out⟩ ↔ app.Accepts pkg := by
  have hne : ¬ app.mState = .to .chatStateHost := by simp [hs]
  simp only [ChatApp.Accepts, hne, if_false]
  cases pkg with
  | username p => simp [Completes, client_username_run hs]
  | usernameAck p => exact client_ack_completes hs h
  | addUser p => exact client_add_completes hs h
  | removeUser p => exact client_remove_completes hs h
  | message p => exact client_message_completes hs

/-- A package is handled to its end exactly when it is accepted. -/
theorem session_receive_completes (out : List Effect) (h : Reachable z app) (hs : app.InSession)
    (hp : e.peerId.toNat < maxConnections) (hsize : pkg.layout.length ≤ maximumPacketSize) :
    Completes (receivePackage u e pkg) ⟨app, out⟩ ↔ app.Accepts pkg := by
  obtain hs | hs := hs
  · obtain ⟨nick, hh⟩ := h.hosting hs
    exact host_receive_completes hh hp hsize
  · exact client_receive_completes (h.tidy hs) hs

theorem harmless_iff (h : Reachable z app) (hap : Happening) :
    Harmless app hap ↔ Handleable app hap := by
  refine forall_congr' fun peer => forall_congr' fun packet => forall_congr' fun _ =>
    forall_congr' fun hs => ?_
  show (∃ w, (receiveEvent hap.u (.ofPeer peer packet.data)).run ⟨app, []⟩ = .ok () w ∧ _) ↔ _
  obtain ⟨pkg, hd, heq⟩ | ⟨hw, ht, heq⟩ | ⟨hw, ht, ex, heq⟩ :=
    receiveEvent_cases hap.u (e := .ofPeer peer packet.data) packet.lt
  · have hsize := Nat.le_trans (decodes_length hd) packet.fits
    have hiff := session_receive_completes (u := hap.u)
      (e := .ofPeer peer packet.data) [] h hs peer.inHost hsize
    rw [heq]
    constructor
    · rintro ⟨w, hrun, -⟩
      exact .inr ⟨pkg, hd, hiff.mp ⟨(), w, hrun⟩⟩
    · rintro (ht | ⟨pkg', hd', hacc⟩)
      · exact absurd ⟨pkg, hd⟩ (not_wellFormed_of_unknown ht)
      · obtain rfl := decodes_unique packet.lt hd hd'
        obtain ⟨⟨⟩, w, hrun⟩ := hiff.mpr hacc
        exact ⟨w, hrun, fun hnw => absurd ⟨pkg, hd⟩ hnw⟩
  · rw [heq]
    exact ⟨fun _ => .inl ht, fun _ => ⟨_, rfl, fun _ => ⟨rfl, rfl, rfl, by simp⟩⟩⟩
  · rw [heq]
    constructor
    · rintro ⟨w, hrun, -⟩
      cases hrun
    · rintro (h0 | ⟨pkg, hd, -⟩)
      · exact absurd h0 ht
      · exact absurd ⟨pkg, hd⟩ hw

/-- From any reachable state, a run meets only payloads that do no harm
exactly when they are all of no type or accepted. -/
theorem receive_harmless_iff (h : Reachable z app) (hs : List Happening) :
    app.Along Harmless hs ↔ app.Along Handleable hs :=
  Reachable.along_congr (fun h => harmless_iff h) h

/-- A peer of a host that starts sends it a USERNAME without a name. -/
def truncatedUsername : Happening where
  u := default
  event := .network (.receive (.ofSlot 0) ⟨[0], 0, by decide⟩)

theorem receive_harmless_started : ∃ app, startHost default true ann = some app ∧
    (app.Along Harmless [truncatedUsername] ↔ app.Along Handleable [truncatedUsername]) := by
  obtain ⟨app, happ, -⟩ := startHost_opened default true ann
  exact ⟨app, happ, receive_harmless_iff (reachable_started happ) _⟩

/-- It is gone with an exception. -/
theorem truncated_username_throws : ∃ app, startHost default true ann = some app ∧
    ¬ app.Along Harmless [truncatedUsername] := by
  obtain ⟨app, happ, hopen⟩ := startHost_opened default true ann
  refine ⟨app, happ, fun h => ?_⟩
  obtain ⟨w, hrun, -⟩ := h.1 _ _ rfl (.inl hopen.state)
  have hthrow : app.exec (listen default (.receive (.ofSlot 0) ⟨[0], 0, by decide⟩)) =
    .error (.threw .outOfRange) { app } := rfl
  cases hthrow.symm.trans hrun

-- ---------------------------------------------------------------------------
-- What a packet comes to
-- ---------------------------------------------------------------------------

/-- A payload that begins as a package and is none. -/
def Happening.garbled (x : Happening) : Bool :=
  match x.event with
  | .network (.receive _ packet) =>
    packet.package?.isNone && (PacketType.ofValue (typeByte x.u packet.data)).isSome
  | _ => false

section Receive

variable {net : ENetWrapper} {peer : ENetPeer} {packet : ENetPacket} {x : Happening}

/-- In any state its decoder throws. -/
theorem garbled_throws (hnet : app.mEnet = some net) (hx : x.garbled = true) :
    ∃ ex, app.exec (handle x.u x.event) = .error (.threw ex) ⟨app, []⟩ := by
  obtain ⟨u, event⟩ := x
  unfold Happening.garbled at hx
  split at hx
  · next peer packet he =>
    obtain ⟨hnone, ht⟩ : packet.package? = none ∧
        PacketType.ofValue (typeByte u packet.data) ≠ none := by
      simpa [Option.ne_none_iff_isSome] using hx
    simp only at he
    obtain ⟨ex, hex⟩ := receiveEvent_throws (u := u) (e := .ofPeer peer packet.data) packet.lt ht
      (package?_eq_none.mp hnone)
    refine ⟨ex, ?_⟩
    simp only [ChatApp.exec, he, handle_network_run hnet, listen, hex]
    rfl
  · cases hx

theorem receive_run {pkg : Package} (u : Unspecified) (peer : ENetPeer)
    (hnet : app.mEnet = some net) (hp : packet.package? = some pkg) :
    app.exec (handle u (.network (.receive peer packet))) =
      (receivePackage u (.ofPeer peer packet.data) pkg).run ⟨app, []⟩ := by
  unfold ChatApp.exec
  rw [handle_network_run hnet, listen, receiveEvent_decodes packet.lt (package?_eq_some.mp hp)]

theorem receive_nothing (hnet : app.mEnet = some net) (hp : packet.package? = none)
    (hx : Happening.garbled ⟨u, .network (.receive peer packet)⟩ = false) :
    app.exec (handle u (.network (.receive peer packet))) = .ok () ⟨app, []⟩ := by
  have ht : PacketType.ofValue (typeByte u packet.data) = none := by
    simpa [Happening.garbled, hp] using hx
  unfold ChatApp.exec
  rw [handle_network_run hnet, listen,
    receiveEvent_unknown (e := .ofPeer peer packet.data) packet.lt ht]
  rfl

/-- What is not garbled an application that has quit leaves alone. -/
theorem quit_completes (hs : app.mState = .to .quitState) (hnet : app.mEnet = some net)
    (hx : x.garbled = false) : ∃ net', app.exec (handle x.u x.event) =
      .ok () ⟨{ app with mEnet := some net' }, []⟩ := by
  have hcompletes : Completes (handle x.u x.event) ⟨app, []⟩ := by
    obtain ⟨u, event⟩ := x
    cases event with
    | input line =>
      by_cases hl : app.mQuit = false ∧ 0 < line.text.length
      · exact ⟨(), _, handle_input_run hs hl.1 hl.2⟩
      · refine ⟨(), _, handle_input_skip hs ?_⟩
        cases hq : app.mQuit <;> simp [hq] at hl ⊢
        exact hl
    | network ev =>
      unfold Completes
      simp only [handle_network_run hnet]
      cases ev with
      | none => exact ⟨(), _, rfl⟩
      | connect peer =>
        simp only [listen, EStateM.run_bind, modifyApp_run, connectionEvent]
        rw [withState_run (by exact hs)]
        exact ⟨(), _, rfl⟩
      | disconnect peer =>
        simp only [listen, EStateM.run_bind, disconnectEvent, withState_run hs]
        exact ⟨(), _, rfl⟩
      | receive peer packet =>
        rw [← handle_network_run hnet]
        cases hp : packet.package? with
        | none => exact ⟨(), _, receive_nothing hnet hp hx⟩
        | some pkg =>
          have hrun := receive_run u peer hnet hp
          unfold ChatApp.exec at hrun
          rw [hrun]
          exact ⟨(), _, quiet_receive_run hs (by simp) (by simp)⟩
  obtain ⟨⟨⟩, w, hw⟩ := hcompletes
  obtain ⟨hout, net', hsome, happ⟩ := (quit_run x.u x.event [] hs).ok hw
  have hsome' : net'.isSome = true := by
    rw [hsome]
    simp [hnet]
  obtain ⟨net', rfl⟩ := Option.isSome_iff_exists.mp hsome'
  refine ⟨net', hw.trans ?_⟩
  obtain ⟨wapp, wout⟩ := w
  simp only at hout happ
  rw [hout, happ]

end Receive

end ENetChat

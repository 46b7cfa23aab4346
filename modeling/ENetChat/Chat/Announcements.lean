import ENetChat.Chat.HostSteps

/-!
# Announcements

`ChatState_Host::receiveUsernameEvent` makes the Ack out of the table, where
an entry that is there stays, and the STATE_ADD_USER out of the packet.
`announcements_agree_iff`: the two tell one name exactly when a registered
peer says no other.
-/

namespace ENetChat

open Exec

variable {app : ChatApp} {z : Bool} {nick name : Bytes} {id : UserId} {w : ENetWrapper}
  {user : UserInfo} {data : Bytes} {ack : UsernameAckPackage}

/-- The name that a snapshot has for an id. -/
def UsernameAckPackage.name? (pkg : UsernameAckPackage) (id : UserId) : Option Bytes :=
  (pkg.users.find? (·.userId == id)).map (·.name)

/-- A client that has no entry `id` has it with this name after the package. -/
def Package.Teaches (pkg : Package) (id : UserId) (name : Bytes) : Prop :=
  ∀ u e out client t, client.mState = .to .chatStateClient → client.mUsers.user? id = none →
    (receivePackage u e pkg).run ⟨client, out⟩ = .ok () t → t.app.mUsers.name? id = some name

/-- Whom a handler has announced its table has under that name, and so has
every snapshot that it has sent; clients learn the same from both. -/
def World.Agrees (w : World) : Prop :=
  ∀ data flags pkg, .enet (.hostBroadcast data flags) ∈ w.out →
    Package.Decodes data (.addUser pkg) →
      let id := pkg.user.userId
      let name := pkg.user.name
      w.app.mUsers.name? id = some name ∧ (Package.addUser pkg).Teaches id name ∧
      ∀ peer data' flags' ack, .enet (.peerSend peer data' flags') ∈ w.out →
        Package.Decodes data' (.usernameAck ack) →
          ack.name? id = some name ∧ (Package.usernameAck ack).Teaches id name

def Agrees (app : ChatApp) (h : Happening) : Prop :=
  app.mState = .to .chatStateHost → (worldOf (app.exec (handle h.u h.event))).Agrees

/-- A registered peer sends no other name than the one in the table. -/
def SameName (app : ChatApp) (h : Happening) : Prop :=
  ∀ peer packet pckt, h.event = .network (.receive peer packet) →
    app.mState = .to .chatStateHost → Package.Decodes packet.data (.username pckt) →
      ∀ name, app.mUsers.name? (toUserID peer.incomingPeerID) = some name → pckt.username = name

-- ---------------------------------------------------------------------------
-- What a client learns
-- ---------------------------------------------------------------------------

theorem teaches_add (p : AddUserPackage) :
    (Package.addUser p).Teaches p.user.userId p.user.name := by
  intro u e out client t hs hnone hrun
  obtain ⟨effects, rfl, -⟩ := client_add_ok hs hrun
  have hnew : client.mUsers.contains p.user.userId = false := by
    rw [UserMap.contains_eq, hnone]
    rfl
  simp [hnew, name?_insertUser, UserMap.name?_eq_none hnone]

theorem teaches_ack {p : UsernameAckPackage} (h : p.name? id = some name) :
    (Package.usernameAck p).Teaches id name := by
  intro u e out client t hs hnone hrun
  obtain ⟨effects, rfl, -⟩ := client_ack_ok hs hrun
  show UserMap.name? _ id = _
  rw [name?_find, UserMap.name?_eq_none hnone, Option.none_or]
  exact h

-- ---------------------------------------------------------------------------
-- Snapshots
-- ---------------------------------------------------------------------------

/-- A snapshot has the names of the table it is made of. -/
theorem name?_snapshot (h : app.Tidy) (hd : Package.Decodes data (.usernameAck ack))
    (hdata : data = (Package.usernameAck (.ofMap id' app.mUsers)).layout)
    (hlt : data.length < 2 ^ 32) : ack.name? id = app.mUsers.name? id := by
  subst hdata
  have hd' := decodes_received (rfl : (Package.usernameAck (.ofMap id' app.mUsers)).Tagged)
  cases decodes_unique hlt hd hd'
  simp only [UsernameAckPackage.name?, UsernameAckPackage.ofMap, List.find?_map, Option.map_map,
    Function.comp_def, h.find_users, UserMap.name?]

-- ---------------------------------------------------------------------------
-- What a host announces
-- ---------------------------------------------------------------------------

/-- Only a USERNAME makes a host announce a user. -/
theorem hostNext_announces (hd : Package.Decodes data (.addUser p))
    (hb : .broadcast data ∈ passed (hostNext nick w app event).2) : ∃ peer packet pckt,
      event = .network (.receive peer packet) ∧ packet.package? = some (.username pckt) := by
  have hother {pkg : Package} (htag : pkg.Tagged) (hne : pkg.type ≠ .stateAddUser)
      (hb : Passed.broadcast data ∈ [Passed.broadcast pkg.layout]) : False := by
    simp only [List.mem_singleton, Passed.broadcast.injEq] at hb
    subst hb
    have htype := decodes_type (decodes_received htag) hd
    rw [type_received] at htype
    exact hne htype
  cases event with
  | input line =>
    simp only [hostNext] at hb
    split at hb
    · simp at hb
    split at hb
    · simp at hb
    · rw [passed_relay] at hb
      exact absurd hb (hother rfl (by simp [Package.type]))
  | network ev =>
    cases ev with
    | none => simp [hostNext] at hb
    | connect peer => simp [hostNext] at hb
    | disconnect peer =>
      cases hu : app.mUsers.user? (toUserID peer.incomingPeerID) with
      | none => simp [hostNext, hu] at hb
      | some user =>
        simp only [hostNext, hu, passed_farewell] at hb
        exact absurd hb (hother rfl (by simp [Package.type]))
    | receive peer packet =>
      simp only [hostNext] at hb
      cases hp : packet.package? with
      | none => simp [hp, hostReceive] at hb
      | some pkg =>
        cases pkg with
        | username pckt => exact ⟨peer, packet, pckt, rfl, hp⟩
        | message pckt =>
          have htag := (package?_eq_some.mp hp).1
          cases hu : app.mUsers.user? pckt.userId with
          | none => simp [hp, hostReceive, hu] at hb
          | some user =>
            simp only [hp, hostReceive, hu, passed_relay] at hb
            exact absurd hb (hother htag (by simp [Package.type]))
        | _ => simp [hp, hostReceive] at hb

theorem announcement_eq (hname : user.name.length ≤ maximumPacketSize)
    (hd : Package.Decodes (Package.addUser { user }).layout (.addUser p)) :
    p = { user := { user with address := {} } } := by
  have hlt : (Package.addUser { user }).layout.length < 2 ^ 32 := by
    rw [length_addUser]
    simp only [maximumPacketSize] at hname ⊢
    omega
  cases decodes_unique hlt hd (decodes_received (rfl : (Package.addUser { user }).Tagged))
  rfl

theorem mem_welcome_broadcast (h : .enet (.hostBroadcast data flags) ∈ welcome nick app w user) :
    data = (Package.addUser { user }).layout := by
  have hb := mem_passed_broadcast.mpr ⟨flags, h⟩
  rw [passed_welcome, passed_sent] at hb
  simpa using hb

theorem mem_welcome_send (h : .enet (.peerSend peer data flags) ∈ welcome nick app w user) :
    data = (Package.usernameAck (.ofMap user.userId (app.insertUser user).mUsers)).layout := by
  have hs := mem_passed_send h
  rw [passed_welcome, passed_sent] at hs
  obtain ⟨peer', -, heq⟩ := by simpa using hs
  exact heq.2.symm

/-- The table keeps the old name, if there is one, and the announcement has
the new. -/
theorem welcome_agrees (h : Hosting nick (app.insertUser user))
    (hname : user.name.length ≤ maximumPacketSize) :
    World.Agrees ⟨app.insertUser user, welcome nick app w user⟩ ↔
      ∀ name, app.mUsers.name? user.userId = some name → user.name = name := by
  have htable : (app.insertUser user).mUsers.name? user.userId =
      some ((app.mUsers.name? user.userId).getD user.name) := by
    rw [name?_insertUser]
    cases app.mUsers.name? user.userId <;> simp
  constructor
  · intro hagree name hn
    have hd := decodes_received (rfl : (Package.addUser { user }).Tagged)
    obtain ⟨hsaid, -⟩ := hagree _ 0 _ (by simp [welcome]) hd
    rw [htable, hn] at hsaid
    exact (Option.some.inj hsaid).symm
  · intro hsame data flags p hb hd
    obtain rfl := mem_welcome_broadcast hb
    obtain rfl := announcement_eq hname hd
    have hnow : (app.insertUser user).mUsers.name? user.userId = some user.name := by
      rw [htable]
      cases hn : app.mUsers.name? user.userId with
      | none => rfl
      | some name => rw [hsame name hn]; rfl
    refine ⟨hnow, teaches_add { user := { user with address := {} } }, ?_⟩
    intro peer data' flags' ack hs hd'
    obtain rfl := mem_welcome_send hs
    have hlt := Nat.lt_trans (h.ack_fits user.userId) (by decide : 2 ^ 31 < 2 ^ 32)
    have hack : ack.name? user.userId = some user.name := by
      rw [name?_snapshot h.tidy hd' rfl hlt, hnow]
    exact ⟨hack, teaches_ack hack⟩

theorem agrees_iff (h : Reachable z app) (hap : Happening) :
    Agrees app hap ↔ SameName app hap := by
  obtain ⟨u, event⟩ := hap
  by_cases hs : app.mState = .to .chatStateHost
  · obtain ⟨nick, hh⟩ := h.hosting hs
    obtain ⟨w, hw⟩ := hh.net
    by_cases hu : ∃ peer packet pckt,
        event = .network (.receive peer packet) ∧ packet.package? = some (.username pckt)
    · obtain ⟨peer, packet, pckt, rfl, hp⟩ := hu
      have hd := package?_eq_some.mp hp
      obtain ⟨hexec, hh', hname⟩ := hh.username_step u peer hw hp
      have hiff := welcome_agrees (w := w) hh' hname
      unfold Agrees
      rw [hexec]
      constructor
      · rintro hagree _ _ pckt' ⟨⟩ - hd'
        cases decodes_unique packet.lt hd hd'
        exact hiff.mp (hagree hs)
      · intro hsame _
        exact hiff.mpr (hsame peer packet pckt rfl hs hd)
    · -- any other event: no announcement, and no name to compare
      refine iff_of_true (fun _ data flags p hb hd => ?_) fun peer packet pckt hev _ hd => ?_
      · obtain ⟨-, hexec⟩ | ⟨-, halt, hexec⟩ := hh.exec_cases hw ⟨u, event⟩
        · rw [hexec] at hb
          exact absurd (hostNext_announces hd (mem_passed_broadcast.mpr ⟨flags, hb⟩)) hu
        · rw [hexec] at hb
          simp [worldOf] at hb
      · exact absurd ⟨peer, packet, pckt, hev, package?_eq_some.mpr hd⟩ hu
  · exact iff_of_true (fun hs' => absurd hs' hs) fun _ _ _ _ hs' => absurd hs' hs

/-- A host's announcements agree with its table, all along a run, exactly when
no registered peer says a second name. -/
theorem announcements_agree_iff (h : Reachable z app) (hs : List Happening) :
    app.Along Agrees hs ↔ app.Along SameName hs :=
  Reachable.along_congr (fun h => agrees_iff h) h

/-- The peer in slot 0 says that it is Cid. -/
def cidPacket : ENetPacket := ⟨[0, 3, 0, 0, 0, 0, 0, 0, 0, 67, 105, 100], 0, by decide⟩

def evePacket : ENetPacket := ⟨[0, 3, 0, 0, 0, 0, 0, 0, 0, 69, 118, 101], 0, by decide⟩

def secondName : List Happening :=
  [cidPacket, evePacket].map fun packet => ⟨default, .network (.receive (.ofSlot 0) packet)⟩

theorem announcements_agree_started : ∃ app, startHost default true ann = some app ∧
    (app.Along Agrees secondName ↔ app.Along SameName secondName) := by
  obtain ⟨app, happ, -⟩ := startHost_opened default true ann
  exact ⟨app, happ, announcements_agree_iff (reachable_started happ) _⟩

theorem cidPacket_decodes : cidPacket.package? = some (.username { username := ascii "Cid" }) :=
  package?_eq_some.mpr ⟨by decide, by decide, [], by decide, by decide⟩

theorem evePacket_decodes :
    Package.Decodes evePacket.data (.username { username := ascii "Eve" }) :=
  ⟨by decide, by decide, [], by decide, by decide⟩

/-- The host announces Eve, and its table has Cid. -/
theorem second_name_announced : ∃ app, startHost default true ann = some app ∧
    ¬ app.Along Agrees secondName := by
  obtain ⟨app, happ, hopen⟩ := startHost_opened default true ann
  refine ⟨app, happ, fun h => ?_⟩
  obtain ⟨w, hw⟩ := hopen.net
  obtain ⟨hexec, hh, -⟩ := hopen.username_step default (.ofSlot 0) hw cidPacket_decodes
  have hreach := (reachable_started happ).step hexec
  have hsame := (agrees_iff hreach _).mp (h.2 _ hexec).1 _ evePacket _ rfl hh.state
    evePacket_decodes (ascii "Cid")
  have hnew : app.mUsers.name? (toUserID (ENetPeer.ofSlot 0).incomingPeerID) = none :=
    UserMap.name?_eq_none (hopen.user?_none (by decide))
  rw [name?_insertUser, hnew] at hsame
  exact absurd (hsame rfl) (by decide)

end ENetChat

import ENetChat.Chat.Addresses
import ENetChat.Chat.HostTable
import Mathlib.Data.List.Sort

/-!
# What a host is for

An inn has a room for each peer slot and a book of who is in. To whoever gives
a name it lists those in the book, itself first and the others by their rooms;
it tells all about them, and passes on what is said under the name that the
book has. `Inn` says so of packages and rooms, and where it cannot go on: at
a payload that begins as a package and is none, and at a message under the id
of nobody in the book. Whatever reaches it, a host is such an inn, effect by
effect (`host_is_inn`).
-/

namespace ENetChat

open Exec Transition

-- ---------------------------------------------------------------------------
-- Inns
-- ---------------------------------------------------------------------------

structure BookEntry where
  name : Bytes
  address : Address
  deriving DecidableEq, Repr

structure Inn where
  nickname : Bytes
  peers : Fin maxConnections → Option ENetPeer := fun _ => none
  book : Fin maxConnections → Option BookEntry := fun _ => none
  shut : Bool := false

/-- The room of a peer. -/
def ENetPeer.slot (peer : ENetPeer) : Fin maxConnections :=
  ⟨peer.incomingPeerID.toNat, peer.inHost⟩

/-- The id of who is in a room; 0 is the inn's own. -/
def roomId (slot : Fin maxConnections) : UserId := UInt16.ofNat (slot + 1)

def BookEntry.user (slot : Fin maxConnections) (entry : BookEntry) : UserInfo :=
  { userId := roomId slot, name := entry.name, address := entry.address }

namespace Inn

/-- What is shown and sent, and the inn that goes on, if it can. -/
abbrev Answer := List Effect × Option Inn

/-- Those in the rooms. -/
def guests (inn : Inn) : List UserInfo :=
  (List.finRange maxConnections).filterMap fun slot => (inn.book slot).map (BookEntry.user slot)

def users (inn : Inn) : List UserInfo := hostUser inn.nickname :: inn.guests

/-- The list on the window. -/
def lists (inn : Inn) : List Effect := listCalls (some (hostUser inn.nickname)) inn.users

/-- A room keeps the first name that is given for it. -/
def books (slot : Fin maxConnections) (entry : BookEntry) (inn : Inn) : Inn :=
  { inn with book := Function.update inn.book slot ((inn.book slot).or (some entry)) }

def meets (peer : ENetPeer) (inn : Inn) : Inn :=
  { inn with peers := Function.update inn.peers peer.slot (some peer) }

/-- The room is free. -/
def frees (slot : Fin maxConnections) (inn : Inn) : Inn :=
  { inn with
    peers := Function.update inn.peers slot none
    book := Function.update inn.book slot none }

def writes (inn : Inn) (slot : Fin maxConnections) (pkg : Package) : List Effect :=
  match inn.peers slot with
  | some peer => [.enet (.peerSend peer pkg.layout 0)]
  | none => []

def tells (pkg : Package) : Effect := .enet (.hostBroadcast pkg.layout 0)

/-- A name is given. The newcomer is announced under it, even if it is not the
first that is given for the room. -/
def greets (slot : Fin maxConnections) (entry : BookEntry) (inn : Inn) : Answer :=
  let user := entry.user slot
  let inn := inn.books slot entry
  (inn.lists ++ [.window (.log (user.name ++ ascii " connected [" ++ user.address.str ++
      ascii "]"))] ++
    inn.writes slot (.usernameAck { assignedUserId := user.userId, users := inn.users }) ++
    [tells (.addUser { user })], some inn)

/-- A peer has gone. -/
def misses (slot : Fin maxConnections) (inn : Inn) : Answer :=
  let left := inn.frees slot
  match inn.book slot with
  | some entry =>
    ([.window (.log (entry.name ++ ascii " disconnected [" ++ entry.address.str ++ ascii "]")),
      tells (.removeUser { userId := roomId slot })] ++ left.lists, some left)
  | none => ([.window (.error (ascii "Disconnect from user not found in records"))], some left)

/-- A message is passed on as it is, whoever sent it. -/
def passes (pckt : MessagePackage) (inn : Inn) : Answer :=
  match inn.users.find? (·.userId == pckt.userId) with
  | some user => (relay user.name false pckt, some inn)
  | none => ([], none)

def hears (peer : ENetPeer) (inn : Inn) : Package → Answer
  | .username pckt => inn.greets peer.slot { name := pckt.username, address := peer.address }
  | .message pckt => inn.passes pckt
  | _ => ([], some inn)

/-- A line of its own. -/
def types (text : Bytes) (inn : Inn) : Answer :=
  if text = [] then ([], some inn)
  else if text = exitCommand then
    ([.window .clearAll, .enet .disconnectAll,
      .window (.print (ascii "Press Enter to close window..."))], some { inn with shut := true })
  else (relay inn.nickname true { userId := 0, message := text }, some inn)

/-- Once it is shut, nothing but a payload that is no package makes a difference. -/
def answer (inn : Inn) (x : Happening) : Answer :=
  if x.garbled then ([], none)
  else if inn.shut then ([], some inn)
  else match x.event with
    | .input line => inn.types line.text
    | .network .none => ([], some inn)
    | .network (.connect peer) => ([], some (inn.meets peer))
    | .network (.disconnect peer) => inn.misses peer.slot
    | .network (.receive peer packet) => packet.package?.elim ([], some inn) (inn.hears peer)

def shown (inn : Inn) (x : Happening) : List Effect := (inn.answer x).1

def next (inn : Inn) (x : Happening) : Option Inn := (inn.answer x).2

/-- Nobody is there yet. -/
def opens (nickname : Bytes) : Inn := { nickname }

end Inn

-- ---------------------------------------------------------------------------
-- A host as an inn
-- ---------------------------------------------------------------------------

/-- All that a handler does outside, to its end or to its halt. -/
def ChatApp.did (app : ChatApp) (x : Happening) : List Effect :=
  (worldOf (app.exec (handle x.u x.event))).out

variable {app : ChatApp} {inn : Inn} {x : Happening} {id : UserId} {slot : Fin maxConnections}
  {w : ENetWrapper} {peer : ENetPeer} {user : UserInfo}

/-- The host of an open inn. -/
structure ChatApp.Tends (app : ChatApp) (inn : Inn) : Prop where
  opened : inn.shut = false
  hosting : Hosting inn.nickname app
  peers : ∃ net, app.mEnet = some net ∧
    ∀ peer : ENetPeer, net.getPeerPtr peer.incomingPeerID = inn.peers peer.slot
  book : ∀ slot, app.mUsers.user? (roomId slot) = (inn.book slot).map (BookEntry.user slot)

def ChatApp.Keeps (app : ChatApp) (inn : Inn) : Prop :=
  app.Tends inn ∨ inn.shut = true ∧ app.mState = .to .quitState ∧ ∃ net, app.mEnet = some net

-- ---------------------------------------------------------------------------
-- Rooms
-- ---------------------------------------------------------------------------

theorem roomId_toNat (slot : Fin maxConnections) : (roomId slot).toNat = slot + 1 := by
  have := slot.isLt
  simp only [maxConnections] at this
  simp [roomId]
  omega

@[simp] theorem roomId_inj {slot slot' : Fin maxConnections} :
    roomId slot = roomId slot' ↔ slot = slot' := by
  rw [← UInt16.toNat_inj, roomId_toNat, roomId_toNat, Nat.add_right_cancel_iff, Fin.val_inj]

theorem roomId_pos (slot : Fin maxConnections) : 0 < roomId slot := by
  rw [UInt16.lt_iff_toNat_lt, roomId_toNat]
  exact Nat.succ_pos _

theorem roomId_lt {slot slot' : Fin maxConnections} (h : slot < slot') :
    roomId slot < roomId slot' := by
  rw [UInt16.lt_iff_toNat_lt, roomId_toNat, roomId_toNat]
  exact Nat.succ_lt_succ h

theorem toUserID_room {p : PeerId} (h : p.toNat < maxConnections) :
    toUserID p = roomId ⟨p.toNat, h⟩ :=
  UInt16.toNat_inj.mp ((toUserID_toNat h).trans (roomId_toNat ⟨p.toNat, h⟩).symm)

theorem toUserID_peer (peer : ENetPeer) : toUserID peer.incomingPeerID = roomId peer.slot :=
  toUserID_room peer.inHost

theorem slot_inj {peer peer' : ENetPeer} :
    peer.slot = peer'.slot ↔ peer.incomingPeerID = peer'.incomingPeerID := by
  rw [ENetPeer.slot, ENetPeer.slot, Fin.mk.injEq, UInt16.toNat_inj]

-- ---------------------------------------------------------------------------
-- Users
-- ---------------------------------------------------------------------------

theorem Inn.mem_guests : user ∈ inn.guests ↔
    ∃ slot entry, inn.book slot = some entry ∧ entry.user slot = user := by
  simp [Inn.guests]

theorem Inn.ordered (inn : Inn) : inn.users.Pairwise UserInfo.Before := by
  refine List.pairwise_cons.mpr ⟨fun user hu => ?_, ?_⟩
  · obtain ⟨slot, entry, -, rfl⟩ := Inn.mem_guests.mp hu
    exact roomId_pos slot
  · refine List.Pairwise.filterMap _ ?_ (List.pairwise_lt_finRange _)
    rintro slot slot' hlt user hu user' hu'
    obtain ⟨entry, -, rfl⟩ := Option.map_eq_some_iff.mp hu
    obtain ⟨entry', -, rfl⟩ := Option.map_eq_some_iff.mp hu'
    exact roomId_lt hlt

theorem eq_of_ordered {users users' : List UserInfo} (h : users.Pairwise UserInfo.Before)
    (h' : users'.Pairwise UserInfo.Before) (hmem : ∀ user, user ∈ users ↔ user ∈ users') :
    users = users' := by
  have : Std.Irrefl UserInfo.Before := ⟨fun user => UInt16.lt_irrefl user.userId⟩
  have : Std.Antisymm UserInfo.Before := ⟨fun user user' hlt hgt =>
    absurd hgt (UInt16.lt_asymm hlt)⟩
  exact h.eq_of_mem_iff h' hmem

namespace ChatApp.Tends

theorem mem_users (h : app.Tends inn) : user ∈ app.mUsers.users ↔ user ∈ inn.users := by
  rw [h.hosting.tidy.mem_users]
  constructor
  · intro hu
    obtain h0 | ⟨p, hp, hid⟩ := h.hosting.slot hu
    · rw [h0, h.hosting.user?_zero] at hu
      cases hu
      exact List.mem_cons_self
    · rw [hid, toUserID_room hp, h.book] at hu
      obtain ⟨entry, he, huser⟩ := Option.map_eq_some_iff.mp hu
      exact List.mem_cons_of_mem _ (Inn.mem_guests.mpr ⟨_, entry, he, huser⟩)
  · intro hu
    obtain rfl | hu := List.mem_cons.mp hu
    · exact h.hosting.user?_zero
    · obtain ⟨slot, entry, he, rfl⟩ := Inn.mem_guests.mp hu
      exact (h.book slot).trans (by rw [he]; rfl)

theorem users (h : app.Tends inn) : app.mUsers.users = inn.users :=
  eq_of_ordered h.hosting.tidy.ordered inn.ordered fun _ => h.mem_users

theorem find (h : app.Tends inn) (id : UserId) :
    inn.users.find? (·.userId == id) = app.mUsers.user? id := by
  rw [← h.users, h.hosting.tidy.find_users]

-- ---------------------------------------------------------------------------
-- Comings and goings
-- ---------------------------------------------------------------------------

theorem withPeers {peers : Fin maxConnections → Option ENetPeer} (h : app.Tends inn)
    (hpeers : ∀ peer : ENetPeer, w.getPeerPtr peer.incomingPeerID = peers peer.slot) :
    ({ app with mEnet := some w } : ChatApp).Tends { inn with peers } :=
  ⟨h.opened, h.hosting.withNet, ⟨w, rfl, hpeers⟩, h.book⟩

theorem meets (h : app.Tends inn) (hw : app.mEnet = some w) (peer : ENetPeer) :
    ({ app with mEnet := some { w with mPeers := w.mPeers.insert peer.incomingPeerID peer } } :
      ChatApp).Tends (inn.meets peer) := by
  obtain ⟨w', hw', hpeers⟩ := h.peers
  obtain rfl : w' = w := Option.some.inj (hw'.symm.trans hw)
  refine h.withPeers fun peer' => ?_
  simp only [Function.update_apply, slot_inj, ← hpeers, @eq_comm _ peer'.incomingPeerID]
  simp [ENetWrapper.getPeerPtr, Std.ExtTreeMap.getElem?_insert]

theorem gone (h : app.Tends inn) (hw : app.mEnet = some w) (peer : ENetPeer) :
    ({ app with mEnet := some { w with mPeers := w.mPeers.erase peer.incomingPeerID } } :
      ChatApp).Tends { inn with peers := Function.update inn.peers peer.slot none } := by
  obtain ⟨w', hw', hpeers⟩ := h.peers
  obtain rfl : w' = w := Option.some.inj (hw'.symm.trans hw)
  refine h.withPeers fun peer' => ?_
  simp only [Function.update_apply, slot_inj, ← hpeers, @eq_comm _ peer'.incomingPeerID]
  simp [ENetWrapper.getPeerPtr, Std.ExtTreeMap.getElem?_erase]

theorem books (h : app.Tends inn) (slot : Fin maxConnections) (entry : BookEntry)
    (hname : entry.name.length ≤ maximumPacketSize) :
    (app.insertUser (entry.user slot)).Tends (inn.books slot entry) := by
  have hid : (roomId slot).toNat ≤ maxConnections := by
    rw [roomId_toNat]
    exact slot.isLt
  refine ⟨h.opened, h.hosting.insertUser hid hname, h.peers, fun slot' => ?_⟩
  simp only [user?_insertUser, h.book, Inn.books, Function.update_apply, BookEntry.user, roomId_inj]
  split
  · next heq =>
    subst heq
    cases inn.book slot' <;> rfl
  · exact Option.or_none

theorem strikes (h : app.Tends inn) (slot : Fin maxConnections) :
    (app.withoutUser (roomId slot)).Tends
      { inn with book := Function.update inn.book slot none } := by
  have hne : roomId slot ≠ 0 := (UInt16.pos_iff_ne_zero.mp (roomId_pos slot))
  refine ⟨h.opened, h.hosting.withoutUser hne, h.peers, fun slot' => ?_⟩
  simp only [ChatApp.withoutUser, UserMap.user?_erase, h.book, Function.update_apply, roomId_inj]
  split <;> rfl

end ChatApp.Tends

-- ---------------------------------------------------------------------------
-- Steps
-- ---------------------------------------------------------------------------

/-- What a handler does is an inn's answer. -/
inductive ChatApp.Gives (app : ChatApp) (x : Happening) : Inn.Answer → Prop
  | goes : app.exec (handle x.u x.event) = .ok () ⟨app', out⟩ → app'.Keeps inn' →
      Gives app x (out, some inn')
  | halts : app.exec (handle x.u x.event) = .error halt ⟨app', out⟩ → Gives app x (out, none)

theorem ChatApp.Gives.answers {answer : Inn.Answer} (h : app.Gives x answer) :
    app.did x = answer.1 ∧ Option.Rel ChatApp.Keeps (app.next x) answer.2 := by
  unfold ChatApp.did ChatApp.next
  cases h with
  | goes hrun hk =>
    rw [hrun]
    exact ⟨rfl, .some hk⟩
  | halts hrun =>
    rw [hrun]
    exact ⟨rfl, .none⟩


namespace ChatApp.Tends

variable {u : Unspecified} {packet : ENetPacket}

theorem sent (h : app.Tends inn) (hw : app.mEnet = some w) (peer : ENetPeer) (pkg : Package) :
    (w.send (toPeerID (roomId peer.slot)) pkg.layout).map .enet = inn.writes peer.slot pkg := by
  obtain ⟨w', hw', hpeers⟩ := h.peers
  obtain rfl : w' = w := Option.some.inj (hw'.symm.trans hw)
  rw [← toUserID_peer, toPeerID_toUserID peer.inHost, ENetWrapper.send, Inn.writes, hpeers]
  cases inn.peers peer.slot <;> rfl

theorem welcomes (h : app.Tends inn) (hw : app.mEnet = some w) (peer : ENetPeer)
    (entry : BookEntry) (hname : entry.name.length ≤ maximumPacketSize) :
    welcome inn.nickname app w (entry.user peer.slot) = (inn.greets peer.slot entry).1 := by
  have hbooks := h.books peer.slot entry hname
  have hid : (entry.user peer.slot).userId = roomId peer.slot := rfl
  simp only [welcome, Inn.greets, Inn.lists, UsernameAckPackage.ofMap, hbooks.users, hid,
    hbooks.sent hw peer]
  rfl

theorem greets (h : app.Tends inn) (peer : ENetPeer)
    (hp : packet.package? = some (.username pckt)) :
    app.Gives ⟨u, .network (.receive peer packet)⟩
      (inn.greets peer.slot { name := pckt.username, address := peer.address }) := by
  obtain ⟨w, hw, -⟩ := h.peers
  obtain ⟨hrun, -, hname⟩ := h.hosting.username_step u peer hw hp
  let entry : BookEntry := { name := pckt.username, address := peer.address }
  have huser : (NetworkTraffic.ofPeer peer packet.data).announces pckt.username =
      entry.user peer.slot := by
    simp [NetworkTraffic.announces, NetworkTraffic.ofPeer, BookEntry.user, toUserID_peer, entry]
  rw [huser, h.welcomes hw peer entry hname] at hrun
  exact .goes hrun (.inl (h.books peer.slot entry hname))

theorem misses (h : app.Tends inn) (peer : ENetPeer) :
    app.Gives ⟨u, .network (.disconnect peer)⟩ (inn.misses peer.slot) := by
  obtain ⟨w, hw, -⟩ := h.peers
  have hcompletes : Completes (handle u (.network (.disconnect peer))) ⟨app, []⟩ :=
    h.hosting.disconnect_completes
  have hrun := h.hosting.exec_of_completes hw hcompletes
  have hbook := h.book peer.slot
  unfold Inn.misses
  simp only [hostNext, toUserID_peer, hbook] at hrun
  cases he : inn.book peer.slot with
  | none =>
    simp only [he, Option.map_none] at hrun
    refine .goes hrun (.inl ?_)
    have hsame : Function.update inn.book peer.slot none = inn.book := by
      rw [Function.update_eq_self_iff, he]
    unfold Inn.frees
    rw [hsame]
    exact h.gone hw peer
  | some entry =>
    simp only [he, Option.map_some] at hrun
    have hstrikes := h.strikes peer.slot
    have hfarewell : farewell inn.nickname app (entry.user peer.slot) =
        [.window (.log (entry.name ++ ascii " disconnected [" ++ entry.address.str ++
            ascii "]")),
          Inn.tells (.removeUser { userId := roomId peer.slot })] ++
          (inn.frees peer.slot).lists := by
      have hid : (entry.user peer.slot).userId = roomId peer.slot := rfl
      simp only [farewell, hid, hstrikes.users]
      rfl
    rw [hfarewell] at hrun
    exact .goes hrun (.inl (hstrikes.gone hw peer))

theorem passes (h : app.Tends inn) (peer : ENetPeer)
    (hp : packet.package? = some (.message pckt)) :
    app.Gives ⟨u, .network (.receive peer packet)⟩ (inn.passes pckt) := by
  obtain ⟨w, hw, -⟩ := h.peers
  have hrun := receive_run u peer hw hp
  unfold Inn.passes
  rw [h.find]
  cases hu : app.mUsers.user? pckt.userId with
  | none =>
    rw [h.hosting.receive_message_null hu] at hrun
    exact .halts hrun
  | some user =>
    rw [h.hosting.receive_message [] hw hu (message_fits (package?_eq_some.mp hp))] at hrun
    exact .goes hrun (.inl h)

theorem hears (h : app.Tends inn) (peer : ENetPeer) (hp : packet.package? = some pkg) :
    app.Gives ⟨u, .network (.receive peer packet)⟩ (inn.hears peer pkg) := by
  obtain ⟨w, hw, -⟩ := h.peers
  cases pkg with
  | username pckt => exact h.greets peer hp
  | message pckt => exact h.passes peer hp
  | _ =>
    have hrun := receive_run u peer hw hp
    rw [h.hosting.receive_other (by simp [Package.type]) (by simp [Package.type])] at hrun
    exact .goes hrun (.inl h)

theorem types (h : app.Tends inn) (line : InputLine) :
    app.Gives ⟨u, .input line⟩ (inn.types line.text) := by
  obtain ⟨w, hw, -⟩ := h.peers
  have hcompletes : Completes (handle u (.input line)) ⟨app, []⟩ := h.hosting.completes (by simp)
  have hrun := h.hosting.exec_of_completes hw hcompletes
  unfold Inn.types
  by_cases hnil : line.text = []
  · simp only [hostNext, hnil, if_true] at hrun ⊢
    exact .goes hrun (.inl h)
  · by_cases hi : line.text = exitCommand
    · simp only [hostNext, hi, if_true, quitEffects, hw, Option.isSome_some] at hrun
      simp only [hi, if_true]
      exact .goes hrun (.inr ⟨rfl, rfl, w, hw⟩)
    · simp only [hostNext, hnil, hi, if_false] at hrun ⊢
      exact .goes hrun (.inl h)

/-- One event, but for a payload that is no package. -/
theorem gives (h : app.Tends inn) (hx : x.garbled = false) : app.Gives x (inn.answer x) := by
  obtain ⟨w, hw, -⟩ := h.peers
  obtain ⟨u, event⟩ := x
  unfold Inn.answer
  rw [hx, h.opened]
  simp only [Bool.false_eq_true, if_false]
  cases event with
  | input line => exact h.types line
  | network ev =>
    cases ev with
    | none => exact .goes (handle_network_run hw) (.inl h)
    | connect peer =>
      have hcompletes : Completes (handle u (.network (.connect peer))) ⟨app, []⟩ :=
        h.hosting.connect_completes
      have hrun := h.hosting.exec_of_completes hw hcompletes
      exact .goes hrun (.inl (h.meets hw peer))
    | disconnect peer => exact h.misses peer
    | receive peer packet =>
      cases hp : packet.package? with
      | none =>
        simp only [hp, Option.elim_none]
        exact .goes (receive_nothing hw hp hx) (.inl h)
      | some pkg =>
        simp only [hp, Option.elim_some]
        exact h.hears peer hp

end ChatApp.Tends

theorem ChatApp.Keeps.gives (h : app.Keeps inn) (x : Happening) : app.Gives x (inn.answer x) := by
  obtain ⟨w, hw⟩ : ∃ w, app.mEnet = some w := by
    obtain h | ⟨-, -, hw⟩ := h
    · exact h.hosting.net
    · exact hw
  cases hx : x.garbled with
  | true =>
    obtain ⟨ex, hex⟩ := garbled_throws hw hx
    unfold Inn.answer
    rw [if_pos hx]
    exact .halts hex
  | false =>
    obtain h | ⟨hshut, hs, -⟩ := h
    · exact h.gives hx
    · obtain ⟨w', hrun⟩ := quit_completes hs hw hx
      unfold Inn.answer
      rw [hx, hshut]
      exact .goes hrun (.inr ⟨hshut, hs, w', rfl⟩)

-- ---------------------------------------------------------------------------
-- Runs
-- ---------------------------------------------------------------------------

theorem Opened.tends {nick : Bytes} (h : Opened nick app) : app.Tends (.opens nick) := by
  refine ⟨rfl, h.toHosting, ⟨{}, h.peers, fun peer => rfl⟩, fun slot => ?_⟩
  exact h.user?_none (UInt16.pos_iff_ne_zero.mp (roomId_pos slot))

theorem inn_run (h : app.Keeps inn) (events : List Happening) :
    observe ChatApp.next ChatApp.did app events = observe Inn.next Inn.shown inn events ∧
      Option.Rel ChatApp.Keeps (ends ChatApp.next app events) (ends Inn.next inn events) :=
  observe_simulate (fun _ _ x hk => (hk.gives x).answers) h events

/-- From its start on, with any lines and any events, a host does what an inn
does, and goes on for as long. -/
theorem host_is_inn (u : Unspecified) (z : Bool) (nickname : Nickname) :
    ∃ app, startHost u z nickname = some app ∧ ∀ events,
      observe ChatApp.next ChatApp.did app events =
          observe Inn.next Inn.shown (.opens nickname.text) events ∧
        Option.Rel ChatApp.Keeps (ends ChatApp.next app events)
          (ends Inn.next (.opens nickname.text) events) := by
  obtain ⟨app, happ, hopen⟩ := startHost_opened u z nickname
  exact ⟨app, happ, inn_run (.inl hopen.tends)⟩

end ENetChat

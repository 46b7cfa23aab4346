import ENetChat.Chat.RunLaws
import ENetChat.Session.RoomFollows
import ENetChat.Session.Session

/-!
# A session as a chat room

`Session.Coupled` relates a session to the room that it is: the host's map to
the table, packets to notes and speech, and a running client's members to what
a member has made of its notes. The host is user 0, and a client's id is its
slot's.
-/

namespace ENetChat

open Channel Replica

abbrev Participant := Member UserId Bytes Bytes

abbrev ChatRoom := Room Nat UserId Bytes Bytes

-- ---------------------------------------------------------------------------
-- Packets
-- ---------------------------------------------------------------------------

/-- The users of an Ack as a table. -/
def Lists (users : List UserInfo) (table : Table UserId Bytes) : Prop :=
  ∀ id name, table id = some name ↔ ∃ user ∈ users, user.userId = id ∧ user.name = name

def Package.Notes (pkg : Package) : Note UserId Bytes Bytes → Prop
  | .snapshot id table =>
    ∃ users, pkg = .usernameAck { assignedUserId := id, users } ∧ Lists users table
  | .joined id name =>
    ∃ user : UserInfo, pkg = .addUser { user } ∧ user.userId = id ∧ user.name = name
  | .left id => pkg = .removeUser { userId := id }
  | .said id text => pkg = .message { userId := id, message := text }

def Package.Speaks (pkg : Package) : Speech UserId Bytes Bytes → Prop
  | .hello name => pkg = .username { username := name }
  | .message id text => pkg = .message { userId := id, message := text }

def ENetPacket.Notes (packet : ENetPacket) (n : Note UserId Bytes Bytes) : Prop :=
  ∃ pkg, packet.package? = some pkg ∧ pkg.Notes n

def ENetPacket.Speaks (packet : ENetPacket) (s : Speech UserId Bytes Bytes) : Prop :=
  ∃ pkg, packet.package? = some pkg ∧ pkg.Speaks s

theorem create?_layout (pkg : Package) (htag : pkg.Tagged)
    (hsize : pkg.layout.length ≤ maximumPacketSize) :
    ∃ packet, ENetPacket.create? pkg.layout 0 = some packet ∧
      packet.package? = some pkg.received :=
  ⟨⟨pkg.layout, 0, hsize⟩, dif_pos hsize, package?_eq_some.mpr (decodes_received htag)⟩

theorem Channel.Wire.package?_item (packet : ENetPacket) :
    (Wire.item packet).package? = packet.package? := by
  rw [Wire.package?, Wire.item?, Option.bind_some]

theorem isAck_iff {packet : ENetPacket} {n : Note UserId Bytes Bytes} (h : packet.Notes n) :
    isAck packet.package? = n.isSnapshot := by
  obtain ⟨pkg, hp, hn⟩ := h
  rw [hp]
  cases n with
  | snapshot id table => obtain ⟨users, rfl, -⟩ := hn; rfl
  | joined id name => obtain ⟨user, rfl, -⟩ := hn; rfl
  | left id => rw [hn]; rfl
  | said id text => rw [hn]; rfl

theorem isUsername_iff {packet : ENetPacket} {s : Speech UserId Bytes Bytes}
    (h : packet.Speaks s) : isUsername packet.package? = s.isHello := by
  obtain ⟨pkg, hp, hs⟩ := h
  rw [hp]
  cases s with
  | hello name => rw [hs]; rfl
  | message id text => rw [hs]; rfl

-- ---------------------------------------------------------------------------
-- The relation
-- ---------------------------------------------------------------------------

/-- The local pointer points to the entry of `id`. -/
def ChatApp.At (app : ChatApp) (id : UserId) : Prop :=
  ∃ node user, app.mLocaluserPtr = .entry id node ∧ app.mUsers[id]? = some ⟨node, user⟩

/-- No name is longer than a line. -/
def ChatApp.ShortNames (app : ChatApp) : Prop :=
  ∀ id user, app.mUsers.user? id = some user → user.name.length < 80

/-- A running client and what the member has made of its notes. -/
structure Conn.Mirrors (c : Conn) (m : Participant) : Prop where
  tidy : c.client.Tidy
  quit : c.client.mQuit = false
  nickname : c.client.mConfig.nickname = c.nickname.text
  net : ∃ net, c.client.mEnet = some net ∧
    (c.link.live = true → .opened ∉ c.toClient → net.getPeerPtr 0 = some hostPeer)
  replica : ∀ id, c.client.mUsers.name? id = m.view.replica id
  atSelf : m.view.synced = true → c.client.At m.id
  atNone : m.view.synced = false → ∀ id node, c.client.mLocaluserPtr ≠ .entry id node
  inbox : Matches ENetPacket.Notes c.toClient m.inbox
  acked : c.acked = m.view.synced
  shown : c.shown = m.view.shown
  typed : m.view.synced = true → c.typed = m.typed ∧ c.echoed = m.typed

structure Conn.Coupled (c : Conn) (m : Participant) : Prop where
  id : m.id = c.userId
  name : m.name = c.nickname.text
  link : m.link = c.link
  mark : m.Marked → m.mark = c.mark
  outbox : Matches ENetPacket.Speaks c.toHost m.outbox
  running : m.running = true ↔ c.Running
  stopped : c.halt = none → ¬ c.Running → c.client.mState = .to .quitState
  mirrors : c.Running → c.Mirrors m

/-- What the client does not see of its connection. -/
theorem Conn.Mirrors.outer {c : Conn} {m : Participant} (h : c.Mirrors m)
    (hlive : l.live = true → c.link.live = true) :
    ({ c with toHost := q, link := l, mark := i } : Conn).Mirrors
      { m with outbox := out, link := l', mark := i' } := by
  obtain ⟨net, hnet, hpeer⟩ := h.net
  exact ⟨h.tidy, h.quit, h.nickname, ⟨net, hnet, fun hl => hpeer (hlive hl)⟩, h.replica, h.atSelf,
    h.atNone, h.inbox, h.acked, h.shown, h.typed⟩

theorem Conn.Coupled.outer {c : Conn} {m : Participant} (h : c.Coupled m) (hl : l' = l)
    (hlive : l.live = true → c.link.live = true)
    (hmark : l'.live = true ∨ 0 < m.snapshots → i' = i) (hout : Matches ENetPacket.Speaks q out) :
    ({ c with toHost := q, link := l, mark := i } : Conn).Coupled
      { m with outbox := out, link := l', mark := i' } :=
  ⟨h.id, h.name, hl, hmark, hout, h.running, h.stopped, fun hr => (h.mirrors hr).outer hlive⟩

/-- The connections and the members, one by one. -/
def Seated (conns : List Conn) (members : Nat → Option Participant) : Prop :=
  ∀ k, Option.Rel Conn.Coupled conns[k]? (members k)

structure Session.Coupled (nick : Bytes) (s : Session) (r : ChatRoom) : Prop where
  hosting : Hosting nick s.host
  halt : s.halt = none
  short : s.host.ShortNames
  peers : ∃ net, s.host.mEnet = some net ∧
    (∀ p peer, net.getPeerPtr p = some peer → peer.incomingPeerID = p) ∧
    ∀ c ∈ s.conns, c.link = .up → net.getPeerPtr c.peer.incomingPeerID = some c.peer
  table : ∀ id, s.host.mUsers.name? id = r.table id
  log : s.log = r.log
  seated : Seated s.conns r.members

-- ---------------------------------------------------------------------------
-- Seats
-- ---------------------------------------------------------------------------

variable {c : Conn} {m : Participant} {r : ChatRoom} {s : Session}
  {members : Nat → Option Participant}

namespace Seated

theorem get (h : Seated conns members) (hc : conns[k]? = some c) :
    ∃ m, members k = some m ∧ c.Coupled m := by
  have := h k
  rw [hc] at this
  cases hm : members k with
  | none => rw [hm] at this; cases this
  | some m => rw [hm] at this; cases this with | some h => exact ⟨m, rfl, h⟩

theorem coupled (h : Seated conns members) (hc : conns[k]? = some c) (hm : members k = some m) :
    c.Coupled m := by
  obtain ⟨m', hm', hcm⟩ := h.get hc
  rw [hm] at hm'
  cases hm'
  exact hcm

theorem of_member (h : Seated conns members) (hm : members k = some m) :
    ∃ c, conns[k]? = some c ∧ c.Coupled m := by
  have := h k
  rw [hm] at this
  cases hc : conns[k]? with
  | none => rw [hc] at this; cases this
  | some c => rw [hc] at this; cases this with | some h => exact ⟨c, rfl, h⟩

theorem set (h : Seated conns members) (hk : conns[k]? = some c₀) (hm : c.Coupled m) :
    Seated (conns.set k c) (Function.update members k (some m)) := by
  intro k'
  have hlt : k < conns.length := by
    rw [List.getElem?_eq_some_iff] at hk
    exact hk.1
  by_cases heq : k' = k
  · subst heq
    rw [List.getElem?_set_self hlt, Function.update_self]
    exact .some hm
  · rw [List.getElem?_set_ne (Ne.symm heq), Function.update_of_ne heq]
    exact h k'

theorem join (h : Seated conns members) (hm : c.Coupled m) :
    members conns.length = none ∧
      Seated (conns ++ [c]) (Function.update members conns.length (some m)) := by
  have hnone : members conns.length = none := by
    cases hm' : members conns.length with
    | none => rfl
    | some m' =>
      obtain ⟨c', hc', -⟩ := h.of_member hm'
      simp at hc'
  refine ⟨hnone, fun k => ?_⟩
  by_cases heq : k = conns.length
  · subst heq
    simpa using Option.Rel.some hm
  · rw [Function.update_of_ne heq]
    have hk := h k
    by_cases hlt : k < conns.length
    · rwa [List.getElem?_append_left hlt]
    · have hge : conns.length + 1 ≤ k := by omega
      rw [List.getElem?_eq_none (by omega)] at hk
      rwa [List.getElem?_eq_none (by simpa using hge)]

theorem map {f : Conn → Conn} {g : Nat → Participant → Participant} (h : Seated conns members)
    (hfg : ∀ k c m, conns[k]? = some c → members k = some m → c.Coupled m →
      (f c).Coupled (g k m)) :
    Seated (conns.map f) fun k => (members k).map (g k) := by
  intro k
  have hk := h k
  rw [List.getElem?_map]
  show Option.Rel _ _ ((members k).map (g k))
  cases hc : conns[k]? with
  | none =>
    rw [hc] at hk
    cases hm : members k with
    | none => exact .none
    | some m => rw [hm] at hk; cases hk
  | some c =>
    obtain ⟨m, hm, hcm⟩ := h.get hc
    rw [hm]
    exact .some (hfg k c m hc hm hcm)

end Seated

end ENetChat

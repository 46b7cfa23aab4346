import ENetChat.Chat.Delivery
import ENetChat.Lib.Replica
import ENetChat.Lib.Transition

/-!
# What a client is for

A guest keeps the roll that its host announces, shows what those on it say,
and passes on its own lines under the id that it was given. `Guest` says so of
packages and plain tables, and where it cannot go on: a package about somebody
who is not on the roll, or a list of users to be drawn by one who cannot tell
who it is. Its roll is what the packages that it hears make of it, whatever it
types in between (`Guest.ends_roll`).
-/

namespace ENetChat

open Replica Transition

-- ---------------------------------------------------------------------------
-- Guests
-- ---------------------------------------------------------------------------

/-- Who a guest takes itself for. -/
inductive Self where
  | lost  -- it cannot tell
  | nobody
  | user (id : UserId)
  deriving DecidableEq, Repr

structure Guest where
  nickname : Bytes
  host : Option ENetPeer := none
  roll : Table UserId Bytes := fun _ => none
  self : Self
  left : Bool := false

namespace Guest

/-- What is shown and sent, and the guest that goes on, if it can. -/
abbrev Answer := List Effect × Option Guest

/-- There are users to be drawn, and no telling which of them it is. -/
def Stuck (g : Guest) : Prop := g.self = .lost ∧ ∃ id, g.roll id ≠ none

noncomputable instance (g : Guest) : Decidable g.Stuck := Classical.propDecidable _

/-- The users are drawn, with a mark at the guest's own. -/
noncomputable def drawn (g : Guest) : Option Guest := if g.Stuck then none else some g

def writes (g : Guest) (pkg : Package) : List Effect :=
  match g.host with
  | some peer => [.enet (.peerSend peer pkg.layout 0)]
  | none => []

/-- Those on the roll keep their names; of the others, the first of an id counts. -/
def enrolled (users : List UserInfo) (roll : Table UserId Bytes) : Table UserId Bytes :=
  fun id => (roll id).or ((users.find? (·.userId == id)).map (·.name))

/-- The Ack with its own id and the users. Drawing the first of them needs
`self`, which may be this one. -/
def greeted (id : UserId) (users : List UserInfo) (g : Guest) : Option Guest :=
  if g.self = .lost ∧ ∃ user ∈ users.head?, user.userId ≠ id then none
  else some { g with
    roll := enrolled users g.roll
    self := if ∃ user ∈ users, user.userId = id then .user id else g.self }

/-- Somebody has come. -/
noncomputable def joined (user : UserInfo) (g : Guest) : Answer :=
  if g.roll user.userId = none then ([.window (.log (user.name ++ ascii " connected"))],
    drawn { g with roll := Table.insert g.roll user.userId user.name })
  else ([], some g)

/-- Somebody has gone, who must have been there. -/
noncomputable def gone (id : UserId) (g : Guest) : Answer :=
  match g.roll id with
  | some name => ([.window (.log (name ++ ascii " disconnected"))],
    drawn { g with
      roll := Table.erase g.roll id
      self := if g.self = .user id then .lost else g.self })
  | none => ([], none)

/-- Somebody says something. Its own lines are not shown again. -/
def told (id : UserId) (text : Bytes) (g : Guest) : Answer :=
  match g.roll id with
  | some name =>
    if g.self = .lost then ([], none)
    else (if g.self = .user id then [] else [.window (.printFrom name text false)], some g)
  | none => ([], none)

noncomputable def hears (g : Guest) : Package → Answer
  | .username _ => ([], some g)
  | .usernameAck pckt => ([], g.greeted pckt.assignedUserId pckt.users)
  | .addUser pckt => g.joined pckt.user
  | .removeUser pckt => g.gone pckt.userId
  | .message pckt => g.told pckt.userId pckt.message

/-- It takes its leave. -/
def leaves (g : Guest) (farewell : List Effect) : Answer :=
  (farewell ++ [.window .clearAll, .enet .disconnectAll,
    .window (.print (ascii "Press Enter to close window..."))], some { g with left := true })

/-- A line of its own. -/
def types (g : Guest) (text : Bytes) : Answer :=
  if text = [] then ([], some g)
  else if text = exitCommand then g.leaves []
  else match g.self with
    | .lost => ([], none)
    | .nobody => ([], some g)
    | .user id => (.window (.printFrom ((g.roll id).getD []) text true) ::
        g.writes (.message { userId := id, message := text }), some g)

def meets (peer : ENetPeer) (g : Guest) : Guest :=
  if peer.incomingPeerID = 0 then { g with host := some peer } else g

/-- Once it has left, nothing but a payload that is no package makes a difference. -/
noncomputable def answer (g : Guest) (x : Happening) : Answer :=
  if x.garbled then ([], none)
  else if g.left then ([], some g)
  else match x.event with
    | .input line => g.types line.text
    | .network .none => ([], some g)
    | .network (.connect peer) =>
      ((g.meets peer).writes (.username { username := g.nickname }), some (g.meets peer))
    | .network (.disconnect _) =>
      g.leaves [.window (.log (ascii "Disconnected from host, exiting..."))]
    | .network (.receive _ packet) => packet.package?.elim ([], some g) g.hears

noncomputable def shown (g : Guest) (x : Happening) : List Effect := (g.answer x).1

noncomputable def next (g : Guest) (x : Happening) : Option Guest := (g.answer x).2

/-- A guest who has just come. It is lost if the memory of the local pointer is
not zero. -/
def arrives (localZero : Bool) (nickname : Bytes) : Guest :=
  { nickname, self := if localZero then .nobody else .lost }

end Guest

-- ---------------------------------------------------------------------------
-- The roll
-- ---------------------------------------------------------------------------

/-- The package that an event brings. -/
def Happening.package? (x : Happening) : Option Package :=
  match x.event with
  | .network (.receive _ packet) => packet.package?
  | _ => none

def heard (events : List Happening) : List Package := events.filterMap Happening.package?

variable {g g' : Guest} {pkg : Package} {packet : ENetPacket} {u : Unspecified}

namespace Guest

/-- What a package makes of a roll. -/
def enters (roll : Table UserId Bytes) : Package → Table UserId Bytes
  | .usernameAck pckt => enrolled pckt.users roll
  | .addUser pckt => Table.insert roll pckt.user.userId pckt.user.name
  | .removeUser pckt => Table.erase roll pckt.userId
  | _ => roll

theorem drawn_eq (h : g.drawn = some g') : g' = g := by
  unfold drawn at h
  split at h
  · cases h
  · exact (Option.some.inj h).symm

theorem hears_roll (h : (g.hears pkg).2 = some g') : g'.roll = enters g.roll pkg := by
  cases pkg with
  | username pckt =>
    cases h
    rfl
  | usernameAck pckt =>
    simp only [hears, greeted] at h
    split at h
    · cases h
    · cases h
      rfl
  | addUser pckt =>
    simp only [hears, joined] at h
    split at h
    · rw [drawn_eq h]
      rfl
    · next hne =>
      cases h
      exact (insert_of_some hne).symm
  | removeUser pckt =>
    simp only [hears, gone] at h
    split at h
    · rw [drawn_eq h]
      rfl
    · cases h
  | message pckt =>
    simp only [hears, told] at h
    split at h
    · split at h
      · cases h
      · cases h
        rfl
    · cases h

theorem types_next (h : (g.types text).2 = some g') (hl : g'.left = false) : g' = g := by
  unfold types at h
  split at h
  · cases h
    rfl
  · split at h
    · cases h
      cases hl
    · split at h
      · cases h
      · cases h
        rfl
      · cases h
        rfl

theorem meets_roll (peer : ENetPeer) (g : Guest) : (g.meets peer).roll = g.roll := by
  unfold meets
  split <;> rfl

/-- Who has left stays out. -/
theorem next_left {x : Happening} (h : g.next x = some g') (hl : g.left = true) : g' = g := by
  simp only [next, answer, hl, if_true] at h
  split at h
  · cases h
  · cases h
    rfl

theorem next_disconnect {peer : ENetPeer} (h : g.next ⟨u, .network (.disconnect peer)⟩ = some g') :
    g'.left = true := by
  simp only [next, answer, Happening.garbled, Bool.false_eq_true, if_false] at h
  split at h
  · next hl =>
    cases h
    exact hl
  · cases h
    rfl

/-- The roll after a step is what the package of the step makes of it. -/
theorem next_roll {x : Happening} (h : g.next x = some g') (hl : g'.left = false) :
    g.left = false ∧ g'.roll = x.package?.toList.foldl enters g.roll := by
  cases hleft : g.left with
  | true =>
    rw [next_left h hleft, hleft] at hl
    cases hl
  | false =>
    refine ⟨rfl, ?_⟩
    obtain ⟨u, event⟩ := x
    simp only [next, answer, hleft, Bool.false_eq_true, if_false] at h
    split at h
    · cases h
    · cases event with
      | input line =>
        rw [types_next h hl]
        rfl
      | network ev =>
        cases ev with
        | none =>
          cases h
          rfl
        | connect peer =>
          cases h
          exact meets_roll peer g
        | disconnect peer =>
          cases h
          cases hl
        | receive peer packet =>
          simp only [Happening.package?]
          cases hp : packet.package? with
          | none =>
            simp only [hp, Option.elim_none] at h
            cases h
            rfl
          | some pkg =>
            simp only [hp, Option.elim_some] at h
            exact hears_roll h

theorem ends_roll (h : ends next g events = some g') (hl : g'.left = false) :
    g.left = false ∧ g'.roll = (heard events).foldl enters g.roll := by
  induction events generalizing g with
  | nil =>
    cases h
    exact ⟨hl, rfl⟩
  | cons x events ih =>
    obtain ⟨g₁, hx, hrest⟩ := Option.bind_eq_some_iff.mp h
    obtain ⟨hl₁, hroll⟩ := ih hrest
    obtain ⟨hl₀, hroll₁⟩ := next_roll hx hl₁
    refine ⟨hl₀, ?_⟩
    rw [hroll, hroll₁, ← List.foldl_append, heard, heard, List.filterMap_cons]
    cases x.package? <;> rfl

end Guest

end ENetChat

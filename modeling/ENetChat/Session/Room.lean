import ENetChat.Lib.Channel
import ENetChat.Lib.Replica
import ENetChat.Lib.Transition
import Mathlib.Logic.Function.Basic

/-!
# A chat room

What a session is about, without bytes or windows: a hub with a table of
names and a log of what was said, and members that follow the table by the
hub's notes. A member introduces itself once it is connected, is entered in
the table, is sent a snapshot, and from then on speaks. Ids go with places in
the room, which are taken again once their member is gone.
-/

namespace ENetChat

open Channel Replica

inductive Speech (ι ν τ : Type) where
  | hello (name : ν)
  | message (id : ι) (text : τ)

def Speech.isHello {ι ν τ : Type} : Speech ι ν τ → Bool
  | .hello _ => true
  | _ => false

def Speech.text? {ι ν τ : Type} : Speech ι ν τ → Option τ
  | .message _ text => some text
  | _ => none

@[simp] theorem Speech.text?_hello {ι ν τ : Type} {name : ν} :
    (Speech.hello name : Speech ι ν τ).text? = none := rfl

@[simp] theorem Speech.text?_message {ι ν τ : Type} {id : ι} {text : τ} :
    (Speech.message id text : Speech ι ν τ).text? = some text := rfl

structure Member (ι ν τ : Type) where
  id : ι
  name : ν
  link : Link := .pending
  running : Bool := true
  view : View ι ν τ := {}
  typed : List τ := []  -- since the snapshot was seen
  mark : Nat := 0       -- the length of the log when the snapshot was sent
  inbox : List (Wire (Note ι ν τ)) := [.opened]
  outbox : List (Wire (Speech ι ν τ)) := [.opened]

structure Room (κ ι ν τ : Type) where
  table : Table ι ν
  log : List (Option κ × ν × τ) := []  -- who said it, `none` for the hub
  members : κ → Option (Member ι ν τ) := fun _ => none

inductive Act (κ ι ν τ : Type) where
  | join (k : κ) (id : ι) (name : ν)
  | hubSay (text : τ)
  | hubOpened (k : κ)
  | hubHello (k : κ)
  | hubHear (k : κ)
  | hubClosed (k : κ)
  | memberOpened (k : κ)
  | memberNote (k : κ)
  | memberSay (k : κ) (text : τ)
  | memberStop (k : κ)
  | hangup (k : κ)
  | loseNote (k : κ) (n : Note ι ν τ)
  | loseSpeech (k : κ) (s : Speech ι ν τ)

/-- No packet is lost on a connection that stands. -/
def Act.lossless {κ ι ν τ : Type} : Act κ ι ν τ → Prop
  | .loseNote _ _ | .loseSpeech _ _ => False
  | _ => True

variable {κ ι ν τ : Type} [DecidableEq κ] [DecidableEq ι]

/-- What the log has from others than `k`. -/
def others (k : κ) (log : List (Option κ × ν × τ)) : List (ν × τ) :=
  (log.filter fun e => e.1 ≠ some k).map (·.2)

/-- What the log has from `k`. -/
def said (k : κ) (log : List (Option κ × ν × τ)) : List τ :=
  (log.filter fun e => e.1 = some k).map (·.2.2)

namespace Member

/-- The hub's note, if the member is connected. -/
def hear (n : Note ι ν τ) (m : Member ι ν τ) : Member ι ν τ :=
  { m with inbox := m.link.deliver m.inbox n }

def speak (s : Speech ι ν τ) (m : Member ι ν τ) : Member ι ν τ :=
  { m with outbox := m.link.send m.outbox s }

/-- What is typed counts from the snapshot on. -/
def see (n : Note ι ν τ) (m : Member ι ν τ) : Member ι ν τ :=
  { m with
    view := m.view.see m.id n
    typed := match n with
      | .snapshot _ _ => []
      | _ => m.typed }

end Member

namespace Room

section

variable (r : Room κ ι ν τ)

def put (k : κ) (m : Member ι ν τ) : Room κ ι ν τ :=
  { r with members := Function.update r.members k (some m) }

def tell (n : Note ι ν τ) : Room κ ι ν τ :=
  { r with members := fun k => (r.members k).map (Member.hear n) }

def record (source : Option κ) (name : ν) (text : τ) : Room κ ι ν τ :=
  { r with log := r.log ++ [(source, name, text)] }

/-- The hub enters a member, sends it the table and tells everyone. -/
def enter (k : κ) (m : Member ι ν τ) (name : ν) : Room κ ι ν τ :=
  let table := r.table.insert m.id name
  let m := { m with mark := r.log.length }
  ({ r with table }.put k (m.hear (.snapshot m.id table))).tell (.joined m.id name)

/-- The hub strikes out a member that it has entered. -/
def leave (k : κ) (m : Member ι ν τ) : Room κ ι ν τ :=
  if r.table m.id = none then r.put k m
  else ({ r with table := r.table.erase m.id }.put k m).tell (.left m.id)

end

inductive Step (hub : ι) : Room κ ι ν τ → Act κ ι ν τ → Room κ ι ν τ → Prop
  | join {r : Room κ ι ν τ} {id : ι} : r.members k = none → id ≠ hub →
      (∀ k' m', r.members k' = some m' → m'.link ≠ .gone → m'.id ≠ id) →
      Step hub r (.join k id name) (r.put k { id, name })
  | hubSay {r : Room κ ι ν τ} : r.table hub = some name →
      Step hub r (.hubSay text) ((r.tell (.said hub text)).record none name text)
  | hubOpened {r : Room κ ι ν τ} : r.members k = some m → m.outbox = .opened :: out →
      Step hub r (.hubOpened k) (r.put k { m with outbox := out, link := m.link.opened })
  | hubHello {r : Room κ ι ν τ} : r.members k = some m → m.outbox = .item (.hello name) :: out →
      Step hub r (.hubHello k) (r.enter k { m with outbox := out } name)
  | hubHear {r : Room κ ι ν τ} {id : ι} :
      r.members k = some m → m.outbox = .item (.message id text) :: out →
      r.table id = some name →
      Step hub r (.hubHear k)
        (((r.put k { m with outbox := out }).tell (.said id text)).record (some k) name text)
  | hubClosed {r : Room κ ι ν τ} : r.members k = some m → m.outbox = .closed :: out →
      Step hub r (.hubClosed k) (r.leave k { m with outbox := out, link := .gone })
  | memberOpened {r : Room κ ι ν τ} :
      r.members k = some m → m.running = true → m.inbox = .opened :: inb →
      Step hub r (.memberOpened k)
        (r.put k (Member.speak (.hello m.name) { m with inbox := inb }))
  | memberNote {r : Room κ ι ν τ} :
      r.members k = some m → m.running = true → m.inbox = .item n :: inb →
      Step hub r (.memberNote k) (r.put k (Member.see n { m with inbox := inb }))
  | memberSay {r : Room κ ι ν τ} : r.members k = some m → m.running = true → m.view.synced = true →
      Step hub r (.memberSay k text)
        (r.put k (Member.speak (.message m.id text) { m with typed := m.typed ++ [text] }))
  | memberStop {r : Room κ ι ν τ} : r.members k = some m →
      Step hub r (.memberStop k) (r.put k { m with running := false })
  | hangup {r : Room κ ι ν τ} : r.members k = some m → m.link.live = true →
      Step hub r (.hangup k) (r.put k { m with
        link := .down, inbox := cut i m.inbox, outbox := cut o m.outbox })
  | loseNote {r : Room κ ι ν τ} : r.members k = some m → m.inbox = q ++ .item n :: q' →
      Step hub r (.loseNote k n) (r.put k { m with inbox := q ++ q' })
  | loseSpeech {r : Room κ ι ν τ} : r.members k = some m → m.outbox = q ++ .item s :: q' →
      Step hub r (.loseSpeech k s) (r.put k { m with outbox := q ++ q' })

/-- An empty room with its hub in the table. -/
def Starts (hub : ι) (hubName : ν) (r : Room κ ι ν τ) : Prop :=
  r.table = (fun i => if i = hub then some hubName else none) ∧ r.log = [] ∧
    r.members = fun _ => none

def system (hub : ι) (hubName : ν) : Transition.System (Room κ ι ν τ) (Act κ ι ν τ) where
  init := Starts hub hubName
  step := Step hub

end Room

end ENetChat

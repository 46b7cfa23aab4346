import ENetChat.Chat.Events

/-!
# Runs of the program

From `main` on: construction, `run`, and then lines and ENet events one at a
time for as long as every handler completes. The memory of `m_state` is taken
to be zero; `Pointers` says what happens when it is not.
-/

namespace ENetChat

/-- A line that the name prompt takes for a name. -/
structure Nickname where
  line : InputLine
  nonempty : 0 < line.text.length
  notExit : line.text ≠ exitCommand
  deriving DecidableEq

abbrev Nickname.text (n : Nickname) : Bytes := n.line.text

/-- What happens to the application, and what is unspecified in its handler. -/
structure Happening where
  u : Unspecified
  event : AppEvent

/-- From `run` on, one handler at a time. One that halts is the last. -/
def program (u : Unspecified) (hs : List Happening) : AppM Unit := do
  run u
  hs.forM fun h => handle h.u h.event

/-- The application after a list of events, if every handler completed. -/
def ChatApp.after (app : ChatApp) : List Happening → Option ChatApp
  | [] => some app
  | h :: hs =>
    match app.exec (handle h.u h.event) with
    | .ok _ w => w.app.after hs
    | .error _ _ => none

/-- The application on its main menu. -/
def launched (u : Unspecified) (localZero : Bool) : Option ChatApp :=
  match (ChatApp.construct localZero true).exec (run u) with
  | .ok _ w => some w.app
  | .error _ _ => none

/-- The states of the program between its handlers. -/
inductive Reachable (localZero : Bool) : ChatApp → Prop
  | launch : launched u localZero = some app → Reachable localZero app
  | step : Reachable localZero app → app.exec (handle u event) = .ok () w →
      Reachable localZero w.app

/-- `P` holds of every step of a run, up to a step that does not complete. -/
def ChatApp.Along (P : ChatApp → Happening → Prop) (app : ChatApp) : List Happening → Prop
  | [] => True
  | h :: hs => P app h ∧ ∀ w, app.exec (handle h.u h.event) = .ok () w → w.app.Along P hs

def menuLine (s : String) (fits : (ascii s).length < 80 := by decide)
    (noNul : 0 ∉ ascii s := by decide) : InputLine :=
  { text := ascii s, fits, noNul }

def ann : Nickname := ⟨menuLine "Ann", by decide, by decide⟩

/-- Main menu, choice, name. -/
def started (u : Unspecified) (localZero : Bool) (choice : InputLine) (nick : Nickname) :
    Option ChatApp :=
  (launched u localZero).bind
    (·.after [⟨u, .input choice⟩, ⟨u, .input nick.line⟩])

def startHost (u : Unspecified) (localZero : Bool) (nick : Nickname) : Option ChatApp :=
  started u localZero (menuLine "1") nick

def startClient (u : Unspecified) (localZero : Bool) (nick : Nickname) : Option ChatApp :=
  started u localZero (menuLine "2") nick

end ENetChat

import ENetChat.Chat.ChatApp
import Mathlib.Data.List.DropRight

/-!
# The window

`ChatWindow` of `chat/chat_win.{h,cpp}`, by the calls that it makes of curses.
What a terminal makes of them is not part of the model: `Terminal` is what
`newwin` and `getmaxyx` answer, and nothing is assumed of it.

`Panels` is what the window is for: messages in the order they are posted, and
a list of users. What is asked of curses since the last clear is a row for each
of their entries (`asks_after`).
-/

namespace ENetChat

-- ---------------------------------------------------------------------------
-- Curses
-- ---------------------------------------------------------------------------

/-- The pairs of the window. -/
inductive TextColor where
  | white
  | red
  | green
  | cyan
  deriving DecidableEq, Repr

/-- The `COLOR_` constants of curses that the pairs are made of. -/
inductive CursesColor where
  | black
  | white
  | red
  | green
  | cyan
  deriving DecidableEq, Repr

/-- `WINDOW*`, `none` for NULL. -/
abbrev WindowPtr := Option Nat

/-- A call of curses with its arguments. Of the strings for a format, what `%s`
reads. -/
inductive CursesCall where
  | initscr
  | startColor
  | initPair (pair : TextColor) (foreground background : CursesColor)
  | colorSet (pair : TextColor)
  | wcolorSet (win : WindowPtr) (pair : TextColor)
  | mvprintw (y x : Nat) (format : Bytes) (args : List Bytes)
  | mvwprintw (win : WindowPtr) (y x : Nat) (format : Bytes) (args : List Bytes)
  | mvwscanw (win : WindowPtr) (y x : Nat) (format : Bytes)
  | clear
  | wclear (win : WindowPtr)
  | box (win : WindowPtr) (verch horch : Nat)
  | refresh
  | wrefresh (win : WindowPtr)
  | getmaxyx
  | newwin (nlines ncols beginY beginX : Int)
  deriving DecidableEq, Repr

/-- What curses answers to the last of the calls made of it. -/
structure Terminal where
  newwin : List CursesCall → WindowPtr
  getmaxyx : List CursesCall → Int × Int

-- ---------------------------------------------------------------------------
-- ChatWindow
-- ---------------------------------------------------------------------------

structure ChatWindow where
  mMsgWinY : Nat := 1
  mUserWinY : Nat := 1
  mInputwin : WindowPtr := none
  mUserwin : WindowPtr := none
  calls : List CursesCall := []  -- made of curses so far
  deriving DecidableEq, Repr

abbrev WindowM := StateM ChatWindow

/-- What `%s` prints. -/
def cString (s : Bytes) : Bytes := s.takeWhile (· ≠ 0)

namespace ChatWindow

variable (t : Terminal)

def ask (calls : List CursesCall) : WindowM Unit :=
  modify fun w => { w with calls := w.calls ++ calls }

def newwin (nlines ncols beginY beginX : Int) : WindowM WindowPtr := do
  ask [.newwin nlines ncols beginY beginX]
  return t.newwin (← get).calls

def getmaxyx : WindowM (Int × Int) := do
  ask [.getmaxyx]
  return t.getmaxyx (← get).calls

def init : WindowM Unit :=
  ask [.initscr, .startColor, .initPair .white .white .black, .initPair .red .red .black,
    .initPair .green .green .black, .initPair .cyan .cyan .black, .refresh]

/-- Up to the wait for a line. -/
def checkInputBox : WindowM Unit := do
  ask [.wclear (← get).mInputwin, .box (← get).mInputwin 0 0]
  ask [.mvwscanw (← get).mInputwin 1 1 (ascii "%[^\n]")]

/-- What the overloads of `print`, `log` and `error` do. -/
def post (color : TextColor) (format : Bytes) (args : List Bytes) : WindowM Unit := do
  ask [.colorSet color, .mvprintw (← get).mMsgWinY 40 format args, .refresh]
  modify fun w => { w with mMsgWinY := w.mMsgWinY + 1 }

def print (msg : Bytes) : WindowM Unit := post .white (ascii "%s") [cString msg]

def printFrom (username msg : Bytes) (isLocal : Bool) : WindowM Unit :=
  post (if isLocal then .cyan else .white) (ascii "%s: %s") [cString username, cString msg]

def log (msg : Bytes) : WindowM Unit := post .green (ascii "[LOG] %s") [cString msg]

def error (msg : Bytes) : WindowM Unit := post .red (ascii "[ERROR] %s") [cString msg]

def clearMessages : WindowM Unit := do
  ask [.clear]
  let (yMax, xMax) ← getmaxyx t
  let win ← newwin t 3 (xMax - 10) (yMax - 4) 5
  modify fun w => { w with mInputwin := win }
  ask [.wcolorSet win .white, .box win 0 0, .refresh, .wrefresh win]
  modify fun w => { w with mMsgWinY := 1 }

def clearUserList : WindowM Unit := do
  ask [.wclear (← get).mUserwin]
  let win ← newwin t 24 30 1 5
  modify fun w => { w with mUserwin := win }
  ask [.wcolorSet win .white, .box win 0 0, .refresh, .wrefresh win]
  modify fun w => { w with mUserWinY := 1 }

def clearAll : WindowM Unit := do
  clearMessages t
  clearUserList t

def addUser (username : Bytes) (isLocal : Bool) : WindowM Unit := do
  let win := (← get).mUserwin
  ask [.wcolorSet win (if isLocal then .cyan else .white),
    .mvwprintw win (← get).mUserWinY 2 (if isLocal then ascii "*%s" else ascii "%s")
      [cString username], .wrefresh win]
  modify fun w => { w with mUserWinY := w.mUserWinY + 1 }

/-- The call of a handler's. -/
def call : WindowCall → WindowM Unit
  | .init => init
  | .print msg => print msg
  | .printFrom username msg isLocal => printFrom username msg isLocal
  | .log msg => log msg
  | .error msg => error msg
  | .clearAll => clearAll t
  | .clearUserList => clearUserList t
  | .addUser username isLocal => addUser username isLocal

end ChatWindow

/-- What the two threads do to the window: a handler's effect, or the input
thread waits for the next line. -/
inductive WindowStep where
  | effect (effect : Effect)
  | checkInputBox

def WindowStep.effect? : WindowStep → Option Effect
  | .effect e => some e
  | .checkInputBox => none

namespace ChatWindow

def step (t : Terminal) (w : ChatWindow) : WindowStep → ChatWindow
  | .effect (.window c) => ((call t c).run w).2
  | .effect (.enet _) => w
  | .checkInputBox => (checkInputBox.run w).2

def after (t : Terminal) (steps : List WindowStep) : ChatWindow := steps.foldl (step t) {}

end ChatWindow

-- ---------------------------------------------------------------------------
-- Panels
-- ---------------------------------------------------------------------------

structure Post where
  color : TextColor
  format : Bytes
  args : List Bytes
  deriving DecidableEq, Repr

/-- What has been posted, and which users have been added (with whether they
are local), since the last clear; `none` before there is a list of users. -/
structure Panels where
  messages : List Post := []
  users : Option (List (Bytes × Bool)) := none
  deriving DecidableEq, Repr

namespace Panels

def post (color : TextColor) (format : Bytes) (args : List Bytes) (p : Panels) : Panels :=
  { p with messages := p.messages ++ [⟨color, format, args⟩] }

def call (p : Panels) : WindowCall → Panels
  | .init => p
  | .print msg => p.post .white (ascii "%s") [cString msg]
  | .printFrom username msg isLocal =>
    p.post (if isLocal then .cyan else .white) (ascii "%s: %s") [cString username, cString msg]
  | .log msg => p.post .green (ascii "[LOG] %s") [cString msg]
  | .error msg => p.post .red (ascii "[ERROR] %s") [cString msg]
  | .clearAll => { messages := [], users := some [] }
  | .clearUserList => { p with users := some [] }
  | .addUser username isLocal => { p with users := p.users.map (· ++ [(username, isLocal)]) }

def act (p : Panels) : Effect → Panels
  | .window c => p.call c
  | .enet _ => p

/-- The panels after the effects of some handlers. -/
def after (out : List Effect) : Panels := out.foldl act {}

end Panels

-- ---------------------------------------------------------------------------
-- What is asked of curses
-- ---------------------------------------------------------------------------

namespace CursesCall

def isClear : CursesCall → Bool
  | .clear => true
  | _ => false

def isRefresh : CursesCall → Bool
  | .refresh => true
  | _ => false

def isNewwin : CursesCall → Bool
  | .newwin .. => true
  | _ => false

/-- Is about the text of `stdscr`. -/
def isMessage : CursesCall → Bool
  | .colorSet _ => true
  | .mvprintw .. => true
  | _ => false

/-- Is about the text of a window. -/
def isListing : CursesCall → Bool
  | .wcolorSet .. => true
  | .mvwprintw .. => true
  | .wrefresh _ => true
  | _ => false

end CursesCall

open CursesCall

/-- Those calls of `q` that come after the last one of `p`. -/
def since (p q : CursesCall → Bool) (calls : List CursesCall) : List CursesCall :=
  (calls.rtakeWhile (!p ·)).filter q

/-- What `stdscr` is to show since it was cleared. -/
def messageCalls : List CursesCall → List CursesCall := since isClear isMessage

/-- What it has not been asked to show yet. -/
def unrefreshed : List CursesCall → List CursesCall := since isRefresh isMessage

/-- What the last window that was made is to show. -/
def userCalls : List CursesCall → List CursesCall := since isNewwin isListing

/-- The `k`th message from the top. -/
def Post.calls (k : Nat) (post : Post) : List CursesCall :=
  [.colorSet post.color, .mvprintw (k + 1) 40 post.format post.args]

/-- The `k`th user from the top. -/
def entryCalls (win : WindowPtr) (k : Nat) (user : Bytes × Bool) : List CursesCall :=
  [.wcolorSet win (if user.2 then .cyan else .white),
    .mvwprintw win (k + 1) 2 (if user.2 then ascii "*%s" else ascii "%s") [cString user.1],
    .wrefresh win]

/-- A row for each message. -/
def postScript (messages : List Post) : List CursesCall := (messages.mapIdx Post.calls).flatten

/-- A new window, and a row for each user. -/
def listScript (win : WindowPtr) (users : List (Bytes × Bool)) : List CursesCall :=
  .wcolorSet win .white :: .wrefresh win :: (users.mapIdx (entryCalls win)).flatten

section Since

variable {p q : CursesCall → Bool} {calls new : List CursesCall} {last : CursesCall}

theorem since_concat_self (h : p last = true) : since p q (calls ++ [last]) = [] := by
  simp [since, h]

theorem since_concat (h : p last = false) :
    since p q (calls ++ [last]) = since p q calls ++ [last].filter q := by
  simp [since, h]

/-- Where the calls made last have one of `p`, only they count. -/
theorem since_append : since p q (calls ++ new) =
    if new.any p then since p q new else since p q calls ++ new.filter q := by
  induction new using List.reverseRecOn with
  | nil => simp
  | append_singleton new last ih =>
    rw [← List.append_assoc]
    cases hlast : p last with
    | true =>
      rw [since_concat_self hlast, since_concat_self hlast]
      simp [hlast]
    | false =>
      rw [since_concat hlast, since_concat hlast, ih, List.any_append, List.filter_append]
      split <;> simp_all

theorem since_skip (hp : new.any p = false) (hq : new.filter q = []) :
    since p q (calls ++ new) = since p q calls := by
  rw [since_append, hp, hq, List.append_nil]
  rfl

end Since

theorem postScript_concat (messages : List Post) (post : Post) :
    postScript (messages ++ [post]) = postScript messages ++ post.calls messages.length := by
  simp [postScript, List.mapIdx_append]

theorem listScript_concat (win : WindowPtr) (users : List (Bytes × Bool)) (user : Bytes × Bool) :
    listScript win (users ++ [user]) =
      listScript win users ++ entryCalls win users.length user := by
  simp [listScript, List.mapIdx_append]

namespace ChatWindow

/-- What is asked of curses is what the panels say. -/
structure Asks (w : ChatWindow) (p : Panels) : Prop where
  messages : messageCalls w.calls = postScript p.messages
  refreshed : unrefreshed w.calls = []
  msgWinY : w.mMsgWinY = p.messages.length + 1
  users : ∀ users, p.users = some users → userCalls w.calls = listScript w.mUserwin users
  userWinY : ∀ users, p.users = some users → w.mUserWinY = users.length + 1

variable {t : Terminal} {w : ChatWindow} {p : Panels}

theorem clearMessages_calls : ∃ ncols beginY win, ((clearMessages t).run w).2.calls = w.calls ++
    [.clear, .getmaxyx, .newwin 3 ncols beginY 5, .wcolorSet win .white, .box win 0 0, .refresh,
      .wrefresh win] := by
  let max := t.getmaxyx (w.calls ++ [.clear] ++ [.getmaxyx])
  refine ⟨max.2 - 10, max.1 - 4, ((clearMessages t).run w).2.mInputwin, ?_⟩
  show w.calls ++ [.clear] ++ [.getmaxyx] ++ [.newwin 3 _ _ 5] ++ [_, _, _, _] = _
  rw [List.append_assoc, List.append_assoc, List.append_assoc]
  rfl

theorem clearUserList_calls {w : ChatWindow} : ∀ win, ((clearUserList t).run w).2.mUserwin = win →
    ((clearUserList t).run w).2.calls = w.calls ++ [.wclear w.mUserwin, .newwin 24 30 1 5,
      .wcolorSet win .white, .box win 0 0, .refresh, .wrefresh win] := by
  rintro _ rfl
  show w.calls ++ [.wclear w.mUserwin] ++ [.newwin 24 30 1 5] ++ [_, _, _, _] = _
  rw [List.append_assoc, List.append_assoc]
  rfl

theorem Asks.init (h : w.Asks p) : (init.run w).2.Asks p := by
  refine ⟨(since_skip rfl rfl).trans h.messages, since_append, h.msgWinY, fun users hu => ?_,
    h.userWinY⟩
  exact (since_skip rfl rfl).trans (h.users users hu)

theorem Asks.post (h : w.Asks p) (color : TextColor) (format : Bytes) (args : List Bytes) :
    ((post color format args).run w).2.Asks (p.post color format args) := by
  refine ⟨since_append.trans ?_, since_append, ?_, fun users hu => ?_, h.userWinY⟩
  · show messageCalls w.calls ++ [.colorSet color, .mvprintw w.mMsgWinY 40 format args] = _
    rw [h.messages, h.msgWinY, Panels.post, postScript_concat]
    rfl
  · show w.mMsgWinY + 1 = _
    rw [h.msgWinY, Panels.post, List.length_append]
    rfl
  · exact (since_skip rfl rfl).trans (h.users users hu)

/-- Waiting for a line asks for nothing in the panels. -/
theorem Asks.checkInputBox (h : w.Asks p) : (checkInputBox.run w).2.Asks p := by
  have hcalls : (ChatWindow.checkInputBox.run w).2.calls = w.calls ++
      [.wclear w.mInputwin, .box w.mInputwin 0 0,
        .mvwscanw w.mInputwin 1 1 (ascii "%[^\n]")] := List.append_assoc ..
  refine ⟨?_, ?_, h.msgWinY, fun users hu => ?_, h.userWinY⟩
  · rw [hcalls]
    exact (since_skip rfl rfl).trans h.messages
  · rw [hcalls]
    exact (since_skip rfl rfl).trans h.refreshed
  · rw [hcalls]
    exact (since_skip rfl rfl).trans (h.users users hu)

theorem asks_clearMessages : ((clearMessages t).run w).2.Asks {} := by
  obtain ⟨ncols, beginY, win, hcalls⟩ := clearMessages_calls (t := t) (w := w)
  refine ⟨?_, ?_, rfl, nofun, nofun⟩
  · rw [hcalls]
    exact since_append
  · rw [hcalls]
    exact since_append

theorem Asks.clearUserList (h : w.Asks p) :
    ((clearUserList t).run w).2.Asks { p with users := some [] } := by
  have hcalls := clearUserList_calls (t := t) (w := w) _ rfl
  refine ⟨?_, ?_, h.msgWinY, ?_, ?_⟩
  · rw [hcalls]
    exact (since_skip rfl rfl).trans h.messages
  · rw [hcalls]
    exact since_append
  · rintro users ⟨⟩
    rw [hcalls]
    exact since_append
  · rintro users ⟨⟩
    rfl

theorem Asks.addUser (h : w.Asks p) (username : Bytes) (isLocal : Bool) :
    ((addUser username isLocal).run w).2.Asks (p.call (.addUser username isLocal)) := by
  refine ⟨(since_skip rfl rfl).trans h.messages, (since_skip rfl rfl).trans h.refreshed,
    h.msgWinY, ?_, ?_⟩
  · intro users hu
    obtain ⟨before, hbefore, rfl⟩ := Option.map_eq_some_iff.mp hu
    refine since_append.trans ?_
    show userCalls w.calls ++ [_, _, _] = listScript w.mUserwin _
    rw [h.users before hbefore, h.userWinY before hbefore, listScript_concat]
    rfl
  · intro users hu
    obtain ⟨before, hbefore, rfl⟩ := Option.map_eq_some_iff.mp hu
    show w.mUserWinY + 1 = _
    rw [h.userWinY before hbefore, List.length_append]
    rfl

theorem Asks.step (h : w.Asks p) (step : WindowStep) :
    (w.step t step).Asks (step.effect?.elim p p.act) := by
  cases step with
  | checkInputBox => exact h.checkInputBox
  | effect e =>
    cases e with
    | enet call => exact h
    | window call =>
      cases call with
      | init => exact h.init
      | print msg => exact h.post _ _ _
      | printFrom username msg isLocal => exact h.post _ _ _
      | log msg => exact h.post _ _ _
      | error msg => exact h.post _ _ _
      | clearAll => exact asks_clearMessages.clearUserList
      | clearUserList => exact h.clearUserList
      | addUser username isLocal => exact h.addUser username isLocal

/-- Whatever is posted and listed, whenever the input thread waits for a line,
and whatever curses answers. -/
theorem asks_panels (t : Terminal) (steps : List WindowStep) :
    (after t steps).Asks (Panels.after (steps.filterMap WindowStep.effect?)) := by
  induction steps using List.reverseRecOn with
  | nil => exact ⟨rfl, rfl, rfl, nofun, nofun⟩
  | append_singleton steps step ih =>
    have hnext := ih.step (t := t) step
    rw [after, List.foldl_append, List.filterMap_append, Panels.after, List.foldl_append]
    cases step with
    | effect e => exact hnext
    | checkInputBox => exact hnext

/-- Since the last clear one message in each row from row 1 on, none of them
still to be shown, and since the last list of users one user in each row. -/
theorem asks_after (t : Terminal) (steps : List WindowStep) :
    let w := after t steps
    let p := Panels.after (steps.filterMap WindowStep.effect?)
    messageCalls w.calls = postScript p.messages ∧ unrefreshed w.calls = [] ∧
      ∀ users, p.users = some users → userCalls w.calls = listScript w.mUserwin users :=
  have h := asks_panels t steps
  ⟨h.messages, h.refreshed, h.users⟩

end ChatWindow

end ENetChat

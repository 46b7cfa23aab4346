import ENetChat.Chat.HostSteps
import ENetChat.Chat.Online
import ENetChat.Chat.ProgramLaws

/-!
# Modes

What the lines of a run make of the application. The first line that the main
menu takes and the line after it settle whether it goes online, as a host or
as a client, and under which nickname; from then on `Online` holds, and
`QuitState` is left no more. `modes_consistent` puts this together, of a whole
run up to its end or its halt.
-/

namespace ENetChat

open Exec

-- ---------------------------------------------------------------------------
-- Lines
-- ---------------------------------------------------------------------------

def AppEvent.line? : AppEvent → Option Bytes
  | .input line => if line.text = [] then none else some line.text
  | .network _ => none

/-- The non-empty lines of a run. -/
def inputLines (hs : List Happening) : List Bytes := hs.filterMap (·.event.line?)

/-- `HOST`, `JOIN` and `QUIT`. -/
def menu : List Bytes := [ascii "1", ascii "2", ascii "3"]

/-- The lines from the first one that the main menu takes. -/
def fromMenu (lines : List Bytes) : List Bytes := lines.dropWhile (· ∉ menu)

/-- The first line that the menu takes is `choice`, and the next one is `name`
and not "/exit". -/
def Chooses (lines : List Bytes) (choice name : Bytes) : Prop :=
  ∃ rest, fromMenu lines = choice :: name :: rest ∧ name ≠ exitCommand

-- ---------------------------------------------------------------------------
-- Consistency
-- ---------------------------------------------------------------------------

/-- Run from `s`, `m` comes to `call` in the world `w`. -/
def ComesTo (m : AppM Unit) (s : World) (call : AppM Unit) (w : World) : Prop :=
  ∃ (α : Type) (before : AppM α) (after : α → AppM Unit) (a : α) (rest : Unit → AppM Unit),
    m = before >>= after ∧ before.run s = .ok a w ∧ after a = call >>= rest

-- The one call that this handler makes, with the nickname it has read.
example (u : Unspecified) (peerId : PeerId) (address : Address) (w : World) :
    ComesTo (ChatStateClient.receiveConnectionEvent u peerId address) w
      (send u 0 (.username { username := w.app.mConfig.nickname })) w :=
  ⟨_, getApp, _, w.app, pure, rfl, rfl, by simp⟩

/-- What the lines of a run have to do with where it ends or halts. -/
structure Consistent (lines : List Bytes) (m : AppM Unit) (s : World) : Prop where
  once : (wrappers (worldOf (m.run s)).out).length ≤ 1
  host : true ∈ wrappers (worldOf (m.run s)).out ↔ ∃ name, Chooses lines (ascii "1") name
  client : false ∈ wrappers (worldOf (m.run s)).out ↔ ∃ name, Chooses lines (ascii "2") name
  hostName : Chooses lines (ascii "1") name →
    (worldOf (m.run s)).app.mConfig.nickname = name ∧
      (worldOf (m.run s)).app.mUsers.name? 0 = some name
  clientName : Chooses lines (ascii "2") name →
    (worldOf (m.run s)).app.mConfig.nickname = name ∧ Introduces name (worldOf (m.run s)).out
  send : ComesTo m s (send u userId pkg) w → w.app.mEnet.isSome
  broadcast : ComesTo m s (broadcast u pkg) w → w.app.mEnet.isSome
  quit : (worldOf (m.run s)).app.mQuit = true ↔ (worldOf (m.run s)).app.mState = .to .quitState

/-- Neither the state nor the users have changed, and nothing has been done
outside. -/
structure Still (w w' : World) : Prop where
  state : w'.app.mState = w.app.mState
  users : w'.app.mUsers = w.app.mUsers
  out : w'.out = w.out

-- ---------------------------------------------------------------------------
-- The prompts
-- ---------------------------------------------------------------------------

/-- On the main menu. -/
structure Choosing (w : World) : Prop where
  prompting : Prompting w.app
  state : w.app.mState = .to .promptStateConn
  connAsHost : w.app.mConfig.connAsHost = false
  modest : ∀ asHost nick, Modest asHost nick w.out

structure Naming (asHost : Bool) (w : World) : Prop where
  prompting : Prompting w.app
  state : w.app.mState = .to .promptStateName
  connAsHost : w.app.mConfig.connAsHost = asHost
  modest : ∀ asHost nick, Modest asHost nick w.out

/-- Quit without having been online. -/
structure Offline (w : World) : Prop where
  state : w.app.mState = .to .quitState
  quit : w.app.mQuit = true
  enet : w.app.mEnet = none
  modest : ∀ asHost nick, Modest asHost nick w.out

/-- The line that chooses to host or to join. -/
def choiceLine (asHost : Bool) : Bytes := if asHost then ascii "1" else ascii "2"

/-- Where the answers have led. -/
inductive Mode : List Bytes → World → Prop
  | choosing : Choosing w → Mode [] w
  | naming : Naming asHost w → Mode [choiceLine asHost] w
  | quit : Offline w → Mode (ascii "3" :: rest) w
  | exit : Offline w → Mode (choiceLine asHost :: exitCommand :: rest) w
  | online : name ≠ exitCommand → Online asHost name w →
      Mode (choiceLine asHost :: name :: rest) w

variable {u : Unspecified} {z asHost : Bool} {name choice : Bytes} {w : World} {app : ChatApp}
  {out : List Effect} {event : AppEvent} {lines : List Bytes} {m : AppM Unit} {s : World}

theorem handle_idle (hs : app.mState = .to state) (hw : app.mEnet = none)
    (hl : app.mQuit = true ∨ event.line? = none) :
    (handle u event).run ⟨app, out⟩ = .ok () ⟨app, out⟩ := by
  cases event with
  | network ev => exact handle_network_none hw
  | input line =>
    refine handle_input_skip hs (hl.imp_right fun hnone => ?_)
    by_cases ht : line.text = []
    · rw [ht]
      rfl
    · rw [AppEvent.line?, if_neg ht] at hnone
      cases hnone

theorem line?_eq_some (h : event.line? = some text) :
    ∃ line : InputLine, event = .input line ∧ line.text = text ∧ 0 < line.text.length := by
  cases event with
  | network ev => cases h
  | input line =>
    rw [AppEvent.line?] at h
    split at h
    · cases h
    · next ht => exact ⟨line, rfl, Option.some.inj h, List.length_pos_iff.mpr ht⟩

theorem inputLines_skip (h : x.event.line? = none) : inputLines (x :: hs) = inputLines hs := by
  simp [inputLines, h]

theorem inputLines_cons (h : x.event.line? = some line) :
    inputLines (x :: hs) = line :: inputLines hs := by
  simp [inputLines, h]

theorem fromMenu_of_mem (h : line ∈ menu) : fromMenu (line :: lines) = line :: lines := by
  simp [fromMenu, h]

theorem fromMenu_of_not_mem (h : line ∉ menu) : fromMenu (line :: lines) = fromMenu lines := by
  simp [fromMenu, h]

theorem menu_cases (h : line ∈ menu) : (∃ asHost, line = choiceLine asHost) ∨ line = ascii "3" := by
  simp only [menu, List.mem_cons, List.not_mem_nil, or_false] at h
  obtain h | h | h := h
  · exact .inl ⟨true, h⟩
  · exact .inl ⟨false, h⟩
  · exact .inr h

theorem Choosing.choose (u : Unspecified) (h : Choosing w) (line : InputLine)
    (hl : line.text = choiceLine asHost) :
    ∃ w', (handle u (.input line)).run w = .ok () w' ∧ Naming asHost w' := by
  obtain ⟨app, out⟩ := w
  have hp := h.prompting
  have hne : 0 < line.text.length := by
    rw [hl]
    cases asHost <;> decide
  rw [handle_input_run h.state hp.quit hne, State.handleInput, PromptStateConn.handleInput, hl]
  have hcleared (b : Bool) (nick : Bytes) := (h.modest b nick).append (modest_window .clearAll)
  have hasked (b : Bool) (nick : Bytes) := (hcleared b nick).append
    (modest_window (.print (ascii "Please Enter Your Username...")))
  cases asHost with
  | true =>
    have hgo := goToState_run (u := u) (s := .promptStateName)
      { app with mConfig := { app.mConfig with connAsHost := true } } out h.state
    exact ⟨_, hgo, ⟨hp.enet, hp.users, hp.quit, hp.pointer⟩, rfl, rfl, hasked⟩
  | false =>
    have hgo := goToState_run (u := u) (s := .promptStateName) app out h.state
    exact ⟨_, hgo, ⟨hp.enet, hp.users, hp.quit, hp.pointer⟩, rfl, h.connAsHost, hasked⟩

theorem goToState_quit_offline (hs : app.mState = .to state) (hw : app.mEnet = none)
    (hm : ∀ asHost nick, Modest asHost nick out) :
    ∃ w', (goToState u .quitState).run ⟨app, out⟩ = .ok () w' ∧ Offline w' :=
  ⟨_, goToState_quit hs, rfl, rfl, hw, fun b nick => (hm b nick).append (modest_quitEffects app)⟩

theorem Choosing.leave (u : Unspecified) (h : Choosing w) (line : InputLine)
    (hl : line.text = ascii "3") :
    ∃ w', (handle u (.input line)).run w = .ok () w' ∧ Offline w' := by
  obtain ⟨app, out⟩ := w
  have hne : 0 < line.text.length := by
    rw [hl]
    decide
  rw [handle_input_run h.state h.prompting.quit hne, State.handleInput, PromptStateConn.handleInput,
    hl]
  exact goToState_quit_offline h.state h.prompting.enet h.modest

/-- The menu takes no other line. -/
theorem Choosing.ignore (u : Unspecified) (h : Choosing w) (line : InputLine)
    (hl : line.text ∉ menu) (hne : 0 < line.text.length) :
    (handle u (.input line)).run w = .ok () w := by
  obtain ⟨app, out⟩ := w
  simp only [menu, List.mem_cons, List.not_mem_nil, or_false, not_or] at hl
  rw [handle_input_run h.state h.prompting.quit hne]
  simp only [State.handleInput, PromptStateConn.handleInput, hl, if_false, EStateM.run_pure]

theorem Naming.leave (u : Unspecified) (h : Naming asHost w) (line : InputLine)
    (hl : line.text = exitCommand) :
    ∃ w', (handle u (.input line)).run w = .ok () w' ∧ Offline w' := by
  obtain ⟨app, out⟩ := w
  have hne : 0 < line.text.length := by
    rw [hl]
    decide
  rw [handle_input_run h.state h.prompting.quit hne, State.handleInput, PromptStateName.handleInput,
    if_pos hl]
  exact goToState_quit_offline h.state h.prompting.enet h.modest

theorem online_hosting (h : Prompting app) (hs : app.mState = .to .chatStateHost)
    (hn : app.mConfig.nickname.length < 80) (hm : Modest true app.mConfig.nickname out) :
    Online true app.mConfig.nickname ⟨app.hosting u, out ++ hostOpening u app⟩ := by
  have hopen := hosting_opened (u := u) h hs hn
  refine ⟨?_, by simp, rfl, ?_, hn, hopen.tidy, fun _ => ?_, .inl ⟨hopen.state, hopen.quit⟩⟩
  · rw [wrappers_append, hm.wrappers, hostOpening, wrappers_window, wrappers_append,
      wrappers_listCalls]
    rfl
  · rw [hosting_eq h]
    rfl
  · rw [UserMap.name?, hopen.user?_zero]
    rfl

theorem online_joining (h : Prompting app) (hs : app.mState = .to .chatStateClient)
    (hn : app.mConfig.nickname.length < 80) (hm : Modest false app.mConfig.nickname out) :
    Online false app.mConfig.nickname ⟨{ app with mEnet := some {} }, out ++ clientOpening⟩ := by
  refine ⟨?_, fun _ => ?_, rfl, rfl, hn, tidy_withNet h.tidy, by simp, .inl ⟨hs, h.quit⟩⟩
  · rw [wrappers_append, hm.wrappers]
    rfl
  · exact (hm.introduced rfl).append (by simp [Introduces, clientOpening])

/-- The name is taken, and the wrapper made. -/
theorem Naming.enter (u : Unspecified) (h : Naming asHost w) (line : InputLine)
    (hl : line.text ≠ exitCommand) (hne : 0 < line.text.length) :
    ∃ w', (handle u (.input line)).run w = .ok () w' ∧ Online asHost line.text w' := by
  obtain ⟨app, out⟩ := w
  have hp := h.prompting
  rw [handle_input_run h.state hp.quit hne, State.handleInput, name_run h.state hl, h.connAsHost]
  have hnamed := named_prompting line.text (chatState asHost) hp
  have hcleared := (h.modest asHost line.text).append (modest_window .clearAll)
  cases asHost with
  | true => exact ⟨_, host_begin_run _ hnamed, online_hosting hnamed rfl line.fits hcleared⟩
  | false => exact ⟨_, client_begin_run _ _, online_joining hnamed rfl line.fits hcleared⟩

-- ---------------------------------------------------------------------------
-- Runs
-- ---------------------------------------------------------------------------

/-- A run that halts has been online. -/
abbrev Leads (hs : List Happening) (w : World) (lines : List Bytes) : Prop :=
  Triple (hs.forM fun h => handle h.u h.event) w (fun _ => Mode lines)
    fun _ w' => Mode lines w' ∧ w'.app.mEnet.isSome

theorem online_leads (hs : List Happening) (hname : name ≠ exitCommand)
    (h : Online asHost name w) : Leads hs w (choiceLine asHost :: name :: rest) := by
  have hkeeps : Keeps (Online asHost name) (hs.forM fun h => handle h.u h.event) :=
    Keeps.forM hs fun h => online_handle h.event
  exact (hkeeps w h).mono (fun _ w' h' => .online hname h') fun _ w' h' =>
    ⟨.online hname h', h'.enet⟩

/-- Nothing happens to an application that has quit and was never online. -/
theorem offline_run (hs : List Happening) (h : Offline w) :
    (hs.forM fun h => handle h.u h.event).run w = .ok () w := by
  induction hs with
  | nil => rfl
  | cons x hs ih =>
    have hidle : (handle x.u x.event).run w = .ok () w := handle_idle h.state h.enet (.inl h.quit)
    rw [run_forM_cons, EStateM.run_bind, hidle]
    exact ih

theorem leads_cons (hstep : (handle x.u x.event).run w = .ok () w') (h : Leads hs w' lines) :
    Leads (x :: hs) w lines := by
  have hrun : ((x :: hs).forM fun h => handle h.u h.event).run w =
      (hs.forM fun h => handle h.u h.event).run w' := by
    rw [run_forM_cons, EStateM.run_bind, hstep]
  exact Triple.of_eq hrun h

theorem naming_leads (h : Naming asHost w) (hs : List Happening) :
    Leads hs w (choiceLine asHost :: inputLines hs) := by
  induction hs with
  | nil => exact Triple.pure' (.naming h)
  | cons x hs ih =>
    obtain ⟨u, event⟩ := x
    cases hx : event.line? with
    | none =>
      rw [inputLines_skip hx]
      exact leads_cons (handle_idle h.state h.prompting.enet (.inr hx)) ih
    | some text =>
      rw [inputLines_cons hx]
      obtain ⟨line, rfl, rfl, hne⟩ := line?_eq_some hx
      by_cases hi : line.text = exitCommand
      · obtain ⟨w', hrun, hoff⟩ := h.leave u line hi
        rw [hi]
        exact leads_cons hrun (Triple.of_run (offline_run hs hoff) (.exit hoff))
      · obtain ⟨w', hrun, hon⟩ := h.enter u line hi hne
        exact leads_cons hrun (online_leads hs hi hon)

theorem choosing_leads (h : Choosing w) (hs : List Happening) :
    Leads hs w (fromMenu (inputLines hs)) := by
  induction hs with
  | nil => exact Triple.pure' (.choosing h)
  | cons x hs ih =>
    obtain ⟨u, event⟩ := x
    cases hx : event.line? with
    | none =>
      rw [inputLines_skip hx]
      exact leads_cons (handle_idle h.state h.prompting.enet (.inr hx)) ih
    | some text =>
      rw [inputLines_cons hx]
      obtain ⟨line, rfl, rfl, hne⟩ := line?_eq_some hx
      by_cases hm : line.text ∈ menu
      · rw [fromMenu_of_mem hm]
        obtain ⟨asHost, hl⟩ | hl := menu_cases hm
        · obtain ⟨w', hrun, hname⟩ := h.choose u line hl
          rw [hl]
          exact leads_cons hrun (naming_leads hname hs)
        · obtain ⟨w', hrun, hoff⟩ := h.leave u line hl
          rw [hl]
          exact leads_cons hrun (Triple.of_run (offline_run hs hoff) (.quit hoff))
      · rw [fromMenu_of_not_mem hm]
        exact leads_cons (h.ignore u line hm hne) ih

theorem run_choosing (u : Unspecified) (z : Bool) :
    ∃ w, (run u).run { app := ChatApp.construct z true } = .ok () w ∧ Choosing w := by
  have hm (b : Bool) (nick : Bytes) : Modest b nick ([.window .init, .window .clearAll] ++
      ["Please select an option:", "1. Host", "2. Join", "3. Exit"].map
        fun msg => .window (.print (ascii msg))) := ⟨rfl, by simp [Introduces]⟩
  cases z <;> exact ⟨_, rfl, launchedApp_prompting, rfl, rfl, hm⟩

/-- Where a run of the program ends or halts. -/
theorem program_mode (u : Unspecified) (z : Bool) (hs : List Happening) :
    Triple (program u hs) { app := ChatApp.construct z true }
      (fun _ => Mode (fromMenu (inputLines hs)))
      fun _ w => Mode (fromMenu (inputLines hs)) w ∧ w.app.mEnet.isSome := by
  obtain ⟨w, hrun, hw⟩ := run_choosing u z
  refine Triple.bind (P := fun _ w' => w' = w) (Triple.of_run hrun rfl) fun _ w' hw' => ?_
  rw [hw']
  exact choosing_leads hw hs

-- ---------------------------------------------------------------------------
-- What a mode tells
-- ---------------------------------------------------------------------------

/-- Online under the answers, or never online: then nothing was chosen. -/
theorem Mode.cases (h : Mode (fromMenu lines) w) :
    (∃ asHost name, Online asHost name w ∧
      ∀ choice name', Chooses lines choice name' ↔ choice = choiceLine asHost ∧ name' = name) ∨
    (wrappers w.out = [] ∧ (w.app.mQuit = true ↔ w.app.mState = .to .quitState) ∧
      ∀ asHost name, ¬ Chooses lines (choiceLine asHost) name) := by
  have hchooses (choice name : Bytes) : Chooses lines choice name ↔
      ∃ rest, fromMenu lines = choice :: name :: rest ∧ name ≠ exitCommand := Iff.rfl
  simp only [hchooses]
  generalize fromMenu lines = ls at h
  have hthree : ∀ b, choiceLine b ≠ ascii "3" := by decide
  cases h with
  | choosing h =>
    exact .inr ⟨(h.modest true []).wrappers, by simp [h.prompting.quit, h.state], by simp⟩
  | naming h =>
    exact .inr ⟨(h.modest true []).wrappers, by simp [h.prompting.quit, h.state], by simp⟩
  | quit h =>
    refine .inr ⟨(h.modest true []).wrappers, by simp [h.quit, h.state], ?_⟩
    rintro b name ⟨rest, heq, -⟩
    exact hthree b (List.cons.inj heq).1.symm
  | exit h =>
    refine .inr ⟨(h.modest true []).wrappers, by simp [h.quit, h.state], ?_⟩
    rintro b name ⟨rest, heq, hne⟩
    exact hne (List.cons.inj (List.cons.inj heq).2).1.symm
  | online hne h =>
    refine .inl ⟨_, _, h, fun choice name' => ?_⟩
    constructor
    · rintro ⟨rest, heq, -⟩
      cases heq
      exact ⟨rfl, rfl⟩
    · rintro ⟨rfl, rfl⟩
      exact ⟨_, rfl, hne⟩

/-- Without a wrapper what is to be sent halts the run there. -/
theorem enet_null {call : Bytes → ENetWrapper → List ENetCall} (u : Unspecified) (pkg : Package)
    (h : w.app.mEnet = none) :
    ∃ halt, (serialized u pkg >>= fun buf => enet (call buf)).run w = .error halt w := by
  obtain ⟨app, out⟩ := w
  unfold serialized
  split
  · exact ⟨_, by simp [enet, show app.mEnet = none from h]; rfl⟩
  · exact ⟨_, rfl⟩

theorem ComesTo.enet {call : AppM Unit} (h : ComesTo m s call w)
    (hnull : w.app.mEnet = none → ∃ halt, call.run w = .error halt w)
    (hhalt : ∀ halt w', m.run s = .error halt w' → w'.app.mEnet.isSome) : w.app.mEnet.isSome := by
  by_contra hno
  obtain ⟨_, before, after, a, rest, rfl, hbefore, hafter⟩ := h
  obtain ⟨halt, hcall⟩ := hnull (Option.not_isSome_iff_eq_none.mp hno)
  refine hno (hhalt halt w ?_)
  simp only [EStateM.run_bind, hbefore, hafter, hcall]

theorem Mode.consistent (h : Mode (fromMenu lines) (worldOf (m.run s)))
    (hhalt : ∀ halt w', m.run s = .error halt w' → w'.app.mEnet.isSome) :
    Consistent lines m s := by
  have hsend {u userId pkg w} (hc : ComesTo m s (send u userId pkg) w) : w.app.mEnet.isSome :=
    hc.enet (fun hw => enet_null u pkg hw) hhalt
  have hbroadcast {u pkg w} (hc : ComesTo m s (broadcast u pkg) w) : w.app.mEnet.isSome :=
    hc.enet (fun hw => enet_null u pkg hw) hhalt
  obtain ⟨asHost, name, hon, hiff⟩ | ⟨hnone, hquit, hno⟩ := h.cases
  · have hchoice (b : Bool) (name' : Bytes) :
        Chooses lines (choiceLine b) name' ↔ b = asHost ∧ name' = name := by
      rw [hiff]
      refine and_congr_left' ?_
      cases b <;> cases asHost <;> decide
    have hmem (b : Bool) : b ∈ wrappers (worldOf (m.run s)).out ↔
        ∃ name', Chooses lines (choiceLine b) name' := by
      simp only [hon.wrappers, List.mem_singleton, hchoice, exists_and_left, exists_eq, and_true]
    refine ⟨by rw [hon.wrappers]; rfl, hmem true, hmem false, fun hc => ?_, fun hc => ?_, hsend,
      hbroadcast, ?_⟩
    · obtain ⟨rfl, rfl⟩ := (hchoice true _).mp hc
      exact ⟨hon.nickname, hon.me rfl⟩
    · obtain ⟨rfl, rfl⟩ := (hchoice false _).mp hc
      exact ⟨hon.nickname, hon.introduced rfl⟩
    · obtain ⟨hs, hq⟩ | ⟨hs, hq⟩ := hon.state
      · cases asHost <;> simp [hs, hq, chatState]
      · simp [hs, hq]
  · have hmem (b : Bool) : b ∈ wrappers (worldOf (m.run s)).out ↔
        ∃ name', Chooses lines (choiceLine b) name' := by
      simp [hnone, hno]
    exact ⟨by simp [hnone], hmem true, hmem false, fun hc => absurd hc (hno true _),
      fun hc => absurd hc (hno false _), hsend, hbroadcast, hquit⟩

-- ---------------------------------------------------------------------------
-- Whole runs
-- ---------------------------------------------------------------------------

theorem still_run (hs' : List Happening) (h : w.app.mState = .to .quitState) :
    Triple (hs'.forM fun h => handle h.u h.event) w (fun _ => Still w) fun _ => Still w := by
  have hkeeps : Keeps (Still w) (hs'.forM fun h => handle h.u h.event) := by
    refine Keeps.forM hs' fun x w' hstill => ?_
    have hset {w''} (hw : World.Settled w' w'') : Still w w'' := by
      obtain ⟨hout, net, -, happ⟩ := hw
      refine ⟨?_, ?_, hout.trans hstill.out⟩
      · rw [happ]
        exact hstill.state
      · rw [happ]
        exact hstill.users
    exact (quit_run x.u x.event w'.out (hstill.state.trans h)).mono (fun _ _ => hset)
      fun _ _ => hset
  exact hkeeps w ⟨rfl, rfl, rfl⟩

/-- From `run` on, whatever is typed and whatever the network does: a run
agrees with its lines, and one that has quit goes on without changing anything. -/
theorem modes_consistent (u : Unspecified) (z : Bool) (hs : List Happening) :
    let start : World := { app := ChatApp.construct z true }
    Consistent (inputLines hs) (program u hs) start ∧
      ((worldOf ((program u hs).run start)).app.mQuit = true → ∀ hs',
        Still (worldOf ((program u hs).run start))
          (worldOf ((program u (hs ++ hs')).run start))) := by
  intro start
  have hmode := program_mode u z hs
  have hc : Consistent (inputLines hs) (program u hs) start := by
    cases hr : (program u hs).run start with
    | ok a w =>
      have hm : Mode (fromMenu (inputLines hs)) w := hmode.ok hr
      exact Mode.consistent (by rwa [hr]) fun halt w' heq => by cases hr.symm.trans heq
    | error halt w =>
      obtain ⟨hm, henet⟩ := hmode.error hr
      refine Mode.consistent (by rwa [hr]) fun halt' w' heq => ?_
      cases hr.symm.trans heq
      exact henet
  refine ⟨hc, fun hq hs' => ?_⟩
  have hquit := hc.quit.mp hq
  simp only [program_append, EStateM.run_bind]
  cases hr : (program u hs).run start with
  | ok a w =>
    rw [hr] at hquit
    have hstill := still_run hs' hquit
    dsimp only
    cases hr' : (hs'.forM fun h => handle h.u h.event).run w with
    | ok a' w' => exact hstill.ok hr'
    | error halt w' => exact hstill.error hr'
  | error halt w => exact ⟨rfl, rfl, rfl⟩

end ENetChat

import ENetChat.Chat.ChatWindow
import ENetChat.Chat.ProgramLaws

/-!
# The list of users

The list is drawn again by every function that changes the map or the local
pointer, so that after each handler the window has been called for the map in
the order of its keys, the entry of the local pointer as local, and for nobody
before and after a session (`user_panel`).
-/

namespace ENetChat

open Exec

variable {u : Unspecified} {app : ChatApp} {out : List Effect} {state : State} {w : World}

-- ---------------------------------------------------------------------------
-- The list
-- ---------------------------------------------------------------------------

def userEntry (me : Option UserInfo) (user : UserInfo) : Bytes × Bool :=
  (user.name, me.any (·.userId == user.userId))

/-- The users to be listed, with whether they are local. -/
def ChatApp.userEntries (app : ChatApp) : List (Bytes × Bool) :=
  if app.mState = .to .quitState then []
  else match app.local? with
    | some me => app.mUsers.users.map (userEntry me)
    | none => []

/-- The effect is not about the list of users. -/
def Effect.keepsUsers : Effect → Bool
  | .window .clearAll => false
  | .window .clearUserList => false
  | .window (.addUser ..) => false
  | _ => true

theorem Panels.after_append (out effects : List Effect) :
    Panels.after (out ++ effects) = effects.foldl Panels.act (Panels.after out) :=
  List.foldl_append

theorem users_keep {p : Panels} {effects : List Effect}
    (h : ∀ effect ∈ effects, effect.keepsUsers = true) :
    (effects.foldl Panels.act p).users = p.users := by
  induction effects generalizing p with
  | nil => rfl
  | cons effect effects ih =>
    refine (ih fun e he => h e (List.mem_cons_of_mem _ he)).trans ?_
    have hone := h effect List.mem_cons_self
    cases effect with
    | enet call => rfl
    | window call => cases call <;> first | rfl | cases hone

theorem users_listCalls {p : Panels} {me : Option UserInfo} {users : List UserInfo} :
    ((listCalls me users).foldl Panels.act p).users = some (users.map (userEntry me)) := by
  have hfold : ∀ (users : List UserInfo) (p : Panels) entries, p.users = some entries →
      ((users.map (listCall me)).foldl Panels.act p).users =
        some (entries ++ users.map (userEntry me)) := by
    intro users
    induction users with
    | nil => simp
    | cons user users ih =>
      intro p entries hp
      have hone : (p.act (listCall me user)).users = some (entries ++ [userEntry me user]) := by
        show p.users.map _ = _
        rw [hp]
        rfl
      rw [List.map_cons, List.foldl_cons, ih _ _ hone]
      simp
  exact hfold users _ [] rfl

-- ---------------------------------------------------------------------------
-- Functions of the application
-- ---------------------------------------------------------------------------

/-- The window has been called for the users to be listed. -/
def Drawn (w : World) : Prop := (Panels.after w.out).users = some w.app.userEntries

def Chatting (state : State) (w : World) : Prop := w.app.mState = .to state ∧ Drawn w

/-- `m` leaves the list drawn, in a state of the application. -/
def Draws (state : State) (m : AppM α) : Prop := Takes (Chatting state) (Chatting state) m

@[grind ←] theorem draws_pure (a : α) : Draws state (pure a) := Takes.pure a

@[grind ←] theorem draws_throw (e : Halt) : Draws state (throw e : AppM α) := Takes.throw e

@[grind ←] theorem Draws.bind {m : AppM α} {f : α → AppM β} (hm : Draws state m)
    (hf : ∀ a, Draws state (f a)) : Draws state (m >>= f) := Takes.bind hm hf

@[grind ←] theorem draws_getApp : Draws state getApp := fun _ h => Triple.of_run rfl h

theorem draws_emit {effects : List Effect} (h : ∀ effect ∈ effects, effect.keepsUsers = true) :
    Draws state (emit effects) := by
  rintro w ⟨hs, hd⟩
  refine Triple.of_run rfl ⟨hs, ?_⟩
  show (Panels.after (w.out ++ effects)).users = _
  rw [Panels.after_append, users_keep h]
  exact hd

theorem draws_window {call : WindowCall} (h : (Effect.window call).keepsUsers = true) :
    Draws state (window call) := draws_emit (by simpa using h)

@[grind ←] theorem draws_print (msg : Bytes) : Draws state (window (.print msg)) :=
  draws_window rfl

@[grind ←] theorem draws_printFrom (name text : Bytes) (isLocal : Bool) :
    Draws state (window (.printFrom name text isLocal)) := draws_window rfl

@[grind ←] theorem draws_log (msg : Bytes) : Draws state (window (.log msg)) := draws_window rfl

@[grind ←] theorem draws_error (msg : Bytes) : Draws state (window (.error msg)) :=
  draws_window rfl

@[grind ←] theorem draws_localUser : Draws state localUser := by
  unfold localUser
  grind

@[grind ←] theorem draws_deref (user : Option UserInfo) : Draws state (deref user) := by
  cases user with
  | none => exact draws_throw _
  | some user => exact draws_pure _

@[grind ←] theorem draws_getUserInfoPtr (userId : UserId) : Draws state (getUserInfoPtr userId) :=
  Draws.bind draws_getApp fun _ => draws_pure _

@[grind ←] theorem draws_containsUser (user : UserInfo) : Draws state (containsUser user) :=
  Draws.bind draws_getApp fun _ => draws_pure _

@[grind ←] theorem draws_isLocalUser (user : Option UserInfo) : Draws state (isLocalUser user) := by
  cases user with
  | none => exact draws_pure _
  | some user =>
    refine Draws.bind draws_localUser fun me => ?_
    cases me with
    | none => exact draws_pure _
    | some me => exact draws_pure _

@[grind ←] theorem draws_enet (call : ENetWrapper → List ENetCall) : Draws state (enet call) := by
  refine Draws.bind draws_getApp fun app => ?_
  cases app.mEnet with
  | none => exact draws_throw _
  | some net =>
    refine draws_emit fun effect he => ?_
    obtain ⟨c, -, rfl⟩ := List.mem_map.mp he
    rfl

@[grind ←] theorem draws_serialized (pkg : Package) : Draws state (serialized u pkg) := by
  unfold serialized
  split
  · exact draws_pure _
  · exact draws_throw _

@[grind ←] theorem draws_send (userId : UserId) (pkg : Package) : Draws state (send u userId pkg) :=
  Draws.bind (draws_serialized pkg) fun _ => draws_enet _

@[grind ←] theorem draws_broadcast (pkg : Package) : Draws state (broadcast u pkg) :=
  Draws.bind (draws_serialized pkg) fun _ => draws_enet _

/-- The wrapper is not on the window. -/
theorem draws_withNet (f : Option ENetWrapper → Option ENetWrapper) :
    Draws state (modifyApp fun app => { app with mEnet := f app.mEnet }) :=
  fun _ h => Triple.of_run rfl h

theorem userEntries_local (hs : app.mState ≠ .to .quitState) (hl : app.local? = some me) :
    app.userEntries = app.mUsers.users.map (userEntry me) := by
  rw [ChatApp.userEntries, if_neg hs, hl]

theorem userEntries_nil (hu : app.mUsers.users = []) : app.userEntries = [] := by
  unfold ChatApp.userEntries
  split
  · rfl
  · split
    · rw [hu]
      rfl
    · rfl

/-- Drawn, whatever was there before. -/
theorem refreshUserList_draws (hne : state ≠ .quitState) :
    Takes (fun w => w.app.mState = .to state) (Chatting state) refreshUserList := by
  rintro ⟨app, out⟩ (hs : app.mState = .to state)
  have hquit : app.mState ≠ .to .quitState := by
    rw [hs]
    exact fun h => hne (StatePtr.to.inj h)
  refine Triple.of_ok fun a w hr => ?_
  cases hl : app.local? with
  | some me =>
    obtain rfl : w = ⟨app, out ++ listCalls me app.mUsers.users⟩ := by
      rw [refreshUserList_run hl] at hr
      cases hr
      rfl
    refine ⟨hs, ?_⟩
    show (Panels.after (out ++ listCalls me app.mUsers.users)).users = some app.userEntries
    rw [Panels.after_append, users_listCalls, userEntries_local hquit hl]
  | none =>
    have hnil := (refreshUserList_completes.mp ⟨a, w, hr⟩).resolve_left (by simp [hl])
    obtain ⟨me, rfl⟩ := refreshUserList_ok hr
    refine ⟨hs, ?_⟩
    show (Panels.after (out ++ listCalls me app.mUsers.users)).users = some app.userEntries
    rw [Panels.after_append, users_listCalls, userEntries_nil hnil, hnil]
    rfl

theorem draws_addUser (hne : state ≠ .quitState) (user : UserInfo) (isLocal : Bool) :
    Draws state (addUser u user isLocal) := by
  refine Takes.bind (J := fun w => w.app.mState = .to state) ?_ fun _ =>
    refreshUserList_draws hne
  rintro w ⟨hs, -⟩
  refine Triple.of_run rfl ?_
  exact (sameRest_withUser w.app user isLocal).state.trans hs

theorem draws_removeUser (hne : state ≠ .quitState) (userId : UserId) :
    Draws state (removeUser userId) := by
  refine Takes.bind (J := fun w => w.app.mState = .to state) ?_ fun _ =>
    refreshUserList_draws hne
  rintro w ⟨hs, -⟩
  exact Triple.of_run rfl hs

-- ---------------------------------------------------------------------------
-- Handlers
-- ---------------------------------------------------------------------------

/-- `m` may leave the state. -/
def Redraws (state : State) (m : AppM Unit) : Prop := Takes (Chatting state) Drawn m

theorem Draws.redraws {m : AppM Unit} (h : Draws state m) : Redraws state m :=
  Takes.mono h fun _ hw => hw.2

theorem quitting_drawn {out : List Effect} :
    Drawn ⟨app.quitting, out ++ quitEffects app⟩ := by
  show (Panels.after (out ++ quitEffects app)).users = some app.quitting.userEntries
  rw [Panels.after_append, quitEffects, List.cons_append, List.foldl_cons, users_keep]
  · rfl
  · cases app.mEnet <;> simp [Effect.keepsUsers]

theorem redraws_quit (state : State) : Redraws state (goToState u .quitState) := by
  rintro ⟨app, out⟩ ⟨hs, -⟩
  exact Triple.of_run (goToState_quit hs) quitting_drawn

theorem host_input_draws (input : Bytes) :
    Redraws .chatStateHost (ChatStateHost.handleInput u input) := by
  unfold ChatStateHost.handleInput
  split
  · exact redraws_quit _
  · refine Draws.redraws (Draws.bind draws_localUser fun me => ?_)
    cases me with
    | none => exact draws_pure _
    | some me => exact Draws.bind (draws_printFrom _ _ _) fun _ => draws_broadcast _

theorem client_input_draws (input : Bytes) :
    Redraws .chatStateClient (ChatStateClient.handleInput u input) := by
  unfold ChatStateClient.handleInput
  split
  · exact redraws_quit _
  · refine Draws.redraws (Draws.bind draws_localUser fun me => ?_)
    cases me with
    | none => exact draws_pure _
    | some me => exact Draws.bind (draws_printFrom _ _ _) fun _ => draws_send _ _

/-- In `state`, the call is made on it. -/
theorem draws_withState {call : State → AppM Unit} (h : Draws state (call state)) :
    Draws state (withState call) := by
  intro w hw
  exact Triple.of_eq (withState_run hw.1) (h w hw)

theorem redraws_withState {call : State → AppM Unit} (h : Redraws state (call state)) :
    Redraws state (withState call) := by
  intro w hw
  exact Triple.of_eq (withState_run hw.1) (h w hw)

theorem host_username_draws (user : Option UserInfo) (pckt : UsernamePackage) :
    Draws .chatStateHost (ChatStateHost.receiveUsernameEvent u user pckt) := by
  cases user with
  | none => exact draws_error _
  | some user =>
    refine Draws.bind (draws_addUser State.noConfusion user false) fun _ => ?_
    exact Draws.bind (draws_log _) fun _ => Draws.bind draws_getApp fun _ =>
      Draws.bind (draws_send _ _) fun _ => draws_broadcast _

theorem host_receive_draws (e : NetworkTraffic) (pkg : Package) :
    Draws .chatStateHost (receivePackage u e pkg) := by
  cases pkg with
  | username pckt => exact draws_withState (host_username_draws (some _) pckt)
  | usernameAck pckt => exact draws_withState (draws_pure _)
  | addUser pckt => exact draws_withState (draws_pure _)
  | removeUser pckt =>
    exact Draws.bind (draws_getUserInfoPtr _) fun _ => draws_withState (draws_pure _)
  | message pckt =>
    refine Draws.bind (draws_getUserInfoPtr _) fun user => draws_withState ?_
    exact Draws.bind (draws_deref user) fun _ => Draws.bind (draws_printFrom _ _ _) fun _ =>
      draws_broadcast _

theorem client_receive_draws (e : NetworkTraffic) (pkg : Package) :
    Draws .chatStateClient (receivePackage u e pkg) := by
  cases pkg with
  | username pckt => exact draws_withState (draws_pure _)
  | usernameAck pckt =>
    exact draws_withState (Takes.forM pckt.users fun user => draws_addUser State.noConfusion user _)
  | addUser pckt =>
    refine draws_withState (Draws.bind (draws_containsUser _) fun known => ?_)
    split
    · exact draws_pure _
    · exact Draws.bind (draws_log _) fun _ => draws_addUser State.noConfusion _ _
  | removeUser pckt =>
    refine Draws.bind (draws_getUserInfoPtr _) fun user => draws_withState ?_
    exact Draws.bind (draws_deref user) fun _ => Draws.bind (draws_log _) fun _ =>
      draws_removeUser State.noConfusion _
  | message pckt =>
    refine Draws.bind (draws_getUserInfoPtr _) fun user => draws_withState ?_
    refine Draws.bind (draws_isLocalUser user) fun mine => ?_
    split
    · exact draws_pure _
    · exact Draws.bind (draws_deref user) fun _ => draws_printFrom _ _ _

theorem host_disconnect_draws (peerId : PeerId) (address : Address) :
    Draws .chatStateHost (ChatStateHost.receiveDisconnectEvent u peerId address) := by
  refine Draws.bind (draws_getUserInfoPtr _) fun found => ?_
  cases found with
  | none => exact draws_error _
  | some user =>
    exact Draws.bind (draws_log _) fun _ => Draws.bind (draws_broadcast _) fun _ =>
      draws_removeUser State.noConfusion _

/-- What `ENetWrapper` does about its peers does not show. -/
theorem listen_draws (hconnect : ∀ e, Draws state (connectionEvent u e))
    (hdisconnect : ∀ e, Redraws state (disconnectEvent u e))
    (hreceive : ∀ e pkg, Draws state (receivePackage u e pkg)) (ev : ENetEvent) :
    Redraws state (listen u ev) := by
  cases ev with
  | none => exact (draws_pure ()).redraws
  | connect peer => exact Draws.redraws (Draws.bind (draws_withNet _) fun _ => hconnect _)
  | disconnect peer =>
    exact Takes.bind (hdisconnect _) fun _ => fun _ hw => Triple.of_run rfl hw
  | receive peer packet =>
    refine Draws.redraws ?_
    unfold listen receiveEvent
    dsimp only
    split
    · exact hreceive _ _
    · exact draws_pure _
    · exact draws_throw _

theorem host_listen_draws (ev : ENetEvent) : Redraws .chatStateHost (listen u ev) := by
  refine listen_draws (fun e => draws_withState (draws_pure _)) (fun e => ?_) host_receive_draws ev
  exact (draws_withState (host_disconnect_draws e.peerId e.peerAddress)).redraws

theorem client_listen_draws (ev : ENetEvent) : Redraws .chatStateClient (listen u ev) := by
  refine listen_draws (fun e => draws_withState ?_) (fun e => redraws_withState ?_)
    client_receive_draws ev
  · exact Draws.bind draws_getApp fun _ => draws_send _ _
  · exact Takes.bind (draws_log _) fun _ => redraws_quit _

-- ---------------------------------------------------------------------------
-- Prompts
-- ---------------------------------------------------------------------------

theorem cleared_drawn (hu : app.mUsers = ∅) : Drawn ⟨app, out ++ [.window .clearAll]⟩ := by
  show (Panels.after (out ++ [.window .clearAll])).users = some app.userEntries
  have hnil : app.mUsers.users = [] := by simp [hu, UserMap.users]
  rw [Panels.after_append, userEntries_nil hnil]
  rfl

theorem newENetWrapper_draws (hosting : Bool) (port : UInt32) (k : Nat) :
    Draws state (newENetWrapper hosting port k) :=
  Draws.bind (draws_emit (by simp [Effect.keepsUsers])) fun _ => draws_withNet fun _ => some {}

theorem begin_draws (hmenu : state ≠ .promptStateConn) (hquit : state ≠ .quitState) :
    Draws state (state.beginState u) := by
  cases state with
  | promptStateConn => exact absurd rfl hmenu
  | promptStateName => exact draws_print _
  | chatStateHost =>
    refine Draws.bind (draws_log _) fun _ => Draws.bind draws_getApp fun _ => ?_
    exact Draws.bind (draws_addUser hquit _ _) fun _ => newENetWrapper_draws _ _ _
  | chatStateClient =>
    refine Draws.bind (draws_log _) fun _ => Draws.bind (newENetWrapper_draws _ _ _) fun _ => ?_
    exact draws_emit (by simp [Effect.keepsUsers])
  | quitState => exact absurd rfl hquit

theorem goToState_draws {old : State} (hs : app.mState = .to old) (hu : app.mUsers = ∅)
    (hmenu : state ≠ .promptStateConn) (hquit : state ≠ .quitState) :
    Triple (goToState u state) ⟨app, out⟩ (fun _ => Drawn) fun _ _ => True :=
  have hcleared : Drawn ⟨{ app with mState := .to state }, out ++ [.window .clearAll]⟩ :=
    cleared_drawn hu
  Triple.of_eq (goToState_run app out hs) ((begin_draws hmenu hquit).redraws _ ⟨rfl, hcleared⟩)

theorem menu_draws (hs : app.mState = .to .promptStateConn) (hu : app.mUsers = ∅)
    (hd : Drawn ⟨app, out⟩) (input : Bytes) :
    Triple (PromptStateConn.handleInput u input) ⟨app, out⟩ (fun _ => Drawn) fun _ _ => True := by
  unfold PromptStateConn.handleInput
  split
  · refine Triple.bind (P := fun _ w => w = ⟨{ app with
      mConfig := { app.mConfig with connAsHost := true } }, out⟩) (Triple.of_run rfl rfl) ?_
    rintro ⟨⟩ _ rfl
    exact goToState_draws hs hu State.noConfusion State.noConfusion
  split
  · exact goToState_draws hs hu State.noConfusion State.noConfusion
  split
  · exact redraws_quit _ _ ⟨hs, hd⟩
  · exact Triple.pure' hd

theorem name_draws (hs : app.mState = .to .promptStateName) (hu : app.mUsers = ∅)
    (hd : Drawn ⟨app, out⟩) (input : Bytes) :
    Triple (PromptStateName.handleInput u input) ⟨app, out⟩ (fun _ => Drawn) fun _ _ => True := by
  by_cases hi : input = exitCommand
  · rw [PromptStateName.handleInput, if_pos hi]
    exact redraws_quit _ _ ⟨hs, hd⟩
  · refine Triple.of_eq (name_run hs hi) ?_
    have hcleared (state : State) : Drawn ⟨app.named input state, out ++ [.window .clearAll]⟩ :=
      cleared_drawn hu
    split
    · exact (begin_draws State.noConfusion State.noConfusion).redraws _ ⟨rfl, hcleared _⟩
    · exact (begin_draws State.noConfusion State.noConfusion).redraws _ ⟨rfl, hcleared _⟩

-- ---------------------------------------------------------------------------
-- Runs
-- ---------------------------------------------------------------------------

/-- A line, or an event of ENet's, in a state that handles both. -/
theorem handle_draws (hs : app.mState = .to state) (hd : Drawn ⟨app, out⟩)
    (hinput : ∀ input, Triple (state.handleInput u input) ⟨app, out⟩ (fun _ => Drawn)
      fun _ _ => True)
    (hlisten : ∀ ev, app.mEnet ≠ none → Triple (listen u ev) ⟨app, out⟩ (fun _ => Drawn)
      fun _ _ => True) (event : AppEvent) :
    Triple (handle u event) ⟨app, out⟩ (fun _ => Drawn) fun _ _ => True := by
  cases event with
  | input line =>
    refine Triple.of_ok fun _ w hr => ?_
    rcases handle_input_cases hs hr with rfl | hr
    · exact hd
    · exact (hinput line.text).ok hr
  | network ev =>
    cases hw : app.mEnet with
    | none => exact Triple.of_run (handle_network_none hw) hd
    | some net => exact Triple.of_eq (handle_network_run hw) (hlisten ev (by simp [hw]))

theorem Drawn.handle (h : app.Phase) (hd : Drawn ⟨app, out⟩) (event : AppEvent) :
    Triple (handle u event) ⟨app, out⟩ (fun _ => Drawn) fun _ _ => True := by
  obtain ⟨state, hs, h⟩ := h
  cases state with
  | promptStateConn =>
    have h : Prompting app := h
    exact handle_draws hs hd (menu_draws hs h.users hd) (fun _ hne => absurd h.enet hne) event
  | promptStateName =>
    have h : Prompting app := h
    exact handle_draws hs hd (name_draws hs h.users hd) (fun _ hne => absurd h.enet hne) event
  | chatStateHost =>
    exact handle_draws hs hd (fun input => host_input_draws input _ ⟨hs, hd⟩)
      (fun ev _ => host_listen_draws ev _ ⟨hs, hd⟩) event
  | chatStateClient =>
    exact handle_draws hs hd (fun input => client_input_draws input _ ⟨hs, hd⟩)
      (fun ev _ => client_listen_draws ev _ ⟨hs, hd⟩) event
  | quitState =>
    refine (quit_run u event out hs).mono (fun _ w hw => ?_) fun _ _ _ => trivial
    obtain ⟨hout, net, -, happ⟩ := hw
    rw [Drawn, hout, happ]
    exact hd

theorem run_drawn {z : Bool} (hr : (run u).run { app := ChatApp.construct z true } = .ok () w) :
    Drawn w := by
  cases z <;> cases hr <;> rfl

/-- Between handlers the list is up to date. -/
theorem program_drawn {z : Bool} {hs : List Happening}
    (hr : (program u hs).run { app := ChatApp.construct z true } = .ok () w) : Drawn w := by
  induction hs using List.reverseRecOn generalizing w with
  | nil =>
    rw [program_nil] at hr
    exact run_drawn hr
  | append_singleton hs h ih =>
    rw [program_snoc] at hr
    obtain ⟨⟨⟩, w', hr', hstep⟩ := bind_ok.mp hr
    have hreach : Reachable z w'.app := reachable_iff_program.mpr ⟨u, hs, w'.out, hr'⟩
    exact (Drawn.handle hreach.phase (ih hr') h.event).ok hstep

/-- In every run the users added since the last clear are the map's, and what
is asked of curses, whenever the input thread waits for a line, is a row for
each of them. -/
theorem user_panel {z : Bool} {hs : List Happening} {steps : List WindowStep} (t : Terminal)
    (hr : (program u hs).run { app := ChatApp.construct z true } = .ok () ⟨app, out⟩)
    (hsteps : steps.filterMap WindowStep.effect? = out) :
    (Panels.after out).users = some app.userEntries ∧
      userCalls (ChatWindow.after t steps).calls =
        listScript (ChatWindow.after t steps).mUserwin app.userEntries := by
  have hdrawn : (Panels.after out).users = some app.userEntries := program_drawn hr
  subst hsteps
  exact ⟨hdrawn, (ChatWindow.asks_panels t steps).users _ hdrawn⟩

/-- Where the windows are numbered by the calls made before them. -/
theorem user_panel_ann : ∃ app u hs out, startHost default true ann = some app ∧
    (program u hs).run { app := ChatApp.construct true true } = .ok () ⟨app, out⟩ ∧
    let w := ChatWindow.after ⟨fun calls => some calls.length, fun _ => (24, 80)⟩ (out.map .effect)
    (Panels.after out).users = some app.userEntries ∧
      userCalls w.calls = listScript w.mUserwin app.userEntries := by
  obtain ⟨app, hstart, -⟩ := startHost_opened default true ann
  obtain ⟨u, hs, out, hr⟩ := reachable_iff_program.mp (reachable_started hstart)
  refine ⟨app, u, hs, out, hstart, hr, user_panel _ hr ?_⟩
  rw [List.filterMap_map]
  exact List.filterMap_some

end ENetChat

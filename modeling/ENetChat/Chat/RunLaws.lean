import ENetChat.Chat.ClientLaws
import ENetChat.Chat.HostLaws

/-!
# Invariants of runs

In which condition the application is in each of its states (`InPhase`), kept
by every step of the program (`InPhase.step`) and so in every reachable state
(`Reachable.phase`), and the states in which a host and a client start.
-/

namespace ENetChat

open Exec

variable {u : Unspecified} {nick : Bytes} {app : ChatApp} {out : List Effect} {w : World}
  {z : Bool} {id : UserId} {nickname : Nickname}

structure Prompting (app : ChatApp) : Prop where
  enet : app.mEnet = none
  users : app.mUsers = ∅
  quit : app.mQuit = false
  pointer : ∀ {id node}, app.mLocaluserPtr ≠ .entry id node

/-- What every step keeps, state by state. -/
def ChatApp.InPhase (app : ChatApp) : State → Prop
  | .promptStateConn | .promptStateName => Prompting app
  | .chatStateHost => ∃ nick, Hosting nick app
  | .chatStateClient => app.Tidy
  | .quitState => True

def ChatApp.Phase (app : ChatApp) : Prop := ∃ state, app.mState = .to state ∧ app.InPhase state

theorem Prompting.tidy (h : Prompting app) : app.Tidy :=
  ⟨by simp [h.users], by simp [h.users], fun hp => absurd hp h.pointer⟩

-- ---------------------------------------------------------------------------
-- Starting to host
-- ---------------------------------------------------------------------------

/-- A host without peers. -/
structure Opened (nick : Bytes) (app : ChatApp) : Prop extends Hosting nick app where
  alone : ∀ {id user}, app.mUsers.user? id = some user → id = 0
  peers : app.mEnet = some {}

theorem Opened.user?_none (h : Opened nick app) (hid : id ≠ 0) : app.mUsers.user? id = none := by
  cases hu : app.mUsers.user? id with
  | none => rfl
  | some user => exact absurd (h.alone hu) hid

/-- The members once `ChatState_Host` has begun. -/
def ChatApp.hosting (u : Unspecified) (app : ChatApp) : ChatApp :=
  { app.withUser u (hostUser app.mConfig.nickname) true with mEnet := some {} }

theorem hosting_eq (h : Prompting app) :
    app.hosting u = { app.insertUser (hostUser app.mConfig.nickname) with
      mLocaluserPtr := .entry 0 app.nextNode, mEnet := some {} } := by
  have hmap : ∀ id : UserId, app.mUsers[id]? = none := by simp [h.users]
  simp [ChatApp.hosting, ChatApp.withUser, ChatApp.setLocal, getElem?_insertUser, hmap]

theorem hosting_node (id : UserId) (h : Prompting app) : (app.hosting u).mUsers[id]? =
    if id = 0 then some ⟨app.nextNode, hostUser app.mConfig.nickname⟩ else none := by
  rw [hosting_eq h]
  show (app.insertUser _).mUsers[id]? = _
  simp [getElem?_insertUser, h.users]

theorem hosting_opened (h : Prompting app) (hs : app.mState = .to .chatStateHost)
    (hn : app.mConfig.nickname.length < 80) :
    Opened app.mConfig.nickname (app.hosting u) := by
  have halone : ∀ {id user}, (app.hosting u).mUsers.user? id = some user →
      id = 0 ∧ user = hostUser app.mConfig.nickname := by
    intro id user hu
    rw [UserMap.user?, hosting_node id h] at hu
    by_cases hid : id = 0
    · simp [hid] at hu
      exact ⟨hid, hu.symm⟩
    · simp [hid] at hu
  have htidy := h.tidy.insertUser (hostUser app.mConfig.nickname)
  have hnode := hosting_node (u := u) 0 h
  refine ⟨⟨?_, ?_, ?_, ?_, ⟨app.nextNode, ?_, hnode⟩, ?_⟩, fun hu => (halone hu).1, ?_⟩
  · rw [hosting_eq h]; exact hs
  · rw [hosting_eq h]; exact h.quit
  · rw [hosting_eq h]; rfl
  · rw [hosting_eq h]
    refine ⟨htidy.keyed, htidy.nodes, fun hp => ?_⟩
    cases hp
    exact Nat.lt_succ_self _
  · rw [hosting_eq h]
  · intro id user hu
    obtain ⟨rfl, rfl⟩ := halone hu
    refine ⟨by simp, ?_⟩
    simp only [maximumPacketSize]
    omega
  · rw [hosting_eq h]

/-- What `ChatState_Host` does outside as it begins. -/
def hostOpening (u : Unspecified) (app : ChatApp) : List Effect :=
  .window (.log (ascii "Started new session [hosting]...")) ::
    (listCalls (some (hostUser app.mConfig.nickname))
      (app.withUser u (hostUser app.mConfig.nickname) true).mUsers.users ++
    [.enet (.hostCreate true defaultPort maxConnections)])

theorem host_begin_run (out : List Effect) (h : Prompting app) :
    (ChatStateHost.beginState u).run ⟨app, out⟩ =
      .ok () ⟨app.hosting u, out ++ hostOpening u app⟩ := by
  have hl : (app.withUser u (hostUser app.mConfig.nickname) true).local? =
      some (some (hostUser app.mConfig.nickname)) := by
    have hnode := hosting_node (u := u) 0 h
    have hp : (app.hosting u).mLocaluserPtr = .entry 0 app.nextNode := by rw [hosting_eq h]
    simp only [ChatApp.hosting] at hnode hp
    simp [ChatApp.local?, hp, ChatApp.pointee?, hnode]
  simp only [ChatStateHost.beginState, EStateM.run_bind, window_run, getApp_run, addUser_run _ _ hl,
    host, newENetWrapper, emit_run, modifyApp_run, ChatApp.hosting, hostOpening, List.append_assoc,
    List.cons_append, List.nil_append]

-- ---------------------------------------------------------------------------
-- Starting to join
-- ---------------------------------------------------------------------------

/-- A client that is not connected yet. -/
structure Joining (nick : Bytes) (app : ChatApp) : Prop where
  state : app.mState = .to .chatStateClient
  quit : app.mQuit = false
  enet : app.mEnet = some {}
  users : app.mUsers = ∅
  nickname : app.mConfig.nickname = nick
  pointer : ∀ {id node}, app.mLocaluserPtr ≠ .entry id node

/-- What `ChatState_Client` does outside as it begins. -/
def clientOpening : List Effect :=
  [.window (.log (ascii "Connected to session [client]...")),
    .enet (.hostCreate false defaultPort 1),
    .enet (.hostConnect (ascii "127.0.0.1") defaultPort)]

theorem client_begin_run (app : ChatApp) (out : List Effect) :
    ChatStateClient.beginState.run ⟨app, out⟩ =
      .ok () ⟨{ app with mEnet := some {} }, out ++ clientOpening⟩ := by
  simp [ChatStateClient.beginState, connect, newENetWrapper, clientOpening]

-- ---------------------------------------------------------------------------
-- The prompts
-- ---------------------------------------------------------------------------

theorem goToState_run (app : ChatApp) (out : List Effect) (h : app.mState = .to old) :
    (goToState u s).run ⟨app, out⟩ = (s.beginState u).run
      ⟨{ app with mState := .to s }, out ++ [.window .clearAll]⟩ := by
  simp [goToState, loadState_run h, State.endState]

/-- The members once the prompt for a name has its answer. -/
def ChatApp.named (app : ChatApp) (input : Bytes) (state : State) : ChatApp :=
  { app with mConfig := { app.mConfig with nickname := input }, mState := .to state }

theorem named_prompting (input : Bytes) (state : State) (h : Prompting app) :
    Prompting (app.named input state) :=
  ⟨h.enet, h.users, h.quit, h.pointer⟩

theorem name_run (hs : app.mState = .to .promptStateName) (hi : input ≠ exitCommand) :
    (PromptStateName.handleInput u input).run ⟨app, out⟩ =
      let state := if app.mConfig.connAsHost then .chatStateHost else .chatStateClient
      (State.beginState u state).run ⟨app.named input state, out ++ [.window .clearAll]⟩ := by
  simp only [PromptStateName.handleInput, hi, if_false, EStateM.run_bind, modifyApp_run, getApp_run]
  split <;>
    exact goToState_run { app with mConfig := { app.mConfig with nickname := input } } out hs

theorem name_host_run (input : Bytes) (out : List Effect) (h : Prompting app)
    (hs : app.mState = .to .promptStateName)
    (hi : input ≠ exitCommand) (hl : input.length < 80) (hc : app.mConfig.connAsHost = true) :
    ∃ w, (PromptStateName.handleInput u input).run ⟨app, out⟩ = .ok () w ∧ Opened input w.app := by
  have h' := named_prompting input .chatStateHost h
  have hrun := host_begin_run (u := u) (out ++ [.window .clearAll]) h'
  rw [name_run hs hi, hc]
  exact ⟨_, hrun, hosting_opened h' rfl hl⟩

theorem name_client_run (input : Bytes) (out : List Effect) (h : Prompting app)
    (hs : app.mState = .to .promptStateName)
    (hi : input ≠ exitCommand) (hc : app.mConfig.connAsHost = false) :
    ∃ w, (PromptStateName.handleInput u input).run ⟨app, out⟩ = .ok () w ∧
      Joining input w.app := by
  have hrun := client_begin_run (app.named input .chatStateClient) (out ++ [.window .clearAll])
  rw [name_run hs hi, hc]
  exact ⟨_, hrun, rfl, h.quit, rfl, h.users, rfl, h.pointer⟩

-- ---------------------------------------------------------------------------
-- Starts
-- ---------------------------------------------------------------------------

def launchedApp (z : Bool) : ChatApp :=
  { ChatApp.construct z true with mState := .to .promptStateConn }

theorem launched_eq : launched u z = some (launchedApp z) := by
  cases z <;> rfl

theorem launchedApp_prompting : Prompting (launchedApp z) :=
  ⟨rfl, rfl, rfl, by cases z <;> simp [launchedApp, ChatApp.construct]⟩

def chosenApp (z asHost : Bool) : ChatApp :=
  { launchedApp z with mConfig := { connAsHost := asHost }, mState := .to .promptStateName }

theorem chosenApp_prompting : Prompting (chosenApp z b) :=
  ⟨rfl, rfl, rfl, launchedApp_prompting.pointer⟩

theorem choose_host : ∃ w, (launchedApp z).exec (handle u (.input (menuLine "1"))) = .ok () w ∧
    w.app = chosenApp z true := by
  cases z <;> exact ⟨_, rfl, rfl⟩

theorem choose_client : ∃ w, (launchedApp z).exec (handle u (.input (menuLine "2"))) = .ok () w ∧
    w.app = chosenApp z false := by
  cases z <;> exact ⟨_, rfl, rfl⟩

theorem startHost_opened (u : Unspecified) (z : Bool) (nickname : Nickname) :
    ∃ app, startHost u z nickname = some app ∧ Opened nickname.text app := by
  obtain ⟨w, hw, happ⟩ := choose_host (u := u) (z := z)
  obtain ⟨w', hw', hopen⟩ := name_host_run (u := u) nickname.text []
    (chosenApp_prompting (z := z) (b := true)) rfl nickname.notExit nickname.line.fits rfl
  refine ⟨w'.app, ?_, hopen⟩
  have hline : (chosenApp z true).exec (handle u (.input nickname.line)) = .ok () w' :=
    (handle_input_run (s := .promptStateName) rfl rfl nickname.nonempty).trans hw'
  simp only [startHost, started, launched_eq, Option.bind_some, ChatApp.after, hw, happ, hline]

theorem startClient_joining (u : Unspecified) (z : Bool) (nickname : Nickname) :
    ∃ app, startClient u z nickname = some app ∧ Joining nickname.text app := by
  obtain ⟨w, hw, happ⟩ := choose_client (u := u) (z := z)
  obtain ⟨w', hw', hjoin⟩ := name_client_run (u := u) nickname.text []
    (chosenApp_prompting (z := z) (b := false)) rfl nickname.notExit rfl
  refine ⟨w'.app, ?_, hjoin⟩
  have hline : (chosenApp z false).exec (handle u (.input nickname.line)) = .ok () w' :=
    (handle_input_run (s := .promptStateName) rfl rfl nickname.nonempty).trans hw'
  simp only [startClient, started, launched_eq, Option.bind_some, ChatApp.after, hw, happ, hline]

-- ---------------------------------------------------------------------------
-- Steps
-- ---------------------------------------------------------------------------

theorem Prompting.step (h : Prompting app)
    (hs : app.mState = .to .promptStateConn ∨ app.mState = .to .promptStateName)
    (hr : app.exec (handle u event) = .ok () w) : w.app.Phase := by
  unfold ChatApp.exec at hr
  have hphase : app.Phase := by
    obtain hs | hs := hs
    · exact ⟨_, hs, h⟩
    · exact ⟨_, hs, h⟩
  cases event with
  | network ev =>
    simp only [handle, EStateM.run_bind, getApp_run, h.enet] at hr
    cases hr
    exact hphase
  | input line =>
    obtain hs | hs := hs
    · obtain rfl | hr := handle_input_cases hs hr
      · exact hphase
      · simp only [State.handleInput, PromptStateConn.handleInput] at hr
        split at hr
        · rw [EStateM.run_bind, modifyApp_run] at hr
          have hgo := goToState_run (u := u) (s := .promptStateName)
            { app with mConfig := { app.mConfig with connAsHost := true } } [] hs
          simp only [hgo, State.beginState, PromptStateName.beginState, window_run] at hr
          cases hr
          exact ⟨_, rfl, h.enet, h.users, h.quit, h.pointer⟩
        split at hr
        · rw [goToState_run _ _ hs, State.beginState, PromptStateName.beginState, window_run] at hr
          cases hr
          exact ⟨_, rfl, h.enet, h.users, h.quit, h.pointer⟩
        split at hr
        · rw [goToState_quit hs] at hr
          cases hr
          exact ⟨_, rfl, trivial⟩
        · cases hr
          exact hphase
    · obtain rfl | hr := handle_input_cases hs hr
      · exact hphase
      · by_cases hi : line.text = exitCommand
        · rw [State.handleInput, PromptStateName.handleInput, if_pos hi, goToState_quit hs] at hr
          cases hr
          exact ⟨_, rfl, trivial⟩
        · cases hc : app.mConfig.connAsHost with
          | true =>
            obtain ⟨w', hw', hopen⟩ := name_host_run (u := u) line.text [] h hs hi line.fits hc
            rw [State.handleInput, hw'] at hr
            cases hr
            exact ⟨_, hopen.state, _, hopen.toHosting⟩
          | false =>
            obtain ⟨w', hw', hjoin⟩ := name_client_run (u := u) line.text [] h hs hi hc
            rw [State.handleInput, hw'] at hr
            cases hr
            refine ⟨_, hjoin.state, ?_, ?_, fun hp => absurd hp hjoin.pointer⟩ <;>
              simp [hjoin.users]

theorem enet_ok {call : ENetWrapper → List ENetCall} (h : (enet call).run ⟨app, out⟩ = .ok () w) :
    w.app = app := by
  cases hw : app.mEnet with
  | none => simp [enet, hw] at h
  | some net => rw [enet_run hw] at h; cases h; rfl

theorem send_ok (h : (send u userId pkg).run ⟨app, out⟩ = .ok () w) : w.app = app := by
  obtain ⟨buf, t, hbuf, h⟩ := bind_ok.mp h
  unfold serialized at hbuf
  split at hbuf
  · cases hbuf; exact enet_ok h
  · cases hbuf

theorem tidy_withNet {net : Option ENetWrapper} (h : app.Tidy) :
    ({ app with mEnet := net } : ChatApp).Tidy := ⟨h.keyed, h.nodes, h.pointer⟩

theorem quiet_receive_run (hs : app.mState = .to state) (hh : state ≠ .chatStateHost)
    (hc : state ≠ .chatStateClient) :
    (receivePackage u e pkg).run ⟨app, out⟩ = .ok () ⟨app, out⟩ := by
  cases state with
  | chatStateHost => exact absurd rfl hh
  | chatStateClient => exact absurd rfl hc
  | _ =>
    cases pkg <;>
      simp [receivePackage, withState_run hs, State.receiveUsernameEvent,
        State.receiveUsernameAckEvent, State.receiveAddUserEvent, State.receiveRemoveUserEvent,
        State.receiveMessageEvent]

/-- A client stays a client until it quits. -/
theorem client_step (h : app.Tidy) (hs : app.mState = .to .chatStateClient)
    (hr : app.exec (handle u event) = .ok () w) :
    (w.app.mState = .to .chatStateClient ∧ w.app.Tidy) ∨ w.app.mState = .to .quitState := by
  unfold ChatApp.exec at hr
  cases event with
  | input line =>
    obtain rfl | hr := handle_input_cases hs hr
    · exact .inl ⟨hs, h⟩
    · by_cases hi : line.text = exitCommand
      · rw [State.handleInput, ChatStateClient.handleInput, if_pos hi, goToState_quit hs] at hr
        cases hr
        exact .inr rfl
      · rw [State.handleInput] at hr
        cases hl : app.local? with
        | none => rw [client_handleInput_wild hi hl] at hr; cases hr
        | some me =>
          rw [client_handleInput_run hi hl] at hr
          cases me with
          | none => cases hr; exact .inl ⟨hs, h⟩
          | some me => rw [send_ok hr]; exact .inl ⟨hs, h⟩
  | network ev =>
    simp only [handle, EStateM.run_bind, getApp_run] at hr
    split at hr
    · cases ev with
      | none => cases hr; exact .inl ⟨hs, h⟩
      | connect peer =>
        simp only [listen, EStateM.run_bind, modifyApp_run] at hr
        rw [client_connection_run (by exact hs)] at hr
        rw [send_ok hr]
        exact .inl ⟨hs, tidy_withNet h⟩
      | disconnect peer =>
        simp only [listen, EStateM.run_bind, client_disconnect_run hs, modifyApp_run] at hr
        cases hr
        exact .inr rfl
      | receive peer packet =>
        obtain ⟨-, rfl⟩ | ⟨pkg, -, -, hr⟩ := receive_ok hr
        · exact .inl ⟨hs, h⟩
        · obtain ⟨htidy, hsame⟩ := client_receivePackage_ok hs h hr
          exact .inl ⟨hsame.state.trans hs, htidy⟩
    · cases hr; exact .inl ⟨hs, h⟩

/-- All that may have changed is which peers the wrapper has. -/
def World.Settled (w w' : World) : Prop :=
  w'.out = w.out ∧ ∃ net, net.isSome = w.app.mEnet.isSome ∧ w'.app = { w.app with mEnet := net }

theorem World.Settled.refl (w : World) : w.Settled w := ⟨rfl, w.app.mEnet, rfl, rfl⟩

/-- Nothing happens any more; a packet may still halt it. -/
theorem quit_run (u : Unspecified) (event : AppEvent) (out : List Effect)
    (hs : app.mState = .to .quitState) :
    Triple (handle u event) ⟨app, out⟩ (fun _ => World.Settled ⟨app, out⟩)
      fun _ => World.Settled ⟨app, out⟩ := by
  cases event with
  | input line =>
    by_cases hc : app.mQuit = false ∧ 0 < line.text.length
    · exact Triple.of_run (handle_input_run hs hc.1 hc.2) (.refl _)
    · have hskip : app.mQuit = true ∨ line.text.length = 0 := by
        cases hq : app.mQuit <;> simp [hq] at hc ⊢
        exact hc
      exact Triple.of_run (handle_input_skip hs hskip) (.refl _)
  | network ev =>
    cases hw : app.mEnet with
    | none => exact Triple.of_run (handle_network_none hw) (.refl _)
    | some net =>
      refine Triple.of_eq (handle_network_run hw) ?_
      cases ev with
      | none => exact Triple.pure' (.refl _)
      | connect peer =>
        let net' := app.mEnet.map fun w =>
          { w with mPeers := w.mPeers.insert peer.incomingPeerID peer }
        have hrun : (listen u (.connect peer)).run ⟨app, out⟩ =
            .ok () ⟨{ app with mEnet := net' }, out⟩ := by
          simp only [listen, EStateM.run_bind, modifyApp_run, connectionEvent]
          rw [withState_run (by exact hs)]
          rfl
        exact Triple.of_run hrun ⟨rfl, net', by simp [net'], rfl⟩
      | disconnect peer =>
        let net' := app.mEnet.map fun w => { w with mPeers := w.mPeers.erase peer.incomingPeerID }
        have hrun : (listen u (.disconnect peer)).run ⟨app, out⟩ =
            .ok () ⟨{ app with mEnet := net' }, out⟩ := by
          simp only [listen, EStateM.run_bind, disconnectEvent, withState_run hs]
          rfl
        exact Triple.of_run hrun ⟨rfl, net', by simp [net'], rfl⟩
      | receive peer packet =>
        rw [listen]
        refine receiveEvent_triple packet.lt (fun pkg _ => ?_) (.refl _) fun _ => .refl _
        exact Triple.of_run (quiet_receive_run hs (by simp) (by simp)) (.refl _)

theorem quit_step (hs : app.mState = .to .quitState)
    (hr : app.exec (handle u event) = .ok () w) :
    w.app.mState = .to .quitState ∧ w.out = [] := by
  obtain ⟨hout, net, -, happ⟩ := (quit_run u event [] hs).ok hr
  rw [happ]
  exact ⟨hs, hout⟩

theorem quit_halt (hs : app.mState = .to .quitState)
    (hr : app.exec (handle u event) = .error halt w) : w.out = [] :=
  ((quit_run u event [] hs).error hr).1

theorem ChatApp.Phase.step (h : app.Phase) (hr : app.exec (handle u event) = .ok () w) :
    w.app.Phase := by
  obtain ⟨state, hs, h⟩ := h
  cases state with
  | promptStateConn => exact Prompting.step h (.inl hs) hr
  | promptStateName => exact Prompting.step h (.inr hs) hr
  | chatStateHost =>
    obtain ⟨nick, h⟩ := h
    obtain h | h := h.step hr
    · exact ⟨_, h.state, nick, h⟩
    · exact ⟨.quitState, by rw [h]; rfl, trivial⟩
  | chatStateClient =>
    obtain ⟨hs', h'⟩ | hs' := client_step h hs hr
    · exact ⟨_, hs', h'⟩
    · exact ⟨_, hs', trivial⟩
  | quitState => exact ⟨_, (quit_step hs hr).1, trivial⟩

theorem Reachable.phase (h : Reachable z app) : app.Phase := by
  induction h with
  | launch h =>
    rw [launched_eq] at h
    cases h
    exact ⟨_, rfl, launchedApp_prompting⟩
  | step _ hr ih => exact ih.step hr

/-- In a reachable state a run keeps to what every reachable state does. -/
theorem Reachable.along_congr {P Q : ChatApp → Happening → Prop}
    (hPQ : ∀ {app}, Reachable z app → ∀ h, P app h ↔ Q app h) (h : Reachable z app) :
    app.Along P hs ↔ app.Along Q hs := by
  induction hs generalizing app with
  | nil => exact Iff.rfl
  | cons x hs ih =>
    exact and_congr (hPQ h x) (forall_congr' fun w => forall_congr' fun hw => ih (h.step hw))

theorem Reachable.after (h : Reachable z app) (ha : app.after hs = some app') :
    Reachable z app' := by
  induction hs generalizing app with
  | nil => cases ha; exact h
  | cons x hs ih =>
    simp only [ChatApp.after] at ha
    split at ha
    · next hw => exact ih (h.step hw) ha
    · cases ha

theorem reachable_started (h : started u z choice nickname = some app) : Reachable z app := by
  obtain ⟨menu, hm, ha⟩ := Option.bind_eq_some_iff.mp h
  exact (Reachable.launch hm).after ha

theorem Reachable.inPhase (h : Reachable z app) (hs : app.mState = .to state) :
    app.InPhase state := by
  obtain ⟨state', hs', h⟩ := h.phase
  rw [hs] at hs'
  cases hs'
  exact h

theorem Reachable.hosting (h : Reachable z app) (hs : app.mState = .to .chatStateHost) :
    ∃ nick, Hosting nick app := h.inPhase hs

theorem Reachable.tidy (h : Reachable z app) (hs : app.mState = .to .chatStateClient) :
    app.Tidy := h.inPhase hs

end ENetChat

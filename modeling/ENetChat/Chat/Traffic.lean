import ENetChat.Chat.Modes

/-!
# How much the program sends

A host answers a packet with two of its own at most, a client none of the
host's (`State.answers`), whether the handler completes or halts
(`answers_listen`). So a run sends no more than its events ask for
(`sent_bounded`).
-/

namespace ENetChat

open Exec

/-- The effect puts a packet on its way. -/
def Effect.sends : Effect → Bool
  | .enet (.peerSend ..) => true
  | .enet (.hostBroadcast ..) => true
  | _ => false

def World.sent (w : World) : Nat := w.out.countP Effect.sends

/-- `m` sends `n` packets at most. -/
def Sends (n : Nat) (m : AppM α) : Prop := Adds World.sent n m

variable {u : Unspecified} {n : Nat} {app : ChatApp} {w : World} {ev : ENetEvent} {peer : ENetPeer}

@[grind ←] theorem sends_pure (a : α) : Sends 0 (pure a) := Adds.pure a

@[grind ←] theorem sends_throw (e : Halt) : Sends n (throw e : AppM α) := Adds.throw e

theorem Sends.mono {m : AppM α} (h : Sends n m) (hle : n ≤ n') : Sends n' m := Adds.mono h hle

@[grind ←] theorem Sends.after {m : AppM α} {f : α → AppM β} (hm : Sends 0 m)
    (hf : ∀ a, Sends n (f a)) : Sends n (m >>= f) := Adds.after hm hf

@[grind ←] theorem sends_forM {α : Type} {f : α → AppM Unit} {l : List α}
    (hf : ∀ x, Sends 0 (f x)) : Sends 0 (l.forM f) := Adds.forM l hf

-- ---------------------------------------------------------------------------
-- Functions of the application
-- ---------------------------------------------------------------------------

@[grind ←] theorem sends_getApp : Sends 0 getApp := fun _ => Triple.of_run rfl (Nat.le_refl _)

@[grind ←] theorem sends_modifyApp (f : ChatApp → ChatApp) : Sends 0 (modifyApp f) :=
  fun _ => Triple.of_run rfl (Nat.le_refl _)

theorem sends_emit (effects : List Effect) :
    Sends (effects.countP Effect.sends) (emit effects) := by
  refine fun _ => Triple.of_run rfl (Nat.le_of_eq ?_)
  rw [World.sent, World.sent, List.countP_append]

@[grind ←] theorem sends_window (call : WindowCall) : Sends 0 (window call) := sends_emit _

@[grind ←] theorem sends_loadState : Sends 0 loadState := by
  unfold loadState
  grind

@[grind ←] theorem sends_localUser : Sends 0 localUser := by
  unfold localUser
  grind

@[grind ←] theorem sends_deref (user : Option UserInfo) : Sends 0 (deref user) := by
  cases user with
  | none => exact sends_throw _
  | some user => exact sends_pure _

@[grind ←] theorem sends_getUserInfoPtr (userId : UserId) : Sends 0 (getUserInfoPtr userId) :=
  Sends.after sends_getApp fun _ => sends_pure _

theorem sends_listUser (user : UserInfo) : Sends 0 (listUser user) := by
  refine Sends.after sends_localUser fun me => ?_
  cases me with
  | none => exact sends_window _
  | some me => exact sends_window _

@[grind ←] theorem sends_refreshUserList : Sends 0 refreshUserList :=
  Sends.after (sends_window _) fun _ => Sends.after sends_getApp fun _ => sends_forM sends_listUser

@[grind ←] theorem sends_addUser (user : UserInfo) (isLocal : Bool) :
    Sends 0 (addUser u user isLocal) :=
  Sends.after (sends_modifyApp _) fun _ => sends_refreshUserList

@[grind ←] theorem sends_removeUser (userId : UserId) : Sends 0 (removeUser userId) :=
  Sends.after (sends_modifyApp _) fun _ => sends_refreshUserList

@[grind ←] theorem sends_containsUser (user : UserInfo) : Sends 0 (containsUser user) :=
  Sends.after sends_getApp fun _ => sends_pure _

@[grind ←] theorem sends_isLocalUser (user : Option UserInfo) : Sends 0 (isLocalUser user) := by
  cases user with
  | none => exact sends_pure _
  | some user =>
    refine Sends.after sends_localUser fun me => ?_
    cases me with
    | none => exact sends_pure _
    | some me => exact sends_pure _

theorem sends_enet {call : ENetWrapper → List ENetCall}
    (h : ∀ net, ((call net).map Effect.enet).countP Effect.sends ≤ n) : Sends n (enet call) := by
  refine Sends.after sends_getApp fun app => ?_
  cases app.mEnet with
  | none => exact sends_throw _
  | some net => exact (sends_emit _).mono (h net)

@[grind ←] theorem sends_serialized (pkg : Package) : Sends 0 (serialized u pkg) := by
  unfold serialized
  split
  · exact sends_pure _
  · exact sends_throw _

/-- No packet if there is no such peer. -/
@[grind ←] theorem sends_send (userId : UserId) (pkg : Package) : Sends 1 (send u userId pkg) := by
  refine Sends.after (sends_serialized pkg) fun buf => sends_enet fun net => ?_
  unfold ENetWrapper.send
  split
  · exact Nat.zero_le _
  · exact Nat.le_refl _

@[grind ←] theorem sends_broadcast (pkg : Package) : Sends 1 (broadcast u pkg) :=
  Sends.after (sends_serialized pkg) fun _ => sends_enet fun _ => Nat.le_refl _

@[grind ←] theorem sends_quit : Sends 0 quit := by
  have hall : Sends 0 (enet (·.disconnectAll)) := sends_enet fun _ => Nat.le_refl _
  grind [quit]

@[grind ←] theorem sends_newENetWrapper (hosting : Bool) (port : UInt32) (k : Nat) :
    Sends 0 (newENetWrapper hosting port k) :=
  Sends.after (sends_emit _) fun _ => sends_modifyApp _

-- ---------------------------------------------------------------------------
-- The states
-- ---------------------------------------------------------------------------

theorem sends_beginState (state : State) : Sends 0 (state.beginState u) := by
  cases state with
  | promptStateConn => grind [State.beginState, PromptStateConn.beginState]
  | promptStateName => grind [State.beginState, PromptStateName.beginState]
  | chatStateHost => grind [State.beginState, ChatStateHost.beginState, host]
  | chatStateClient =>
    exact Sends.after (sends_window _) fun _ => Sends.after (sends_newENetWrapper _ _ _) fun _ =>
      sends_emit _
  | quitState => grind [State.beginState, QuitState.beginState]

@[grind ←] theorem sends_goToState (state : State) : Sends 0 (goToState u state) := by
  grind [goToState, State.endState, sends_beginState]

theorem sends_prompt (input : Bytes) {state : State} (h : ∀ asHost, state ≠ chatState asHost) :
    Sends 0 (state.handleInput u input) := by
  cases state with
  | promptStateConn => grind [State.handleInput, PromptStateConn.handleInput]
  | promptStateName => grind [State.handleInput, PromptStateName.handleInput]
  | chatStateHost => exact absurd rfl (h true)
  | chatStateClient => exact absurd rfl (h false)
  | quitState => exact sends_pure ()

theorem sends_handleInput (input : Bytes) (state : State) :
    Sends 1 (state.handleInput u input) := by
  have hgo (state : State) : Sends 1 (goToState u state) :=
    (sends_goToState state).mono (Nat.zero_le _)
  have hskip : Sends 1 (pure () : AppM Unit) := (sends_pure ()).mono (Nat.zero_le _)
  cases state with
  | promptStateConn => grind [State.handleInput, PromptStateConn.handleInput]
  | promptStateName => grind [State.handleInput, PromptStateName.handleInput]
  | chatStateHost => grind [State.handleInput, ChatStateHost.handleInput]
  | chatStateClient => grind [State.handleInput, ChatStateClient.handleInput]
  | quitState => exact hskip

-- ---------------------------------------------------------------------------
-- Events
-- ---------------------------------------------------------------------------

/-- What a host sends in answer: an Ack and a broadcast, or what it passes on. -/
def Package.answers : Package → Nat
  | .username _ => 2
  | .message _ => 1
  | _ => 0

/-- What a state sends when ENet has an event for it. -/
def State.answers : State → ENetEvent → Nat
  | .chatStateHost, .disconnect _ => 1
  | .chatStateHost, .receive _ packet => packet.package?.elim 0 Package.answers
  | .chatStateClient, .connect _ => 1
  | _, _ => 0

/-- The quota of the application's state. -/
def ChatApp.quota (app : ChatApp) (quota : State → Nat) : Nat :=
  match app.mState with
  | .to state => quota state
  | _ => 0

/-- `m` sends what the state may send. -/
def Answers (quota : State → Nat) (m : AppM Unit) : Prop :=
  ∀ w, Triple m w (fun _ w' => w'.sent ≤ w.sent + w.app.quota quota)
    fun _ w' => w'.sent ≤ w.sent + w.app.quota quota

variable {quota quota' : State → Nat}

theorem quota_le (h : ∀ state, quota state ≤ n) (app : ChatApp) : app.quota quota ≤ n := by
  unfold ChatApp.quota
  split
  · exact h _
  · exact Nat.zero_le n

theorem Answers.sends {m : AppM Unit} (h : Answers quota m) (hle : ∀ state, quota state ≤ n) :
    Sends n m := by
  have hmono (w w' : World) (hw : w'.sent ≤ w.sent + w.app.quota quota) : w'.sent ≤ w.sent + n :=
    Nat.le_trans hw (Nat.add_le_add_left (quota_le hle _) _)
  exact fun w => (h w).mono (fun _ w' => hmono w w') fun _ w' => hmono w w'

theorem Sends.answers {m : AppM Unit} (h : Sends 0 m) : Answers quota m := by
  have hmono (w w' : World) (hw : w'.sent ≤ w.sent + 0) : w'.sent ≤ w.sent + w.app.quota quota :=
    Nat.le_trans hw (Nat.le_add_right _ _)
  exact fun w => (h w).mono (fun _ w' => hmono w w') fun _ w' => hmono w w'

theorem answers_withState {call : State → AppM Unit}
    (h : ∀ state, Sends (quota state) (call state)) : Answers quota (withState call) := by
  intro w
  rcases hs : w.app.mState with _ | _ | state
  · have hrun : (withState call).run w = (throw .wildRead : AppM Unit).run w := by
      simp [withState, loadState, getApp, hs]
    exact Triple.of_eq hrun (Triple.throw' (Nat.le_add_right _ _))
  · have hrun : (withState call).run w = (pure () : AppM Unit).run w := by
      simp [withState, loadState, getApp, hs]
    exact Triple.of_eq hrun (Triple.pure' (Nat.le_add_right _ _))
  · have hquota : w.app.quota quota = quota state := by rw [ChatApp.quota, hs]
    rw [hquota]
    exact Triple.of_eq (withState_run hs) (h state w)

theorem answers_found {userId : UserId} {f : Option UserInfo → AppM Unit}
    (h : ∀ user, Answers quota (f user)) : Answers quota (getUserInfoPtr userId >>= f) := by
  intro w
  have hrun : (getUserInfoPtr userId >>= f).run w = (f (w.app.mUsers.user? userId)).run w := rfl
  exact Triple.of_eq hrun (h _ w)

theorem Answers.modify {f : ChatApp → ChatApp} {m : AppM Unit}
    (hf : ∀ app, (f app).mState = app.mState) (h : Answers quota m) :
    Answers quota (modifyApp f >>= fun _ => m) := by
  intro w
  have hquota : (f w.app).quota quota = w.app.quota quota := by
    rw [ChatApp.quota, ChatApp.quota, hf]
  have hrun : (modifyApp f >>= fun _ => m).run w = m.run ⟨f w.app, w.out⟩ := rfl
  have hm := h ⟨f w.app, w.out⟩
  rw [hquota] at hm
  exact Triple.of_eq hrun hm

theorem answers_connectionEvent (e : NetworkTraffic) (peer : ENetPeer) :
    Answers (State.answers · (.connect peer)) (connectionEvent u e) := by
  refine answers_withState fun state => ?_
  cases state with
  | chatStateClient => exact Sends.after sends_getApp fun _ => sends_send _ _
  | _ => exact sends_pure ()

theorem sends_host_disconnect (peerId : PeerId) (address : Address) :
    Sends 1 (ChatStateHost.receiveDisconnectEvent u peerId address) := by
  refine Sends.after (sends_getUserInfoPtr _) fun found => ?_
  cases found with
  | none => exact (sends_window _).mono (Nat.zero_le _)
  | some user =>
    refine Sends.after (sends_window _) fun _ => ?_
    exact Adds.bind (sends_broadcast _) fun _ => sends_removeUser _

theorem answers_disconnectEvent (e : NetworkTraffic) (peer : ENetPeer) :
    Answers (State.answers · (.disconnect peer)) (disconnectEvent u e) := by
  refine answers_withState fun state => ?_
  cases state with
  | chatStateHost => exact sends_host_disconnect e.peerId e.peerAddress
  | chatStateClient => exact Sends.after (sends_window _) fun _ => sends_goToState _
  | _ => exact sends_pure ()

/-- The Ack, and the news for everyone. -/
theorem sends_host_username (user : Option UserInfo) (pckt : UsernamePackage) :
    Sends 2 (ChatStateHost.receiveUsernameEvent u user pckt) := by
  cases user with
  | none => exact (sends_window _).mono (Nat.zero_le _)
  | some user =>
    refine Sends.after (sends_addUser user false) fun _ => Sends.after (sends_window _) fun _ => ?_
    exact Sends.after sends_getApp fun _ => Adds.bind (sends_send _ _) fun _ => sends_broadcast _

/-- What a state sends for a package. -/
def State.relays (pkg : Package) : State → Nat
  | .chatStateHost => pkg.answers
  | _ => 0

theorem answers_receivePackage (e : NetworkTraffic) (pkg : Package) :
    Answers (State.relays pkg) (receivePackage u e pkg) := by
  have hskip : Sends 0 (pure () : AppM Unit) := sends_pure ()
  cases pkg with
  | username pckt =>
    refine answers_withState fun state => ?_
    cases state with
    | chatStateHost => exact sends_host_username (some _) pckt
    | _ => exact hskip
  | usernameAck pckt =>
    refine answers_withState fun state => ?_
    cases state with
    | chatStateClient => exact sends_forM fun user => sends_addUser user _
    | _ => exact hskip
  | addUser pckt =>
    refine answers_withState fun state => ?_
    cases state with
    | chatStateClient =>
      grind [State.receiveAddUserEvent, ChatStateClient.receiveAddUserEvent, State.relays]
    | _ => exact hskip
  | removeUser pckt =>
    refine answers_found fun user => answers_withState fun state => ?_
    cases state with
    | chatStateClient =>
      grind [State.receiveRemoveUserEvent, ChatStateClient.receiveRemoveUserEvent, State.relays]
    | _ => exact hskip
  | message pckt =>
    refine answers_found fun user => answers_withState fun state => ?_
    cases state with
    | chatStateHost =>
      grind [State.receiveMessageEvent, ChatStateHost.receiveMessageEvent, State.relays,
        Package.answers]
    | chatStateClient =>
      grind [State.receiveMessageEvent, ChatStateClient.receiveMessageEvent, State.relays]
    | _ => exact hskip

/-- Each state answers as much as `State.answers` says. -/
theorem answers_listen (ev : ENetEvent) : Answers (State.answers · ev) (listen u ev) := by
  cases ev with
  | none => exact (sends_pure ()).answers
  | connect peer =>
    exact Answers.modify (fun app => rfl) (answers_connectionEvent _ peer)
  | disconnect peer =>
    refine fun w => Triple.bind (answers_disconnectEvent _ peer w) fun _ w' hw => ?_
    exact Triple.of_run rfl hw
  | receive peer packet =>
    intro w
    refine receiveEvent_triple packet.lt (fun pkg hd => ?_) (Nat.le_add_right _ _)
      fun ex => Nat.le_add_right _ _
    have hquota : (State.answers · (.receive peer packet)) = State.relays pkg := by
      funext state
      cases state with
      | chatStateHost =>
        rw [State.answers, package?_eq_some.mpr hd]
        rfl
      | _ => rfl
    rw [hquota]
    exact answers_receivePackage _ pkg w

theorem sends_input (line : InputLine) : Sends 1 (handle u (.input line)) := by
  have hskip : Sends 1 (pure () : AppM Unit) := (sends_pure ()).mono (Nat.zero_le _)
  grind [handle, pollForInput, sends_handleInput]

/-- What there may be to send for an event, in the chat or out of it. -/
def AppEvent.answers (asHost : Bool) : AppEvent → Nat
  | .input _ => 1
  | .network ev => (chatState asHost).answers ev

/-- Offline, nothing has been sent; online, no more than there was to send. -/
def Modestly (hs : List Happening) (w : World) : Prop :=
  (w.app.mEnet = none → w.sent = 0) ∧
    w.sent ≤ (hs.map fun h => h.event.answers (decide (true ∈ wrappers w.out))).sum

theorem Modestly.append {hs : List Happening} (h : Modestly hs w) (hs' : List Happening) :
    Modestly (hs ++ hs') w := by
  refine ⟨h.1, Nat.le_trans h.2 ?_⟩
  rw [List.map_append, List.sum_append]
  exact Nat.le_add_right _ _

variable {asHost : Bool} {name : Bytes}

theorem offline_sends (hs : app.mState = .to state) (hw : app.mEnet = none)
    (hne : ∀ asHost, state ≠ chatState asHost) (out : List Effect) (event : AppEvent) :
    Triple (handle u event) ⟨app, out⟩ (fun _ w' => w'.sent ≤ World.sent ⟨app, out⟩)
      fun _ w' => w'.sent ≤ World.sent ⟨app, out⟩ := by
  cases event with
  | network ev => exact Triple.of_run (handle_network_none hw) (Nat.le_refl _)
  | input line =>
    by_cases hl : app.mQuit = true ∨ line.text.length = 0
    · exact Triple.of_run (handle_input_skip hs hl) (Nat.le_refl _)
    · obtain ⟨hq, hl⟩ := not_or.mp hl
      exact Triple.of_eq (handle_input_run hs (Bool.not_eq_true _ ▸ hq) (Nat.pos_of_ne_zero hl))
        (sends_prompt line.text hne ⟨app, out⟩)

theorem online_sends (h : Online asHost name w) (event : AppEvent) :
    Triple (handle u event) w (fun _ w' => w'.sent ≤ w.sent + event.answers asHost)
      fun _ w' => w'.sent ≤ w.sent + event.answers asHost := by
  cases event with
  | input line => exact sends_input line w
  | network ev =>
    obtain ⟨net, hnet⟩ := Option.isSome_iff_exists.mp h.enet
    have hquota : w.app.quota (State.answers · ev) ≤ (chatState asHost).answers ev := by
      rcases h.state with ⟨hs, -⟩ | ⟨hs, -⟩
      · rw [ChatApp.quota, hs]
      · rw [ChatApp.quota, hs]
        exact Nat.zero_le _
    have hmono (w' : World) (hw : w'.sent ≤ w.sent + w.app.quota (State.answers · ev)) :
        w'.sent ≤ w.sent + (chatState asHost).answers ev :=
      Nat.le_trans hw (Nat.add_le_add_left hquota _)
    refine Triple.of_eq (handle_network_run hnet) ?_
    exact (answers_listen ev w).mono (fun _ w' => hmono w') fun _ w' => hmono w'

theorem offline_modestly {hs : List Happening} (hm : Modestly hs w)
    (hstate : w.app.mState = .to state) (hw : w.app.mEnet = none)
    (hne : ∀ asHost, state ≠ chatState asHost) (x : Happening) :
    Triple (handle x.u x.event) w (fun _ => Modestly (hs ++ [x])) fun _ => Modestly (hs ++ [x]) := by
  have hzero (w' : World) (hsent : w'.sent ≤ w.sent) : Modestly (hs ++ [x]) w' := by
    rw [hm.1 hw] at hsent
    have hnone := Nat.le_zero.mp hsent
    exact ⟨fun _ => hnone, hnone ▸ Nat.zero_le _⟩
  exact (offline_sends hstate hw hne w.out x.event).mono (fun _ w' => hzero w') fun _ w' => hzero w'

theorem online_modestly {hs : List Happening} (hm : Modestly hs w) (h : Online asHost name w)
    (x : Happening) :
    Triple (handle x.u x.event) w (fun _ => Modestly (hs ++ [x])) fun _ => Modestly (hs ++ [x]) := by
  have hone (w' : World) (h' : Online asHost name w' ∧ w'.sent ≤ w.sent + x.event.answers asHost) :
      Modestly (hs ++ [x]) w' := by
    obtain ⟨h', hsent⟩ := h'
    have hdec (w : World) (h : Online asHost name w) : decide (true ∈ wrappers w.out) = asHost := by
      rw [h.wrappers]
      cases asHost <;> rfl
    refine ⟨fun hw => absurd h'.enet (by simp [hw]), Nat.le_trans hsent ?_⟩
    have hbefore := hm.2
    rw [hdec w h] at hbefore
    rw [hdec w' h', List.map_append, List.sum_append]
    exact Nat.add_le_add_right hbefore _
  exact ((online_handle x.event w h).and (online_sends h x.event)).mono (fun _ w' => hone w')
    fun _ w' => hone w'

theorem Mode.modestly {lines : List Bytes} {hs : List Happening} (h : Mode lines w)
    (hm : Modestly hs w) (x : Happening) :
    Triple (handle x.u x.event) w (fun _ => Modestly (hs ++ [x])) fun _ => Modestly (hs ++ [x]) := by
  have hquit (asHost : Bool) : State.quitState ≠ chatState asHost := by cases asHost <;> decide
  cases h with
  | choosing h =>
    exact offline_modestly hm h.state h.prompting.enet (fun b => by cases b <;> decide) x
  | naming h =>
    exact offline_modestly hm h.state h.prompting.enet (fun b => by cases b <;> decide) x
  | quit h => exact offline_modestly hm h.state h.enet hquit x
  | exit h => exact offline_modestly hm h.state h.enet hquit x
  | online hne h => exact online_modestly hm h x

theorem program_modestly (u : Unspecified) (z : Bool) (hs : List Happening) :
    Triple (program u hs) { app := ChatApp.construct z true } (fun _ => Modestly hs)
      fun _ => Modestly hs := by
  induction hs using List.reverseRecOn with
  | nil =>
    obtain ⟨w, hrun, hw⟩ := run_choosing u z
    rw [program_nil]
    have hsent : w.sent = 0 := by
      cases z <;> cases hrun <;> rfl
    exact Triple.of_run hrun ⟨fun _ => hsent, Nat.le_of_eq hsent⟩
  | append_singleton hs x ih =>
    rw [program_snoc]
    refine Triple.bind (((program_mode u z hs).and ih).mono (fun _ _ h => h) fun _ _ h => ?_) ?_
    · exact h.2.append [x]
    · rintro ⟨⟩ w ⟨hmode, hm⟩
      exact hmode.modestly hm x

/-- However a run ends, it has sent no more packets than there was to send. -/
theorem sent_bounded (u : Unspecified) (z : Bool) (hs : List Happening) :
    let w := worldOf ((program u hs).run { app := ChatApp.construct z true })
    w.sent ≤ (hs.map fun h => h.event.answers (decide (true ∈ wrappers w.out))).sum := by
  have h := program_modestly u z hs
  unfold Triple at h
  cases hr : (program u hs).run { app := ChatApp.construct z true } with
  | ok a w =>
    rw [hr] at h
    exact h.2
  | error e w =>
    rw [hr] at h
    exact h.2

end ENetChat

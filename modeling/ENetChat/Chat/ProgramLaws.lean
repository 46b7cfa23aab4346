import ENetChat.Chat.RunLaws
import Mathlib.Data.List.Induction

/-!
# Runs in one piece

`program` is a run as one computation, in which `out` grows; `Reachable` takes
each handler from an empty `out`. No function of the application reads `out`
(`Blind`), so the two are the same runs: `program_after` and
`reachable_iff_program` for where they end, `program_halt` for where they halt.
-/

namespace ENetChat

open Exec

/-- The same application, with more done before. -/
def After (earlier : List Effect) (w w' : World) : Prop :=
  w' = { w with out := earlier ++ w.out }

/-- `m` does the same, whatever was done before it. -/
def Blind (m : AppM α) : Prop := ∀ earlier, Respects (After earlier) m

variable {u : Unspecified}

@[grind ←] theorem blind_pure (a : α) : Blind (pure a) := fun _ => Respects.pure a

@[grind ←] theorem blind_throw (e : Halt) : Blind (throw e : AppM α) := fun _ => Respects.throw e

@[grind ←] theorem Blind.bind {m : AppM α} {f : α → AppM β} (hm : Blind m)
    (hf : ∀ a, Blind (f a)) : Blind (m >>= f) :=
  fun earlier => Respects.bind (hm earlier) fun a => hf a earlier

@[grind ←] theorem blind_forM {α : Type} {f : α → AppM Unit} {l : List α}
    (hf : ∀ x, Blind (f x)) : Blind (l.forM f) :=
  fun earlier => Respects.forM l fun x => hf x earlier

-- ---------------------------------------------------------------------------
-- Functions of the application
-- ---------------------------------------------------------------------------

@[grind ←] theorem blind_getApp : Blind getApp := by
  rintro earlier w _ rfl
  exact Twin.ok rfl

@[grind ←] theorem blind_modifyApp (f : ChatApp → ChatApp) : Blind (modifyApp f) := by
  rintro earlier w _ rfl
  exact Twin.ok rfl

@[grind ←] theorem blind_emit (effects : List Effect) : Blind (emit effects) := by
  rintro earlier w _ rfl
  refine Twin.ok ?_
  simp [After]

@[grind ←] theorem blind_window (call : WindowCall) : Blind (window call) := blind_emit _

@[grind ←] theorem blind_loadState : Blind loadState := by
  unfold loadState
  grind

@[grind ←] theorem blind_localUser : Blind localUser := by
  unfold localUser
  grind

@[grind ←] theorem blind_deref (user : Option UserInfo) : Blind (deref user) := by
  cases user with
  | none => exact blind_throw _
  | some user => exact blind_pure _

@[grind ←] theorem blind_getUserInfoPtr (userId : UserId) : Blind (getUserInfoPtr userId) :=
  Blind.bind blind_getApp fun _ => blind_pure _

theorem blind_listUser (user : UserInfo) : Blind (listUser user) := by
  refine Blind.bind blind_localUser fun me => ?_
  cases me with
  | none => exact blind_window _
  | some me => exact blind_window _

@[grind ←] theorem blind_refreshUserList : Blind refreshUserList :=
  Blind.bind (blind_window _) fun _ => Blind.bind blind_getApp fun _ => blind_forM blind_listUser

@[grind ←] theorem blind_addUser (user : UserInfo) (isLocal : Bool) :
    Blind (addUser u user isLocal) :=
  Blind.bind (blind_modifyApp _) fun _ => blind_refreshUserList

@[grind ←] theorem blind_removeUser (userId : UserId) : Blind (removeUser userId) :=
  Blind.bind (blind_modifyApp _) fun _ => blind_refreshUserList

@[grind ←] theorem blind_containsUser (user : UserInfo) : Blind (containsUser user) :=
  Blind.bind blind_getApp fun _ => blind_pure _

@[grind ←] theorem blind_isLocalUser (user : Option UserInfo) : Blind (isLocalUser user) := by
  cases user with
  | none => exact blind_pure _
  | some user =>
    refine Blind.bind blind_localUser fun me => ?_
    cases me with
    | none => exact blind_pure _
    | some me => exact blind_pure _

@[grind ←] theorem blind_enet (call : ENetWrapper → List ENetCall) : Blind (enet call) := by
  refine Blind.bind blind_getApp fun app => ?_
  cases app.mEnet with
  | none => exact blind_throw _
  | some w => exact blind_emit _

@[grind ←] theorem blind_serialized (pkg : Package) : Blind (serialized u pkg) := by
  unfold serialized
  split
  · exact blind_pure _
  · exact blind_throw _

@[grind ←] theorem blind_send (userId : UserId) (pkg : Package) : Blind (send u userId pkg) :=
  Blind.bind (blind_serialized pkg) fun _ => blind_enet _

@[grind ←] theorem blind_broadcast (pkg : Package) : Blind (broadcast u pkg) :=
  Blind.bind (blind_serialized pkg) fun _ => blind_enet _

@[grind ←] theorem blind_quit : Blind quit := by
  grind [quit]

@[grind ←] theorem blind_newENetWrapper (hosting : Bool) (port : UInt32) (n : Nat) :
    Blind (newENetWrapper hosting port n) :=
  Blind.bind (blind_emit _) fun _ => blind_modifyApp _

-- ---------------------------------------------------------------------------
-- The states
-- ---------------------------------------------------------------------------

theorem blind_beginState (state : State) : Blind (state.beginState u) := by
  cases state with
  | promptStateConn => grind [State.beginState, PromptStateConn.beginState]
  | promptStateName => grind [State.beginState, PromptStateName.beginState]
  | chatStateHost => grind [State.beginState, ChatStateHost.beginState, host]
  | chatStateClient => grind [State.beginState, ChatStateClient.beginState, connect]
  | quitState => grind [State.beginState, QuitState.beginState]

@[grind ←] theorem blind_goToState (state : State) : Blind (goToState u state) := by
  grind [goToState, State.endState, blind_beginState]

theorem blind_handleInput (input : Bytes) (state : State) : Blind (state.handleInput u input) := by
  cases state with
  | promptStateConn => grind [State.handleInput, PromptStateConn.handleInput]
  | promptStateName => grind [State.handleInput, PromptStateName.handleInput]
  | chatStateHost => grind [State.handleInput, ChatStateHost.handleInput]
  | chatStateClient => grind [State.handleInput, ChatStateClient.handleInput]
  | quitState => grind [State.handleInput]

-- ---------------------------------------------------------------------------
-- Events
-- ---------------------------------------------------------------------------

@[grind ←] theorem blind_withState {call : State → AppM Unit} (h : ∀ state, Blind (call state)) :
    Blind (withState call) := by
  grind [withState]

theorem blind_connectionEvent (e : NetworkTraffic) : Blind (connectionEvent u e) := by
  refine blind_withState fun state => ?_
  cases state <;> grind [State.receiveConnectionEvent, ChatStateHost.receiveConnectionEvent,
    ChatStateClient.receiveConnectionEvent]

@[grind ←] theorem blind_host_disconnect (peerId : PeerId) (address : Address) :
    Blind (ChatStateHost.receiveDisconnectEvent u peerId address) := by
  refine Blind.bind (blind_getUserInfoPtr _) fun found => ?_
  cases found with
  | none => exact blind_window _
  | some user =>
    exact Blind.bind (blind_window _) fun _ => Blind.bind (blind_broadcast _) fun _ =>
      blind_removeUser _

theorem blind_disconnectEvent (e : NetworkTraffic) : Blind (disconnectEvent u e) := by
  refine blind_withState fun state => ?_
  cases state <;> grind [State.receiveDisconnectEvent, ChatStateClient.receiveDisconnectEvent]

@[grind ←] theorem blind_host_username (user : Option UserInfo) (pckt : UsernamePackage) :
    Blind (ChatStateHost.receiveUsernameEvent u user pckt) := by
  cases user with
  | none => exact blind_window _
  | some user =>
    refine Blind.bind (blind_addUser user false) fun _ => Blind.bind (blind_window _) fun _ => ?_
    exact Blind.bind blind_getApp fun app => Blind.bind (blind_send _ _) fun _ => blind_broadcast _

@[grind ←] theorem blind_username (user : Option UserInfo) (pckt : UsernamePackage)
    (state : State) : Blind (state.receiveUsernameEvent u user pckt) := by
  cases state <;> grind [State.receiveUsernameEvent]

@[grind ←] theorem blind_ack (pckt : UsernameAckPackage) (state : State) :
    Blind (state.receiveUsernameAckEvent u pckt) := by
  cases state <;> grind [State.receiveUsernameAckEvent, ChatStateClient.receiveUsernameAckEvent]

@[grind ←] theorem blind_add (user : UserInfo) (pckt : AddUserPackage) (state : State) :
    Blind (state.receiveAddUserEvent u user pckt) := by
  cases state <;> grind [State.receiveAddUserEvent, ChatStateClient.receiveAddUserEvent]

@[grind ←] theorem blind_remove (user : Option UserInfo) (pckt : RemoveUserPackage)
    (state : State) : Blind (state.receiveRemoveUserEvent user pckt) := by
  cases state <;> grind [State.receiveRemoveUserEvent, ChatStateClient.receiveRemoveUserEvent]

@[grind ←] theorem blind_message (user : Option UserInfo) (pckt : MessagePackage)
    (state : State) : Blind (state.receiveMessageEvent u user pckt) := by
  cases state <;> grind [State.receiveMessageEvent, ChatStateHost.receiveMessageEvent,
    ChatStateClient.receiveMessageEvent]

theorem blind_receivePackage (e : NetworkTraffic) (pkg : Package) :
    Blind (receivePackage u e pkg) := by
  cases pkg <;> grind [receivePackage]

theorem blind_listen (ev : ENetEvent) : Blind (listen u ev) := by
  cases ev with
  | none => grind [listen]
  | connect peer => grind [listen, blind_connectionEvent]
  | disconnect peer => grind [listen, blind_disconnectEvent]
  | receive peer packet => grind [listen, receiveEvent, blind_receivePackage]

theorem blind_handle (event : AppEvent) : Blind (handle u event) := by
  cases event with
  | input line => grind [handle, pollForInput, blind_handleInput]
  | network ev => grind [handle, blind_listen]

-- ---------------------------------------------------------------------------
-- Runs
-- ---------------------------------------------------------------------------

theorem Blind.twin {m : AppM α} (h : Blind m) (app : ChatApp) (out : List Effect) :
    Twin (After out) (m.run { app }) (m.run ⟨app, out⟩) :=
  h out _ _ (by simp [After])

theorem Blind.run_ok {m : AppM α} (h : Blind m) : m.run ⟨app, out⟩ = .ok a w ↔
    ∃ w', m.run { app } = .ok a w' ∧ w = ⟨w'.app, out ++ w'.out⟩ := by
  have ht := h.twin app out
  generalize m.run { app } = r, m.run ⟨app, out⟩ = r' at ht
  cases ht with
  | ok hw =>
    cases hw
    simp [eq_comm]
  | error hw => simp

theorem Blind.run_error {m : AppM α} (h : Blind m) : m.run ⟨app, out⟩ = .error e w ↔
    ∃ w', m.run { app } = .error e w' ∧ w = ⟨w'.app, out ++ w'.out⟩ := by
  have ht := h.twin app out
  generalize m.run { app } = r, m.run ⟨app, out⟩ = r' at ht
  cases ht with
  | ok hw => simp
  | error hw =>
    cases hw
    simp [eq_comm]

theorem program_append (u : Unspecified) (hs hs' : List Happening) :
    program u (hs ++ hs') = program u hs >>= fun _ => hs'.forM fun h => handle h.u h.event := by
  simp only [program, List.forM_eq_forM, List.forM_append, bind_assoc]

theorem program_snoc (u : Unspecified) (hs : List Happening) (h : Happening) :
    program u (hs ++ [h]) = program u hs >>= fun _ => handle h.u h.event := by
  simp [program_append]

/-- One more handler runs as on its own, and what it does comes last. -/
theorem program_snoc_ok {start : World} : (program u (hs ++ [h])).run start = .ok () w ↔
    ∃ w₁ w₂, (program u hs).run start = .ok () w₁ ∧
      w₁.app.exec (handle h.u h.event) = .ok () w₂ ∧ w = ⟨w₂.app, w₁.out ++ w₂.out⟩ := by
  rw [program_snoc, bind_ok]
  constructor
  · rintro ⟨a, w₁, hrun, hr⟩
    obtain ⟨w₂, hexec, hw⟩ := (blind_handle h.event).run_ok.mp hr
    exact ⟨w₁, w₂, hrun, hexec, hw⟩
  · rintro ⟨w₁, w₂, hrun, hexec, hw⟩
    exact ⟨(), w₁, hrun, (blind_handle h.event).run_ok.mpr ⟨w₂, hexec, hw⟩⟩

@[simp] theorem program_nil : program u [] = run u := by
  simp [program]

theorem run_completes (u : Unspecified) (z : Bool) :
    ∃ w, (ChatApp.construct z true).exec (run u) = .ok () w := by
  cases z <;> exact ⟨_, rfl⟩

theorem launched_iff : launched u z = some app ↔
    ∃ out, (program u []).run { app := ChatApp.construct z true } = .ok () ⟨app, out⟩ := by
  obtain ⟨⟨app', out⟩, hrun⟩ := run_completes u z
  rw [program_nil, show (run u).run _ = _ from hrun, launched, hrun]
  simp

theorem after_snoc {app : ChatApp} {hs : List Happening} : app.after (hs ++ [h]) = some app' ↔
    ∃ app₁ w, app.after hs = some app₁ ∧ app₁.exec (handle h.u h.event) = .ok () w ∧
      w.app = app' := by
  induction hs generalizing app with
  | nil => cases hr : app.exec (handle h.u h.event) <;> simp [ChatApp.after, hr]
  | cons x hs ih => cases hr : app.exec (handle x.u x.event) <;> simp [ChatApp.after, hr, ih]

/-- A run of the program ends where its handlers lead, one at a time. -/
theorem program_after (hl : launched u z = some menu) : menu.after hs = some app ↔
    ∃ out, (program u hs).run { app := ChatApp.construct z true } = .ok () ⟨app, out⟩ := by
  induction hs using List.reverseRecOn generalizing app with
  | nil => rw [← launched_iff, hl, ChatApp.after]
  | append_singleton hs h ih =>
    rw [after_snoc]
    constructor
    · rintro ⟨app₁, w, ha, hr, rfl⟩
      obtain ⟨out, hrun⟩ := ih.mp ha
      exact ⟨_, program_snoc_ok.mpr ⟨_, w, hrun, hr, rfl⟩⟩
    · rintro ⟨out, hrun⟩
      obtain ⟨w₁, w₂, hrun₁, hr, hw⟩ := program_snoc_ok.mp hrun
      cases hw
      exact ⟨w₁.app, w₂, ih.mpr ⟨w₁.out, hrun₁⟩, hr, rfl⟩

theorem reachable_iff_program : Reachable z app ↔ ∃ u hs out,
    (program u hs).run { app := ChatApp.construct z true } = .ok () ⟨app, out⟩ := by
  constructor
  · intro h
    induction h with
    | launch hl =>
      obtain ⟨out, hrun⟩ := launched_iff.mp hl
      exact ⟨_, [], out, hrun⟩
    | step _ hr ih =>
      obtain ⟨u, hs, out, hrun⟩ := ih
      exact ⟨u, hs ++ [⟨_, _⟩], _, program_snoc_ok.mpr ⟨_, _, hrun, hr, rfl⟩⟩
  · rintro ⟨u, hs, out, hrun⟩
    have hl : launched u z = some (launchedApp z) := launched_eq
    exact (Reachable.launch hl).after ((program_after hl).mpr ⟨out, hrun⟩)

/-- A run that halts does so in the handler of a reachable state. -/
theorem program_halt
    (hrun : (program u hs).run { app := ChatApp.construct z true } = .error halt w) :
    ∃ app, ∃ h ∈ hs, ∃ w', Reachable z app ∧ app.exec (handle h.u h.event) = .error halt w' ∧
      w'.app = w.app := by
  induction hs using List.reverseRecOn with
  | nil =>
    obtain ⟨w', hok⟩ := run_completes u z
    cases hok.symm.trans hrun
  | append_singleton hs h ih =>
    rw [program_snoc, EStateM.run_bind] at hrun
    cases hr : (program u hs).run { app := ChatApp.construct z true } with
    | ok a w₁ =>
      rw [hr] at hrun
      obtain ⟨w₂, hexec, hw⟩ := (blind_handle h.event).run_error.mp hrun
      exact ⟨w₁.app, h, by simp, w₂, reachable_iff_program.mpr ⟨u, hs, w₁.out, hr⟩, hexec,
        by rw [hw]⟩
    | error halt' w₁ =>
      rw [hr] at hrun
      cases hrun
      obtain ⟨app, h', hmem, hw⟩ := ih hr
      exact ⟨app, h', List.mem_append_left _ hmem, hw⟩

end ENetChat

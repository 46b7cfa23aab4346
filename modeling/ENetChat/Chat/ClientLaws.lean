import ENetChat.Chat.EventLaws

/-!
# The client

What each handler of `ChatState_Client` does if it completes (`*_ok`), and
when it does (`*_completes`): an absent user is a NULL that it dereferences,
and the user list cannot be drawn through a pointer that cannot be read.
-/

namespace ENetChat

open Exec

variable {u : Unspecified} {app : ChatApp} {out : List Effect} {user : UserInfo} {w : World}
  {e : NetworkTraffic} {id : UserId}

/-- Neither a message on the window nor a call to ENet. -/
def Effect.quiet : Effect → Bool
  | .window (.printFrom ..) => false
  | .window _ => true
  | .enet _ => false

theorem listCalls_quiet : ∀ effect ∈ listCalls me users, effect.quiet := by
  simp [listCalls, listCall, Effect.quiet]

/-- The members that no package changes. -/
structure ChatApp.SameRest (app app' : ChatApp) : Prop where
  enet : app'.mEnet = app.mEnet
  config : app'.mConfig = app.mConfig
  state : app'.mState = app.mState
  quit : app'.mQuit = app.mQuit

theorem ChatApp.SameRest.refl (app : ChatApp) : app.SameRest app := ⟨rfl, rfl, rfl, rfl⟩

theorem sameRest_insertUser : app.SameRest (app.insertUser user) := ⟨rfl, rfl, rfl, rfl⟩

theorem sameRest_withoutUser : app.SameRest (app.withoutUser id) := ⟨rfl, rfl, rfl, rfl⟩

theorem sameRest_withUser (app : ChatApp) (user : UserInfo) (isLocal : Bool) :
    app.SameRest (app.withUser u user isLocal) := by
  unfold ChatApp.withUser
  split
  · obtain ⟨node, heq, -⟩ := setLocal_insertUser u app user
    rw [heq]
    exact ⟨rfl, rfl, rfl, rfl⟩
  · exact sameRest_insertUser

-- ---------------------------------------------------------------------------
-- USERNAME_ACK
-- ---------------------------------------------------------------------------

/-- What the loop of `receiveUsernameAckEvent` makes of the members. -/
def ChatApp.withUsers (u : Unspecified) (app : ChatApp) (id : UserId) (users : List UserInfo) :
    ChatApp :=
  users.foldl (fun app user => app.withUser u user (id == user.userId)) app

theorem tidy_withUsers (h : app.Tidy) : (app.withUsers u id users).Tidy := by
  unfold ChatApp.withUsers
  induction users generalizing app with
  | nil => exact h
  | cons user users ih => exact ih (tidy_withUser h)

theorem sameRest_withUsers (users : List UserInfo) (app : ChatApp) :
    app.SameRest (app.withUsers u id users) := by
  unfold ChatApp.withUsers
  induction users generalizing app with
  | nil => exact .refl app
  | cons user users ih =>
    have h := sameRest_withUser (u := u) app user (id == user.userId)
    have h' := ih (app.withUser u user (id == user.userId))
    exact ⟨h'.enet.trans h.enet, h'.config.trans h.config, h'.state.trans h.state,
      h'.quit.trans h.quit⟩

theorem addUsers_ok {users : List UserInfo}
    (h : (users.forM fun user => addUser u user (id == user.userId)).run ⟨app, out⟩ = .ok () w) :
    ∃ effects, w = ⟨app.withUsers u id users, out ++ effects⟩ ∧
      ∀ effect ∈ effects, effect.quiet := by
  induction users generalizing app out with
  | nil =>
    cases h
    exact ⟨[], by simp [ChatApp.withUsers], by simp⟩
  | cons user users ih =>
    rw [run_forM_cons] at h
    obtain ⟨⟨⟩, t, hadd, hrest⟩ := bind_ok.mp h
    obtain ⟨me, rfl⟩ := addUser_ok hadd
    obtain ⟨effects, rfl, hq⟩ := ih hrest
    refine ⟨_, by rw [List.append_assoc]; rfl, fun effect he => ?_⟩
    obtain he | he := List.mem_append.mp he
    · exact listCalls_quiet effect he
    · exact hq effect he

theorem name?_withUser : (app.withUser u user isLocal).mUsers.name? id' =
    (app.mUsers.name? id').or (if id' = user.userId then some user.name else none) := by
  rw [mUsers_withUser, name?_insertUser]

/-- Of the users of a list that are not there yet, the first of an id counts. -/
theorem name?_find : (app.withUsers u id users).mUsers.name? id' =
    (app.mUsers.name? id').or ((users.find? (·.userId == id')).map (·.name)) := by
  unfold ChatApp.withUsers
  induction users generalizing app with
  | nil => simp
  | cons user users ih =>
    rw [List.foldl_cons, ih, name?_withUser, Option.or_assoc, List.find?_cons]
    by_cases h : id' = user.userId
    · simp [h]
    · have : (user.userId == id') = false := by simpa using Ne.symm h
      simp [h, this]

/-- Once the pointer can be read, it stays so. -/
theorem local?_withUser (h : app.Tidy) (hl : app.local? ≠ none) :
    (app.withUser u user isLocal).local? ≠ none := by
  cases isLocal with
  | false => rwa [ChatApp.withUser, if_neg (by simp), local?_insertUser h]
  | true =>
    obtain ⟨me, hme, -⟩ := local?_setLocal u app user
    simp [ChatApp.withUser, hme]

theorem addUsers_completes_of_local {users : List UserInfo} (h : app.Tidy)
    (hl : app.local? ≠ none) :
    Completes (users.forM fun user => addUser u user (id == user.userId)) ⟨app, out⟩ := by
  induction users generalizing app out with
  | nil => exact ⟨(), _, rfl⟩
  | cons user users ih =>
    obtain ⟨⟨⟩, t, hadd⟩ := (addUser_completes (u := u) user
      (id == user.userId) out h).mpr (.inr hl)
    obtain ⟨me, rfl⟩ := addUser_ok hadd
    exact (completes_bind hadd).mpr (ih (tidy_withUser h) (local?_withUser h hl))

/-- The first user is drawn through the pointer, which it may set. -/
theorem addUsers_completes {users : List UserInfo} (out : List Effect) (h : app.Tidy) :
    Completes (users.forM fun user => addUser u user (id == user.userId)) ⟨app, out⟩ ↔
      app.local? ≠ none ∨ ∀ user, users.head? = some user → user.userId = id := by
  cases users with
  | nil => simp [Completes]
  | cons user users =>
    have hiff := addUser_completes (u := u) user
      (id == user.userId) out h
    simp only [List.head?_cons, Option.some.injEq, forall_eq', eq_comm (a := user.userId)]
    rw [← beq_iff_eq (a := id), or_comm, ← hiff]
    constructor
    · rintro ⟨⟨⟩, w, hw⟩
      obtain ⟨⟨⟩, t, hadd, -⟩ := bind_ok.mp hw
      exact ⟨(), t, hadd⟩
    · rintro ⟨⟨⟩, t, hadd⟩
      obtain ⟨me, rfl⟩ := addUser_ok hadd
      refine (completes_bind hadd).mpr (addUsers_completes_of_local (tidy_withUser h) ?_)
      obtain hid | hl := hiff.mp ⟨(), _, hadd⟩
      · obtain ⟨me, hme, -⟩ := local?_setLocal u app user
        simp [ChatApp.withUser, hid, hme]
      · exact local?_withUser h hl

-- ---------------------------------------------------------------------------
-- The other packages
-- ---------------------------------------------------------------------------

/-- The user that a client looks up for a package. -/
def Package.about? : Package → Option UserId
  | .removeUser pckt => some pckt.userId
  | .message pckt => some pckt.userId
  | _ => none

section Handlers

variable {pkg : Package} (hs : app.mState = .to .chatStateClient)

include hs

theorem client_ack_run : (receivePackage u e (.usernameAck p)).run ⟨app, out⟩ =
    (p.users.forM fun user => addUser u user (p.assignedUserId == user.userId)).run
      ⟨app, out⟩ := by
  simp only [receivePackage, withState_run hs, State.receiveUsernameAckEvent,
    ChatStateClient.receiveUsernameAckEvent]

theorem client_ack_ok (h : (receivePackage u e (.usernameAck p)).run ⟨app, out⟩ = .ok () w) :
    ∃ effects, w = ⟨app.withUsers u p.assignedUserId p.users, out ++ effects⟩ ∧
      ∀ effect ∈ effects, effect.quiet := by
  rw [client_ack_run hs] at h
  exact addUsers_ok h

theorem client_ack_completes (h : app.Tidy) :
    Completes (receivePackage u e (.usernameAck p)) ⟨app, out⟩ ↔
      app.local? ≠ none ∨ ∀ user, p.users.head? = some user → user.userId = p.assignedUserId := by
  rw [← addUsers_completes (u := u) out h]
  unfold Completes
  rw [client_ack_run hs]

theorem client_add_known (hu : app.mUsers.contains p.user.userId = true) :
    (receivePackage u e (.addUser p)).run ⟨app, out⟩ = .ok () ⟨app, out⟩ := by
  simp [receivePackage, withState_run hs, State.receiveAddUserEvent,
    ChatStateClient.receiveAddUserEvent, hu]

theorem client_add_new (hu : app.mUsers.contains p.user.userId = false) :
    (receivePackage u e (.addUser p)).run ⟨app, out⟩ =
      (addUser u p.user).run
        ⟨app, out ++ [.window (.log (p.user.name ++ ascii " connected"))]⟩ := by
  simp [receivePackage, withState_run hs, State.receiveAddUserEvent,
    ChatStateClient.receiveAddUserEvent, hu]

theorem client_add_ok (h : (receivePackage u e (.addUser p)).run ⟨app, out⟩ = .ok () w) :
    ∃ effects, w = ⟨if app.mUsers.contains p.user.userId then app else app.insertUser p.user,
      out ++ effects⟩ ∧ ∀ effect ∈ effects, effect.quiet := by
  cases hu : app.mUsers.contains p.user.userId with
  | true =>
    rw [client_add_known hs hu] at h
    cases h
    exact ⟨[], by simp, by simp⟩
  | false =>
    rw [client_add_new hs hu] at h
    obtain ⟨me, rfl⟩ := addUser_ok h
    refine ⟨_, by rw [List.append_assoc]; rfl, fun effect he => ?_⟩
    obtain he | he := List.mem_append.mp he
    · rw [List.mem_singleton.mp he]
      rfl
    · exact listCalls_quiet effect he

theorem client_add_completes (h : app.Tidy) :
    Completes (receivePackage u e (.addUser p)) ⟨app, out⟩ ↔
      app.mUsers.contains p.user.userId = true ∨ app.local? ≠ none := by
  cases hu : app.mUsers.contains p.user.userId with
  | true => simp [Completes, client_add_known hs hu]
  | false =>
    have := addUser_completes (u := u) p.user false
      (out ++ [.window (.log (p.user.name ++ ascii " connected"))]) h
    unfold Completes at *
    rw [client_add_new hs hu, this]

theorem client_remove_null (hu : app.mUsers.user? p.userId = none) :
    (receivePackage u e (.removeUser p)).run ⟨app, out⟩ = .error .nullDeref ⟨app, out⟩ := by
  simp only [receivePackage, EStateM.run_bind, getUserInfoPtr_run, withState_run hs, hu,
    State.receiveRemoveUserEvent, ChatStateClient.receiveRemoveUserEvent, deref_none, run_throw]

theorem client_remove_run (hu : app.mUsers.user? p.userId = some user) :
    (receivePackage u e (.removeUser p)).run ⟨app, out⟩ =
      (removeUser user.userId).run
        ⟨app, out ++ [.window (.log (user.name ++ ascii " disconnected"))]⟩ := by
  simp only [receivePackage, EStateM.run_bind, getUserInfoPtr_run, withState_run hs, hu,
    State.receiveRemoveUserEvent, ChatStateClient.receiveRemoveUserEvent, deref_some,
    EStateM.run_pure, window_run]

theorem client_remove_ok (h : (receivePackage u e (.removeUser p)).run ⟨app, out⟩ = .ok () w) :
    ∃ user effects, app.mUsers.user? p.userId = some user ∧
      w = ⟨app.withoutUser user.userId, out ++ effects⟩ ∧ ∀ effect ∈ effects, effect.quiet := by
  cases hu : app.mUsers.user? p.userId with
  | none =>
    rw [client_remove_null hs hu] at h
    cases h
  | some user =>
    rw [client_remove_run hs hu] at h
    obtain ⟨me, rfl⟩ := removeUser_ok h
    refine ⟨user, _, rfl, by rw [List.append_assoc], fun effect he => ?_⟩
    obtain he | he := List.mem_append.mp he
    · rw [List.mem_singleton.mp he]
      rfl
    · exact listCalls_quiet effect he

theorem client_remove_completes (h : app.Tidy) :
    Completes (receivePackage u e (.removeUser p)) ⟨app, out⟩ ↔
      app.mUsers.contains p.userId = true ∧
        ((app.local? ≠ none ∧ app.pointsTo p.userId = false) ∨
          ∀ id, id ≠ p.userId → app.mUsers.user? id = none) := by
  rw [UserMap.contains_eq]
  cases hu : app.mUsers.user? p.userId with
  | none => simp [Completes, client_remove_null hs hu]
  | some user =>
    rw [← h.userId hu, ← removeUser_completes
      (out ++ [.window (.log (user.name ++ ascii " disconnected"))])]
    unfold Completes
    rw [client_remove_run hs hu]
    simp

theorem client_message_null (hu : app.mUsers.user? p.userId = none) :
    (receivePackage u e (.message p)).run ⟨app, out⟩ = .error .nullDeref ⟨app, out⟩ := by
  simp [receivePackage, withState_run hs, hu, State.receiveMessageEvent,
    ChatStateClient.receiveMessageEvent, isLocalUser]

theorem client_message_wild (hu : app.mUsers.user? p.userId = some user)
    (hl : app.local? = none) :
    (receivePackage u e (.message p)).run ⟨app, out⟩ = .error .wildRead ⟨app, out⟩ := by
  simp [receivePackage, withState_run hs, hu, State.receiveMessageEvent,
    ChatStateClient.receiveMessageEvent, isLocalUser, localUser_wild hl]

theorem client_message_run (hu : app.mUsers.user? p.userId = some user)
    (hl : app.local? = some me) :
    (receivePackage u e (.message p)).run ⟨app, out⟩ = .ok () ⟨app, out ++
      if me.any (·.userId == user.userId) then []
      else [.window (.printFrom user.name p.message false)]⟩ := by
  cases me with
  | none =>
    simp [receivePackage, withState_run hs, hu, State.receiveMessageEvent,
      ChatStateClient.receiveMessageEvent, isLocalUser, localUser_run hl]
  | some me =>
    by_cases heq : user.userId = me.userId
    · simp [receivePackage, withState_run hs, hu, State.receiveMessageEvent,
        ChatStateClient.receiveMessageEvent, isLocalUser, localUser_run hl, heq]
    · simp [receivePackage, withState_run hs, hu, State.receiveMessageEvent,
        ChatStateClient.receiveMessageEvent, isLocalUser, localUser_run hl, heq, Ne.symm heq]

theorem client_message_ok (h : (receivePackage u e (.message p)).run ⟨app, out⟩ = .ok () w) :
    ∃ user me, app.mUsers.user? p.userId = some user ∧ app.local? = some me ∧
      w = ⟨app, out ++ if me.any (·.userId == user.userId) then []
        else [.window (.printFrom user.name p.message false)]⟩ := by
  cases hu : app.mUsers.user? p.userId with
  | none =>
    rw [client_message_null hs hu] at h
    cases h
  | some user =>
    cases hl : app.local? with
    | none =>
      rw [client_message_wild hs hu hl] at h
      cases h
    | some me =>
      rw [client_message_run hs hu hl] at h
      cases h
      exact ⟨user, me, rfl, rfl, rfl⟩

theorem client_message_completes :
    Completes (receivePackage u e (.message p)) ⟨app, out⟩ ↔
      app.mUsers.contains p.userId = true ∧ app.local? ≠ none := by
  rw [UserMap.contains_eq]
  cases hu : app.mUsers.user? p.userId with
  | none => simp [Completes, client_message_null hs hu]
  | some user =>
    cases hl : app.local? with
    | none => simp [Completes, client_message_wild hs hu hl]
    | some me => simp [Completes, client_message_run hs hu hl]

/-- A user that is looked up is read through NULL if it is absent. -/
theorem client_lookup_null (hid : pkg.about? = some id) :
    (∃ w, (receivePackage u e pkg).run ⟨app, out⟩ = .error .nullDeref w) ↔
      app.mUsers.contains id = false := by
  rw [UserMap.contains_eq]
  cases pkg with
  | removeUser p =>
    cases hid
    cases hu : app.mUsers.user? p.userId with
    | none => simp [client_remove_null hs hu]
    | some user =>
      simp only [client_remove_run hs hu, Option.isSome_some, Bool.true_eq_false, iff_false]
      rintro ⟨w, hw⟩
      simp only [removeUser, EStateM.run_bind, modifyApp_run] at hw
      cases refreshUserList_error hw
  | message p =>
    cases hid
    cases hu : app.mUsers.user? p.userId with
    | none => simp [client_message_null hs hu]
    | some user =>
      cases hl : app.local? with
      | none => simp [client_message_wild hs hu hl]
      | some me => simp [client_message_run hs hu hl]
  | _ => cases hid

/-- The host's own handler is not overridden by a client. -/
theorem client_username_run :
    (receivePackage u e (.username p)).run ⟨app, out⟩ = .ok () ⟨app, out⟩ := by
  simp [receivePackage, withState_run hs, State.receiveUsernameEvent]

/-- A package changes the users and the local pointer only. -/
theorem client_receivePackage_ok (h : app.Tidy)
    (hr : (receivePackage u e pkg).run ⟨app, out⟩ = .ok () w) :
    w.app.Tidy ∧ app.SameRest w.app := by
  cases pkg with
  | username p =>
    rw [client_username_run hs] at hr
    cases hr
    exact ⟨h, .refl app⟩
  | usernameAck p =>
    obtain ⟨effects, rfl, -⟩ := client_ack_ok hs hr
    exact ⟨tidy_withUsers h, sameRest_withUsers p.users app⟩
  | addUser p =>
    obtain ⟨effects, rfl, -⟩ := client_add_ok hs hr
    show ChatApp.Tidy (if _ then _ else _) ∧ app.SameRest (if _ then _ else _)
    split
    · exact ⟨h, .refl app⟩
    · exact ⟨h.insertUser _, sameRest_insertUser⟩
  | removeUser p =>
    obtain ⟨user, effects, -, rfl, -⟩ := client_remove_ok hs hr
    exact ⟨h.erase user.userId, sameRest_withoutUser⟩
  | message p =>
    obtain ⟨user, me, -, -, rfl⟩ := client_message_ok hs hr
    exact ⟨h, .refl app⟩

theorem client_connection_run : (connectionEvent u e).run ⟨app, out⟩ =
    (send u 0 (.username { username := app.mConfig.nickname })).run ⟨app, out⟩ := by
  simp [connectionEvent, withState_run hs, State.receiveConnectionEvent,
    ChatStateClient.receiveConnectionEvent]

theorem client_disconnect_run : (disconnectEvent u e).run ⟨app, out⟩ = .ok () ⟨app.quitting,
    out ++ .window (.log (ascii "Disconnected from host, exiting...")) :: quitEffects app⟩ := by
  simp only [disconnectEvent, withState_run hs, State.receiveDisconnectEvent,
    ChatStateClient.receiveDisconnectEvent, EStateM.run_bind, window_run, goToState_quit hs,
    List.append_assoc, List.singleton_append]

end Handlers

theorem client_handleInput_run (hi : input ≠ exitCommand) (hl : app.local? = some me) :
    (ChatStateClient.handleInput u input).run ⟨app, out⟩ =
      match me with
      | none => .ok () ⟨app, out⟩
      | some me =>
        (send u 0 (.message { userId := me.userId, message := input })).run
          ⟨app, out ++ [.window (.printFrom me.name input true)]⟩ := by
  cases me <;> simp [ChatStateClient.handleInput, hi, localUser_run hl]

theorem client_handleInput_wild (hi : input ≠ exitCommand) (hl : app.local? = none) :
    (ChatStateClient.handleInput u input).run ⟨app, out⟩ = .error .wildRead ⟨app, out⟩ := by
  simp [ChatStateClient.handleInput, hi, localUser_wild hl]

end ENetChat

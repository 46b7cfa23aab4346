import ENetChat.Chat.Addresses
import ENetChat.Chat.Guest
import ENetChat.Chat.RunLaws

/-!
# A client as a guest

Whatever reaches it, a client is a guest, line by line and packet by packet,
and halts where the guest cannot go on (`client_is_guest`): its bytes, nodes
and pointers make no difference but those of a `Guest`.
-/

namespace ENetChat

open Exec Replica Transition

/-- The window's list of users, drawn again and again. -/
def Effect.listing : Effect → Bool
  | .window .clearUserList => true
  | .window (.addUser ..) => true
  | _ => false

def seen (out : List Effect) : List Effect := out.filter fun effect => !effect.listing

def ChatApp.shown (app : ChatApp) (h : Happening) : List Effect :=
  seen (worldOf (app.exec (handle h.u h.event))).out

/-- Who the local pointer points to. -/
def ChatApp.self (app : ChatApp) : Self :=
  match app.local? with
  | none => .lost
  | some none => .nobody
  | some (some me) => .user me.userId

structure ChatApp.Follows (app : ChatApp) (g : Guest) : Prop where
  state : app.mState = .to (if g.left then .quitState else .chatStateClient)
  quit : app.mQuit = g.left
  net : ∃ net, app.mEnet = some net ∧ (g.left = false → net.getPeerPtr 0 = g.host)
  nickname : app.mConfig.nickname = g.nickname
  short : g.nickname.length < 80
  tidy : app.Tidy
  roll : ∀ id, app.mUsers.name? id = g.roll id
  self : app.self = g.self

variable {u : Unspecified} {app : ChatApp} {g g' : Guest} {out effects : List Effect} {w : World}
  {user : UserInfo} {id : UserId} {z : Bool} {nickname : Nickname}

@[simp] theorem seen_append (out effects : List Effect) :
    seen (out ++ effects) = seen out ++ seen effects := List.filter_append _ _

-- ---------------------------------------------------------------------------
-- Who the local pointer points to
-- ---------------------------------------------------------------------------

theorem self_lost : app.self = .lost ↔ app.local? = none := by
  unfold ChatApp.self
  split <;> simp [*]

theorem self_local (h : app.local? = some (some user)) : app.self = .user user.userId := by
  simp [ChatApp.self, h]

/-- It points to the entry of its id. -/
theorem local_user (ht : app.Tidy) (hl : app.local? = some (some user)) :
    ∃ node, app.mLocaluserPtr = .entry user.userId node ∧
      app.mUsers.user? user.userId = some user := by
  unfold ChatApp.local? at hl
  split at hl
  · cases hl
  · cases hl
  · next id node hp =>
    obtain ⟨me, hme, rfl⟩ : ∃ me, app.pointee? id node = some me ∧ me = user := by
      simpa using hl
    unfold ChatApp.pointee? at hme
    split at hme
    · next n hn =>
      split at hme
      · cases hme
        have hid : n.user.userId = id := ht.keyed hn
        rw [hid]
        exact ⟨node, hp, UserMap.user?_eq_some.mpr ⟨n.node, hn⟩⟩
      · cases hme
    · cases hme

theorem self_user (ht : app.Tidy) (hs : app.self = .user id) :
    ∃ node me, app.mLocaluserPtr = .entry id node ∧ app.local? = some (some me) ∧
      me.userId = id ∧ app.mUsers.user? id = some me := by
  unfold ChatApp.self at hs
  split at hs
  · cases hs
  · cases hs
  · next me hl =>
    cases hs
    obtain ⟨node, hp, hu⟩ := local_user ht hl
    exact ⟨node, me, hp, hl, rfl, hu⟩

/-- A pointer to an entry that can be read. -/
theorem self_pointsTo (ht : app.Tidy) (hp : app.pointsTo id = true) (hl : app.local? ≠ none) :
    app.self = .user id := by
  rcases hl' : app.local? with - | - | me
  · exact absurd hl' hl
  · unfold ChatApp.local? at hl'
    unfold ChatApp.pointsTo at hp
    split at hp
    · next hptr => simp [hptr] at hl'
    · cases hp
  · obtain ⟨node, hptr, -⟩ := local_user ht hl'
    simp only [ChatApp.pointsTo, hptr, beq_iff_eq] at hp
    rw [← hp]
    exact self_local hl'

theorem self_of_local {app' : ChatApp} (h : app'.local? = app.local?) : app'.self = app.self := by
  rw [ChatApp.self, ChatApp.self, h]

theorem self_withUser (ht : app.Tidy) (isLocal : Bool) :
    (app.withUser u user isLocal).self = if isLocal then .user user.userId else app.self := by
  cases isLocal with
  | false => exact self_of_local (local?_insertUser ht)
  | true =>
    obtain ⟨me, hme, hu⟩ := local?_setLocal u app user
    have hid : me.userId = user.userId := (ht.insertUser user).userId hu
    rw [if_pos rfl, ← hid]
    have hself : (app.withUser u user true).self = .user me.userId := self_local hme
    exact hself

theorem self_withUsers {users : List UserInfo} (ht : app.Tidy) :
    (app.withUsers u id users).self =
      if ∃ user ∈ users, user.userId = id then .user id else app.self := by
  unfold ChatApp.withUsers
  induction users generalizing app with
  | nil => simp
  | cons user users ih =>
    rw [List.foldl_cons, ih (tidy_withUser ht), self_withUser ht]
    by_cases hrest : ∃ user ∈ users, user.userId = id
    · simp [hrest]
    · by_cases heq : user.userId = id
      · simp [hrest, heq]
      · simp [hrest, heq, Ne.symm heq]

theorem self_withoutUser (ht : app.Tidy) :
    (app.withoutUser id).self = if app.self = .user id then .lost else app.self := by
  cases hp : app.pointsTo id with
  | true =>
    have hlost : (app.withoutUser id).self = .lost := by
      rw [self_lost, local?_withoutUser, if_pos hp]
    rw [hlost]
    by_cases hs : app.self = .user id
    · rw [if_pos hs]
    · rw [if_neg hs]
      symm
      rw [self_lost]
      rcases hl : app.local? with - | me
      · rfl
      · exact absurd (self_pointsTo ht hp (by simp [hl])) hs
  | false =>
    have hsame : (app.withoutUser id).self = app.self := by
      refine self_of_local ?_
      rw [local?_withoutUser, hp]
      rfl
    rw [hsame, if_neg]
    intro hs
    obtain ⟨node, me, hptr, -⟩ := self_user ht hs
    simp [ChatApp.pointsTo, hptr] at hp

-- ---------------------------------------------------------------------------
-- Enacts
-- ---------------------------------------------------------------------------

/-- Where a handler leaves the application, if it completes. -/
def endOf : EStateM.Result Halt World Unit → Option ChatApp
  | .ok _ w => some w.app
  | .error _ _ => none

/-- A handler does what a guest does. -/
structure Enacts (r : EStateM.Result Halt World Unit) (answer : Guest.Answer) : Prop where
  shown : seen (worldOf r).out = answer.1
  next : Option.Rel ChatApp.Follows (endOf r) answer.2

theorem Enacts.ok {m : AppM Unit} (hr : m.run w = .ok () ⟨app, out⟩) (hout : seen out = effects)
    (h : app.Follows g) : Enacts (m.run w) (effects, some g) := by
  rw [hr]
  exact ⟨hout, .some h⟩

theorem Enacts.halts {m : AppM Unit} (hr : m.run w = .error e ⟨app, out⟩)
    (hout : seen out = effects) : Enacts (m.run w) (effects, none) := by
  rw [hr]
  exact ⟨hout, .none⟩

theorem next_eq (app : ChatApp) (h : Happening) :
    app.next h = endOf (app.exec (handle h.u h.event)) := by
  unfold ChatApp.next endOf
  rfl

/-- Nothing but the list of users is touched. -/
def Listing (m : AppM Unit) : Prop := ∀ effects, Keeps (fun w => seen w.out = effects) m

theorem listing_emit (h : seen effects = []) : Listing (emit effects) := by
  intro shown w hw
  refine Triple.of_run rfl ?_
  show seen (w.out ++ effects) = shown
  rw [seen_append, h, List.append_nil, hw]

theorem listing_listUser (user : UserInfo) : Listing (listUser user) := by
  intro shown
  refine Keeps.bind ?_ fun me => ?_
  · rintro ⟨app, out⟩ hw
    cases hl : app.local? with
    | some me => exact Triple.of_run (localUser_run hl) hw
    | none => exact Triple.of_eq (localUser_wild hl) (Triple.throw' hw)
  · cases me with
    | some me => exact listing_emit rfl shown
    | none => exact listing_emit rfl shown

theorem listing_refreshUserList : Listing refreshUserList := by
  intro shown
  refine Keeps.bind (listing_emit rfl shown) fun _ => Keeps.bind ?_ fun app => ?_
  · exact fun w hw => Triple.of_run rfl hw
  · exact Keeps.forM _ fun user => listing_listUser user shown

theorem listing_addUser (user : UserInfo) (isLocal : Bool) : Listing (addUser u user isLocal) :=
  fun shown => Keeps.bind (fun _ hw => Triple.of_run rfl hw)
    fun _ => listing_refreshUserList shown

/-- A list of users is drawn, unless it cannot be. -/
theorem Enacts.listing {m : AppM Unit} {next : Option Guest} (hm : Listing m)
    (hout : seen w.out = effects) (hnot : ¬ Completes m w → next = none)
    (hok : ∀ w', m.run w = .ok () w' → ∃ g, next = some g ∧ w'.app.Follows g) :
    Enacts (m.run w) (effects, next) := by
  have hseen := hm effects w hout
  cases hr : m.run w with
  | ok a w' =>
    obtain ⟨g, rfl, hg⟩ := hok w' hr
    exact ⟨hseen.ok hr, .some hg⟩
  | error e w' =>
    obtain rfl : next = none := by
      refine hnot ?_
      rintro ⟨a, s, hs⟩
      rw [hs] at hr
      cases hr
    exact ⟨hseen.error hr, .none⟩

-- ---------------------------------------------------------------------------
-- Changes of the users
-- ---------------------------------------------------------------------------

namespace ChatApp.Follows

theorem changed {roll : Table UserId Bytes} {self : Self} (h : app.Follows g)
    (hsame : app.SameRest app') (ht : app'.Tidy) (hroll : ∀ id, app'.mUsers.name? id = roll id)
    (hself : app'.self = self) : app'.Follows { g with roll, self } := by
  obtain ⟨net, hnet, hpeer⟩ := h.net
  exact ⟨hsame.state.trans h.state, hsame.quit.trans h.quit, ⟨net, hsame.enet.trans hnet, hpeer⟩,
    (congrArg _ hsame.config).trans h.nickname, h.short, ht, hroll, hself⟩

theorem insertUser (h : app.Follows g) (user : UserInfo) : (app.insertUser user).Follows
    { g with roll := Table.insert g.roll user.userId user.name } := by
  refine h.changed sameRest_insertUser (h.tidy.insertUser user) (fun id => ?_)
    ((self_of_local (local?_insertUser h.tidy)).trans h.self)
  rw [name?_insertUser, h.roll]
  rfl

theorem withoutUser (h : app.Follows g) (id : UserId) : (app.withoutUser id).Follows
    { g with
      roll := Table.erase g.roll id
      self := if g.self = .user id then .lost else g.self } := by
  refine h.changed sameRest_withoutUser (h.tidy.erase id) (fun id' => ?_) ?_
  · rw [ChatApp.withoutUser, UserMap.name?_erase, h.roll]
    rfl
  · rw [self_withoutUser h.tidy, h.self]

theorem withUsers (h : app.Follows g) (users : List UserInfo) : (app.withUsers u id users).Follows
    { g with
      roll := Guest.enrolled users g.roll
      self := if ∃ user ∈ users, user.userId = id then .user id else g.self } := by
  refine h.changed (sameRest_withUsers users app) (tidy_withUsers h.tidy) (fun id' => ?_) ?_
  · rw [name?_find, h.roll]
    rfl
  · rw [self_withUsers h.tidy, h.self]

theorem drawn (h : app.Follows g) (hout : seen out = effects) :
    Enacts (refreshUserList.run ⟨app, out⟩) (effects, g.drawn) := by
  have hiff : Completes refreshUserList ⟨app, out⟩ ↔ ¬ g.Stuck := by
    have hnil : app.mUsers.users = [] ↔ ¬ ∃ id, g.roll id ≠ none := by
      rw [UserMap.users_eq_nil, not_exists]
      refine forall_congr' fun id => ?_
      rw [← h.roll, UserMap.name?, not_not, Option.map_eq_none_iff]
    rw [refreshUserList_completes, hnil, Guest.Stuck, ← h.self, self_lost, not_and_or]
  unfold Guest.drawn
  refine Enacts.listing listing_refreshUserList hout (fun hnot => ?_) fun w hr => ⟨g, ?_, ?_⟩
  · exact if_pos (not_not.mp fun hc => hnot (hiff.mpr hc))
  · exact if_neg (hiff.mp ⟨(), w, hr⟩)
  · obtain ⟨me, rfl⟩ := refreshUserList_ok hr
    exact h

/-- `m_users` has an entry for those on the roll. -/
theorem lookup (h : app.Follows g) (id : UserId) :
    (g.roll id = none ∧ app.mUsers.user? id = none) ∨
      ∃ user, g.roll id = some user.name ∧ app.mUsers.user? id = some user ∧ user.userId = id := by
  rw [← h.roll, UserMap.name?]
  cases hu : app.mUsers.user? id with
  | none => exact .inl ⟨rfl, rfl⟩
  | some user => exact .inr ⟨user, rfl, rfl, h.tidy.userId hu⟩

theorem quitting (h : app.Follows g) : app.quitting.Follows { g with left := true } := by
  obtain ⟨net, hnet, -⟩ := h.net
  exact ⟨rfl, rfl, ⟨net, hnet, fun hf => by cases hf⟩, h.nickname, h.short,
    ⟨h.tidy.keyed, h.tidy.nodes, h.tidy.pointer⟩, h.roll, h.self⟩

theorem seen_quitEffects (h : app.Follows g) : seen (quitEffects app) = [.window .clearAll,
    .enet .disconnectAll, .window (.print (ascii "Press Enter to close window..."))] := by
  obtain ⟨net, hnet, -⟩ := h.net
  simp [quitEffects, hnet, seen, Effect.listing]

-- ---------------------------------------------------------------------------
-- Packages
-- ---------------------------------------------------------------------------

variable {e : NetworkTraffic}

section Present

variable (hl : g.left = false)

include hl

theorem client (h : app.Follows g) : app.mState = .to .chatStateClient := by
  rw [h.state, hl]
  rfl

theorem greeted (h : app.Follows g) (pckt : UsernameAckPackage) :
    Enacts ((receivePackage u e (.usernameAck pckt)).run ⟨app, []⟩)
      ([], g.greeted pckt.assignedUserId pckt.users) := by
  have hm : Listing (pckt.users.forM fun user =>
      addUser u user (pckt.assignedUserId == user.userId)) :=
    fun shown => Keeps.forM _ fun user => listing_addUser user _ shown
  have hiff : Completes (pckt.users.forM fun user =>
      addUser u user (pckt.assignedUserId == user.userId)) ⟨app, []⟩ ↔
        ¬ (g.self = .lost ∧ ∃ user ∈ pckt.users.head?, user.userId ≠ pckt.assignedUserId) := by
    rw [addUsers_completes [] h.tidy, ← h.self, self_lost, not_and_or]
    simp only [Option.mem_def, not_exists, not_and, not_not]
  rw [client_ack_run (h.client hl)]
  unfold Guest.greeted
  refine Enacts.listing hm rfl (fun hnot => ?_) fun w hr => ⟨_, if_neg (hiff.mp ⟨(), w, hr⟩), ?_⟩
  · exact if_pos (not_not.mp fun hc => hnot (hiff.mpr hc))
  · obtain ⟨effects, rfl, -⟩ := addUsers_ok hr
    exact h.withUsers pckt.users

theorem joined (h : app.Follows g) (pckt : AddUserPackage) :
    Enacts ((receivePackage u e (.addUser pckt)).run ⟨app, []⟩) (g.joined pckt.user) := by
  have hs := h.client hl
  unfold Guest.joined
  rcases h.lookup pckt.user.userId with ⟨hroll, hu⟩ | ⟨user, hroll, hu, -⟩
  · have hnew : app.mUsers.contains pckt.user.userId = false := by
      rw [UserMap.contains_eq, hu]
      rfl
    rw [if_pos hroll, client_add_new hs hnew]
    exact (h.insertUser pckt.user).drawn rfl
  · have hknown : app.mUsers.contains pckt.user.userId = true := by
      rw [UserMap.contains_eq, hu]
      rfl
    rw [if_neg (by simp [hroll])]
    exact Enacts.ok (client_add_known hs hknown) rfl h

theorem gone (h : app.Follows g) (pckt : RemoveUserPackage) :
    Enacts ((receivePackage u e (.removeUser pckt)).run ⟨app, []⟩) (g.gone pckt.userId) := by
  have hs := h.client hl
  unfold Guest.gone
  rcases h.lookup pckt.userId with ⟨hroll, hu⟩ | ⟨user, hroll, hu, hid⟩
  · rw [hroll]
    exact Enacts.halts (client_remove_null hs hu) rfl
  · rw [hroll, client_remove_run hs hu, hid]
    exact (h.withoutUser pckt.userId).drawn rfl

theorem told (h : app.Follows g) (pckt : MessagePackage) :
    Enacts ((receivePackage u e (.message pckt)).run ⟨app, []⟩)
      (g.told pckt.userId pckt.message) := by
  have hs := h.client hl
  unfold Guest.told
  rcases h.lookup pckt.userId with ⟨hroll, hu⟩ | ⟨user, hroll, hu, hid⟩
  · rw [hroll]
    exact Enacts.halts (client_message_null hs hu) rfl
  · rw [hroll, ← h.self]
    cases hme : app.local? with
    | none =>
      simp only [self_lost.mpr hme, if_true]
      exact Enacts.halts (client_message_wild hs hu hme) rfl
    | some me =>
      have hself : (app.self = .user pckt.userId) ↔ me.any (·.userId == user.userId) = true := by
        rw [hid]
        cases me <;> simp [ChatApp.self, hme]
      simp only [self_lost, hme, reduceCtorEq, if_false, hself]
      refine Enacts.ok (client_message_run hs hu hme) ?_ h
      split <;> rfl

theorem hears (h : app.Follows g) (pkg : Package) :
    Enacts ((receivePackage u e pkg).run ⟨app, []⟩) (g.hears pkg) := by
  cases pkg with
  | username pckt => exact Enacts.ok (client_username_run (h.client hl)) rfl h
  | usernameAck pckt => exact h.greeted hl pckt
  | addUser pckt => exact h.joined hl pckt
  | removeUser pckt => exact h.gone hl pckt
  | message pckt => exact h.told hl pckt

-- ---------------------------------------------------------------------------
-- Lines and events
-- ---------------------------------------------------------------------------

theorem writes {pkg : Package} (h : app.Follows g) (hsize : pkg.layout.length < 2 ^ 31)
    (hout : seen out = effects) :
    Enacts ((send u 0 pkg).run ⟨app, out⟩) (effects ++ g.writes pkg, some g) := by
  obtain ⟨net, hnet, hpeer⟩ := h.net
  refine Enacts.ok (send_run hsize hnet) ?_ h
  rw [seen_append, hout, ENetWrapper.send, Guest.writes, ← hpeer hl]
  have hzero : toPeerID 0 = 0 := rfl
  rw [hzero]
  cases net.getPeerPtr 0 <;> rfl

theorem types (h : app.Follows g) (line : InputLine) :
    Enacts (app.exec (handle u (.input line))) (g.types line.text) := by
  have hs := h.client hl
  have hq : app.mQuit = false := h.quit.trans hl
  unfold ChatApp.exec Guest.types
  by_cases hnil : line.text = []
  · rw [if_pos hnil]
    exact Enacts.ok (handle_input_skip hs (.inr (by rw [hnil]; rfl))) rfl h
  · rw [if_neg hnil, handle_input_run hs hq (List.length_pos_iff.mpr hnil), State.handleInput]
    by_cases hi : line.text = exitCommand
    · rw [if_pos hi, ChatStateClient.handleInput, if_pos hi, Guest.leaves, ← h.seen_quitEffects]
      exact Enacts.ok (goToState_quit hs) rfl h.quitting
    · rw [if_neg hi, ← h.self]
      rcases hme : app.local? with - | - | me
      · rw [self_lost.mpr hme]
        exact Enacts.halts (client_handleInput_wild hi hme) rfl
      · have hself : app.self = .nobody := by simp [ChatApp.self, hme]
        rw [hself]
        exact Enacts.ok (client_handleInput_run hi hme) rfl h
      · obtain ⟨node, -, hu⟩ := local_user h.tidy hme
        have hname : g.roll me.userId = some me.name := by
          rw [← h.roll, UserMap.name?, hu]
          rfl
        have hsize : (Package.message { userId := me.userId, message := line.text }).layout.length <
            2 ^ 31 := by
          rw [length_message]
          exact Nat.lt_trans (Nat.add_lt_add_left line.fits 11) (by decide)
        rw [self_local hme, client_handleInput_run hi hme]
        simp only [hname, Option.getD_some]
        exact h.writes hl hsize rfl

end Present

theorem withNet {net' : ENetWrapper} (h : app.Follows g)
    (hpeer : g.left = false → net'.getPeerPtr 0 = peer?) :
    ({ app with mEnet := some net' } : ChatApp).Follows { g with host := peer? } :=
  ⟨h.state, h.quit, ⟨_, rfl, hpeer⟩, h.nickname, h.short, tidy_withNet h.tidy, h.roll, h.self⟩

/-- A peer in another slot is not the host. -/
theorem meets {net : ENetWrapper} (h : app.Follows g) (hnet : app.mEnet = some net)
    (peer : ENetPeer) :
    ({ app with mEnet := some { net with mPeers := net.mPeers.insert peer.incomingPeerID peer } } :
      ChatApp).Follows (g.meets peer) := by
  obtain ⟨net', hnet', hpeer⟩ := h.net
  obtain rfl : net' = net := Option.some.inj (hnet'.symm.trans hnet)
  unfold Guest.meets
  split
  · next hid =>
    refine h.withNet fun _ => ?_
    simp [ENetWrapper.getPeerPtr, hid]
  · next hid =>
    refine h.withNet fun hl => ?_
    rw [← hpeer hl]
    simp [ENetWrapper.getPeerPtr, Std.ExtTreeMap.getElem?_insert, hid]

theorem connects (hl : g.left = false) (h : app.Follows g) (peer : ENetPeer) :
    Enacts ((listen u (.connect peer)).run ⟨app, []⟩)
      ((g.meets peer).writes (.username { username := g.nickname }), some (g.meets peer)) := by
  obtain ⟨net, hnet, -⟩ := h.net
  have hmeets := h.meets hnet peer
  have hleft : (g.meets peer).left = false := by
    unfold Guest.meets
    split <;> exact hl
  have hsize : (Package.username { username := g.nickname }).layout.length < 2 ^ 31 := by
    rw [length_username]
    exact Nat.lt_trans (Nat.add_lt_add_left h.short 9) (by decide)
  simp only [listen, EStateM.run_bind, modifyApp_run, hnet, Option.map_some]
  rw [client_connection_run (hmeets.client hleft), h.nickname]
  exact hmeets.writes hleft hsize rfl

theorem disconnects (hl : g.left = false) (h : app.Follows g) (peer : ENetPeer) :
    Enacts ((listen u (.disconnect peer)).run ⟨app, []⟩)
      (g.leaves [.window (.log (ascii "Disconnected from host, exiting..."))]) := by
  obtain ⟨net, hnet, -⟩ := h.net
  let net' : ENetWrapper := { net with mPeers := net.mPeers.erase peer.incomingPeerID }
  have hleft : ({ app.quitting with mEnet := some net' } : ChatApp).Follows
      { g with left := true } := h.quitting.withNet fun hf => by cases hf
  have hrun : (listen u (.disconnect peer)).run ⟨app, []⟩ =
      .ok () ⟨{ app.quitting with mEnet := some net' },
        .window (.log (ascii "Disconnected from host, exiting...")) :: quitEffects app⟩ := by
    simp only [listen, EStateM.run_bind, client_disconnect_run (h.client hl), modifyApp_run,
      List.nil_append]
    simp only [ChatApp.quitting, hnet, Option.map_some, net']
  exact Enacts.ok hrun (congrArg (_ :: ·) h.seen_quitEffects) hleft

/-- One event, for a guest that is there. -/
theorem answers_present (hl : g.left = false) (h : app.Follows g) (x : Happening)
    (hx : x.garbled = false) : Enacts (app.exec (handle x.u x.event)) (g.answer x) := by
  obtain ⟨net, hnet, -⟩ := h.net
  obtain ⟨u, event⟩ := x
  unfold Guest.answer
  rw [hx, hl]
  simp only [Bool.false_eq_true, if_false]
  cases event with
  | input line => exact h.types hl line
  | network ev =>
    cases ev with
    | none => exact Enacts.ok (handle_network_run hnet) rfl h
    | connect peer =>
      unfold ChatApp.exec
      rw [handle_network_run hnet]
      exact h.connects hl peer
    | disconnect peer =>
      unfold ChatApp.exec
      rw [handle_network_run hnet]
      exact h.disconnects hl peer
    | receive peer packet =>
      cases hp : packet.package? with
      | none =>
        simp only [hp, Option.elim_none]
        exact Enacts.ok (receive_nothing hnet hp hx) rfl h
      | some pkg =>
        simp only [hp, Option.elim_some]
        rw [receive_run u peer hnet hp]
        exact h.hears hl pkg

/-- One event. -/
theorem answers (h : app.Follows g) (x : Happening) :
    Enacts (app.exec (handle x.u x.event)) (g.answer x) := by
  obtain ⟨net, hnet, -⟩ := h.net
  cases hx : x.garbled with
  | true =>
    obtain ⟨ex, hex⟩ := garbled_throws hnet hx
    unfold Guest.answer
    rw [if_pos hx]
    exact Enacts.halts hex rfl
  | false =>
    cases hl : g.left with
    | false => exact h.answers_present hl x hx
    | true =>
      have hs : app.mState = .to .quitState := by
        rw [h.state, hl]
        rfl
      obtain ⟨net', hrun⟩ := quit_completes hs hnet hx
      unfold Guest.answer
      rw [hx, hl]
      exact Enacts.ok hrun rfl (h.withNet fun hf => by rw [hl] at hf; cases hf)

end ChatApp.Follows

-- ---------------------------------------------------------------------------
-- Runs
-- ---------------------------------------------------------------------------

/-- The members of a client that is not connected yet. -/
def joiningApp (z : Bool) (nickname : Bytes) : ChatApp :=
  { (chosenApp z false).named nickname .chatStateClient with mEnet := some {} }

theorem startClient_eq (u : Unspecified) (z : Bool) (nickname : Nickname) :
    startClient u z nickname = some (joiningApp z nickname.text) := by
  obtain ⟨w, hw, happ⟩ := choose_client (u := u) (z := z)
  have hname : (chosenApp z false).exec (handle u (.input nickname.line)) =
      .ok () ⟨joiningApp z nickname.text, [.window .clearAll] ++ clientOpening⟩ := by
    unfold ChatApp.exec
    rw [handle_input_run (s := .promptStateName) rfl rfl nickname.nonempty, State.handleInput,
      name_run rfl nickname.notExit]
    exact client_begin_run _ _
  simp only [startClient, started, launched_eq, Option.bind_some, ChatApp.after, hw, happ, hname]

theorem joiningApp_follows (z : Bool) (nickname : Nickname) :
    (joiningApp z nickname.text).Follows (.arrives z nickname.text) := by
  refine ⟨rfl, rfl, ⟨{}, rfl, fun _ => rfl⟩, rfl, nickname.line.fits, ?_, fun id => ?_, ?_⟩
  · exact tidy_withNet (named_prompting nickname.text .chatStateClient chosenApp_prompting).tidy
  · rfl
  · cases z <;> rfl

theorem guest_run (z : Bool) (nickname : Nickname) (events : List Happening) :
    observe ChatApp.next ChatApp.shown (joiningApp z nickname.text) events =
        observe Guest.next Guest.shown (.arrives z nickname.text) events ∧
      Option.Rel ChatApp.Follows (ends ChatApp.next (joiningApp z nickname.text) events)
        (ends Guest.next (.arrives z nickname.text) events) := by
  refine observe_simulate (fun app g x h => ?_) (joiningApp_follows z nickname) events
  have hx := h.answers x
  exact ⟨hx.shown, next_eq app x ▸ hx.next⟩

/-- From its start on, with any lines and any events, a client shows and sends
what a guest does, and goes on for as long. -/
theorem client_is_guest (u : Unspecified) (z : Bool) (nickname : Nickname) :
    ∃ app, startClient u z nickname = some app ∧ ∀ events,
      observe ChatApp.next ChatApp.shown app events =
          observe Guest.next Guest.shown (.arrives z nickname.text) events ∧
        Option.Rel ChatApp.Follows (ends ChatApp.next app events)
          (ends Guest.next (.arrives z nickname.text) events) :=
  ⟨_, startClient_eq u z nickname, guest_run z nickname⟩

/-- Whatever is typed in between, and whoever a client takes itself for, its
users are what the packages that it has heard make of an empty roll. -/
theorem users_heard (hj : startClient u z nickname = some app)
    (he : ends ChatApp.next app events = some app') (hs : app'.mState = .to .chatStateClient)
    (id : UserId) :
    app'.mUsers.name? id = (heard events).foldl Guest.enters (fun _ => none) id := by
  rw [startClient_eq] at hj
  cases hj
  have hends := (guest_run z nickname events).2
  rw [he] at hends
  rcases hg : ends Guest.next (.arrives z nickname.text) events with - | g
  · rw [hg] at hends
    cases hends
  · rw [hg] at hends
    cases hends with
    | some hf =>
      have hl : g.left = false := by
        have hstate := hs ▸ hf.state
        cases hleft : g.left with
        | false => rfl
        | true =>
          rw [hleft] at hstate
          cases hstate
      rw [hf.roll, (Guest.ends_roll hg hl).2]
      rfl

/-- A client meets its host, is told who is there, and has something to say. -/
def arrival : List Happening :=
  let ack : Package := .usernameAck {
    assignedUserId := 1
    users := [{ userId := 0, name := ascii "Ann" }, { userId := 1, name := ascii "Bob" }] }
  [⟨default, .network (.connect (.ofSlot 0))⟩,
    ⟨default, .network (.receive (.ofSlot 0) ⟨ack.layout, 0, by decide⟩)⟩,
    ⟨default, .input (menuLine "Hello")⟩]

theorem users_heard_arrival : ∃ app', ends ChatApp.next (joiningApp true ann.text) arrival =
    some app' ∧ ∀ id, app'.mUsers.name? id =
      (heard arrival).foldl Guest.enters (fun _ => none) id := by
  have hstate : (ends ChatApp.next (joiningApp true ann.text) arrival).map ChatApp.mState =
      some (.to .chatStateClient) := by decide +kernel
  obtain ⟨app', he, hs⟩ := Option.map_eq_some_iff.mp hstate
  exact ⟨app', he, users_heard (startClient_eq default true ann) he hs⟩

end ENetChat

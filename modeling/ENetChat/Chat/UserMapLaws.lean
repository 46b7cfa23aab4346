import ENetChat.Chat.ChatApp

/-!
# The user map and its nodes

`m_users` after an insertion and an erasure, seen through `find`, and the
invariant `Tidy`: every entry stands under its own id, and every node in use,
by the map or by the local pointer, has been allocated.
-/

namespace ENetChat

variable {m : UserMap} {app : ChatApp} {user : UserInfo} {id : UserId}

-- ---------------------------------------------------------------------------
-- Lookups
-- ---------------------------------------------------------------------------

theorem UserMap.contains_eq : m.contains id = (m.user? id).isSome := by
  simp [UserMap.user?]

theorem UserMap.user?_eq_some : m.user? id = some user ↔ ∃ node, m[id]? = some ⟨node, user⟩ := by
  constructor
  · intro h
    obtain ⟨⟨node, _⟩, hn, rfl⟩ := Option.map_eq_some_iff.mp h
    exact ⟨node, hn⟩
  · rintro ⟨node, hn⟩
    simp [UserMap.user?, hn]

theorem UserMap.name?_eq_none (h : m.user? id = none) : m.name? id = none := by
  simp [UserMap.name?, h]

@[simp] theorem UserMap.getElem?_erase (k : UserId) :
    (m.erase k)[id]? = if id = k then none else m[id]? := by
  rw [Std.ExtTreeMap.getElem?_erase]
  simp only [Std.LawfulEqCmp.compare_eq_iff_eq]
  by_cases h : id = k
  · simp [h]
  · simp [h, Ne.symm h]

theorem UserMap.user?_erase (k : UserId) :
    UserMap.user? (m.erase k) id = if id = k then none else m.user? id := by
  unfold UserMap.user?
  rw [UserMap.getElem?_erase]
  split <;> simp

theorem getElem?_insertUser :
    (app.insertUser user).mUsers[id]? =
      app.mUsers[id]?.or (if id = user.userId then some ⟨app.nextNode, user⟩ else none) := by
  rw [ChatApp.insertUser, Std.ExtTreeMap.getElem?_insertIfNew]
  by_cases h : id = user.userId
  · subst h
    by_cases hm : user.userId ∈ app.mUsers
    · simp [hm]
    · simp [hm]
  · have : ¬ user.userId = id := fun h' => h h'.symm
    simp [h, this]

theorem user?_insertUser :
    (app.insertUser user).mUsers.user? id =
      (app.mUsers.user? id).or (if id = user.userId then some user else none) := by
  unfold UserMap.user?
  rw [getElem?_insertUser]
  cases app.mUsers[id]? with
  | some n => rfl
  | none => split <;> rfl

theorem name?_insertUser : (app.insertUser user).mUsers.name? id =
    (app.mUsers.name? id).or (if id = user.userId then some user.name else none) := by
  unfold UserMap.name?
  rw [user?_insertUser]
  cases app.mUsers.user? id with
  | some user => rfl
  | none => split <;> rfl

theorem UserMap.name?_erase (k : UserId) :
    UserMap.name? (m.erase k) id = if id = k then none else m.name? id := by
  unfold UserMap.name?
  rw [UserMap.user?_erase]
  split <;> rfl

theorem getElem?_insertUser_self (app : ChatApp) (user : UserInfo) :
    ∃ n, (app.insertUser user).mUsers[user.userId]? = some n := by
  rw [getElem?_insertUser]
  cases app.mUsers[user.userId]? <;> simp

theorem UserMap.mem_users :
    user ∈ m.users ↔ ∃ (id : UserId) (node : Nat), m[id]? = some ⟨node, user⟩ := by
  simp only [UserMap.users, List.mem_map, Prod.exists,
    Std.ExtTreeMap.mem_toList_iff_getElem?_eq_some]
  constructor
  · rintro ⟨id, ⟨node, _⟩, h, rfl⟩
    exact ⟨id, node, h⟩
  · rintro ⟨id, node, h⟩
    exact ⟨id, ⟨node, user⟩, h, rfl⟩

theorem UserMap.users_eq_nil : m.users = [] ↔ ∀ id, m.user? id = none := by
  rw [List.eq_nil_iff_forall_not_mem]
  constructor
  · intro h id
    by_contra hne
    obtain ⟨user, hu⟩ := Option.ne_none_iff_exists'.mp hne
    obtain ⟨node, hn⟩ := UserMap.user?_eq_some.mp hu
    exact h user (UserMap.mem_users.mpr ⟨id, node, hn⟩)
  · intro h user hu
    obtain ⟨id, node, hn⟩ := UserMap.mem_users.mp hu
    have := h id
    rw [UserMap.user?_eq_some.mpr ⟨node, hn⟩] at this
    cases this

-- ---------------------------------------------------------------------------
-- Making a user local
-- ---------------------------------------------------------------------------

/-- `setLocal` finds an entry that an insertion has put there. -/
theorem setLocal_insertUser (u : Unspecified) (app : ChatApp) (user : UserInfo) :
    ∃ node, (app.insertUser user).setLocal u user.userId =
        { app.insertUser user with mLocaluserPtr := .entry user.userId node } ∧
      ∃ user', (app.insertUser user).mUsers[user.userId]? = some ⟨node, user'⟩ := by
  obtain ⟨n, hn⟩ := getElem?_insertUser_self app user
  exact ⟨n.node, by simp [ChatApp.setLocal, hn], n.user, hn⟩

-- ---------------------------------------------------------------------------
-- The invariant
-- ---------------------------------------------------------------------------

structure ChatApp.Tidy (app : ChatApp) : Prop where
  keyed : ∀ {id : UserId} {n : UserNode}, app.mUsers[id]? = some n → n.user.userId = id
  nodes : ∀ {id : UserId} {n : UserNode}, app.mUsers[id]? = some n → n.node < app.nextNode
  pointer : ∀ {id node}, app.mLocaluserPtr = .entry id node → node < app.nextNode

theorem ChatApp.Tidy.userId (h : app.Tidy) (hu : app.mUsers.user? id = some user) :
    user.userId = id := by
  obtain ⟨node, hn⟩ := UserMap.user?_eq_some.mp hu
  exact h.keyed hn

theorem ChatApp.Tidy.mem_users (h : app.Tidy) :
    user ∈ app.mUsers.users ↔ app.mUsers.user? user.userId = some user := by
  rw [UserMap.mem_users, UserMap.user?_eq_some]
  constructor
  · rintro ⟨id, node, hn⟩
    obtain rfl := h.keyed hn
    exact ⟨node, hn⟩
  · rintro ⟨node, hn⟩
    exact ⟨_, node, hn⟩

theorem ChatApp.Tidy.find_users (h : app.Tidy) (id : UserId) :
    app.mUsers.users.find? (·.userId == id) = app.mUsers.user? id := by
  cases hf : app.mUsers.users.find? (·.userId == id) with
  | some user =>
    have hid : user.userId = id := by simpa using List.find?_some hf
    rw [← hid]
    exact (h.mem_users.mp (List.mem_of_find?_eq_some hf)).symm
  | none =>
    cases hu : app.mUsers.user? id with
    | none => rfl
    | some user =>
      have hid := h.userId hu
      have hmem : user ∈ app.mUsers.users := h.mem_users.mpr (hid ▸ hu)
      exact absurd (List.find?_eq_none.mp hf user hmem) (by simp [hid])

theorem ChatApp.Tidy.insertUser (user : UserInfo) (h : app.Tidy) : (app.insertUser user).Tidy := by
  refine ⟨fun {id n} hn => ?_, fun {id n} hn => ?_, fun hp => ?_⟩
  · rw [getElem?_insertUser, Option.or_eq_some_iff] at hn
    obtain hn | ⟨-, hn⟩ := hn
    · exact h.keyed hn
    · split at hn
      · next heq => cases hn; exact heq.symm
      · cases hn
  · rw [getElem?_insertUser, Option.or_eq_some_iff] at hn
    show n.node < app.nextNode + 1
    obtain hn | ⟨-, hn⟩ := hn
    · exact Nat.lt_succ_of_lt (h.nodes hn)
    · split at hn
      · cases hn; exact Nat.lt_succ_self _
      · cases hn
  · exact Nat.lt_succ_of_lt (h.pointer hp)

theorem ChatApp.Tidy.setLocal {u : Unspecified} (h : app.Tidy) :
    ((app.insertUser user).setLocal u user.userId).Tidy := by
  obtain ⟨node, heq, user', hn⟩ := setLocal_insertUser u app user
  rw [heq]
  refine ⟨(h.insertUser user).keyed, (h.insertUser user).nodes, fun hp => ?_⟩
  cases hp
  exact (h.insertUser user).nodes hn

theorem ChatApp.Tidy.erase (h : app.Tidy) (k : UserId) :
    ({ app with mUsers := app.mUsers.erase k } : ChatApp).Tidy := by
  refine ⟨fun {id n} hn => ?_, fun {id n} hn => ?_, h.pointer⟩ <;>
    rw [UserMap.getElem?_erase] at hn <;> split at hn
  · cases hn
  · exact h.keyed hn
  · cases hn
  · exact h.nodes hn

-- ---------------------------------------------------------------------------
-- Order
-- ---------------------------------------------------------------------------

/-- By id. -/
def UserInfo.Before (user user' : UserInfo) : Prop := user.userId < user'.userId

theorem ChatApp.Tidy.ordered (h : app.Tidy) : app.mUsers.users.Pairwise UserInfo.Before := by
  rw [UserMap.users, List.pairwise_map]
  refine (Std.ExtTreeMap.ordered_keys_toList (t := app.mUsers)).imp_of_mem ?_
  intro a b ha hb hlt
  have hka := h.keyed (Std.ExtTreeMap.mem_toList_iff_getElem?_eq_some.mp ha)
  have hkb := h.keyed (Std.ExtTreeMap.mem_toList_iff_getElem?_eq_some.mp hb)
  rw [UserInfo.Before, hka, hkb]
  exact Std.compare_eq_lt.mp hlt

end ENetChat

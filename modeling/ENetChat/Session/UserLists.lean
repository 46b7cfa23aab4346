import ENetChat.Chat.UserPanel
import ENetChat.Session.Settling

/-!
# The lists of users of a session

The applications of a session have come to where they are by runs of the
program (`Session.ran`), so they have called their windows for the users of
their maps. At rest these are the same users, in the same order, each
application's own as local (`Session.lists_agree`).
-/

namespace ENetChat

open Channel Replica Transition

variable {nickname : Nickname} {s s' : Session} {c : Conn} {i : Nat} {l : Label}
  {u : Unspecified} {source : Option Nat}

-- ---------------------------------------------------------------------------
-- The applications
-- ---------------------------------------------------------------------------

/-- A client that has not come to grief is where the program can be. -/
def Conn.Ran (c : Conn) : Prop := c.halt = none → ∃ z, Reachable z c.client

structure Session.Ran (s : Session) : Prop where
  host : s.halt = none → ∃ z, Reachable z s.host
  conns : ∀ c ∈ s.conns, c.Ran

namespace Conn

theorem effects_client (effects : List Effect) (c : Conn) :
    (effects.foldl effect c).client = c.client ∧ (effects.foldl effect c).halt = c.halt := by
  induction effects generalizing c with
  | nil => exact ⟨rfl, rfl⟩
  | cons e effects ih =>
    have hone : (c.effect e).client = c.client ∧ (c.effect e).halt = c.halt := by
      unfold Conn.effect
      split
      · split <;> exact ⟨rfl, rfl⟩
      · split <;> exact ⟨rfl, rfl⟩
      · split <;> exact ⟨rfl, rfl⟩
      · exact ⟨rfl, rfl⟩
    obtain ⟨hclient, hhalt⟩ := ih (c.effect e)
    exact ⟨hclient.trans hone.1, hhalt.trans hone.2⟩

theorem Ran.congr {c' : Conn} (h : c.Ran) (hclient : c'.client = c.client)
    (hhalt : c'.halt = c.halt) : c'.Ran := by
  intro hnone
  rw [hclient]
  exact h (hhalt ▸ hnone)

theorem Ran.run (h : c.Ran) (hh : c.halt = none) (event : AppEvent) : (c.run u event).Ran := by
  obtain ⟨z, hz⟩ := h hh
  unfold Conn.run
  split
  · next w hw =>
    intro _
    rw [(effects_client w.out { c with client := w.app }).1]
    exact ⟨z, hz.step hw⟩
  · exact fun hnone => by cases hnone

theorem Ran.take (h : c.Ran) (hh : c.halt = none) (w : Wire ENetPacket) : (c.take u w).Ran := by
  cases w with
  | opened => exact h.run hh _
  | closed => exact h.run hh _
  | item packet =>
    have hrun : (c.run u (.network (.receive hostPeer packet))).Ran := h.run hh _
    rw [Conn.take, Conn.noteAck]
    split
    · exact hrun
    · exact hrun

theorem Ran.typeLine (h : c.Ran) (hh : c.halt = none) (line : InputLine) :
    (c.typeLine u line).Ran := by
  unfold Conn.typeLine
  split
  · exact h.run hh _
  · have htyped : ({ c with typed := c.typed ++ [line.text] } : Conn).Ran := h.congr rfl rfl
    exact htyped.run hh _

end Conn

namespace Session

theorem effects_ran (source : Option Nat) {s : Session} (h : ∀ c ∈ s.conns, c.Ran)
    (effects : List Effect) :
    (effects.foldl (effect source) s).host = s.host ∧
      (effects.foldl (effect source) s).halt = s.halt ∧
        ∀ c ∈ (effects.foldl (effect source) s).conns, c.Ran := by
  induction effects generalizing s with
  | nil => exact ⟨rfl, rfl, h⟩
  | cons e effects ih =>
    have hmap {f : Conn → Conn} (hf : ∀ c, (f c).client = c.client ∧ (f c).halt = c.halt) :
        ∀ c ∈ s.conns.map f, c.Ran := by
      intro c' hc'
      obtain ⟨c, hc, rfl⟩ := List.mem_map.mp hc'
      exact (h c hc).congr (hf c).1 (hf c).2
    have hone : (s.effect source e).host = s.host ∧ (s.effect source e).halt = s.halt ∧
        ∀ c ∈ (s.effect source e).conns, c.Ran := by
      unfold Session.effect
      split
      · exact ⟨rfl, rfl, h⟩
      · split
        · exact ⟨rfl, rfl, hmap fun c => ⟨rfl, rfl⟩⟩
        · exact ⟨rfl, rfl, h⟩
      · split
        · refine ⟨rfl, rfl, hmap fun c => ?_⟩
          unfold Session.sendTo
          split <;> exact ⟨rfl, rfl⟩
        · exact ⟨rfl, rfl, h⟩
      · exact ⟨rfl, rfl, h⟩
    obtain ⟨hhost, hhalt, hconns⟩ := ih hone.2.2
    exact ⟨hhost.trans hone.1, hhalt.trans hone.2.1, hconns⟩

theorem Ran.put (h : s.Ran) (hc : c.Ran) : (s.put i c).Ran :=
  ⟨h.host, fun c' hc' => (List.mem_or_eq_of_mem_set hc').elim (h.conns c') fun heq => heq ▸ hc⟩

theorem Ran.run (h : s.Ran) (hh : s.halt = none) (event : AppEvent) :
    (s.run u source event).Ran := by
  obtain ⟨z, hz⟩ := h.host hh
  unfold Session.run
  split
  · next w hw =>
    have hconns : ∀ c ∈ ({ s with host := w.app } : Session).conns, c.Ran := h.conns
    have heffects := effects_ran source hconns w.out
    refine ⟨fun _ => ?_, heffects.2.2⟩
    rw [heffects.1]
    exact ⟨z, hz.step hw⟩
  · exact ⟨nofun, h.conns⟩

theorem Ran.take (h : s.Ran) (hh : s.halt = none) (hc : c.Ran) (w : Wire ENetPacket) :
    (s.take u i c w).Ran := by
  cases w with
  | opened =>
    have hopened : ({ c with link := c.link.opened } : Conn).Ran := hc.congr rfl rfl
    exact (h.put hopened).run hh _
  | item packet => exact (h.put hc).run hh _
  | closed =>
    have hgone : ({ c with link := .gone } : Conn).Ran := hc.congr rfl rfl
    exact (h.put hgone).run hh _

theorem Ran.step (h : s.Ran) (hs : s.step l = some s') : s'.Ran := by
  have hget {i : Nat} {c : Conn} (hc : s.conns[i]? = some c) : c.Ran :=
    h.conns c (List.mem_of_getElem? hc)
  cases l with
  | join u z slot address nickname =>
    simp only [Session.step] at hs
    split at hs
    · cases hs
    · obtain ⟨client, hstart, rfl⟩ := Option.map_eq_some_iff.mp hs
      refine ⟨h.host, fun c hc => ?_⟩
      rcases List.mem_append.mp hc with hc | hc
      · exact h.conns c hc
      · obtain rfl := List.mem_singleton.mp hc
        exact fun _ => ⟨z, reachable_started hstart⟩
  | hostInput u line =>
    simp only [Session.step] at hs
    split at hs
    · next hok =>
      cases hs
      exact h.run hok.1 _
    · cases hs
  | hostEvent u i =>
    simp only [Session.step, Option.bind_eq_bind, Option.bind_eq_some_iff, guard_some] at hs
    obtain ⟨-, hh, c, hc, w, -, hs⟩ := hs
    cases hs
    have hpopped : ({ c with toHost := c.toHost.tail } : Conn).Ran := (hget hc).congr rfl rfl
    exact h.take hh hpopped w
  | clientInput u i line =>
    simp only [Session.step, Option.bind_eq_bind, Option.bind_eq_some_iff, guard_some] at hs
    obtain ⟨c, hc, -, hh, hs⟩ := hs
    cases hs
    exact h.put ((hget hc).typeLine hh line)
  | clientEvent u i =>
    simp only [Session.step, Option.bind_eq_bind, Option.bind_eq_some_iff, guard_some] at hs
    obtain ⟨c, hc, -, hh, w, -, hs⟩ := hs
    cases hs
    have hpopped : ({ c with toClient := c.toClient.tail } : Conn).Ran := (hget hc).congr rfl rfl
    exact h.put (hpopped.take hh w)
  | hangup i toHost toClient =>
    simp only [Session.step, Option.bind_eq_bind, Option.bind_eq_some_iff, guard_some] at hs
    obtain ⟨c, hc, -, -, hs⟩ := hs
    cases hs
    refine h.put ?_
    exact (hget hc).congr rfl rfl
  | dropToHost i n =>
    simp only [Session.step, Option.bind_eq_bind, Option.bind_eq_some_iff, guard_some] at hs
    obtain ⟨c, hc, w, -, -, -, hs⟩ := hs
    cases hs
    refine h.put ?_
    exact (hget hc).congr rfl rfl
  | dropToClient i n =>
    simp only [Session.step, Option.bind_eq_bind, Option.bind_eq_some_iff, guard_some] at hs
    obtain ⟨c, hc, w, -, -, -, hs⟩ := hs
    cases hs
    refine h.put ?_
    exact (hget hc).congr rfl rfl

/-- Hosts and clients are where runs of the program take them. -/
theorem ran {allowed : Session → Label → Prop} (h : (system nickname).Reach allowed s) : s.Ran := by
  refine h.invariant (I := Session.Ran) (fun s hs => ?_) fun s l s' _ h _ hs => h.step hs
  obtain ⟨u, z, host, hstart, rfl⟩ := hs
  have hreach : Reachable z host := reachable_started hstart
  exact ⟨fun _ => ⟨z, hreach⟩, fun c hc => absurd hc List.not_mem_nil⟩

end Session

-- ---------------------------------------------------------------------------
-- The lists
-- ---------------------------------------------------------------------------

/-- Who there is, by id. -/
def UserMap.names (m : UserMap) : List (UserId × Bytes) :=
  (m.map fun _ n => n.user.name).toList

/-- A user, as the application of `me` lists it. -/
def listed (me : UserId) (user : UserId × Bytes) : Bytes × Bool := (user.2, user.1 == me)

/-- A run of the program has come to `app`, and whichever it was, the users
added on the window since its last clear are `users`, seen from `me`. -/
def ChatApp.Lists (app : ChatApp) (me : UserId) (users : List (UserId × Bytes)) : Prop :=
  (∃ z, Reachable z app) ∧
    ∀ z u hs out, (program u hs).run { app := .construct z true } = .ok () ⟨app, out⟩ →
      (Panels.after out).users = some (users.map (listed me))

theorem names_congr {m m' : UserMap} (h : ∀ id, m.name? id = m'.name? id) :
    m.names = m'.names := by
  have hmap : m.map (fun _ n => n.user.name) = m'.map fun _ n => n.user.name := by
    refine Std.ExtTreeMap.ext_getElem? fun id => ?_
    have hid := h id
    rw [UserMap.name?, UserMap.name?, UserMap.user?, UserMap.user?, Option.map_map,
      Option.map_map] at hid
    rw [Std.ExtTreeMap.getElem?_map, Std.ExtTreeMap.getElem?_map]
    exact hid
  rw [UserMap.names, UserMap.names, hmap]

/-- The ids are in order. -/
theorem names_ordered (m : UserMap) : m.names.Pairwise fun user user' => user.1 < user'.1 := by
  refine (Std.ExtTreeMap.ordered_keys_toList (t := m.map fun _ n => n.user.name)).imp ?_
  intro user user' hlt
  exact Std.compare_eq_lt.mp hlt

theorem userEntries_names {app : ChatApp} {me : UserInfo} (h : app.Tidy)
    (hs : app.mState ≠ .to .quitState) (hl : app.local? = some (some me)) :
    app.userEntries = app.mUsers.names.map (listed me.userId) := by
  rw [userEntries_local hs hl, UserMap.names, UserMap.users, Std.ExtTreeMap.toList_map,
    List.map_map, List.map_map]
  refine List.map_congr_left ?_
  rintro ⟨id, n⟩ hn
  obtain rfl := h.keyed (Std.ExtTreeMap.mem_toList_iff_getElem?_eq_some.mp hn)
  exact congrArg (n.user.name, ·) (Bool.beq_comm ..)

theorem lists {app : ChatApp} {z : Bool} {me : UserInfo} (hreach : Reachable z app)
    (h : app.Tidy) (hs : app.mState ≠ .to .quitState) (hl : app.local? = some (some me)) :
    app.Lists me.userId app.mUsers.names := by
  refine ⟨⟨z, hreach⟩, fun z u events out hr => ?_⟩
  rw [← userEntries_names h hs hl]
  exact program_drawn hr

namespace Session

/-- The host and the clients that run have listed the same users in the same
order, each its own as local. -/
theorem lists_agree (h : (system nickname).Reach (fun _ l => l.lossless = true) s)
    (hs : s.Settled) :
    ∃ users : List (UserId × Bytes), (users.Pairwise fun user user' => user.1 < user'.1) ∧
      s.host.Lists 0 users ∧
      ∀ c ∈ s.conns, c.Running →
        (c.userId, c.nickname.text) ∈ users ∧ c.client.Lists c.userId users := by
  obtain ⟨r, hr, hcoupled⟩ := simulated (fun _ a => a.lossless)
    (fun _ _ hl hdo => hdo.lossless hl) h
  have hran := ran h
  obtain ⟨z, hz⟩ := hran.host hcoupled.halt
  have hhost := hcoupled.hosting
  refine ⟨s.host.mUsers.names, names_ordered _, ?_, fun c hc hrun => ?_⟩
  · exact lists hz hhost.tidy (by simp [hhost.state]) hhost.local?
  · obtain ⟨i, hi⟩ := List.getElem?_of_mem hc
    obtain ⟨hreg, -, hme, hsame, -⟩ := hs.agrees hcoupled hr i c hi hrun
    obtain ⟨z, hz⟩ := hran.conns c hc hrun.1
    obtain ⟨m, hm, hcm⟩ := hcoupled.seated.get hi
    have htidy := (hcm.mirrors hrun).tidy
    obtain ⟨id, node, user, hid, hp, hn, huser, -⟩ := hme
    obtain rfl : id = c.userId := UInt16.toNat_inj.mp (hid.trans c.userId_toNat.symm)
    have hlocal : c.client.local? = some (some user) := by
      simp [ChatApp.local?, hp, ChatApp.pointee?, hn]
    have hnames := names_congr hsame
    constructor
    · rw [UserMap.names, Std.ExtTreeMap.mem_toList_iff_getElem?_eq_some,
        Std.ExtTreeMap.getElem?_map]
      rw [UserMap.name?, UserMap.user?, Option.map_map] at hreg
      exact hreg
    · rw [← hnames, ← huser]
      exact lists hz htidy (by simp [hrun.2]) hlocal

theorem lists_agree_talked :
    ∃ users : List (UserId × Bytes), (users.Pairwise fun user user' => user.1 < user'.1) ∧
      talked.host.Lists 0 users ∧
      ∀ c ∈ talked.conns, c.Running →
        (c.userId, c.nickname.text) ∈ users ∧ c.client.Lists c.userId users :=
  lists_agree talked_reach (by unfold Settled; decide +kernel)

end Session

end ENetChat

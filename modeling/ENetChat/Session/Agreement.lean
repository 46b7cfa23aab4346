import ENetChat.Session.Simulation

/-!
# What a session agrees on

On channels that lose nothing while they stand, a registered client that has
nothing under way has the host's users (`agreement`), and a client that has
processed its Ack shows what the host shows, in the host's order
(`hostOrdered`). Both are read off the room that a session is.
-/

namespace ENetChat

open Channel Replica Transition

variable {nickname : Nickname} {s : Session} {r : ChatRoom} {c : Conn} {m : Participant} {i : Nat}

-- ---------------------------------------------------------------------------
-- The room
-- ---------------------------------------------------------------------------

namespace Session

theorem Does.lossless {l : Label} {a : Act Nat UserId Bytes Bytes} (h : s.Does l a)
    (hl : l.lossless = true) : a.lossless := by
  cases h with
  | loseSpeech => cases hl
  | loseNote => cases hl
  | _ => trivial

theorem followed (h : (system nickname).Reach (fun _ l => l.lossless = true) s) :
    ∃ r, s.Coupled nickname.text r ∧ Room.Core 0 nickname.text r ∧
      Room.Followed (fun v => v.synced = true) r := by
  obtain ⟨r, hr, hs⟩ := simulated (fun _ a => a.lossless)
    (fun _ _ hl hdo => hdo.lossless hl) h
  exact ⟨r, hs, Room.core hr, Room.followed_synced hr⟩

theorem Coupled.contains (h : s.Coupled nick r) (hcm : c.Coupled m) :
    s.host.mUsers.contains c.userId = (r.table m.id).isSome := by
  rw [UserMap.contains_eq, ← h.table, hcm.id, UserMap.name?, Option.isSome_map]

end Session

-- ---------------------------------------------------------------------------
-- Ann and Bob
-- ---------------------------------------------------------------------------

theorem Session.reach_after {allowed : Session → Label → Prop} [∀ s l, Decidable (allowed s l)]
    {s' : Session} (ls : List Label)
    (h : (Session.system nickname).Reach allowed s) (hs : s.after allowed ls = some s') :
    (Session.system nickname).Reach allowed s' := by
  induction ls generalizing s with
  | nil =>
    cases hs
    exact h
  | cons l ls ih =>
    simp only [Session.after] at hs
    split at hs
    · next hl =>
      obtain ⟨t, ht, hs⟩ := Option.bind_eq_some_iff.mp hs
      exact ih (.step h hl ht) hs
    · cases hs

def bob : Nickname := ⟨menuLine "Bob", by decide, by decide⟩

/-- Ann, who has just begun to host. -/
def annHost : ChatApp where
  mEnet := some {}
  mConfig := { connAsHost := true, nickname := ascii "Ann" }
  mLocaluserPtr := .entry 0 0
  mUsers := (∅ : UserMap).insertIfNew 0 ⟨0, { userId := 0, name := ascii "Ann" }⟩
  mState := .to .chatStateHost
  nextNode := 1

def bobUsername : ENetPacket := ⟨[0, 3, 0, 0, 0, 0, 0, 0, 0, 66, 111, 98], 0, by decide⟩

def bobAck : ENetPacket where
  data := [1, 1, 0, 0, 0, 3, 0, 0, 0, 0, 0, 0, 0, 65, 110, 110, 1, 0, 3, 0, 0, 0, 0, 0, 0, 0,
    66, 111, 98]
  flags := 0
  fits := by decide

def bobAddUser : ENetPacket := ⟨[2, 1, 0, 3, 0, 0, 0, 0, 0, 0, 0, 66, 111, 98], 0, by decide⟩

namespace Session

/-- Bob has introduced himself to Ann. -/
def introduced : Session where
  host := { annHost with mEnet := some { mPeers := .ofList [((0 : PeerId), ENetPeer.ofSlot 0)] } }
  conns := [{
    slot := 0
    address := {}
    nickname := bob
    client := {
      mEnet := some { mPeers := .ofList [((0 : PeerId), hostPeer)] }
      mConfig := { nickname := ascii "Bob" }
      mLocaluserPtr := .null
      mState := .to .chatStateClient }
    link := .up
    toHost := [.item bobUsername]
    toClient := [] }]

/-- Ann has registered Bob. -/
def welcomed : Session where
  host := introduced.host.insertUser { userId := 1, name := ascii "Bob" }
  conns := introduced.conns.map fun c =>
    { c with toHost := [], toClient := [.item bobAck, .item bobAddUser] }

/-- Bob has processed his Ack, and nothing is under way. -/
def met : Session where
  host := welcomed.host
  conns := welcomed.conns.map fun c => { c with
    client := {
      c.client with
      mLocaluserPtr := .entry 1 1
      mUsers := welcomed.host.mUsers
      nextNode := 2 }
    toClient := []
    acked := true }

theorem introduced_reach : (system ann).Reach Orderly introduced :=
  reach_after (s := { host := annHost })
    [.join default true 0 {} bob, .hostEvent default 0, .clientEvent default 0]
    (.init ⟨default, true, annHost, by decide +kernel, rfl⟩) (by decide +kernel)

theorem met_reach : (system ann).Reach Orderly met := by
  have h : (system ann).Reach Orderly welcomed :=
    reach_after [.hostEvent default 0] introduced_reach (by decide +kernel)
  exact reach_after [.clientEvent default 0, .clientEvent default 0] h (by decide +kernel)

/-- Ann has said "hi" and Bob "yo". -/
def talked : Session where
  host := met.host
  conns := met.conns.map fun c => { c with
    typed := [ascii "yo"]
    echoed := [ascii "yo"]
    shown := [(ascii "Ann", ascii "hi")] }
  log := [(none, ascii "Ann", ascii "hi"), (some 0, ascii "Bob", ascii "yo")]

theorem talked_reach : (system ann).Reach (fun _ l => l.lossless = true) talked := by
  have h : (system ann).Reach Orderly talked :=
    reach_after [.hostInput default (menuLine "hi"), .clientInput default 0 (menuLine "yo"),
      .clientEvent default 0, .hostEvent default 0, .clientEvent default 0] met_reach
      (by decide +kernel)
  exact h.mono fun _ _ _ hl => hl.1

end Session

-- ---------------------------------------------------------------------------
-- Users
-- ---------------------------------------------------------------------------

/-- The local pointer is to the entry of the slot's id, which has the client's
own nickname. -/
def Conn.Identified (c : Conn) : Prop :=
  ∃ id node user, id.toNat = c.slot.val + 1 ∧ c.client.mLocaluserPtr = .entry id node ∧
    c.client.mUsers[id]? = some ⟨node, user⟩ ∧ user.userId = id ∧ user.name = c.nickname.text

theorem Conn.userId_toNat (c : Conn) : c.userId.toNat = c.slot.val + 1 := by
  have := c.slot.isLt
  rw [Conn.userId, toUserID_toNat c.peer.inHost]
  simp only [maxConnections] at this
  simp [Conn.peer, ENetPeer.ofSlot]
  omega

namespace Conn.Coupled

theorem identified (h : c.Coupled m) (hr : c.Running) (hsound : m.Sound 0 table)
    (hsync : m.view.synced = true) : c.Identified := by
  have hm := h.mirrors hr
  obtain ⟨node, user, hp, hn⟩ := hm.atSelf hsync
  have hname : c.client.mUsers.name? m.id = some m.name := by
    rw [hm.replica]
    exact hsound.synced hsync
  rw [UserMap.name?, UserMap.user?, hn] at hname
  refine ⟨m.id, node, user, h.id ▸ c.userId_toNat, hp, hn, hm.tidy.keyed hn, ?_⟩
  rw [← h.name]
  exact Option.some.inj hname

theorem live (h : c.Coupled m) (hr : c.Running) (hsound : m.Sound 0 table)
    (hq : c.toClient = []) : m.inbox = [] ∧ m.link.live = true := by
  have hin := (h.mirrors hr).inbox.eq_nil hq
  refine ⟨hin, ?_⟩
  by_contra hl
  have := hsound.parted (by simpa using hl)
  simp [hin] at this

theorem here (h : c.Coupled m) (hr : c.Running) (hsound : m.Sound 0 table)
    (hq : c.toClient = []) (ht : table m.id ≠ none) : m.Here := by
  obtain ⟨-, hl⟩ := h.live hr hsound hq
  refine ⟨?_, h.running.mpr hr⟩
  cases hlink : m.link with
  | pending => exact absurd (hsound.pending hlink) ht
  | up => rfl
  | _ => simp [hlink, Link.live] at hl

theorem finds {g : View UserId Bytes Bytes → Prop} {id : UserId} (h : c.Coupled m) (hr : c.Running)
    (hsafe : m.SafeNotes g) (hg : g m.view) (hq : c.toClient = .item packet :: rest)
    (hid : packet.package?.bind Package.about? = some id) :
    c.client.mUsers.contains id = true := by
  have hm := h.mirrors hr
  have hin := hm.inbox
  rw [hq] at hin
  obtain ⟨_, inb, hw, -, hmin⟩ := List.forall₂_cons_left_iff.mp hin
  cases hw with
  | @item _ n hn =>
    obtain ⟨pkg, hp, hn⟩ := hn
    rw [hp] at hid
    have hfind := hsafe (h.running.mpr hr)
    rw [hmin] at hfind
    have hknown : m.view.replica id ≠ none := by
      cases n with
      | snapshot j table =>
        obtain ⟨users, rfl, -⟩ := hn
        cases hid
      | joined j name =>
        obtain ⟨user, rfl, -⟩ := hn
        cases hid
      | left j =>
        subst hn
        cases hid
        exact hfind.1 hg
      | said j text =>
        subst hn
        cases hid
        exact hfind.1 hg
    rwa [← hm.replica, UserMap.name?, ← Option.isSome_iff_ne_none, Option.isSome_map,
      ← UserMap.contains_eq] at hknown

end Conn.Coupled

namespace Session

/-- A running client that the host has registered, with nothing under way to
it, has the host's users and knows itself. -/
theorem agreement (h : (system nickname).Reach (fun _ l => l.lossless = true) s)
    (hc : s.conns[i]? = some c) (hr : c.Running) (hq : c.toClient = [])
    (hreg : s.host.mUsers.contains c.userId = true) :
    (∀ id, c.client.mUsers.name? id = s.host.mUsers.name? id) ∧ c.Identified := by
  obtain ⟨r, hs, hcore, hfol⟩ := followed h
  obtain ⟨m, hm, hcm⟩ := hs.seated.get hc
  have hsound := hcore.sound i m hm
  have ht : r.table m.id ≠ none := by
    rw [hs.contains hcm] at hreg
    exact Option.isSome_iff_ne_none.mp hreg
  have hh := hcm.here hr hsound hq ht
  have hcoming : m.coming = m.view := by simp [Member.coming, (hcm.live hr hsound hq).1]
  have hf := hfol.follows i m hm
  refine ⟨fun id => ?_, hcm.identified hr hsound ?_⟩
  · rw [(hcm.mirrors hr).replica, hs.table, ← hcoming, hf.inside hh ht]
  · rw [← hcoming]
    exact hf.synced hh ht

theorem agreement_talked : ∃ c, talked.conns[0]? = some c ∧
    (∀ id, c.client.mUsers.name? id = talked.host.mUsers.name? id) ∧ c.Identified :=
  ⟨_, rfl, agreement (i := 0) talked_reach rfl ⟨rfl, rfl⟩ rfl (by decide +kernel)⟩

-- ---------------------------------------------------------------------------
-- Messages
-- ---------------------------------------------------------------------------

/-- A client that has processed its Ack, with nothing under way, has shown
what the host has shown since of others, in that order, and its own messages
are shown once on each side; and it finds every author. -/
theorem hostOrdered (h : (system nickname).Reach (fun _ l => l.lossless = true) s)
    (hc : s.conns[i]? = some c) (hr : c.Running) (hack : c.acked = true) :
    (c.toHost = [] → c.toClient = [] → c.shown = others i (s.log.drop c.mark) ∧
      c.echoed = c.typed ∧ said i (s.log.drop c.mark) = c.typed) ∧
    ∀ packet rest pckt, c.toClient = .item packet :: rest →
      packet.package? = some (.message pckt) → c.client.mUsers.contains pckt.userId = true := by
  obtain ⟨r, hs, hcore, hfol⟩ := followed h
  obtain ⟨m, hm, hcm⟩ := hs.seated.get hc
  have hsound := hcore.sound i m hm
  have hmir := hcm.mirrors hr
  have hsync : m.view.synced = true := hmir.acked ▸ hack
  refine ⟨fun hout hq => ?_, fun packet rest pckt hq hp => ?_⟩
  · obtain ⟨hin, hl⟩ := hcm.live hr hsound hq
    have hlink : m.link ≠ .gone := by
      intro hg
      simp [hg, Link.live] at hl
    have ht : r.table m.id ≠ none := by
      rw [hsound.sent hlink (Member.snapshots_pos hsync)]
      simp
    have hh := hcm.here hr hsound hq ht
    have hf := (hfol.follows i m hm).shown hh ht
    have hsp := hfol.spoken i m hm hh ht
    have hmout := hcm.outbox.eq_nil hout
    obtain ⟨hty, hecho⟩ := hmir.typed hsync
    rw [hmir.shown, hs.log, ← hcm.mark (.inl hl), hty, hecho]
    simp only [Member.coming, hin, items_nil, play_nil] at hf
    simp only [Member.messages, hmout, items_nil, List.filterMap_nil, List.append_nil, hsync,
      if_true] at hsp
    exact ⟨hf, rfl, hsp.symm⟩
  · exact hcm.finds hr (hfol.safe i m hm) hsync hq (by simp [hp, Package.about?])

theorem hostOrdered_talked : ∃ c, talked.conns[0]? = some c ∧
    c.shown = others 0 (talked.log.drop c.mark) ∧ c.echoed = c.typed ∧
      said 0 (talked.log.drop c.mark) = c.typed :=
  ⟨_, rfl, (hostOrdered (i := 0) talked_reach rfl ⟨rfl, rfl⟩ rfl).1 rfl rfl⟩

end Session

end ENetChat

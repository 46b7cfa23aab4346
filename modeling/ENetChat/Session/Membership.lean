import ENetChat.Session.Agreement

/-!
# Who is in a session

Whatever is lost, the host goes on and its map is the roll of its connections
(`rolls`): each entry but its own is that of one connection that stands, under
the client's nickname, and a client with an Ack has one. A connection that has
ended leaves nothing behind, at either end (`parted`).
-/

namespace ENetChat

open Channel Replica Transition

variable {nickname : Nickname} {nick name : Bytes} {s : Session} {c : Conn} {i : Nat} {id : UserId}
  {allowed : Session → Label → Prop}

namespace Session

structure Roll (nick : Bytes) (s : Session) : Prop where
  halt : s.halt = none
  state : s.host.mState = .to .chatStateHost
  host : s.host.mUsers.name? 0 = some nick
  entry : ∀ id name, s.host.mUsers.name? id = some name → id ≠ 0 →
    ∃ c ∈ s.conns, c.link ≠ .pending ∧ c.link ≠ .gone ∧ c.userId = id ∧
      c.nickname.text = name
  slot : ∀ (i j : Nat) (c c' : Conn), s.conns[i]? = some c → s.conns[j]? = some c' →
    c.link ≠ .gone → c'.link ≠ .gone → c.slot = c'.slot → i = j
  acked : ∀ c ∈ s.conns, c.Running → c.acked = true → c.Identified ∧
    (c.link ≠ .gone → s.host.mUsers.name? c.userId = some c.nickname.text)

theorem userId_eq {c c' : Conn} : c.userId = c'.userId ↔ c.slot = c'.slot :=
  ⟨userId_inj, fun h => by rw [Conn.userId, Conn.userId, Conn.peer, Conn.peer, h]; rfl⟩

theorem Coupled.entry {r : ChatRoom} (hs : s.Coupled nick r) (hcore : Room.Core 0 nick r)
    (hname : s.host.mUsers.name? id = some name) (hid : id ≠ 0) :
    ∃ c ∈ s.conns, c.link ≠ .pending ∧ c.link ≠ .gone ∧ c.userId = id ∧
      c.nickname.text = name := by
  rw [hs.table] at hname
  obtain ⟨k, m, hm, hl, rfl⟩ := hcore.owners id name hname hid
  obtain ⟨c, hc, hcm⟩ := hs.seated.of_member hm
  have hsound := hcore.sound k m hm
  refine ⟨c, List.mem_of_getElem? hc, fun hp => ?_, hcm.link ▸ hl, hcm.id.symm, ?_⟩
  · rw [hsound.pending (hcm.link.trans hp)] at hname
    cases hname
  · rcases hsound.entry hl with hnone | hsome
    · rw [hnone] at hname
      cases hname
    · rw [hsome, hcm.name] at hname
      exact Option.some.inj hname

theorem rolls (h : (system nickname).Reach allowed s) : s.Roll nickname.text := by
  obtain ⟨r, hr, hs⟩ := simulated (fun _ _ => True) (fun _ _ _ _ => trivial) h
  have hcore := Room.core hr
  refine ⟨hs.halt, hs.hosting.state, (hs.table 0).trans hcore.hub_in,
    fun id name => hs.entry hcore, ?_, ?_⟩
  · intro i j c c' hc hc' hl hl' hslot
    obtain ⟨m, hm, hcm⟩ := hs.seated.get hc
    obtain ⟨m', hm', hcm'⟩ := hs.seated.get hc'
    refine hcore.uniq i m j m' hm hm' (hcm.link ▸ hl) (hcm'.link ▸ hl') ?_
    rw [hcm.id, hcm'.id, userId_eq]
    exact hslot
  · intro c hc hrun hack
    obtain ⟨i, hi⟩ := List.getElem?_of_mem hc
    obtain ⟨m, hm, hcm⟩ := hs.seated.get hi
    have hsound := hcore.sound i m hm
    have hsync : m.view.synced = true := (hcm.mirrors hrun).acked ▸ hack
    refine ⟨hcm.identified hrun hsound hsync, fun hl => ?_⟩
    rw [hs.table, ← hcm.id, ← hcm.name]
    refine hsound.sent (hcm.link ▸ hl) ?_
    rw [Member.snapshots, hsync]
    exact Nat.succ_pos _

theorem rolls_met : met.Roll ann.text := rolls met_reach

/-- A client that has nothing more to come of its connection has left the
session, and a host that has nothing more to come of it has struck its user
out, unless the slot is taken again. -/
theorem parted (h : (system nickname).Reach allowed s) (hc : s.conns[i]? = some c)
    (hl : c.link.live = false) :
    (c.halt = none → c.toClient = [] → c.client.mState = .to .quitState) ∧
      (c.toHost = [] → (∀ c' ∈ s.conns, c'.slot = c.slot → c'.link = .gone) →
        s.host.mUsers.name? c.userId = none) := by
  obtain ⟨r, hr, hs⟩ := simulated (fun _ _ => True) (fun _ _ _ _ => trivial) h
  obtain ⟨m, hm, hcm⟩ := hs.seated.get hc
  have hcore := Room.core hr
  have hsound := hcore.sound i m hm
  constructor
  · intro hh hq
    refine hcm.stopped hh fun hrun => ?_
    have hclosed := hsound.parted (hcm.link ▸ hl)
    rw [(hcm.mirrors hrun).inbox.eq_nil hq] at hclosed
    cases hclosed
  · intro hq hfree
    cases hname : s.host.mUsers.name? c.userId with
    | none => rfl
    | some name =>
      have hne : c.userId ≠ 0 := hcm.id ▸ hsound.ne_hub
      obtain ⟨c', hc', -, hl', hid, -⟩ := hs.entry hcore hname hne
      exact absurd (hfree c' hc' (userId_eq.mp hid)) hl'

/-- Bob is cut off from Ann, and both have seen it. -/
def departed : Session where
  host := { met.host with mUsers := met.host.mUsers.erase 1, mEnet := some {} }
  conns := met.conns.map fun c => { c with
    client := { c.client.quitting with mEnet := some {} }
    link := .gone }

theorem departed_reach : (system ann).Reach (fun _ _ => True) departed :=
  reach_after [.hangup 0 0 0, .clientEvent default 0, .hostEvent default 0]
    (met_reach.mono fun _ _ _ _ => trivial) (by decide +kernel)

theorem parted_departed : ∃ c, departed.conns[0]? = some c ∧
    (c.halt = none → c.toClient = [] → c.client.mState = .to .quitState) ∧
      (c.toHost = [] → (∀ c' ∈ departed.conns, c'.slot = c.slot → c'.link = .gone) →
        departed.host.mUsers.name? c.userId = none) :=
  ⟨_, rfl, parted (i := 0) departed_reach rfl rfl⟩

end Session

end ENetChat

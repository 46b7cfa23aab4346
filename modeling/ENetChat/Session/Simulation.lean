import ENetChat.Session.ClientSide
import ENetChat.Session.HostSide
import Mathlib.Data.Option.Basic

/-!
# A session is a chat room

Every step of a session is a step of the room that it is coupled to, or none
(`Session.Coupled.step`), so what holds of the room's runs holds of the
session's (`Session.simulated`), and a moment of the room's run is one of the
session's (`Session.simulated_history`).
-/

namespace ENetChat

open Channel Replica Transition

/-- What a step of the session may be in the room. -/
inductive Session.Does (s : Session) : Label → Act Nat UserId Bytes Bytes → Prop
  | join : Does s (.join u z slot address nickname) (.join k i name)
  | hostInput : line.text ≠ [] → Does s (.hostInput u line) (.hubSay line.text)
  | hubOpened : Does s (.hostEvent u i) (.hubOpened i)
  | hubHello : Does s (.hostEvent u i) (.hubHello i)
  | hubHear : s.conns[i]? = some c → c.toHost = .item packet :: rest →
      packet.Speaks (.message j text) → Does s (.hostEvent u i) (.hubHear i)
  | hubClosed : s.conns[i]? = some c → c.toHost = .closed :: rest →
      Does s (.hostEvent u i) (.hubClosed i)
  | memberOpened : Does s (.clientEvent u i) (.memberOpened i)
  | memberNote : Does s (.clientEvent u i) (.memberNote i)
  | memberStop : Does s l (.memberStop i)
  | memberSay : Does s (.clientInput u i line) (.memberSay i text)
  | hangup : Does s (.hangup i j k) (.hangup i)
  | loseSpeech : s.conns[i]? = some c → c.toHost[n]? = some (.item packet) →
      packet.Speaks speech → Does s (.dropToHost i n) (.loseSpeech i speech)
  | loseNote : s.conns[i]? = some c → c.toClient[n]? = some (.item packet) →
      packet.Notes note → Does s (.dropToClient i n) (.loseNote i note)

variable {u : Unspecified} {nick hubName : Bytes} {nickname : Nickname} {s s' : Session}
  {passed : List Session} {r : ChatRoom} {c c' : Conn} {m m' : Participant} {i n : Nat}
  {packet : ENetPacket} {l : Label} {a : Act Nat UserId Bytes Bytes}

-- ---------------------------------------------------------------------------
-- Steps
-- ---------------------------------------------------------------------------

namespace Session

theorem guard_some {p : Prop} [Decidable p] {x : Unit} :
    (guard p : Option Unit) = some x ↔ p := by
  by_cases h : p <;> simp [guard, h]

theorem step_hostEvent (hs : s.step (.hostEvent u i) = some s') :
    ∃ c w rest, s.conns[i]? = some c ∧ c.toHost = w :: rest ∧
      s' = s.take u i { c with toHost := rest } w := by
  simp only [Session.step, Option.bind_eq_bind, Option.bind_eq_some_iff, guard_some] at hs
  obtain ⟨-, -, c, hc, w, hw, hs⟩ := hs
  cases hq : c.toHost with
  | nil => simp [hq] at hw
  | cons w' rest =>
    rw [hq, List.head?_cons, Option.some.injEq] at hw
    subst hw
    refine ⟨c, w', rest, hc, hq, ?_⟩
    rw [hq, List.tail_cons] at hs
    exact (Option.some.inj hs).symm

theorem step_clientEvent (hs : s.step (.clientEvent u i) = some s') :
    ∃ c w rest, s.conns[i]? = some c ∧ c.halt = none ∧ c.toClient = w :: rest ∧
      s' = s.put i (Conn.take u { c with toClient := rest } w) := by
  simp only [Session.step, Option.bind_eq_bind, Option.bind_eq_some_iff, guard_some] at hs
  obtain ⟨c, hc, -, hh, w, hw, hs⟩ := hs
  cases hq : c.toClient with
  | nil => simp [hq] at hw
  | cons w' rest =>
    rw [hq, List.head?_cons, Option.some.injEq] at hw
    subst hw
    refine ⟨c, w', rest, hc, hh, hq, ?_⟩
    rw [hq, List.tail_cons] at hs
    exact (Option.some.inj hs).symm

/-- A packet is no news of the connection. -/
theorem opened_mem_eraseIdx {q : List (Wire ENetPacket)} (h : q[n]? = some (.item packet)) :
    .opened ∈ q ↔ .opened ∈ q.eraseIdx n := by
  rw [List.mem_eraseIdx_iff_getElem?, List.mem_iff_getElem?]
  constructor
  · rintro ⟨k, hk⟩
    refine ⟨k, fun heq => ?_, hk⟩
    rw [heq, h] at hk
    cases hk
  · rintro ⟨k, -, hk⟩
    exact ⟨k, hk⟩

theorem droppable_item {w : Wire ENetPacket} (h : droppable w = true) :
    ∃ packet, w = .item packet := by
  cases w with
  | item packet => exact ⟨packet, rfl⟩
  | _ => cases h

end Session

theorem userId_inj {slot slot' : Fin maxConnections} {address address' : Address}
    (h : toUserID (ENetPeer.ofSlot slot address).incomingPeerID =
      toUserID (ENetPeer.ofSlot slot' address').incomingPeerID) : slot = slot' := by
  have hs := toUserID_toNat (ENetPeer.ofSlot slot address).inHost
  have hs' := toUserID_toNat (ENetPeer.ofSlot slot' address').inHost
  rw [h, hs'] at hs
  have := slot.isLt
  have := slot'.isLt
  simp only [maxConnections] at *
  simp [ENetPeer.ofSlot] at hs
  omega

namespace Conn.Coupled

theorem hangup (h : c.Coupled m) :
    ({ c with link := .down, toHost := cut j c.toHost, toClient := cut k c.toClient } :
      Conn).Coupled { m with link := .down, inbox := cut k m.inbox, outbox := cut j m.outbox } := by
  have hsnap : ({ m with inbox := cut k m.inbox } : Participant).snapshots ≤ m.snapshots :=
    Member.snapshots_le rfl items_cut.sublist
  refine ⟨h.id, h.name, rfl,
    fun hmarked => h.mark (hmarked.imp nofun fun hs => Nat.lt_of_lt_of_le hs hsnap),
    h.outbox.cut, h.running, h.stopped, fun hr => ?_⟩
  have hm := h.mirrors hr
  obtain ⟨net, hnet, -⟩ := hm.net
  exact ⟨hm.tidy, hm.quit, hm.nickname, ⟨net, hnet, fun hl => by cases hl⟩, hm.replica, hm.atSelf,
    hm.atNone, hm.inbox.cut, hm.acked, hm.shown, hm.typed⟩

/-- Packets of the host's are lost. -/
theorem inner (h : c.Coupled m) (hr : c.Running)
    (hopened : .opened ∈ c.toClient → .opened ∈ q) (hin : Matches ENetPacket.Notes q inb)
    (hless : (items inb).Sublist (items m.inbox)) :
    ({ c with toClient := q } : Conn).Coupled { m with inbox := inb } := by
  have hsnap : ({ m with inbox := inb } : Participant).snapshots ≤ m.snapshots :=
    Member.snapshots_le rfl hless
  refine ⟨h.id, h.name, h.link, fun hmarked => h.mark (hmarked.less rfl hsnap), h.outbox,
    h.running, h.stopped, fun _ => ?_⟩
  have hm := h.mirrors hr
  obtain ⟨net, hnet, hpeer⟩ := hm.net
  exact ⟨hm.tidy, hm.quit, hm.nickname,
    ⟨net, hnet, fun hl hno => hpeer hl fun ho => hno (hopened ho)⟩, hm.replica, hm.atSelf,
    hm.atNone, hin, hm.acked, hm.shown, hm.typed⟩

/-- What a client that does not run would be sent does not matter. -/
theorem idle (h : c.Coupled m) (hr : ¬ c.Running) : ({ c with toClient := q } : Conn).Coupled m :=
  ⟨h.id, h.name, h.link, h.mark, h.outbox, h.running, h.stopped, fun hr' => absurd hr' hr⟩

theorem join {client : ChatApp} (slot : Fin maxConnections) (address : Address)
    (h : Joining nickname.text client) :
    ({ slot, address, nickname, client } : Conn).Coupled
      { id := toUserID (ENetPeer.ofSlot slot address).incomingPeerID, name := nickname.text } := by
  refine ⟨rfl, rfl, rfl, fun _ => rfl, .cons .opened .nil, ⟨fun _ => ⟨rfl, h.state⟩, fun _ => rfl⟩,
    fun _ hno => absurd ⟨rfl, h.state⟩ hno, fun _ => ?_⟩
  refine ⟨⟨fun hn => ?_, fun hn => ?_, fun hp => absurd hp h.pointer⟩, h.quit, h.nickname,
    ⟨_, h.enet, fun _ hno => absurd (by simp) hno⟩, fun id => ?_, fun hs => (by cases hs),
    fun _ id node => h.pointer, .cons .opened .nil, rfl, rfl, fun hs => by cases hs⟩
  · simp [h.users] at hn
  · simp [h.users] at hn
  · simp [UserMap.name?, UserMap.user?, h.users]

end Conn.Coupled

namespace Session.Coupled

/-- A step that is the client's own. -/
theorem putSeat (h : s.Coupled nick r) (hc : s.conns[i]? = some c) (hs : c.SameSeat c')
    (hm : c'.Coupled m) : (s.put i c').Coupled nick (r.put i m) :=
  h.put hc hm fun hl => ⟨hs.link ▸ hl, hs.peer⟩

theorem join {slot : Fin maxConnections} {address : Address} {client : ChatApp}
    (h : s.Coupled nick r) (hfree : ¬ ∃ c ∈ s.conns, c.slot = slot ∧ c.link ≠ .gone)
    (hj : Joining nickname.text client) :
    ∃ a r', Does s (.join u z slot address nickname) a ∧ Room.Step 0 r a r' ∧
      Session.Coupled nick { s with conns := s.conns ++ [{ slot, address, nickname, client }] }
        r' := by
  obtain ⟨hnone, hseated⟩ := h.seated.join (Conn.Coupled.join slot address hj)
  refine ⟨_, _, .join,
    .join hnone (toUserID_ne_zero (ENetPeer.inHost _)) fun k' m' hk' hl' heq => ?_,
    h.hosting, h.halt, h.short, ?_, h.table, h.log, hseated⟩
  · obtain ⟨c', hc', hcm'⟩ := h.seated.of_member hk'
    refine hfree ⟨c', List.mem_of_getElem? hc', ?_, hcm'.link ▸ hl'⟩
    rw [hcm'.id] at heq
    exact userId_inj heq
  · obtain ⟨net, hnet, hids, hpeers⟩ := h.peers
    refine ⟨net, hnet, hids, fun c hc hl => ?_⟩
    obtain hc | hc := List.mem_append.mp hc
    · exact hpeers c hc hl
    · rw [List.mem_singleton.mp hc] at hl
      cases hl

/-- Every step of a session is a step of its room, or none. -/
theorem step (h : s.Coupled nick r) (hcore : Room.Core 0 hubName r) (hs : s.step l = some s') :
    s'.Coupled nick r ∨ ∃ a r', s.Does l a ∧ Room.Step 0 r a r' ∧ s'.Coupled nick r' := by
  cases l with
  | join u z slot address nickname =>
    right
    simp only [Session.step] at hs
    split at hs
    · cases hs
    · next hfree =>
      obtain ⟨client, hstart, rfl⟩ := Option.map_eq_some_iff.mp hs
      obtain ⟨client', hstart', hj⟩ := startClient_joining u z nickname
      rw [hstart] at hstart'
      cases hstart'
      exact h.join hfree hj
  | hostInput u line =>
    simp only [Session.step] at hs
    split at hs
    · next hi =>
      cases hs
      obtain hs | ⟨hne, r', hstep, hs⟩ := h.hostInput (u := u) hi.2
      · exact .inl hs
      · exact .inr ⟨_, r', .hostInput hne, hstep, hs⟩
    · cases hs
  | hostEvent u i =>
    right
    obtain ⟨c, w, rest, hc, hq, rfl⟩ := step_hostEvent hs
    cases w with
    | opened =>
      obtain ⟨r', hstep, hs⟩ := h.take_opened hcore hc hq
      exact ⟨_, r', .hubOpened, hstep, hs⟩
    | item packet =>
      obtain ⟨a, r', rfl | ⟨rfl, id, text, hspeaks⟩, hstep, hs⟩ := h.take_item hcore hc hq
      · exact ⟨_, r', .hubHello, hstep, hs⟩
      · exact ⟨_, r', .hubHear hc hq hspeaks, hstep, hs⟩
    | closed =>
      obtain ⟨r', hstep, hs⟩ := h.take_closed hcore hc hq
      exact ⟨_, r', .hubClosed hc hq, hstep, hs⟩
  | clientInput u i line =>
    simp only [Session.step, Option.bind_eq_bind, Option.bind_eq_some_iff, guard_some] at hs
    obtain ⟨c, hc, -, hhalt, hs⟩ := hs
    obtain rfl := Option.some.inj hs
    obtain ⟨m, hm, hcm⟩ := h.seated.get hc
    obtain ⟨hseat, hcm' | ⟨a, m', ha, hstep, hcm'⟩⟩ :=
      hcm.typeLine (u := u) line (hcore.sound i m hm) hm hhalt
    · left
      simpa only [Room.put_self hm] using h.putSeat hc hseat hcm'
    · obtain rfl | ⟨text, rfl⟩ := ha
      · exact .inr ⟨_, _, .memberStop, hstep, h.putSeat hc hseat hcm'⟩
      · exact .inr ⟨_, _, .memberSay, hstep, h.putSeat hc hseat hcm'⟩
  | clientEvent u i =>
    right
    obtain ⟨c, w, rest, hc, hhalt, hq, rfl⟩ := step_clientEvent hs
    obtain ⟨m, hm, hcm⟩ := h.seated.get hc
    obtain ⟨a, m', ha, hstep, hseat, hcm'⟩ := hcm.take (u := u) (hcore.sound i m hm) hm hhalt hq
    refine ⟨a, _, ?_, hstep, h.putSeat hc hseat hcm'⟩
    obtain rfl | rfl | rfl := ha
    · exact .memberStop
    · exact .memberOpened
    · exact .memberNote
  | hangup i j k =>
    right
    simp only [Session.step, Option.bind_eq_bind, Option.bind_eq_some_iff, guard_some] at hs
    obtain ⟨c, hc, -, hl, hs⟩ := hs
    obtain rfl := Option.some.inj hs
    obtain ⟨m, hm, hcm⟩ := h.seated.get hc
    refine ⟨_, _, .hangup, .hangup (i := k) (o := j) hm (hcm.link ▸ hl),
      h.put hc hcm.hangup fun hup => by cases hup⟩
  | dropToHost i n =>
    right
    simp only [Session.step, Option.bind_eq_bind, Option.bind_eq_some_iff, guard_some] at hs
    obtain ⟨c, hc, w, hw, -, hd, hs⟩ := hs
    obtain rfl := Option.some.inj hs
    obtain ⟨packet, rfl⟩ := droppable_item hd
    obtain ⟨m, hm, hcm⟩ := h.seated.get hc
    obtain ⟨out, speech, out', hmout, hspeaks, hout⟩ := hcm.outbox.lose hw
    exact ⟨_, _, .loseSpeech hc hw hspeaks, .loseSpeech hm hmout,
      h.put hc (hcm.outer hcm.link (fun hl => hl) hcm.mark hout) fun hl => ⟨hl, rfl⟩⟩
  | dropToClient i n =>
    simp only [Session.step, Option.bind_eq_bind, Option.bind_eq_some_iff, guard_some] at hs
    obtain ⟨c, hc, w, hw, -, hd, hs⟩ := hs
    obtain rfl := Option.some.inj hs
    obtain ⟨packet, rfl⟩ := droppable_item hd
    obtain ⟨m, hm, hcm⟩ := h.seated.get hc
    by_cases hr : c.Running
    · right
      obtain ⟨inb, note, inb', hmin, hnote, hin⟩ := (hcm.mirrors hr).inbox.lose hw
      exact ⟨_, _, .loseNote hc hw hnote, .loseNote hm hmin,
        h.put hc (hcm.inner hr ((opened_mem_eraseIdx hw).mp) hin (hmin ▸ items_lose))
          fun hl => ⟨hl, rfl⟩⟩
    · left
      have hput := h.put hc (hcm.idle (q := c.toClient.eraseIdx n) hr) fun hl => ⟨hl, rfl⟩
      rwa [Room.put_self hm] at hput

end Session.Coupled

-- ---------------------------------------------------------------------------
-- Runs
-- ---------------------------------------------------------------------------

namespace Session

/-- A host that has just begun is an empty room. -/
theorem Starts.coupled (h : Starts nickname s) :
    ∃ r, Room.Starts 0 nickname.text r ∧ s.Coupled nickname.text r := by
  obtain ⟨u, z, host, hstart, rfl⟩ := h
  obtain ⟨host', hstart', hopen⟩ := startHost_opened u z nickname
  rw [hstart] at hstart'
  cases hstart'
  have hzero := hopen.toHosting.user?_zero
  refine ⟨{ table := fun i => if i = 0 then some nickname.text else none }, ⟨rfl, rfl, rfl⟩,
    hopen.toHosting, rfl, fun id user hu => ?_, ⟨{}, hopen.peers, ?_, ?_⟩, fun id => ?_, rfl,
    fun k => .none⟩
  · obtain rfl := hopen.alone hu
    rw [hzero] at hu
    cases hu
    exact nickname.line.fits
  · intro p peer hp
    simp [ENetWrapper.getPeerPtr] at hp
  · intro c hc
    cases hc
  · by_cases hid : id = 0
    · subst hid
      simp [UserMap.name?, hzero, hostUser]
    · show host.mUsers.name? id = if id = 0 then some nickname.text else none
      rw [if_neg hid, UserMap.name?_eq_none (hopen.user?_none hid)]

/-- A run of a session is a run of a room, under what the session's
assumptions come to there. -/
theorem simulated_history {allowed : Session → Label → Prop}
    (permitted : ChatRoom → Act Nat UserId Bytes Bytes → Prop)
    (hle : ∀ {s r l a}, s.Coupled nickname.text r →
      (Room.system 0 nickname.text).Reach permitted r → allowed s l → s.Does l a → permitted r a)
    (h : (Session.system nickname).History allowed passed s) :
    ∃ past r, (Room.system 0 nickname.text).History permitted past r ∧
      s.Coupled nickname.text r ∧ ∀ r' ∈ r :: past, ∃ s' ∈ s :: passed,
        s'.Coupled nickname.text r' := by
  refine h.simulate (R := Session.Coupled nickname.text) (fun s => Starts.coupled)
    fun s r l s' hs hr hl hstep => ?_
  obtain hs' | ⟨a, r', hdo, hstep', hs'⟩ := hs.step (Room.core hr) hstep
  · exact .inl hs'
  · exact .inr ⟨a, r', hle hs hr hl hdo, hstep', hs'⟩

theorem simulated {allowed : Session → Label → Prop}
    (permitted : ChatRoom → Act Nat UserId Bytes Bytes → Prop)
    (hle : ∀ {s r l a}, s.Coupled nickname.text r →
      (Room.system 0 nickname.text).Reach permitted r → allowed s l → s.Does l a → permitted r a)
    (h : (Session.system nickname).Reach allowed s) :
    ∃ r, (Room.system 0 nickname.text).Reach permitted r ∧ s.Coupled nickname.text r := by
  obtain ⟨passed, hpassed⟩ := h.history
  obtain ⟨past, r, hpast, hs, -⟩ := simulated_history permitted hle hpassed
  exact ⟨r, hpast.reach, hs⟩

end Session

end ENetChat

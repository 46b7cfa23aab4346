import ENetChat.Chat.HostSteps
import ENetChat.Session.Coupled

/-!
# The host's side of a session

What the host makes of a line and of the events of a connection is what the
hub of a room makes of them: each handler completes, and `Coupled` is kept by
a step of the room.
-/

namespace ENetChat

open Exec Channel Replica

variable {u : Unspecified} {nick : Bytes} {app : ChatApp} {w : ENetWrapper} {s : Session}
  {r : ChatRoom} {c c' : Conn} {m : Participant} {i i' : Nat} {hubName : Bytes}
  {packet : ENetPacket} {n : Note UserId Bytes Bytes} {source : Option Nat} {name text : Bytes}

-- ---------------------------------------------------------------------------
-- Effects
-- ---------------------------------------------------------------------------

namespace Session

theorem effect_quiet {effect : Effect} (h : effect.quiet = true) : s.effect source effect = s := by
  cases effect with
  | enet call => cases h
  | window call => cases call <;> first | rfl | cases h

theorem effects_quiet {effects : List Effect} (h : ∀ effect ∈ effects, effect.quiet = true) :
    effects.foldl (Session.effect source) s = s := by
  induction effects with
  | nil => rfl
  | cons effect effects ih =>
    rw [List.foldl_cons, effect_quiet (h effect (by simp))]
    exact ih fun x hx => h x (by simp [hx])

theorem effect_broadcast (hp : ENetPacket.create? data flags = some packet) :
    s.effect source (.enet (.hostBroadcast data flags)) =
      { s with conns := s.conns.map (Conn.hear packet) } := by
  simp only [Session.effect, hp]

theorem sendTo_link : (s.sendTo peer packet c).link = c.link := by
  unfold Session.sendTo
  split <;> rfl

theorem sendTo_peer : (s.sendTo peer packet c).peer = c.peer := by
  unfold Session.sendTo
  split <;> rfl

theorem effect_send {peer : ENetPeer} (hp : ENetPacket.create? data flags = some packet) :
    s.effect source (.enet (.peerSend peer data flags)) =
      { s with conns := s.conns.map (s.sendTo peer packet) } := by
  simp only [Session.effect, hp]

end Session

theorem Conn.Coupled.hear (h : c.Coupled m) (hp : packet.Notes n) :
    (c.hear packet).Coupled (m.hear n) where
  id := h.id
  name := h.name
  link := h.link
  mark hm := h.mark (Member.marked_of_hear hm)
  outbox := h.outbox
  running := h.running
  stopped := h.stopped
  mirrors hr := by
    have hm := h.mirrors hr
    refine ⟨hm.tidy, hm.quit, hm.nickname, ?_, hm.replica, hm.atSelf, hm.atNone, ?_, hm.acked,
      hm.shown, hm.typed⟩
    · obtain ⟨net, hnet, hpeer⟩ := hm.net
      refine ⟨net, hnet, fun hl hno => hpeer hl fun hin => hno ?_⟩
      simp only [Conn.hear, Link.deliver]
      split
      · exact List.mem_append_left _ hin
      · exact hin
    · show Matches _ (c.link.deliver c.toClient packet) (m.link.deliver m.inbox n)
      rw [h.link]
      exact hm.inbox.deliver hp

namespace Session.Coupled

theorem record (h : s.Coupled nick r) :
    Session.Coupled nick { s with log := s.log ++ [(source, name, text)] }
      (r.record source name text) :=
  ⟨h.hosting, h.halt, h.short, h.peers, h.table, by rw [Room.record, h.log], h.seated⟩

theorem tell (h : s.Coupled nick r) (hp : packet.Notes n) :
    Session.Coupled nick { s with conns := s.conns.map (Conn.hear packet) } (r.tell n) := by
  refine ⟨h.hosting, h.halt, h.short, ?_, h.table, h.log,
    h.seated.map fun k c m _ _ hcm => hcm.hear hp⟩
  obtain ⟨net, hnet, hids, hpeers⟩ := h.peers
  refine ⟨net, hnet, hids, fun c hc hl => ?_⟩
  obtain ⟨c', hc', rfl⟩ := List.mem_map.mp hc
  exact hpeers c' hc' hl

theorem relay (h : s.Coupled nick r) {i : UserId}
    (hsize : (Package.message { userId := i, message := text }).layout.length ≤
      maximumPacketSize) :
    Session.Coupled nick
      ((ENetChat.relay name l { userId := i, message := text }).foldl (Session.effect source) s)
      ((r.tell (.said i text)).record source name text) := by
  obtain ⟨packet, hcreate, hp⟩ := create?_layout _ (by rfl) hsize
  simp only [ENetChat.relay, List.foldl_cons, List.foldl_nil]
  rw [effect_broadcast hcreate]
  exact h.record.tell ⟨_, hp, rfl⟩

theorem run_eq (h : Hosting nick s.host) (hw : s.host.mEnet = some w)
    (hc : Completes (handle u event) ⟨s.host, []⟩) : s.run u source event =
      (hostNext nick w s.host event).2.foldl (Session.effect source)
        { s with host := (hostNext nick w s.host event).1 } := by
  simp only [Session.run, h.exec_of_completes hw hc]

-- ---------------------------------------------------------------------------
-- Lines
-- ---------------------------------------------------------------------------

theorem hostInput {line : InputLine} (h : s.Coupled nick r) (hi : line.text ≠ exitCommand) :
    (s.run u none (.input line)).Coupled nick r ∨ line.text ≠ [] ∧
      ∃ r', Room.Step 0 r (.hubSay line.text) r' ∧
        (s.run u none (.input line)).Coupled nick r' := by
  obtain ⟨w, hw⟩ := h.hosting.net
  rw [run_eq h.hosting hw (h.hosting.input_completes hi)]
  by_cases hl : line.text = []
  · left
    simpa [hostNext, hl] using h
  · right
    have hname : r.table 0 = some nick := by
      rw [← h.table, UserMap.name?, h.hosting.user?_zero]
      rfl
    refine ⟨hl, _, .hubSay hname, ?_⟩
    simp only [hostNext, hl, hi, if_false]
    refine h.relay ?_
    rw [length_message]
    have := line.fits
    simp only [maximumPacketSize]
    omega

-- ---------------------------------------------------------------------------
-- Events
-- ---------------------------------------------------------------------------

/-- Connections that stand have slots of their own. -/
theorem slot_ne (h : s.Coupled nick r) (hcore : Room.Core 0 hubName r) (hc : s.conns[i]? = some c)
    (hl : c.link ≠ .gone) (hc' : s.conns[i']? = some c') (hl' : c'.link ≠ .gone) (hne : i' ≠ i) :
    c'.peer.incomingPeerID ≠ c.peer.incomingPeerID := by
  intro heq
  obtain ⟨m, hm, hcm⟩ := h.seated.get hc
  obtain ⟨m', hm', hcm'⟩ := h.seated.get hc'
  refine hcore.other hm (by rwa [hcm.link]) i' m' hne hm' (by rwa [hcm'.link]) ?_
  rw [hcm.id, hcm'.id, Conn.userId, Conn.userId, heq]

/-- The host's maps do not change, but for the peers. -/
theorem put (h : s.Coupled nick r) (hc : s.conns[i]? = some c)
    (hm : c'.Coupled m) (hslot : c'.link = .up → c.link = .up ∧ c'.peer = c.peer) :
    (s.put i c').Coupled nick (r.put i m) := by
  refine ⟨h.hosting, h.halt, h.short, ?_, h.table, h.log, h.seated.set hc hm⟩
  obtain ⟨net, hnet, hids, hpeers⟩ := h.peers
  refine ⟨net, hnet, hids, fun c₁ hc₁ hl₁ => ?_⟩
  obtain hc₁ | rfl := List.mem_or_eq_of_mem_set hc₁
  · exact hpeers c₁ hc₁ hl₁
  · obtain ⟨hl, hpeer⟩ := hslot hl₁
    rw [hpeer]
    exact hpeers c (List.mem_of_getElem? hc) hl

theorem mem_set_cases {conns : List Conn} (h : c' ∈ conns.set i c) :
    c' = c ∨ ∃ k, k ≠ i ∧ conns[k]? = some c' := by
  obtain ⟨k, hk⟩ := List.getElem?_of_mem h
  by_cases heq : k = i
  · subst heq
    rw [List.getElem?_set_self'] at hk
    obtain ⟨_, -, rfl⟩ := Option.map_eq_some_iff.mp hk
    exact .inl rfl
  · rw [List.getElem?_set_ne (Ne.symm heq)] at hk
    exact .inr ⟨k, heq, hk⟩

theorem take_opened (h : s.Coupled nick r) (hcore : Room.Core 0 hubName r)
    (hc : s.conns[i]? = some c) (hq : c.toHost = .opened :: rest) :
    ∃ r', Room.Step 0 r (.hubOpened i) r' ∧
      (s.take u i { c with toHost := rest } .opened).Coupled nick r' := by
  obtain ⟨net, hnet, hids, hpeers⟩ := h.peers
  obtain ⟨m, hm, hcm⟩ := h.seated.get hc
  have hout := hcm.outbox
  rw [hq] at hout
  obtain ⟨_, out, ⟨⟩, hrest, hmout⟩ := List.forall₂_cons_left_iff.mp hout
  have hne : c.link ≠ .gone := by
    rw [← hcm.link]
    have hends := (hcore.sound i m hm).ends
    rw [hmout] at hends
    exact hends.opened.2
  refine ⟨_, .hubOpened hm hmout, ?_⟩
  rw [Session.take, run_eq (s := s.put i _) h.hosting hnet h.hosting.connect_completes]
  refine ⟨h.hosting.withNet, h.halt, h.short, ⟨_, rfl, fun p peer hp => ?_, fun c' hc' hl' => ?_⟩,
    h.table, h.log, h.seated.set hc (hcm.outer (congrArg Link.opened hcm.link) (by simp)
      (fun hl => hcm.mark (by simpa [Member.Marked] using hl)) hrest)⟩
  · simp only [ENetWrapper.getPeerPtr, Std.ExtTreeMap.getElem?_insert] at hp
    split at hp
    · next heq => cases hp; simpa using heq
    · exact hids p peer hp
  · simp only [ENetWrapper.getPeerPtr, Std.ExtTreeMap.getElem?_insert]
    obtain rfl | ⟨k, hk, hc'⟩ := mem_set_cases hc'
    · simp [Conn.peer]
    · have hslot := h.slot_ne hcore hc hne hc' (by simp [hl']) hk
      rw [if_neg]
      · exact hpeers c' (List.mem_of_getElem? hc') hl'
      · simp only [Std.LawfulEqCmp.compare_eq_iff_eq]
        exact hslot.symm

/-- The Ack goes to the connection that has the slot. -/
theorem seated_sendTo (h : s.Coupled nick r) (hcore : Room.Core 0 hubName r)
    (hc : s.conns[i]? = some c) (hne : c.link ≠ .gone) (hm : r.members i = some m)
    (hcm : c.Coupled m) (hout : Matches ENetPacket.Speaks rest out) {peer : ENetPeer}
    (hpeer : peer.incomingPeerID = c.peer.incomingPeerID) (hp : packet.Notes n)
    (hn : n.isSnapshot = true) {s' : Session} (hlog : s'.log = s.log) :
    Seated ((s.conns.set i { c with toHost := rest }).map (s'.sendTo peer packet))
      (Function.update r.members i
        (some (Member.hear n { m with outbox := out, mark := r.log.length }))) := by
  intro k
  have hlt : i < s.conns.length := (List.getElem?_eq_some_iff.mp hc).1
  rw [List.getElem?_map]
  by_cases heq : k = i
  · subst heq
    rw [List.getElem?_set_self hlt, Function.update_self, Option.map_some, Session.sendTo,
      if_pos ⟨hne, hpeer.symm⟩, isAck_iff hp, hn, if_pos rfl]
    refine .some (Conn.Coupled.hear (c := { c with toHost := rest, mark := s'.log.length }) ?_ hp)
    exact hcm.outer hcm.link (fun hl => hl) (fun _ => by rw [hlog, h.log]) hout
  · rw [List.getElem?_set_ne (Ne.symm heq), Function.update_of_ne heq]
    have hk := h.seated k
    cases hc' : s.conns[k]? with
    | none => rwa [hc'] at hk
    | some c' =>
      rw [hc'] at hk
      have : s'.sendTo peer packet c' = c' := by
        rw [Session.sendTo, if_neg]
        rintro ⟨hl', hslot⟩
        exact h.slot_ne hcore hc hne hc' hl' heq (hslot.trans hpeer)
      rwa [Option.map_some, this]

/-- An Ack of short names is no large packet. -/
theorem ack_fits (h : Hosting nick app) (hshort : app.ShortNames) (id : UserId) :
    (Package.usernameAck (.ofMap id app.mUsers)).layout.length ≤ maximumPacketSize := by
  have hn : app.mUsers.users.length ≤ maxConnections + 1 := length_users fun hu => (h.slots hu).1
  have hl : (app.mUsers.users.flatMap UserInfo.layout).length ≤
      app.mUsers.users.length * (10 + 80) :=
    length_flatMap_layout fun user hu => Nat.le_of_lt (hshort _ user (h.tidy.mem_users.mp hu))
  have hm := Nat.mul_le_mul_right (10 + 80) hn
  simp only [Package.layout, Package.body, UsernameAckPackage.ofMap, List.length_cons,
    List.length_append, LittleEndian.length_toLE]
  simp only [maxConnections, maximumPacketSize] at hm ⊢
  omega

theorem lists_ofMap (h : app.Tidy) {table : Table UserId Bytes}
    (ht : ∀ id, app.mUsers.name? id = table id) :
    Lists (app.mUsers.users.map fun user => { user with address := {} }) table := by
  intro id name
  rw [← ht, UserMap.name?, Option.map_eq_some_iff]
  constructor
  · rintro ⟨user, hu, rfl⟩
    refine ⟨_, List.mem_map_of_mem (h.mem_users.mpr ?_), (h.userId hu : user.userId = id), rfl⟩
    rw [h.userId hu, hu]
  · rintro ⟨_, hu, rfl, rfl⟩
    obtain ⟨user, hu', rfl⟩ := List.mem_map.mp hu
    exact ⟨user, h.mem_users.mp hu', rfl⟩

theorem table_insert (ht : ∀ id, app.mUsers.name? id = r.table id) (user : UserInfo) (id : UserId) :
    (app.insertUser user).mUsers.name? id = r.table.insert user.userId user.name id := by
  rw [name?_insertUser, ht]
  rfl

theorem short_insert {user : UserInfo} (hshort : app.ShortNames)
    (hname : user.name.length < 80) : (app.insertUser user).ShortNames := by
  intro id user' hu
  rw [user?_insertUser, Option.or_eq_some_iff] at hu
  obtain hu | ⟨-, hu⟩ := hu
  · exact hshort id user' hu
  · split at hu
    · cases hu; exact hname
    · cases hu

theorem effects_welcome {user : UserInfo} :
    (welcome nick app w user).foldl (Session.effect source) s =
    (((w.send (toPeerID user.userId) (Package.usernameAck
      (.ofMap user.userId (app.insertUser user).mUsers)).layout).map Effect.enet).foldl
        (Session.effect source) s).effect source
          (.enet (.hostBroadcast (Package.addUser { user }).layout 0)) := by
  simp only [welcome, List.foldl_append, effects_quiet listCalls_quiet, List.foldl_cons,
    List.foldl_nil]
  rfl

theorem take_hello (h : s.Coupled nick r) (hcore : Room.Core 0 hubName r)
    (hc : s.conns[i]? = some c) (hm : r.members i = some m) (hcm : c.Coupled m)
    (hmout : m.outbox = .item (.hello name) :: out) (hrest : Matches ENetPacket.Speaks rest out)
    (hp : packet.package? = some (.username { username := name })) :
    (s.take u i { c with toHost := rest } (.item packet)).Coupled nick
      (r.enter i { m with outbox := out } name) := by
  obtain ⟨net, hnet, hids, hpeers⟩ := h.peers
  have hsound := hcore.sound i m hm
  obtain ⟨rfl, hnone, hlm⟩ := hsound.hello hmout
  have hl : c.link ≠ .gone := by rwa [← hcm.link]
  let user := (NetworkTraffic.ofPeer c.peer packet.data).announces m.name
  have hid : user.userId = m.id := hcm.id.symm
  have hname : user.name.length < 80 := by
    show m.name.length < 80
    rw [hcm.name]
    exact c.nickname.line.fits
  have hmax : user.name.length ≤ maximumPacketSize := by
    simp only [maximumPacketSize]
    omega
  have hhost' : Hosting nick (s.host.insertUser user) :=
    h.hosting.insertUser (toUserID_le c.peer.inHost) hmax
  have hshort' := short_insert h.short hname
  have htable := table_insert h.table user
  obtain ⟨ack, hcreate, hack⟩ :=
    create?_layout (.usernameAck (.ofMap user.userId (s.host.insertUser user).mUsers)) (by rfl)
      (ack_fits hhost' hshort' user.userId)
  obtain ⟨add, hcreate', hadd⟩ := create?_layout (.addUser { user }) (by rfl) (by
    rw [length_addUser]
    simp only [maximumPacketSize]
    omega)
  have hsnap : ack.Notes (.snapshot m.id (r.table.insert m.id m.name)) := by
    refine ⟨_, hack, _, by rw [← hid]; rfl, lists_ofMap hhost'.tidy fun id => ?_⟩
    rw [htable, hid]
    rfl
  have hjoin : add.Notes (.joined m.id m.name) := ⟨_, hadd, _, rfl, hid, rfl⟩
  have hrun : s.take u i { c with toHost := rest } (.item packet) =
      (welcome nick s.host net user).foldl (Session.effect (some i))
        { s.put i { c with toHost := rest } with host := s.host.insertUser user } := by
    refine (run_eq (s := s.put i _) h.hosting hnet (h.hosting.receive_completes hp ?_)).trans ?_
    · simp only [ChatApp.Accepts, h.hosting.state, if_true]
    · simp only [hostNext, hp, hostReceive]
      rfl
  rw [hrun, effects_welcome, show toPeerID user.userId = c.peer.incomingPeerID from
    toPeerID_toUserID c.peer.inHost, effect_broadcast hcreate']
  refine tell ?_ hjoin
  have hlast : ∀ conns', Seated conns' (Function.update r.members i (some (Member.hear
        (.snapshot m.id (r.table.insert m.id m.name))
        { m with outbox := out, mark := r.log.length }))) →
      (∀ c' ∈ conns', c'.link = .up → net.getPeerPtr c'.peer.incomingPeerID = some c'.peer) →
      Session.Coupled nick { s with host := s.host.insertUser user, conns := conns' }
        ({ r with table := r.table.insert m.id m.name }.put i (Member.hear
          (.snapshot m.id (r.table.insert m.id m.name))
          { m with outbox := out, mark := r.log.length })) := by
    intro conns' hseated hpeers'
    refine ⟨hhost', h.halt, hshort', ⟨net, hnet, hids, hpeers'⟩, fun id => ?_, h.log, hseated⟩
    rw [htable, hid]
    rfl
  have hset : ∀ c' ∈ s.conns.set i { c with toHost := rest }, c'.link = .up →
      net.getPeerPtr c'.peer.incomingPeerID = some c'.peer := by
    intro c' hc' hl'
    obtain hc' | rfl := List.mem_or_eq_of_mem_set hc'
    · exact hpeers c' hc' hl'
    · exact hpeers c (List.mem_of_getElem? hc) hl'
  unfold ENetWrapper.send
  cases hpeer : net.getPeerPtr c.peer.incomingPeerID with
  | none =>
    refine hlast _ ?_ hset
    have hdown : c.link ≠ .up := by
      intro hl'
      rw [hpeers c (List.mem_of_getElem? hc) hl'] at hpeer
      cases hpeer
    have hends := hsound.ends
    rw [hmout] at hends
    rw [Member.hear_not_up (by rwa [hcm.link])]
    refine h.seated.set hc (hcm.outer hcm.link (fun hl => hl) (fun hmarked => ?_) hrest)
    rw [hsound.snapshots_eq_zero hlm hnone] at hmarked
    have hlive := hmarked.resolve_right (Nat.lt_irrefl 0)
    rw [hcm.link] at hlive hends
    cases hl' : c.link with
    | pending => exact absurd hl' hends.item.1
    | up => exact absurd hl' hdown
    | _ => simp [hl', Link.live] at hlive
  | some peer =>
    simp only [List.map_cons, List.map_nil, List.foldl_cons, List.foldl_nil]
    rw [effect_send hcreate]
    refine hlast _ (h.seated_sendTo hcore hc hl hm hcm hrest (hids _ _ hpeer) hsnap rfl rfl) ?_
    intro c' hc' hl'
    obtain ⟨c'', hc'', rfl⟩ := List.mem_map.mp hc'
    rw [sendTo_peer]
    exact hset c'' hc'' (by rwa [sendTo_link] at hl')

theorem take_item (h : s.Coupled nick r) (hcore : Room.Core 0 hubName r)
    (hc : s.conns[i]? = some c) (hq : c.toHost = .item packet :: rest) :
    ∃ a r', (a = .hubHello i ∨
        a = .hubHear i ∧ ∃ id text, packet.Speaks (.message id text)) ∧ Room.Step 0 r a r' ∧
      (s.take u i { c with toHost := rest } (.item packet)).Coupled nick r' := by
  obtain ⟨net, hnet⟩ := h.hosting.net
  obtain ⟨m, hm, hcm⟩ := h.seated.get hc
  have hout := hcm.outbox
  rw [hq] at hout
  obtain ⟨_, out, hw, hrest, hmout⟩ := List.forall₂_cons_left_iff.mp hout
  cases hw with
  | @item _ speech hspeech =>
    have ⟨pkg, hp, hspeaks⟩ := hspeech
    cases speech with
    | hello name =>
      cases hspeaks
      exact ⟨_, _, .inl rfl, .hubHello hm hmout, h.take_hello hcore hc hm hcm hmout hrest hp⟩
    | message id text =>
      cases hspeaks
      obtain ⟨rfl, hname⟩ := (hcore.sound i m hm).speech (.message id text) (by simp [hmout])
      refine ⟨_, _, .inr ⟨rfl, _, _, hspeech⟩, .hubHear hm hmout hname, ?_⟩
      obtain ⟨user, hu, hun⟩ := Option.map_eq_some_iff.mp ((h.table m.id).trans hname)
      have hd := package?_eq_some.mp hp
      have hsize := Nat.le_trans (decodes_length hd) packet.fits
      have hrun : s.take u i { c with toHost := rest } (.item packet) =
          (ENetChat.relay user.name false { userId := m.id, message := text }).foldl
            (Session.effect (some i)) (s.put i { c with toHost := rest }) := by
        refine (run_eq (s := s.put i _) h.hosting hnet
          (h.hosting.receive_completes hp ?_)).trans ?_
        · simp only [ChatApp.Accepts, h.hosting.state, if_true, UserMap.contains_eq, hu,
            Option.isSome_some]
        · simp only [hostNext, hp, hostReceive, Session.put, hu]
      rw [hrun, hun]
      have hcm' := hcm.outer hcm.link (fun hl => hl) hcm.mark hrest
      exact relay (h.put hc hcm' fun hl => ⟨hl, rfl⟩) hsize

theorem effects_farewell {user : UserInfo} :
    (farewell nick app user).foldl (Session.effect source) s = s.effect source
      (.enet (.hostBroadcast (Package.removeUser { userId := user.userId }).layout 0)) := by
  simp only [farewell, List.foldl_append, List.foldl_cons, List.foldl_nil,
    effects_quiet listCalls_quiet]
  rfl

theorem take_closed (h : s.Coupled nick r) (hcore : Room.Core 0 hubName r)
    (hc : s.conns[i]? = some c) (hq : c.toHost = .closed :: rest) :
    ∃ r', Room.Step 0 r (.hubClosed i) r' ∧
      (s.take u i { c with toHost := rest } .closed).Coupled nick r' := by
  obtain ⟨net, hnet, hids, hpeers⟩ := h.peers
  obtain ⟨m, hm, hcm⟩ := h.seated.get hc
  have hout := hcm.outbox
  rw [hq] at hout
  obtain ⟨_, out, ⟨⟩, hrest, hmout⟩ := List.forall₂_cons_left_iff.mp hout
  have hsound := hcore.sound i m hm
  have hends := hsound.ends
  rw [hmout] at hends
  have hne : c.link ≠ .gone := by simp [← hcm.link, hends.closed.1]
  have hpeers' : ∀ c' ∈ s.conns.set i { c with toHost := rest, link := .gone }, c'.link = .up →
      ({ net with mPeers := net.mPeers.erase c.peer.incomingPeerID } :
        ENetWrapper).getPeerPtr c'.peer.incomingPeerID = some c'.peer := by
    intro c' hc' hl'
    obtain rfl | ⟨k, hk, hc'⟩ := mem_set_cases hc'
    · cases hl'
    · simp only [ENetWrapper.getPeerPtr, Std.ExtTreeMap.getElem?_erase]
      rw [if_neg]
      · exact hpeers c' (List.mem_of_getElem? hc') hl'
      · simp only [Std.LawfulEqCmp.compare_eq_iff_eq]
        exact (h.slot_ne hcore hc hne hc' (by simp [hl']) hk).symm
  have hids' : ∀ p peer, ({ net with mPeers := net.mPeers.erase c.peer.incomingPeerID } :
      ENetWrapper).getPeerPtr p = some peer → peer.incomingPeerID = p := by
    intro p peer hp
    simp only [ENetWrapper.getPeerPtr, Std.ExtTreeMap.getElem?_erase] at hp
    split at hp
    · cases hp
    · exact hids p peer hp
  have hseated : Seated (s.conns.set i { c with toHost := rest, link := .gone })
      (Function.update r.members i (some { m with outbox := out, link := .gone })) :=
    h.seated.set hc (hcm.outer rfl (fun hl => by cases hl)
      (fun hmarked => hcm.mark (hmarked.imp_left nofun)) hrest)
  have hrun : s.take u i { c with toHost := rest } .closed =
      (hostNext nick net s.host (.network (.disconnect c.peer))).2.foldl (Session.effect (some i))
        { s.put i { c with toHost := rest, link := .gone } with
          host := (hostNext nick net s.host (.network (.disconnect c.peer))).1 } :=
    run_eq (s := s.put i _) h.hosting hnet h.hosting.disconnect_completes
  have hid : toUserID c.peer.incomingPeerID = m.id := hcm.id.symm
  refine ⟨_, .hubClosed hm hmout, ?_⟩
  rw [hrun]
  unfold Room.leave
  split
  · next hnone =>
    have hnone : s.host.mUsers.user? (toUserID c.peer.incomingPeerID) = none := by
      rw [hid, ← Option.map_eq_none_iff (f := UserInfo.name)]
      exact (h.table m.id).trans hnone
    simp only [hostNext, hnone, List.foldl_cons, List.foldl_nil]
    rw [effect_quiet rfl]
    exact ⟨h.hosting.withNet, h.halt, h.short, ⟨_, rfl, hids', hpeers'⟩, h.table, h.log, hseated⟩
  · next hsome =>
    obtain ⟨name, hname⟩ := Option.ne_none_iff_exists'.mp hsome
    obtain ⟨user, hu, -⟩ := Option.map_eq_some_iff.mp ((h.table m.id).trans hname)
    have huid := h.hosting.tidy.userId hu
    rw [← hid] at hu
    obtain ⟨packet, hcreate, hp⟩ :=
      create?_layout (.removeUser { userId := user.userId }) (by rfl)
        (by simp [Package.layout, Package.body, maximumPacketSize])
    simp only [hostNext, hu]
    rw [effects_farewell, effect_broadcast hcreate]
    refine tell ?_ ⟨_, hp, by rw [huid]; rfl⟩
    have hne0 : user.userId ≠ 0 := by rw [huid]; exact hsound.ne_hub
    refine ⟨(h.hosting.withoutUser hne0).withNet, h.halt, fun id user' hu' => ?_,
      ⟨_, rfl, hids', hpeers'⟩, fun id => ?_, h.log, hseated⟩
    · simp only [ChatApp.withoutUser, UserMap.user?_erase] at hu'
      split at hu'
      · cases hu'
      · exact h.short id user' hu'
    · simp only [ChatApp.withoutUser, UserMap.name?_erase, huid, h.table]
      rfl

end Session.Coupled

end ENetChat

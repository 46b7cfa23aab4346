import ENetChat.Session.Coupled

/-!
# A client's side of a session

What a running client makes of its events and of a line is what a member of a
room makes of them, or the client stops running: `Coupled` is kept by a step
of the room.
-/

namespace ENetChat

open Exec Channel Replica

variable {u : Unspecified} {app : ChatApp} {user : UserInfo} {users : List UserInfo}
  {c c' : Conn} {m : Participant} {id j : UserId} {packet : ENetPacket} {pkg : Package}
  {n : Note UserId Bytes Bytes} {table : Table UserId Bytes} {w : World}

-- ---------------------------------------------------------------------------
-- The users of an Ack
-- ---------------------------------------------------------------------------

theorem Lists.find (h : Lists users table) :
    (users.find? (·.userId == j)).map (·.name) = table j := by
  cases hf : users.find? (·.userId == j) with
  | some user =>
    have hid := List.find?_some hf
    exact ((h j user.name).mpr ⟨user, List.mem_of_find?_eq_some hf, by simpa using hid, rfl⟩).symm
  | none =>
    cases ht : table j with
    | none => rfl
    | some name =>
      obtain ⟨user, hu, hid, -⟩ := (h j name).mp ht
      have := List.find?_eq_none.mp hf user hu
      simp [hid] at this

theorem name?_withUsers (h : Lists users table) : (app.withUsers u id users).mUsers.name? j =
    (app.mUsers.name? j).or (table j) := by
  rw [name?_find, h.find]

namespace ChatApp.At

theorem insertUser (h : app.At id) : (app.insertUser user).At id := by
  obtain ⟨node, me, hp, hn⟩ := h
  exact ⟨node, me, hp, by rw [getElem?_insertUser, hn, Option.some_or]⟩

theorem setLocal (u : Unspecified) (app : ChatApp) (user : UserInfo) :
    ((app.insertUser user).setLocal u user.userId).At user.userId := by
  obtain ⟨node, heq, me, hn⟩ := setLocal_insertUser u app user
  rw [heq]
  exact ⟨node, me, rfl, hn⟩

theorem withUser (h : app.At id ∨ user.userId = id) :
    (app.withUser u user (id == user.userId)).At id := by
  unfold ChatApp.withUser
  by_cases heq : id = user.userId
  · subst heq
    simpa using setLocal u app user
  · simpa [heq] using insertUser (h.resolve_right (Ne.symm heq))

theorem withUsers (h : app.At id ∨ ∃ user ∈ users, user.userId = id) :
    (app.withUsers u id users).At id := by
  unfold ChatApp.withUsers
  induction users generalizing app with
  | nil => exact h.resolve_right (by simp)
  | cons user users ih =>
    refine ih ?_
    simp only [List.mem_cons, exists_eq_or_imp] at h
    obtain h | h | h := h
    · exact .inl (withUser (.inl h))
    · exact .inl (withUser (.inr h))
    · exact .inr h

theorem withoutUser (h : app.At id) (hne : j ≠ id) : (app.withoutUser j).At id := by
  obtain ⟨node, me, hp, hn⟩ := h
  exact ⟨node, me, hp, by simp [ChatApp.withoutUser, hn, hne.symm]⟩

theorem local? (h : app.At id) (ht : app.Tidy) :
    ∃ me, app.local? = some (some me) ∧ me.userId = id ∧ app.mUsers.user? id = some me := by
  obtain ⟨node, me, hp, hn⟩ := h
  exact ⟨me, by simp [ChatApp.local?, hp, ChatApp.pointee?, hn], ht.keyed hn,
    UserMap.user?_eq_some.mpr ⟨node, hn⟩⟩

end ChatApp.At

/-- Off any entry, the local pointer is NULL if it can be read. -/
theorem local?_eq_none (h : ∀ id node, app.mLocaluserPtr ≠ .entry id node)
    (hl : app.local? = some me) : me = none := by
  unfold ChatApp.local? at hl
  cases hp : app.mLocaluserPtr with
  | unassigned => simp [hp] at hl
  | null => simpa [hp] using hl.symm
  | entry id node => exact absurd hp (h id node)

-- ---------------------------------------------------------------------------
-- Effects
-- ---------------------------------------------------------------------------

namespace Conn

theorem effect_quiet {effect : Effect} (h : effect.quiet = true) : c.effect effect = c := by
  cases effect with
  | enet call => cases h
  | window call => cases call <;> first | rfl | cases h

theorem effects_quiet {effects : List Effect} (h : ∀ effect ∈ effects, effect.quiet = true) :
    effects.foldl Conn.effect c = c := by
  induction effects with
  | nil => rfl
  | cons effect effects ih =>
    rw [List.foldl_cons, effect_quiet (h effect (by simp))]
    exact ih fun x hx => h x (by simp [hx])

theorem effects_quit : (quitEffects app).foldl Conn.effect c = c := by
  unfold quitEffects
  split <;> rfl

theorem effect_send {peer : ENetPeer} (hp : ENetPacket.create? data flags = some packet) :
    c.effect (.enet (.peerSend peer data flags)) =
      { c with toHost := c.link.send c.toHost packet } := by
  simp only [Conn.effect, hp]

end Conn

-- ---------------------------------------------------------------------------
-- Stopping
-- ---------------------------------------------------------------------------

/-- What nothing that a client does changes of its connection. -/
structure Conn.SameSeat (c c' : Conn) : Prop where
  slot : c'.slot = c.slot
  address : c'.address = c.address
  nickname : c'.nickname = c.nickname
  link : c'.link = c.link
  mark : c'.mark = c.mark

/-- The client has quit or come to grief, and nothing has been sent. -/
structure Conn.Stops (c c' : Conn) : Prop extends SameSeat c c' where
  toHost : c'.toHost = c.toHost
  ended : c'.halt ≠ none ∨ c'.client.mState = .to .quitState

theorem Conn.SameSeat.peer (h : c.SameSeat c') : c'.peer = c.peer := by
  rw [Conn.peer, h.slot, h.address]
  rfl

theorem Conn.Stops.coupled (h : c.Stops c') (hc : c.Coupled m) :
    c'.Coupled { m with running := false } := by
  have hrun : ¬ c'.Running := by
    rintro ⟨hh, hs⟩
    obtain ho | ho := h.ended
    · exact ho hh
    · rw [hs] at ho
      cases ho
  refine ⟨hc.id.trans ?_, hc.name.trans (by rw [h.nickname]), hc.link.trans h.link.symm,
    fun hl => (hc.mark hl).trans h.mark.symm, h.toHost ▸ hc.outbox,
    ⟨fun hr => (by cases hr), fun hr => absurd hr hrun⟩, fun hh _ => ?_, fun hr => absurd hr hrun⟩
  · rw [Conn.userId, Conn.userId, h.toSameSeat.peer]
  · exact h.ended.resolve_left (fun ho => ho hh)

theorem noteAck_same (b : Bool) (c : Conn) : c.SameSeat (c.noteAck b) ∧
    (c.noteAck b).toHost = c.toHost ∧ (c.noteAck b).halt = c.halt ∧
    (c.noteAck b).client = c.client := by
  unfold Conn.noteAck
  split <;> exact ⟨⟨rfl, rfl, rfl, rfl, rfl⟩, rfl, rfl, rfl⟩

theorem Conn.Stops.noteAck (h : c.Stops c') : c.Stops (c'.noteAck b) := by
  unfold Conn.noteAck
  split <;> exact ⟨⟨h.slot, h.address, h.nickname, h.link, h.mark⟩, h.toHost, h.ended⟩

/-- A handler completes, or stops the client. -/
theorem Conn.run_cases (u : Unspecified) (event : AppEvent) (c : Conn) :
    (∃ w, c.client.exec (handle u event) = .ok () w ∧
      c.run u event = w.out.foldl Conn.effect { c with client := w.app }) ∨
    ∃ (e : Halt) (w : World), c.run u event = { c with client := w.app, halt := some e } := by
  unfold Conn.run
  cases h : c.client.exec (handle u event) with
  | ok a w => exact .inl ⟨w, rfl, rfl⟩
  | error e w => exact .inr ⟨e, w, rfl⟩

theorem Conn.stops_run (hs : c.SameSeat c') (ht : c'.toHost = c.toHost)
    (hq : c'.client.mState = .to .quitState) : c.Stops (c'.run u event) := by
  obtain ⟨w, hw, heq⟩ | ⟨e, w, heq⟩ := c'.run_cases u event
  · obtain ⟨hq', hout⟩ := quit_step hq hw
    rw [heq, hout]
    exact ⟨⟨hs.slot, hs.address, hs.nickname, hs.link, hs.mark⟩, ht, .inr hq'⟩
  · rw [heq]
    exact ⟨⟨hs.slot, hs.address, hs.nickname, hs.link, hs.mark⟩, ht, .inl (by simp)⟩

-- ---------------------------------------------------------------------------
-- Notes
-- ---------------------------------------------------------------------------

/-- A packet has changed the users, and the window. -/
theorem Conn.Mirrors.next {news : List (Bytes × Bytes)} (h : c.Mirrors m)
    (hq : c.toClient = .item packet :: rest) (hrest : Matches ENetPacket.Notes rest inb)
    (hp : packet.Notes n) (htidy : app.Tidy) (hsame : c.client.SameRest app)
    (hrep : ∀ id, app.mUsers.name? id = (m.view.see m.id n).replica id)
    (hself : (m.view.see m.id n).synced = true → app.At m.id)
    (hnone : (m.view.see m.id n).synced = false → ∀ id node, app.mLocaluserPtr ≠ .entry id node)
    (hshown : n.isSnapshot = false → (m.view.see m.id n).shown = m.view.shown ++ news) :
    (Conn.noteAck (isAck packet.package?)
      { c with toClient := rest, client := app, shown := c.shown ++ news }).Mirrors
        (Member.see n { m with inbox := inb }) := by
  have hnet : ∃ net, app.mEnet = some net ∧
      (c.link.live = true → .opened ∉ rest → net.getPeerPtr 0 = some hostPeer) := by
    obtain ⟨net, hnet, hpeer⟩ := h.net
    exact ⟨net, hsame.enet.trans hnet, fun hl hno => hpeer hl (by simpa [hq] using hno)⟩
  rw [isAck_iff hp]
  cases hn : n.isSnapshot with
  | true =>
    obtain ⟨i, table, rfl⟩ := Note.eq_snapshot hn
    exact ⟨htidy, hsame.quit.trans h.quit, (congrArg _ hsame.config).trans h.nickname, hnet, hrep,
      hself, hnone, hrest, rfl, rfl, fun _ => ⟨rfl, rfl⟩⟩
  | false =>
    have hsync : (m.view.see m.id n).synced = m.view.synced := see_synced hn
    have hty : (Member.see n { m with inbox := inb }).typed = m.typed := by
      cases n with
      | snapshot => cases hn
      | _ => rfl
    refine ⟨htidy, hsame.quit.trans h.quit, (congrArg _ hsame.config).trans h.nickname, hnet, hrep,
      hself, hnone, hrest, h.acked.trans hsync.symm, ?_, fun hs => ?_⟩
    · exact (congrArg (· ++ news) h.shown).trans (hshown hn).symm
    · rw [hty]
      exact h.typed (hsync ▸ hs)

/-- What a package changes, it changes as the note says. -/
theorem Conn.Mirrors.receive {e : NetworkTraffic} (h : c.Mirrors m)
    (hs : c.client.mState = .to .chatStateClient) (hown : m.Own n) (hn : pkg.Notes n)
    (hr : (receivePackage u e pkg).run ⟨c.client, []⟩ = .ok () w) :
    ∃ news, (∀ c' : Conn, w.out.foldl Conn.effect c' = { c' with shown := c'.shown ++ news }) ∧
      (∀ id, w.app.mUsers.name? id = (m.view.see m.id n).replica id) ∧
      ((m.view.see m.id n).synced = true → w.app.At m.id) ∧
      ((m.view.see m.id n).synced = false → ∀ id node, w.app.mLocaluserPtr ≠ .entry id node) ∧
      (n.isSnapshot = false → (m.view.see m.id n).shown = m.view.shown ++ news) := by
  cases n with
  | snapshot i table =>
    obtain ⟨users, rfl, hlists⟩ := hn
    obtain ⟨rfl, hme⟩ := hown
    obtain ⟨effects, rfl, hq⟩ := client_ack_ok hs hr
    refine ⟨[], by simp [Conn.effects_quiet hq], fun id => ?_, fun _ => .withUsers (.inr ?_),
      fun hf => (by cases hf), fun hf => by cases hf⟩
    · rw [name?_withUsers hlists, h.replica]
      rfl
    · obtain ⟨user, hu, hid, -⟩ := (hlists m.id m.name).mp hme
      exact ⟨user, hu, hid⟩
  | joined i name =>
    obtain ⟨user, rfl, rfl, rfl⟩ := hn
    obtain ⟨effects, rfl, hq⟩ := client_add_ok hs hr
    refine ⟨[], by simp [Conn.effects_quiet hq], ?_⟩
    have hrep := h.replica user.userId
    cases hu : c.client.mUsers.contains user.userId with
    | true =>
      have hsome : m.view.replica user.userId ≠ none := by
        rw [← hrep, UserMap.name?]
        rw [UserMap.contains_eq] at hu
        cases hu' : c.client.mUsers.user? user.userId <;> simp [hu'] at hu ⊢
      simp only [if_true, View.see, insert_of_some hsome]
      exact ⟨h.replica, h.atSelf, h.atNone, fun _ => by simp⟩
    | false =>
      simp only [Bool.false_eq_true, if_false]
      refine ⟨fun id => ?_, fun hsync => (h.atSelf hsync).insertUser, h.atNone,
        fun _ => by simp [View.see]⟩
      rw [name?_insertUser, h.replica]
      rfl
  | left i =>
    subst hn
    obtain ⟨user, effects, hu, rfl, hq⟩ := client_remove_ok hs hr
    obtain rfl := h.tidy.userId hu
    refine ⟨[], by simp [Conn.effects_quiet hq], fun id => ?_,
      fun hsync => (h.atSelf hsync).withoutUser hown, h.atNone, fun _ => by simp [View.see]⟩
    simp only [ChatApp.withoutUser, UserMap.name?_erase, h.replica]
    rfl
  | said i text =>
    subst hn
    obtain ⟨user, me, hu, hl, rfl⟩ := client_message_ok hs hr
    have hrep : m.view.replica i = some user.name := by
      rw [← h.replica, UserMap.name?, hu]
      rfl
    have hany : me.any (·.userId == user.userId) = decide (m.view.synced = true ∧ i = m.id) := by
      rw [h.tidy.userId hu]
      cases hsync : m.view.synced with
      | true =>
        obtain ⟨me', hl', hid, -⟩ := (h.atSelf hsync).local? h.tidy
        rw [hl] at hl'
        cases hl'
        rw [Option.any_some, hid, Bool.eq_iff_iff]
        simp only [beq_iff_eq, decide_eq_true_eq, true_and]
        exact eq_comm
      | false => simp [local?_eq_none (h.atNone hsync) hl]
    rw [hany]
    refine ⟨if m.view.synced = true ∧ i = m.id then [] else [(user.name, text)], ?_, ?_⟩
    · by_cases hme : m.view.synced = true ∧ i = m.id
      · simp [hme]
      · simp [hme, Conn.effect]
    · rw [see_said_replica, see_synced rfl]
      refine ⟨h.replica, h.atSelf, h.atNone, fun _ => ?_⟩
      simp only [View.see]
      split
      · simp
      · simp [hrep]

-- ---------------------------------------------------------------------------
-- Events
-- ---------------------------------------------------------------------------

/-- The packet of a package that a client sends. -/
theorem sends {app : ChatApp} {net : ENetWrapper} (pkg : Package) (out : List Effect)
    (hw : app.mEnet = some net)
    (hpeer : net.getPeerPtr 0 = some hostPeer) (htag : pkg.Tagged)
    (hsize : pkg.layout.length ≤ maximumPacketSize) (hrec : pkg.received = pkg) :
    ∃ packet, packet.package? = some pkg ∧
      ENetPacket.create? pkg.layout 0 = some packet ∧
      (send u 0 pkg).run ⟨app, out⟩ =
        .ok () ⟨app, out ++ [.enet (.peerSend hostPeer pkg.layout 0)]⟩ := by
  obtain ⟨packet, hcreate, hp⟩ := create?_layout pkg htag hsize
  rw [hrec] at hp
  refine ⟨packet, hp, hcreate, ?_⟩
  have hsmall : pkg.layout.length < 2 ^ 31 := by
    simp only [maximumPacketSize] at hsize
    omega
  rw [send_run hsmall hw]
  simp [toPeerID, ENetWrapper.send, hpeer]

namespace Conn.Coupled

variable {i : Nat} {r : ChatRoom} {hubName : Bytes} {event : AppEvent}

theorem of_mirrors (h : c.Coupled m) (hs : c.SameSeat c')
    (ht : Matches ENetPacket.Speaks c'.toHost m'.outbox) (hr : c'.Running)
    (hrun : m'.running = true) (hid : m'.id = m.id) (hname : m'.name = m.name)
    (hl : m'.link = m.link) (hmark : m'.mark = m.mark) (hsnap : m'.snapshots ≤ m.snapshots)
    (hm : c'.Mirrors m') : c'.Coupled m' := by
  refine ⟨hid.trans (h.id.trans ?_), hname.trans (h.name.trans ?_),
    hl.trans (h.link.trans hs.link.symm),
    fun hmarked => hmark.trans ((h.mark (hmarked.less hl hsnap)).trans hs.mark.symm), ht,
    ⟨fun _ => hr, fun _ => hrun⟩, fun _ hno => absurd hr hno, fun _ => hm⟩
  · rw [Conn.userId, Conn.userId, hs.peer]
  · rw [hs.nickname]

theorem take_opened (h : c.Coupled m) (hr : c.Running) (hin : m.inbox = .opened :: inb)
    (hrest : Matches ENetPacket.Notes rest inb) :
    c.SameSeat (Conn.take u { c with toClient := rest } .opened) ∧
      (Conn.take u { c with toClient := rest } .opened).Coupled
        (Member.speak (.hello m.name) { m with inbox := inb }) := by
  have hm := h.mirrors hr
  obtain ⟨net, hnet, -⟩ := hm.net
  let net' : ENetWrapper := { net with mPeers := net.mPeers.insert 0 hostPeer }
  have hpeer : net'.getPeerPtr 0 = some hostPeer := by
    simp [net', ENetWrapper.getPeerPtr]
  have hnet' : ({ c.client with mEnet := some net' } : ChatApp).mEnet = some net' := rfl
  obtain ⟨packet, hp, hcreate, hsend⟩ := sends (u := u)
    (.username { username := c.client.mConfig.nickname }) [] hnet' hpeer (by rfl) (by
      rw [length_username, hm.nickname]
      have : c.nickname.text.length < 80 := c.nickname.line.fits
      simp only [maximumPacketSize]
      omega) rfl
  have hrun : c.client.exec (handle u (.network (.connect hostPeer))) =
      .ok () ⟨{ c.client with mEnet := some net' }, [.enet (.peerSend hostPeer
        (Package.username { username := c.client.mConfig.nickname }).layout 0)]⟩ := by
    refine (handle_network_run hnet).trans ?_
    simp only [listen, EStateM.run_bind, modifyApp_run, hnet, Option.map_some]
    rw [client_connection_run (by exact hr.2)]
    exact hsend
  have htake : Conn.take u { c with toClient := rest } .opened =
      { c with
        toClient := rest
        client := { c.client with mEnet := some net' }
        toHost := c.link.send c.toHost packet } := by
    simp only [Conn.take, Conn.run, hrun, List.foldl_cons, List.foldl_nil]
    rw [effect_send hcreate]
  rw [htake]
  have hsnap : ({ m with inbox := inb } : Participant).snapshots ≤ m.snapshots :=
    Member.snapshots_le rfl (by simp [hin])
  refine ⟨⟨rfl, rfl, rfl, rfl, rfl⟩, h.id, h.name, h.link,
    fun hmarked => h.mark (hmarked.less rfl hsnap), ?_, h.running, ?_, fun _ => ?_⟩
  · show Matches _ (c.link.send c.toHost packet) (m.link.send m.outbox (.hello m.name))
    rw [h.link]
    refine h.outbox.send ⟨_, hp, ?_⟩
    rw [h.name, ← hm.nickname]
    rfl
  · exact h.stopped
  · exact ⟨⟨hm.tidy.keyed, hm.tidy.nodes, hm.tidy.pointer⟩, hm.quit, hm.nickname,
      ⟨net', rfl, fun _ _ => hpeer⟩, hm.replica, hm.atSelf, hm.atNone, hrest, hm.acked, hm.shown,
      hm.typed⟩

theorem take_closed (h : c.Coupled m) (hr : c.Running) :
    c.Stops (Conn.take u { c with toClient := rest } .closed) := by
  have hm := h.mirrors hr
  obtain ⟨net, hnet, -⟩ := hm.net
  have hrun : ∃ app, c.client.exec (handle u (.network (.disconnect hostPeer))) = .ok () ⟨app,
        .window (.log (ascii "Disconnected from host, exiting...")) :: quitEffects c.client⟩ ∧
      app.mState = .to .quitState := by
    unfold ChatApp.exec
    rw [handle_network_run hnet]
    simp only [listen, EStateM.run_bind, client_disconnect_run hr.2, modifyApp_run]
    exact ⟨_, rfl, rfl⟩
  obtain ⟨app, hrun, hs⟩ := hrun
  have htake : Conn.take u { c with toClient := rest } .closed =
      { c with toClient := rest, client := app } := by
    simp only [Conn.take, Conn.run, hrun, List.foldl_cons]
    exact effects_quit
  rw [htake]
  exact ⟨⟨rfl, rfl, rfl, rfl, rfl⟩, rfl, .inr hs⟩

/-- The client takes a packet, if it does. -/
theorem take_item (h : c.Coupled m) (hr : c.Running) (hsound : m.Sound 0 table)
    (hq : c.toClient = .item packet :: rest) (hin : m.inbox = .item n :: inb)
    (hrest : Matches ENetPacket.Notes rest inb) (hp : packet.Notes n) :
    c.Stops (Conn.take u { c with toClient := rest } (.item packet)) ∨
      c.SameSeat (Conn.take u { c with toClient := rest } (.item packet)) ∧
        (Conn.take u { c with toClient := rest } (.item packet)).Coupled
          (Member.see n { m with inbox := inb }) := by
  have hm := h.mirrors hr
  obtain ⟨net, hnet, -⟩ := hm.net
  rw [Conn.take]
  obtain ⟨w, hw, heq⟩ | ⟨e, w, heq⟩ :=
    Conn.run_cases u (.network (.receive hostPeer packet)) { c with toClient := rest }
  · right
    obtain ⟨pkg, hpkg, hn⟩ := hp
    have hw := (handle_network_run hnet).symm.trans hw
    obtain ⟨hnone, -⟩ | ⟨pkg', hpkg', -, hrec⟩ := receive_ok hw
    · rw [hpkg] at hnone
      cases hnone
    rw [hpkg] at hpkg'
    cases hpkg'
    obtain ⟨htidy, hsame⟩ := client_receivePackage_ok hr.2 hm.tidy hrec
    obtain ⟨news, heffects, hrep, hself, hnone, hshown⟩ :=
      hm.receive hr.2 (hsound.notes n (by simp [hin])) hn hrec
    rw [heq, heffects]
    have hnext := hm.next hq hrest ⟨pkg, hpkg, hn⟩ htidy hsame hrep hself hnone hshown
    generalize isAck packet.package? = b at hnext ⊢
    obtain ⟨hseat, ht, hh, hc⟩ := noteAck_same b
      { c with toClient := rest, client := w.app, shown := c.shown ++ news }
    have hseat : c.SameSeat _ :=
      ⟨hseat.slot, hseat.address, hseat.nickname, hseat.link, hseat.mark⟩
    refine ⟨hseat,
      h.of_mirrors hseat ?_ ⟨hh.trans hr.1, ?_⟩ (h.running.mpr hr) rfl rfl rfl rfl
        (Member.snapshots_see hin) hnext⟩
    · rw [ht]
      exact h.outbox
    · rw [hc]
      exact hsame.state.trans hr.2
  · left
    rw [heq]
    exact Conn.Stops.noteAck ⟨⟨rfl, rfl, rfl, rfl, rfl⟩, rfl, .inl (by simp)⟩

theorem take (h : c.Coupled m) (hsound : m.Sound 0 r.table) (hm : r.members i = some m)
    (hhalt : c.halt = none) (hq : c.toClient = wire :: rest) :
    ∃ a m', (a = .memberStop i ∨ a = .memberOpened i ∨ a = .memberNote i) ∧
      Room.Step 0 r a (r.put i m') ∧
      c.SameSeat (Conn.take u { c with toClient := rest } wire) ∧
      (Conn.take u { c with toClient := rest } wire).Coupled m' := by
  have hstop (hs : c.Stops (Conn.take u { c with toClient := rest } wire)) := And.intro
    (show Room.Step 0 r (.memberStop i) _ from .memberStop hm)
    (And.intro hs.toSameSeat (hs.coupled h))
  by_cases hr : c.Running
  · have hrun := h.running.mpr hr
    have hin := (h.mirrors hr).inbox
    rw [hq] at hin
    obtain ⟨_, inb, hw, hrest, hmin⟩ := List.forall₂_cons_left_iff.mp hin
    cases hw with
    | opened =>
      exact ⟨_, _, .inr (.inl rfl), .memberOpened hm hrun hmin, h.take_opened hr hmin hrest⟩
    | @item packet n hp =>
      obtain hs | hs := h.take_item (u := u) hr hsound hq hmin hrest hp
      · exact ⟨_, _, .inl rfl, hstop hs⟩
      · exact ⟨_, _, .inr (.inr rfl), .memberNote hm hrun hmin, hs⟩
    | closed => exact ⟨_, _, .inl rfl, hstop (h.take_closed hr)⟩
  · have hquit := h.stopped hhalt hr
    refine ⟨_, _, .inl rfl, hstop ?_⟩
    have hs : c.SameSeat { c with toClient := rest } := ⟨rfl, rfl, rfl, rfl, rfl⟩
    cases wire with
    | item packet => exact (stops_run hs rfl hquit).noteAck
    | _ => exact stops_run hs rfl hquit

/-- Who has seen its snapshot has been connected, if it still is. -/
theorem opened_not_mem (h : c.Coupled m) (hsound : m.Sound 0 table) (hr : c.Running)
    (hl : c.link.live = true) (hsync : m.view.synced = true) : .opened ∉ c.toClient := by
  rw [(h.mirrors hr).inbox.opened_mem]
  intro hin
  have hne : m.link ≠ .gone := by
    rw [h.link]
    intro hg
    rw [hg] at hl
    cases hl
  have hsent := hsound.sent hne (Member.snapshots_pos hsync)
  have honce := hsound.once hne
  have hpos : 0 < m.inbox.countP Wire.isOpened := List.countP_pos_iff.mpr ⟨_, hin, rfl⟩
  simp only [Member.greeting, hsent, Option.isSome_some, Bool.toNat_true] at honce
  omega

/-- What a client types once it has seen its snapshot, it shows and sends. -/
theorem say {line : InputLine} (h : c.Coupled m) (hsound : m.Sound 0 table) (hr : c.Running)
    (hl : line.text ≠ []) (hi : line.text ≠ exitCommand) (hsync : m.view.synced = true) :
    c.SameSeat (run u (.input line) { c with typed := c.typed ++ [line.text] }) ∧
      (run u (.input line) { c with typed := c.typed ++ [line.text] }).Coupled
        (Member.speak (.message m.id line.text) { m with typed := m.typed ++ [line.text] }) := by
  have hm := h.mirrors hr
  obtain ⟨net, hnet, hpeer⟩ := hm.net
  obtain ⟨me, hlocal, hid, -⟩ := (hm.atSelf hsync).local? hm.tidy
  have hsize : (Package.message { userId := me.userId, message := line.text }).layout.length ≤
      maximumPacketSize := by
    rw [length_message]
    have := line.fits
    simp only [maximumPacketSize]
    omega
  obtain ⟨packet, hcreate, hp⟩ := create?_layout _ (by rfl) hsize
  have hrun : c.client.exec (handle u (.input line)) = .ok () ⟨c.client,
      .window (.printFrom me.name line.text true) :: (net.send 0
        (Package.message { userId := me.userId, message := line.text }).layout).map .enet⟩ := by
    refine (handle_input_run hr.2 hm.quit (List.length_pos_iff.mpr hl)).trans ?_
    simp only [maximumPacketSize] at hsize
    exact (client_handleInput_run hi hlocal).trans (send_run (by omega) hnet)
  have htake : run u (.input line) { c with typed := c.typed ++ [line.text] } = { c with
      typed := c.typed ++ [line.text]
      echoed := c.echoed ++ [line.text]
      toHost := c.link.send c.toHost packet } := by
    simp only [Conn.run, hrun, List.foldl_cons, Conn.effect, if_true]
    cases hget : net.getPeerPtr 0 with
    | some peer =>
      simp only [ENetWrapper.send, hget, List.map_cons, List.map_nil, List.foldl_cons,
        List.foldl_nil]
      rw [effect_send hcreate]
    | none =>
      have hdead : c.link.live ≠ true := by
        intro hlive
        rw [hpeer hlive (h.opened_not_mem hsound hr hlive hsync)] at hget
        cases hget
      simp [ENetWrapper.send, hget, Link.send, hdead]
  rw [htake]
  have hseat : c.SameSeat { c with
      typed := c.typed ++ [line.text]
      echoed := c.echoed ++ [line.text]
      toHost := c.link.send c.toHost packet } := ⟨rfl, rfl, rfl, rfl, rfl⟩
  refine ⟨hseat, h.of_mirrors hseat ?_ hr (h.running.mpr hr) rfl rfl rfl rfl (Nat.le_refl _) ?_⟩
  · show Matches _ (c.link.send c.toHost packet) (m.link.send m.outbox (.message m.id line.text))
    rw [h.link]
    exact h.outbox.send ⟨_, hp, by rw [← hid]; rfl⟩
  · have hty := hm.typed hsync
    exact ⟨hm.tidy, hm.quit, hm.nickname, hm.net, hm.replica, hm.atSelf, hm.atNone, hm.inbox,
      hm.acked, hm.shown, fun _ => ⟨congrArg (· ++ [line.text]) hty.1,
        congrArg (· ++ [line.text]) hty.2⟩⟩

theorem typeLine (line : InputLine) (h : c.Coupled m) (hsound : m.Sound 0 r.table)
    (hm : r.members i = some m) (hhalt : c.halt = none) :
    c.SameSeat (c.typeLine u line) ∧ ((c.typeLine u line).Coupled m ∨
      ∃ a m', (a = .memberStop i ∨ ∃ text, a = .memberSay i text) ∧ Room.Step 0 r a (r.put i m') ∧
        (c.typeLine u line).Coupled m') := by
  have hstop (hs : c.Stops (c.typeLine u line)) : c.SameSeat (c.typeLine u line) ∧
      ((c.typeLine u line).Coupled m ∨ ∃ a m', (a = .memberStop i ∨ ∃ text, a = .memberSay i text) ∧
        Room.Step 0 r a (r.put i m') ∧ (c.typeLine u line).Coupled m') :=
    ⟨hs.toSameSeat, .inr ⟨_, _, .inl rfl, .memberStop hm, hs.coupled h⟩⟩
  by_cases hr : c.Running
  · have hmir := h.mirrors hr
    by_cases hl : line.text = []
    · have hrun : c.client.exec (handle u (.input line)) = .ok () ⟨c.client, []⟩ :=
        handle_input_skip hr.2 (.inr (by simp [hl]))
      have hsame : c.typeLine u line = c := by
        simp only [Conn.typeLine, hl, true_or, if_true, Conn.run, hrun, List.foldl_nil]
      rw [hsame]
      exact ⟨⟨rfl, rfl, rfl, rfl, rfl⟩, .inl h⟩
    have hline : (handle u (.input line)).run ⟨c.client, []⟩ =
        (ChatStateClient.handleInput u line.text).run ⟨c.client, []⟩ :=
      handle_input_run hr.2 hmir.quit (List.length_pos_iff.mpr hl)
    by_cases hi : line.text = exitCommand
    · have hrun : c.client.exec (handle u (.input line)) =
          .ok () ⟨c.client.quitting, quitEffects c.client⟩ := by
        refine hline.trans ?_
        rw [ChatStateClient.handleInput, if_pos hi, goToState_quit hr.2]
        rfl
      have hsame : c.typeLine u line = { c with client := c.client.quitting } := by
        simp only [Conn.typeLine, hi, or_true, if_true, Conn.run, hrun, effects_quit]
      exact hstop (hsame ▸ ⟨⟨rfl, rfl, rfl, rfl, rfl⟩, rfl, .inr rfl⟩)
    · have htype : c.typeLine u line = run u (.input line)
          { c with typed := c.typed ++ [line.text] } := by
        simp only [Conn.typeLine, hl, hi, or_self, if_false]
      cases hsync : m.view.synced with
      | true =>
        obtain ⟨hseat, hcm⟩ := h.say (u := u) hsound hr hl hi hsync
        rw [htype]
        exact ⟨hseat, .inr ⟨_, _, .inr ⟨_, rfl⟩, .memberSay hm (h.running.mpr hr) hsync, hcm⟩⟩
      | false =>
        cases hlocal : c.client.local? with
        | none =>
          have hrun : c.client.exec (handle u (.input line)) = .error .wildRead ⟨c.client, []⟩ :=
            hline.trans (client_handleInput_wild hi hlocal)
          refine hstop ?_
          rw [htype]
          simp only [Conn.run, hrun]
          exact ⟨⟨rfl, rfl, rfl, rfl, rfl⟩, rfl, .inl (by simp)⟩
        | some me =>
          obtain rfl := local?_eq_none (hmir.atNone hsync) hlocal
          have hrun : c.client.exec (handle u (.input line)) = .ok () ⟨c.client, []⟩ :=
            hline.trans (client_handleInput_run hi hlocal)
          have hsame : c.typeLine u line = { c with typed := c.typed ++ [line.text] } := by
            rw [htype]
            simp only [Conn.run, hrun, List.foldl_nil]
          rw [hsame]
          have hseat : c.SameSeat { c with typed := c.typed ++ [line.text] } :=
            ⟨rfl, rfl, rfl, rfl, rfl⟩
          refine ⟨hseat,
            .inl (h.of_mirrors hseat h.outbox hr (h.running.mpr hr) rfl rfl rfl rfl
              (Nat.le_refl _) ?_)⟩
          exact ⟨hmir.tidy, hmir.quit, hmir.nickname, hmir.net, hmir.replica, hmir.atSelf,
            hmir.atNone, hmir.inbox, hmir.acked, hmir.shown,
            fun hs => absurd (hs.symm.trans hsync) (by simp)⟩
  · refine hstop ?_
    have hquit := h.stopped hhalt hr
    unfold Conn.typeLine
    split <;> exact stops_run ⟨rfl, rfl, rfl, rfl, rfl⟩ rfl hquit

end Conn.Coupled

end ENetChat

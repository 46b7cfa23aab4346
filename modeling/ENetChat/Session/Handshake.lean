import ENetChat.Session.Agreement

/-!
# The handshake

Between its connection and its Ack a client hears every broadcast of the
host's, but it does not have the host's users. It finds the user of a
STATE_REM_USER or a MESSAGE as long as broadcasts are about users that
newcomers are told of (`known`), and the host's own greeting is not
(`newcomer_crashes`). One USERNAME and one USERNAME_ACK make the handshake.
It ends if neither is dropped (`registered`), and ENet may drop either
(`username_dropped`).
-/

namespace ENetChat

open Channel Replica Transition

variable {nickname : Nickname} {s : Session} {r : ChatRoom} {c : Conn} {m : Participant} {i : Nat}
  {l : Label} {a : Act Nat UserId Bytes Bytes} {id : UserId}

-- ---------------------------------------------------------------------------
-- Newcomers
-- ---------------------------------------------------------------------------

theorem Package.Notes.announces {pkg : Package} {n : Note UserId Bytes Bytes} (h : pkg.Notes n)
    (ha : announces id (some pkg) = true) : ∃ name, n = .joined id name := by
  cases n with
  | joined j name =>
    obtain ⟨user, rfl, rfl, rfl⟩ := h
    exact ⟨_, by rw [beq_iff_eq.mp ha]⟩
  | snapshot j table =>
    obtain ⟨users, rfl, -⟩ := h
    cases ha
  | left j =>
    subst h
    cases ha
  | said j text =>
    subst h
    cases ha

theorem Conn.Coupled.told (h : c.Coupled m) (hr : c.Running) (ht : c.told id = true) :
    m.Told id := by
  have hm := h.mirrors hr
  simp only [Conn.told, Bool.or_eq_true, List.any_eq_true] at ht
  obtain ht | ⟨w, hw, ht⟩ := ht
  · left
    rwa [← hm.replica, UserMap.name?, ← Option.isSome_iff_ne_none, Option.isSome_map,
      ← UserMap.contains_eq]
  · right
    cases w with
    | item packet =>
      obtain ⟨n, hin, pkg, hp, hn⟩ := hm.inbox.mem hw
      rw [Wire.package?_item, hp] at ht
      obtain ⟨name, rfl⟩ := hn.announces ht
      exact ⟨name, mem_items.mpr hin⟩
    | _ => cases ht

namespace Session

/-- Every client finds the user of the packet that it takes next. -/
def Knows (s : Session) : Prop :=
  ∀ c ∈ s.conns, c.Running → ∀ packet rest id, c.toClient = .item packet :: rest →
    packet.package?.bind Package.about? = some id →
    c.client.mUsers.contains id = true ∧
      ∀ u w, c.client.exec (handle u (.network (.receive hostPeer packet))) ≠ .error .nullDeref w

theorem Coupled.informed (h : s.Coupled nick r) (hi : s.Informed id) :
    r.Informed (fun _ => True) id := by
  intro k m hm hh hnone _
  obtain ⟨c, hc, hcm⟩ := h.seated.of_member hm
  have hr := hcm.running.mp hh.2
  refine hcm.told hr (hi c (List.mem_of_getElem? hc) (hcm.link ▸ hh.1) hr ?_)
  rw [h.contains hcm, hnone]
  rfl

theorem Coupled.informs (h : s.Coupled nick r) (hcore : Room.Core 0 hubName r) (hi : s.Informs l)
    (hdo : s.Does l a) : Room.Informs 0 (fun _ => True) r a := by
  cases hdo with
  | hostInput hne => exact h.informed (hi 0 (by simp [about?, hne]))
  | hubHear hc hq hspeaks =>
    intro m hm
    have hcm := h.seated.coupled hc hm
    obtain ⟨pkg, hp, rfl⟩ := hspeaks
    have hout := hcm.outbox
    rw [hq] at hout
    obtain ⟨_, out, hw, -, hmout⟩ := List.forall₂_cons_left_iff.mp hout
    cases hw with
    | @item _ speech hspeech =>
      obtain ⟨_, hp', hs⟩ := hspeech
      rw [hp] at hp'
      obtain rfl := Option.some.inj hp'
      have hown := (hcore.sound _ m hm).speech speech (by simp [hmout])
      refine h.informed (hi m.id ?_)
      cases speech with
      | hello name => cases hs
      | message j text =>
        cases hs
        simp [about?, hc, hq, hp, Package.about?, hown.1]
  | hubClosed hc hq =>
    intro m hm hin
    have hcm := h.seated.coupled hc hm
    refine h.informed (hi m.id ?_)
    have hreg := h.contains hcm
    rw [Option.isSome_iff_ne_none.mpr hin] at hreg
    simp only [about?, hc, hq, Option.bind_some, List.head?_cons, hreg, if_true, hcm.id]
    rfl
  | _ => trivial

/-- In orderly runs, no client reads a user through NULL. -/
theorem known (h : (system nickname).Reach Orderly s) : s.Knows := by
  obtain ⟨r, hr, hs⟩ := simulated
    (fun r a => a.lossless ∧ Room.Informs 0 (fun _ => True) r a)
    (fun hs hr hl hdo => ⟨hdo.lossless hl.1, hs.informs (Room.core hr) hl.2 hdo⟩) h
  intro c hc hrun packet rest id hq hid
  obtain ⟨i, hi⟩ := List.getElem?_of_mem hc
  obtain ⟨m, hm, hcm⟩ := hs.seated.get hi
  have hknown := hcm.finds hrun ((Room.followed hr).safe i m hm) trivial hq hid
  refine ⟨hknown, fun u w hw => ?_⟩
  obtain ⟨net, hnet, -⟩ := (hcm.mirrors hrun).net
  obtain ⟨pkg, hp, habout⟩ := Option.bind_eq_some_iff.mp hid
  have hw := (handle_network_run hnet).symm.trans hw
  rw [listen, receiveEvent_decodes packet.lt (package?_eq_some.mp hp)] at hw
  have hnull := (client_lookup_null hrun.2 habout).mp ⟨w, hw⟩
  rw [hknown] at hnull
  cases hnull

/-- A registered client is told by its Ack. -/
theorem known_greeted : ∃ s, met.after Orderly [.hostInput default (menuLine "hi")] = some s ∧
    s.Knows := by
  obtain ⟨s, hs⟩ := Option.isSome_iff_exists.mp (show (met.after Orderly
    [.hostInput default (menuLine "hi")]).isSome = true by decide +kernel)
  exact ⟨s, hs, known (reach_after _ met_reach hs)⟩

def annHi : ENetPacket := ⟨[4, 0, 0, 2, 0, 0, 0, 0, 0, 0, 0, 104, 105], 0, by decide⟩

/-- Ann has said "hi" after Bob was connected and before he is registered. -/
def hurried : Session where
  host := introduced.host
  conns := introduced.conns.map fun c => { c with toClient := [.item annHi] }
  log := [(none, ascii "Ann", ascii "hi")]

theorem hurried_reach : (system ann).Reach (fun _ l => l.lossless = true) hurried :=
  reach_after (s := { host := annHost })
    [.join default true 0 {} bob, .hostEvent default 0, .hostInput default (menuLine "hi"),
      .clientEvent default 0]
    (.init ⟨default, true, annHost, by decide +kernel, rfl⟩) (by decide +kernel)

theorem newcomer_crashes :
    ¬ ∀ s, (system ann).Reach (fun _ l => l.lossless = true) s → s.Knows := by
  intro h
  have hknown := h hurried hurried_reach _ List.mem_cons_self ⟨rfl, rfl⟩ annHi [] 0 rfl
    (by decide +kernel)
  exact absurd hknown.1 (by decide +kernel)

-- ---------------------------------------------------------------------------
-- Registration
-- ---------------------------------------------------------------------------

end Session

theorem Conn.Coupled.speaks {line : InputLine} (h : c.Coupled m) (hr : c.Running)
    (hsound : m.Sound 0 table) (hl : c.link = .up) (hout : m.outbox = [])
    (hsync : m.view.synced = true) (hne : line.text ≠ []) (hexit : line.text ≠ exitCommand) :
    ∃ packet, (c.typeLine u line).toHost = [.item packet] ∧
      packet.package? = some (.message { userId := c.userId, message := line.text }) ∧
      (c.typeLine u line).echoed = c.echoed ++ [line.text] := by
  obtain ⟨-, hcm⟩ := h.say (u := u) hsound hr hne hexit hsync
  have htype : c.typeLine u line = Conn.run u (.input line)
      { c with typed := c.typed ++ [line.text] } := by
    simp only [Conn.typeLine, hne, hexit, or_self, if_false]
  rw [← htype] at hcm
  have hlink : m.link = .up := h.link.trans hl
  have hto := hcm.outbox
  simp only [Member.speak, Link.send, hlink, Link.live, hout, if_true, List.nil_append] at hto
  obtain ⟨_, rest, hw, hrest, heq⟩ := List.forall₂_cons_right_iff.mp hto
  obtain rfl := List.forall₂_nil_right_iff.mp hrest
  cases hw with
  | @item packet _ hspeaks =>
    obtain ⟨pkg, hp, rfl⟩ := hspeaks
    refine ⟨packet, heq, by rw [hp, h.id], ?_⟩
    have hmir := hcm.mirrors (hcm.running.mp (h.running.mpr hr))
    rw [(hmir.typed hsync).2, ((h.mirrors hr).typed hsync).2]
    rfl

namespace Session

/-- A client that is connected, with nothing under way, is registered, has
processed its Ack, and shows and sends what is typed. -/
def Registers (s : Session) : Prop :=
  ∀ c ∈ s.conns, c.Running → c.link = .up → c.toHost = [] → c.toClient = [] →
    s.host.mUsers.name? c.userId = some c.nickname.text ∧ c.acked = true ∧ c.Identified ∧
      ∀ u line, line.text ≠ [] → line.text ≠ exitCommand → ∃ packet,
        (c.typeLine u line).toHost = [.item packet] ∧
          packet.package? = some (.message { userId := c.userId, message := line.text }) ∧
          (c.typeLine u line).echoed = c.echoed ++ [line.text]

theorem Coupled.spares (h : s.Coupled nick r) (hl : s.Spares l) (hdo : s.Does l a) :
    Room.Spares r a := by
  cases hdo with
  | loseSpeech hc hw hspeaks =>
    intro m hm hlive hrun
    have hcm := h.seated.coupled hc hm
    have := hl _ hc (hcm.link ▸ hlive) (hcm.running.mp hrun)
    rw [hw, Option.bind_some, Wire.package?_item] at this
    rwa [← isUsername_iff hspeaks]
  | loseNote hc hw hnote =>
    intro m hm hlive hrun
    have hcm := h.seated.coupled hc hm
    have := hl _ hc (hcm.link ▸ hlive) (hcm.running.mp hrun)
    rw [hw, Option.bind_some, Wire.package?_item] at this
    rwa [← isAck_iff hnote]
  | _ => trivial

theorem registered (h : (system nickname).Reach Spares s) : s.Registers := by
  obtain ⟨r, hr, hs⟩ := simulated Room.Spares
    (fun hs _ hl hdo => hs.spares hl hdo) h
  have hcore := Room.core hr
  intro c hc hrun hup hout hq
  obtain ⟨i, hi⟩ := List.getElem?_of_mem hc
  obtain ⟨m, hm, hcm⟩ := hs.seated.get hi
  have hsound := hcore.sound i m hm
  obtain ⟨hin, hl⟩ := hcm.live hrun hsound hq
  have hmout := hcm.outbox.eq_nil hout
  have hsync : m.view.synced = true := by
    obtain ho | ⟨_, hh, -⟩ | hs := Room.greeted hr i m hm hl (hcm.running.mpr hrun)
    · simp [hin] at ho
    · simp [hmout] at hh
    · cases hv : m.view.synced with
      | true => rfl
      | false => simp [Member.snapshots, hin, hv] at hs
  have hlink : m.link ≠ .gone := by simp [hcm.link, hup]
  refine ⟨?_, (hcm.mirrors hrun).acked.trans hsync, hcm.identified hrun hsound hsync,
    fun u line hne hexit => hcm.speaks hrun hsound hup hmout hsync hne hexit⟩
  rw [← hcm.id, ← hcm.name, hs.table]
  exact hsound.sent hlink (Member.snapshots_pos hsync)

theorem lossless_spares (h : l.lossless = true) : s.Spares l := by
  cases l with
  | dropToHost => cases h
  | dropToClient => cases h
  | _ => trivial

theorem registered_met : met.Registers :=
  registered (met_reach.mono fun _ _ _ hl => lossless_spares hl.1)

/-- Bob's USERNAME is lost. -/
def stranded : Session where
  host := introduced.host
  conns := introduced.conns.map fun c => { c with toHost := [] }

theorem stranded_reach : (system ann).Reach (fun _ _ => True) stranded := by
  have h : (system ann).Reach (fun _ _ => True) introduced :=
    introduced_reach.mono fun _ _ _ _ => trivial
  exact reach_after [.dropToHost 0 0] h (by decide +kernel)

theorem username_dropped : ¬ ∀ s, (system ann).Reach (fun _ _ => True) s →
    (∀ c ∈ s.conns, c.toHost = [] ∧ c.toClient = []) → s.Registers := by
  intro h
  have hreg := h stranded stranded_reach (by decide) _ List.mem_cons_self ⟨rfl, rfl⟩ rfl rfl rfl
  exact absurd hreg.2.1 (by decide)

end Session

end ENetChat

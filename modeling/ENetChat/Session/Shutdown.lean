import ENetChat.Session.House
import ENetChat.Session.Settling

/-!
# The end of a session

From its exit on a host shows and sends nothing (`House.quits_silently`), and who
was there is cut off (`House.exits`). Once its process is over, what is under
way to its clients comes to an end, with every client out that has not come to
grief (`House.closes`).
-/

namespace ENetChat

open Channel Transition

variable {nickname : Nickname} {s s' : Session} {c : Conn} {i : Nat} {l : Label}
  {u : Unspecified} {source : Option Nat}

-- ---------------------------------------------------------------------------
-- What is under way to the clients
-- ---------------------------------------------------------------------------

/-- The packets that are to come to a client. -/
def Session.coming (s : Session) (i : Nat) : List ENetPacket :=
  (s.conns[i]?.map fun c => items c.toClient).getD []

/-- Nothing has been shown or sent by the host in between. -/
structure Session.Quieter (s s' : Session) : Prop where
  log : s'.log = s.log
  coming : ∀ i, (s'.coming i).Sublist (s.coming i)

namespace Session

theorem Quieter.refl (s : Session) : s.Quieter s := ⟨rfl, fun _ => List.Sublist.refl _⟩

theorem Quieter.trans {t : Session} (h : s.Quieter s') (h' : s'.Quieter t) : s.Quieter t :=
  ⟨h'.log.trans h.log, fun i => (h'.coming i).trans (h.coming i)⟩

theorem quieter_put {c' : Conn} (hc : s.conns[i]? = some c)
    (h : (items c'.toClient).Sublist (items c.toClient)) : s.Quieter (s.put i c') := by
  refine ⟨rfl, fun k => ?_⟩
  have hlt : i < s.conns.length := (List.getElem?_eq_some_iff.mp hc).1
  unfold Session.coming Session.put
  by_cases heq : k = i
  · subst heq
    rw [List.getElem?_set_self hlt, hc]
    exact h
  · rw [List.getElem?_set_ne (Ne.symm heq)]

theorem quieter_cutOff (first : Nat) (through : Nat → Nat × Nat) (s : Session) :
    s.Quieter (s.cutOff first through) := by
  refine ⟨rfl, fun k => ?_⟩
  unfold Session.coming Session.cutOff
  rw [List.getElem?_mapIdx]
  cases hc : s.conns[k]? with
  | none => exact List.Sublist.refl _
  | some c =>
    show (items (if first ≤ k then c.cutOff (through k) else c).toClient).Sublist
      (items c.toClient)
    unfold Conn.cutOff
    split
    · split
      · exact items_cut.sublist
      · exact List.Sublist.refl _
    · exact List.Sublist.refl _

/-- A host in `QuitState` does nothing outside. -/
theorem quieter_run (hq : s.host.mState = .to .quitState) (source : Option Nat)
    (event : AppEvent) :
    s.Quieter (s.run u source event) ∧ (s.run u source event).host.mState = .to .quitState := by
  have hquit := quit_run u event [] hq
  unfold Session.run
  split
  · next w hw =>
    obtain ⟨hout, net, -, happ⟩ := hquit.ok hw
    rw [hout, happ]
    exact ⟨⟨rfl, fun i => List.Sublist.refl _⟩, hq⟩
  · next e w hw =>
    obtain ⟨-, net, -, happ⟩ := hquit.error hw
    rw [happ]
    exact ⟨⟨rfl, fun i => List.Sublist.refl _⟩, hq⟩

theorem quieter_take (hq : s.host.mState = .to .quitState) (hc : s.conns[i]? = some c)
    (w : Wire ENetPacket) (rest : List (Wire ENetPacket)) :
    s.Quieter (s.take u i { c with toHost := rest } w) ∧
      (s.take u i { c with toHost := rest } w).host.mState = .to .quitState := by
  have hput (link : Link) : s.Quieter (s.put i { c with toHost := rest, link }) :=
    quieter_put hc (List.Sublist.refl _)
  have hrun (link : Link) (event : AppEvent) :
      s.Quieter ((s.put i { c with toHost := rest, link }).run u (some i) event) ∧
        ((s.put i { c with toHost := rest, link }).run u (some i) event).host.mState =
          .to .quitState := by
    obtain ⟨hquiet, hstate⟩ := quieter_run (s := s.put i { c with toHost := rest, link }) (u := u)
      hq (some i) event
    exact ⟨(hput link).trans hquiet, hstate⟩
  cases w with
  | opened => exact hrun _ _
  | item packet => exact hrun c.link _
  | closed => exact hrun _ _

/-- A step that the host's user takes no part in. -/
theorem quieter_step (hq : l.possible .ended = false → s.host.mState = .to .quitState)
    (hl : l.possible .quitting = true) (hs : s.step l = some s') :
    s.Quieter s' ∧ (s.host.mState = .to .quitState → s'.host.mState = .to .quitState) := by
  cases l with
  | join u z slot address nickname =>
    simp only [Session.step] at hs
    split at hs
    · cases hs
    · obtain ⟨client, -, rfl⟩ := Option.map_eq_some_iff.mp hs
      refine ⟨⟨rfl, fun k => ?_⟩, id⟩
      unfold Session.coming
      by_cases hk : k < s.conns.length
      · rw [List.getElem?_append_left hk]
      · rw [List.getElem?_append_right (Nat.le_of_not_lt hk)]
        cases k - s.conns.length with
        | zero => exact List.nil_sublist _
        | succ k => exact List.nil_sublist _
  | hostInput u line => cases hl
  | hostEvent u i =>
    obtain ⟨c, w, rest, hc, -, rfl⟩ := step_hostEvent hs
    obtain ⟨hquiet, hstate⟩ := quieter_take (u := u) (hq rfl) hc w rest
    exact ⟨hquiet, fun _ => hstate⟩
  | clientInput u i line =>
    simp only [Session.step, Option.bind_eq_bind, Option.bind_eq_some_iff, guard_some] at hs
    obtain ⟨c, hc, -, -, hs⟩ := hs
    obtain rfl := Option.some.inj hs
    refine ⟨quieter_put hc ?_, id⟩
    rw [(c.typeLine_same line).toClient]
  | clientEvent u i =>
    obtain ⟨c, w, rest, hc, -, hq, rfl⟩ := step_clientEvent hs
    refine ⟨quieter_put hc ?_, id⟩
    rw [(Conn.take_same { c with toClient := rest } w).toClient, hq]
    exact (List.sublist_cons_self w rest).filterMap _
  | hangup i j k =>
    simp only [Session.step, Option.bind_eq_bind, Option.bind_eq_some_iff, guard_some] at hs
    obtain ⟨c, hc, -, -, hs⟩ := hs
    obtain rfl := Option.some.inj hs
    exact ⟨quieter_put hc items_cut.sublist, id⟩
  | dropToHost i n =>
    simp only [Session.step, Option.bind_eq_bind, Option.bind_eq_some_iff, guard_some] at hs
    obtain ⟨c, hc, w, -, -, -, hs⟩ := hs
    obtain rfl := Option.some.inj hs
    exact ⟨quieter_put hc (List.Sublist.refl _), id⟩
  | dropToClient i n =>
    simp only [Session.step, Option.bind_eq_bind, Option.bind_eq_some_iff, guard_some] at hs
    obtain ⟨c, hc, w, -, -, -, hs⟩ := hs
    obtain rfl := Option.some.inj hs
    exact ⟨quieter_put hc ((List.eraseIdx_sublist _ _).filterMap _), id⟩

end Session

-- ---------------------------------------------------------------------------
-- Connections that have ended
-- ---------------------------------------------------------------------------

namespace Conn

theorem cutOff_down (through : Nat × Nat) (c : Conn) : (c.cutOff through).link.live = false := by
  unfold Conn.cutOff
  split
  · rfl
  · next hl => simpa using hl

end Conn

namespace Session

def links (s : Session) : List Link := s.conns.map Conn.link

theorem links_get (hc : s.conns[i]? = some c) : s.links[i]? = some c.link := by
  rw [links, List.getElem?_map, hc]
  rfl

theorem links_put {c' : Conn} : (s.put i c').links = s.links.set i c'.link := List.map_set ..

theorem links_putSame {c' : Conn} (hc : s.conns[i]? = some c) (h : c'.link = c.link) :
    (s.put i c').links = s.links := by
  obtain ⟨hlt, hget⟩ := List.getElem?_eq_some_iff.mp (links_get hc)
  rw [links_put, h, ← hget, List.set_getElem_self]

theorem links_effect (effect : Effect) : (s.effect source effect).links = s.links := by
  have hmap {f : Conn → Conn} (hf : ∀ c, (f c).link = c.link) :
      (s.conns.map f).map Conn.link = s.conns.map Conn.link := by
    rw [List.map_map]
    exact List.map_congr_left fun c _ => hf c
  unfold Session.effect
  split
  · rfl
  · split
    · exact hmap fun _ => rfl
    · rfl
  · split
    · exact hmap fun _ => sendTo_link
    · rfl
  · rfl

theorem links_run (event : AppEvent) : (s.run u source event).links = s.links := by
  unfold Session.run
  split
  · next w hw =>
    show (w.out.foldl (Session.effect source) _).links = Session.links { s with host := w.app }
    generalize ({ s with host := w.app } : Session) = t
    induction w.out generalizing t with
    | nil => rfl
    | cons e effects ih => exact (ih (t.effect source e)).trans (links_effect e)
  · rfl

/-- A step changes the link of one connection at most, and none that has ended
is up again; or somebody joins. -/
theorem step_links (hs : s.step l = some s') :
    (∃ i link, s'.links = s.links.set i link ∧
      ∀ old, s.links[i]? = some old → old.live = false → link.live = false) ∨
    l.possible .ended = false ∧ s'.links = s.links ++ [.pending] := by
  have hsame (h : s'.links = s.links) : ∃ i link, s'.links = s.links.set i link ∧
      ∀ old, s.links[i]? = some old → old.live = false → link.live = false := by
    refine ⟨s.links.length, .down, ?_, fun _ _ _ => rfl⟩
    rw [h, List.set_eq_of_length_le (Nat.le_refl _)]
  cases l with
  | join u z slot address nickname =>
    simp only [Session.step] at hs
    split at hs
    · cases hs
    · obtain ⟨client, -, rfl⟩ := Option.map_eq_some_iff.mp hs
      exact .inr ⟨rfl, List.map_append⟩
  | hostInput u line =>
    simp only [Session.step] at hs
    split at hs
    · cases hs
      exact .inl (hsame (links_run _))
    · cases hs
  | hostEvent u i =>
    obtain ⟨c, w, rest, hc, -, rfl⟩ := step_hostEvent hs
    refine .inl ?_
    cases w with
    | opened =>
      refine ⟨i, c.link.opened, (links_run _).trans links_put, fun old hold hdead => ?_⟩
      rw [Link.live_opened]
      cases (links_get hc).symm.trans hold
      exact hdead
    | item packet =>
      exact hsame ((links_run _).trans (links_putSame hc rfl))
    | closed => exact ⟨i, .gone, (links_run _).trans links_put, fun _ _ _ => rfl⟩
  | clientInput u i line =>
    simp only [Session.step, Option.bind_eq_bind, Option.bind_eq_some_iff, guard_some] at hs
    obtain ⟨c, hc, -, -, hs⟩ := hs
    obtain rfl := Option.some.inj hs
    exact .inl (hsame (links_putSame hc (c.typeLine_same line).link))
  | clientEvent u i =>
    obtain ⟨c, w, rest, hc, -, -, rfl⟩ := step_clientEvent hs
    exact .inl (hsame (links_putSame hc (Conn.take_same { c with toClient := rest } w).link))
  | hangup i j k =>
    simp only [Session.step, Option.bind_eq_bind, Option.bind_eq_some_iff, guard_some] at hs
    obtain ⟨c, hc, -, -, hs⟩ := hs
    obtain rfl := Option.some.inj hs
    exact .inl ⟨i, .down, links_put, fun _ _ _ => rfl⟩
  | dropToHost i n =>
    simp only [Session.step, Option.bind_eq_bind, Option.bind_eq_some_iff, guard_some] at hs
    obtain ⟨c, hc, w, -, -, -, hs⟩ := hs
    obtain rfl := Option.some.inj hs
    exact .inl (hsame (links_putSame hc rfl))
  | dropToClient i n =>
    simp only [Session.step, Option.bind_eq_bind, Option.bind_eq_some_iff, guard_some] at hs
    obtain ⟨c, hc, w, -, -, -, hs⟩ := hs
    obtain rfl := Option.some.inj hs
    exact .inl (hsame (links_putSame hc rfl))

/-- The first `k` connections have ended. -/
def Down (k : Nat) (s : Session) : Prop :=
  ∀ i < k, ∀ link, s.links[i]? = some link → link.live = false

theorem step_down (h : s.Down k) (hk : k ≤ s.links.length) (hs : s.step l = some s') :
    s'.Down k ∧ k ≤ s'.links.length := by
  obtain ⟨i, link, hlinks, hdead⟩ | ⟨-, hlinks⟩ := step_links hs
  · rw [Down, hlinks, List.length_set]
    refine ⟨fun j hj link' hget => ?_, hk⟩
    rw [List.getElem?_set] at hget
    split at hget
    · next heq =>
      subst heq
      have hlt : i < s.links.length := Nat.lt_of_lt_of_le hj hk
      rw [if_pos hlt] at hget
      cases hget
      exact hdead _ (List.getElem?_eq_getElem hlt) (h i hj _ (List.getElem?_eq_getElem hlt))
    · exact h j hj link' hget
  · rw [Down, hlinks, List.length_append]
    refine ⟨fun j hj link' hget => ?_, Nat.le_add_right_of_le hk⟩
    rw [List.getElem?_append_left (Nat.lt_of_lt_of_le hj hk)] at hget
    exact h j hj link' hget

/-- Without the host nobody joins. -/
theorem step_length (hl : l.possible .ended = true) (hs : s.step l = some s') :
    s'.links.length = s.links.length := by
  obtain ⟨i, link, hlinks, -⟩ | ⟨hjoin, -⟩ := step_links hs
  · rw [hlinks, List.length_set]
  · rw [hl] at hjoin
    cases hjoin

theorem down_cutOff {first : Nat} (h : s.Down first) (through : Nat → Nat × Nat) :
    (s.cutOff first through).Down s.links.length := by
  intro i _ link hget
  rw [links, List.getElem?_map, Session.cutOff, List.getElem?_mapIdx] at hget
  obtain ⟨c', hc', rfl⟩ := Option.map_eq_some_iff.mp hget
  obtain ⟨c, hc, rfl⟩ := Option.map_eq_some_iff.mp hc'
  split
  · exact Conn.cutOff_down _ _
  · next hlt => exact h i (Nat.lt_of_not_le hlt) c.link (links_get hc)

end Session

-- ---------------------------------------------------------------------------
-- Runs of a house
-- ---------------------------------------------------------------------------

namespace House

variable {house house' : House} {m : Move} {allowed : House → Move → Prop}

structure Kept (nickname : Nickname) (house : House) : Prop where
  heeds : house.session.Heeds
  running : house.stage = .running →
    (Session.system nickname).Reach (fun _ _ => True) house.session
  quitting : house.stage = .quitting → house.session.host.mState = .to .quitState
  told : house.session.Down house.told
  length : house.told ≤ house.session.links.length
  ended : house.stage = .ended → house.session.Down house.session.links.length

/-- The handler asks for every peer to be disconnected. -/
theorem exit_eq {nick : Bytes} (h : Hosting nick s.host) (through : Nat → Nat × Nat) :
    s.exit u through = Session.cutOff 0 through { s with host := s.host.quitting } := by
  obtain ⟨net, hnet⟩ := h.net
  have hrun : s.host.exec (handle u (.input (menuLine "/exit"))) =
      .ok () ⟨s.host.quitting, quitEffects s.host⟩ := by
    unfold ChatApp.exec
    rw [handle_input_run h.state h.quit (by decide), State.handleInput, ChatStateHost.handleInput,
      if_pos (by decide)]
    exact goToState_quit h.state
  simp only [Session.exit, hrun, quitEffects, hnet]
  rfl

/-- What each move does. -/
theorem step_cases (hs : house.step m = some house') :
    (∃ l s', m = .session l ∧ l.possible house.stage = true ∧ house.session.step l = some s' ∧
      house' = { house with session := s' }) ∨
    (∃ u through, m = .exit u through ∧ house.stage = .running ∧ house.session.halt = none ∧
      house' = {
        session := house.session.exit u through
        stage := if (house.session.exit u through).host.mQuit then .quitting else .running
        told := house.session.conns.length }) ∨
    ∃ through, m = .gone through ∧ (house.stage = .quitting ∨ house.session.halt ≠ none) ∧
      house' = { house with
        session := house.session.cutOff house.told through
        stage := .ended } := by
  cases m with
  | session l =>
    simp only [House.step] at hs
    split at hs
    · next hl =>
      obtain ⟨s', hstep, rfl⟩ := Option.map_eq_some_iff.mp hs
      exact .inl ⟨l, s', rfl, hl, hstep, rfl⟩
    · cases hs
  | exit u through =>
    simp only [House.step] at hs
    split at hs
    · next hr => exact .inr (.inl ⟨u, through, rfl, hr.1, hr.2, (Option.some.inj hs).symm⟩)
    · cases hs
  | gone through =>
    simp only [House.step] at hs
    split at hs
    · next hg => exact .inr (.inr ⟨through, rfl, hg, (Option.some.inj hs).symm⟩)
    · cases hs

/-- A running host that quits has told everyone. -/
theorem Kept.exit (h : house.Kept nickname) (hr : house.stage = .running) (u : Unspecified)
    (through : Nat → Nat × Nat) :
    (house.session.exit u through).host.mQuit = true ∧
      (house.session.exit u through).host.mState = .to .quitState ∧
      (house.session.exit u through).links.length = house.session.conns.length ∧
      (house.session.exit u through).Down house.session.conns.length := by
  obtain ⟨r, -, hcoupled⟩ := Session.simulated (fun _ _ => True) (fun _ _ _ _ => trivial)
    (h.running hr)
  rw [exit_eq hcoupled.hosting]
  have hnobody : Session.Down 0 { house.session with host := house.session.host.quitting } :=
    fun i hi => absurd hi (Nat.not_lt_zero i)
  have hdown := Session.down_cutOff hnobody through
  refine ⟨rfl, rfl, ?_, ?_⟩
  · simp [Session.links, Session.cutOff]
  · simpa only [Session.links, List.length_map] using hdown

theorem step_kept (h : house.Kept nickname) (hs : house.step m = some house') :
    house'.Kept nickname := by
  obtain ⟨l, s', -, hl, hstep, rfl⟩ | ⟨u, through, -, hr, -, rfl⟩ | ⟨through, -, -, rfl⟩ :=
    step_cases hs
  · obtain ⟨htold, hlength⟩ := Session.step_down h.told h.length hstep
    refine ⟨Session.step_heeds h.heeds hstep, fun hr => ?_, fun hq => ?_, htold, hlength,
      fun he => ?_⟩
    · exact .step (h.running hr) trivial hstep
    · have hq' := h.quitting hq
      have hl' : l.possible .quitting = true := (show house.stage = .quitting from hq) ▸ hl
      exact (Session.quieter_step (fun _ => hq') hl' hstep).2 hq'
    · have hl' : l.possible .ended = true := (show house.stage = .ended from he) ▸ hl
      rw [Session.step_length hl' hstep]
      exact (Session.step_down (h.ended he) (Nat.le_refl _) hstep).1
  · obtain ⟨hquit, hstate, hlength, hdown⟩ := h.exit hr u through
    rw [hquit]
    exact ⟨h.heeds.exit through, fun hf => (by cases hf), fun _ => hstate, hdown,
      Nat.le_of_eq hlength.symm, fun hf => by cases hf⟩
  · have hdown := Session.down_cutOff h.told through
    have hlength : (house.session.cutOff house.told through).links.length =
        house.session.links.length := by
      simp [Session.links, Session.cutOff]
    refine ⟨h.heeds.cutOff _ through, fun hf => (by cases hf), fun hf => (by cases hf), ?_, ?_,
      fun _ => ?_⟩
    · exact fun i hi => hdown i (Nat.lt_of_lt_of_le hi h.length)
    · exact hlength ▸ h.length
    · rw [hlength]
      exact hdown

theorem kept (h : (system nickname).Reach allowed house) : house.Kept nickname := by
  refine h.invariant (fun house hinit => ?_) fun house m house' _ hk _ hs => step_kept hk hs
  obtain ⟨hstarts, hstage, htold⟩ := hinit
  obtain ⟨u, z, host, -, hsession⟩ := id hstarts
  refine ⟨fun c hc => ?_, fun _ => .init hstarts, fun hq => ?_, fun i hi => ?_, ?_, fun he => ?_⟩
  · rw [hsession] at hc
    cases hc
  · rw [hstage] at hq
    cases hq
  · rw [htold] at hi
    cases hi
  · rw [htold]
    exact Nat.zero_le _
  · rw [hstage] at he
    cases he

/-- The host quits once. -/
theorem step_told (hne : house.stage ≠ .running) (hs : house.step m = some house') :
    house'.told = house.told ∧ house'.stage ≠ .running := by
  obtain ⟨l, s', -, -, -, rfl⟩ | ⟨u, through, -, hr, -⟩ | ⟨through, -, -, rfl⟩ := step_cases hs
  · exact ⟨rfl, hne⟩
  · exact absurd hr hne
  · exact ⟨rfl, Stage.noConfusion⟩

theorem step_quieter (h : house.Kept nickname) (hne : house.stage ≠ .running)
    (hs : house.step m = some house') : house.session.Quieter house'.session := by
  obtain ⟨l, s', -, hl, hstep, rfl⟩ | ⟨u, through, -, hr, -⟩ | ⟨through, -, -, rfl⟩ :=
    step_cases hs
  · have hpossible : l.possible .quitting = true ∧
        (l.possible .ended = false → house.session.host.mState = .to .quitState) := by
      cases hstage : house.stage with
      | running => exact absurd hstage hne
      | quitting =>
        rw [hstage] at hl
        exact ⟨hl, fun _ => h.quitting hstage⟩
      | ended =>
        rw [hstage] at hl
        refine ⟨?_, fun hf => ?_⟩
        · cases l <;> first | rfl | cases hl
        · rw [hl] at hf
          cases hf
    exact (Session.quieter_step hpossible.2 hpossible.1 hstep).1
  · exact absurd hr hne
  · exact Session.quieter_cutOff _ through house.session

theorem run_told (hne : house.stage ≠ .running)
    (hr : (system nickname).Run (fun _ _ => True) house ms later) : later.told = house.told := by
  induction hr with
  | nil => rfl
  | cons _ hs _ ih =>
    obtain ⟨htold, hne'⟩ := step_told hne hs
    exact (ih hne').trans htold

/-- Who is not connected, and has nothing more to come, has left. -/
theorem Kept.left (h : house.Kept nickname) (hc : c ∈ house.session.conns)
    (hl : c.link.live = false) (hh : c.halt = none) (hq : c.toClient = []) :
    c.client.mState = .to .quitState := by
  obtain ⟨g, hf, hg | hg | hg⟩ := (h.heeds c hc).guest hh
  · rw [hf.state, hg]
    rfl
  · rw [hl] at hg
    cases hg
  · rw [hq] at hg
    cases hg

/-- A session that its host has not ended. -/
theorem opens {allowed : Session → Label → Prop} (h : (Session.system nickname).Reach allowed s) :
    (system nickname).Reach (fun _ _ => True) { session := s } := by
  induction h with
  | init h => exact .init ⟨h, rfl, rfl⟩
  | @step s l s' _ _ hs ih =>
    refine .step (a := .session l) ih trivial ?_
    have hstep : s.step l = some s' := hs
    have hl : l.possible .running = true := by cases l <;> rfl
    simp only [system, House.step, hl, if_true, hstep, Option.map_some]

/-- From its exit on a host shows and sends nothing. -/
theorem quits_silently (h : (system nickname).Reach allowed house) (hne : house.stage ≠ .running)
    (hr : (system nickname).Run (fun _ _ => True) house ms later) :
    house.session.Quieter later.session := by
  have hk := kept h
  clear h
  induction hr with
  | nil => exact .refl _
  | cons _ hs _ ih =>
    have hrest := ih (step_told hne hs).2 (step_kept hk hs)
    exact (step_quieter hk hne hs).trans hrest

/-- Ann leaves, and nothing of what is under way to Bob comes through. -/
def leftBehind : Option House :=
  House.step { session := Session.met } (.exit default fun _ => (0, 0))

theorem leftBehind_reach (h : leftBehind = some house) :
    (system ann).Reach (fun _ _ => True) house :=
  .step (opens Session.met_reach) trivial h

/-- Bob comes once more, introduces himself to the listener, and Ann's process
is over. -/
def lateComer : List Move :=
  [.session (.join default true 1 {} bob), .session (.hostEvent default 1),
    .session (.clientEvent default 1), .session (.hostEvent default 1), .gone fun _ => (0, 0)]

theorem lateComer_ends : ∃ house later, leftBehind = some house ∧ house.stage = .quitting ∧
    ends House.step house lateComer = some later := by
  have hends : leftBehind.map House.stage = some .quitting ∧
      (leftBehind.bind fun house => ends House.step house lateComer).isSome = true := by
    decide +kernel
  obtain ⟨house, hleft, hquit⟩ := Option.map_eq_some_iff.mp hends.1
  obtain ⟨later, hlater⟩ := Option.isSome_iff_exists.mp hends.2
  rw [hleft] at hlater
  exact ⟨house, later, hleft, hquit, hlater⟩

theorem quits_silently_leftBehind : ∃ house later, leftBehind = some house ∧
    ends House.step house lateComer = some later ∧ house.session.Quieter later.session := by
  obtain ⟨house, later, hleft, hquit, hlater⟩ := lateComer_ends
  refine ⟨house, later, hleft, hlater, ?_⟩
  exact quits_silently (leftBehind_reach hleft) (by rw [hquit]; decide)
    (.of_ends (fun _ _ _ hs => ⟨trivial, hs⟩) hlater)

/-- Everybody who is there when the host quits is cut off, and leaves with the
last of what is under way to it, whatever else goes on. -/
theorem exits (h : (system nickname).Reach allowed house)
    (hs : house.step (.exit u through) = some exited)
    (hr : (system nickname).Run (fun _ _ => True) exited ms later)
    (hc : house.session.conns[i]? = some c) :
    ∃ c', later.session.conns[i]? = some c' ∧ c'.link.live = false ∧
      (c'.halt = none → c'.toClient = [] → c'.client.mState = .to .quitState) := by
  have hany : (system nickname).Reach (fun _ _ => True) house := h.mono fun _ _ _ _ => trivial
  have hlt : i < later.told := by
    obtain ⟨_, _, hm, -⟩ | ⟨v, past, -, hrun, -, rfl⟩ | ⟨_, hm, -⟩ := step_cases hs
    · cases hm
    · obtain ⟨hquit, -⟩ := (kept hany).exit hrun v past
      rw [run_told (by simp [hquit]) hr]
      exact (List.getElem?_eq_some_iff.mp hc).1
    · cases hm
  have hk := kept (hr.reach (fun _ _ _ => trivial) (hany.step trivial hs))
  have hconns : i < later.session.conns.length := by
    have := Nat.lt_of_lt_of_le hlt hk.length
    rwa [Session.links, List.length_map] at this
  have hget := List.getElem?_eq_getElem hconns
  have hdown := hk.told i hlt _ (Session.links_get hget)
  exact ⟨_, hget, hdown, hk.left (List.getElem_mem hconns) hdown⟩

theorem exits_leftBehind : ∃ house later c', leftBehind = some house ∧
    ends House.step house lateComer = some later ∧ later.session.conns[0]? = some c' ∧
      c'.link.live = false ∧
        (c'.halt = none → c'.toClient = [] → c'.client.mState = .to .quitState) := by
  obtain ⟨house, later, hleft, -, hlater⟩ := lateComer_ends
  obtain ⟨c', hc', hdown, hout⟩ := exits (i := 0) (opens Session.met_reach) hleft
    (.of_ends (fun _ _ _ hs => ⟨trivial, hs⟩) hlater) rfl
  exact ⟨house, later, c', hleft, hlater, hc', hdown, hout⟩

-- ---------------------------------------------------------------------------
-- Coming to an end
-- ---------------------------------------------------------------------------

/-- What is under way to the clients. -/
def pending (house : House) : Nat := (house.session.conns.map fun c => c.toClient.length).sum

/-- ENet hands a client its next event, with nobody else left to. -/
def Delivers (house : House) (m : Move) : Prop :=
  house.stage = .ended ∧ ∃ u i, m = .session (.clientEvent u i)

/-- Every client has left, but for those that have come to grief. -/
def Emptied (house : House) : Prop :=
  ∀ c ∈ house.session.conns, c.halt = none →
    c.toClient = [] ∧ c.client.mState = .to .quitState

theorem pending_lt (hd : house.Delivers m) (hs : house.step m = some house') :
    house'.pending < house.pending := by
  obtain ⟨-, u, i, rfl⟩ := hd
  obtain ⟨l, s', hl, -, hstep, rfl⟩ | ⟨_, _, hm, -⟩ | ⟨_, hm, -⟩ := step_cases hs
  · cases hl
    obtain ⟨c, w, rest, hc, -, hq, rfl⟩ := Session.step_clientEvent hstep
    have hrest : (Conn.take u { c with toClient := rest } w).toClient = rest :=
      (Conn.take_same { c with toClient := rest } w).toClient
    have hput := weight_set (fun c => c.toClient.length) hc
      (Conn.take u { c with toClient := rest } w)
    simp only [hrest, hq, List.length_cons] at hput
    show ((house.session.conns.set i _).map _).sum < (house.session.conns.map _).sum
    omega
  · cases hm
  · cases hm

theorem emptied_of_stuck (hk : house.Kept nickname) (hend : house.stage = .ended)
    (hstuck : ∀ m house', house.Delivers m → house.step m ≠ some house') : house.Emptied := by
  intro c hc hh
  obtain ⟨i, hi⟩ := List.getElem?_of_mem hc
  have hq : c.toClient = [] := by
    cases hq : c.toClient with
    | nil => rfl
    | cons w rest =>
      refine absurd ?_ (hstuck (.session (.clientEvent default i))
        { house with
          session := house.session.put i (Conn.take default { c with toClient := rest } w) }
        ⟨hend, _, _, rfl⟩)
      simp [House.step, Label.possible, Session.step, guard, hh, hi, hq]
  have hlink := Session.links_get hi
  have hlt := (List.getElem?_eq_some_iff.mp hlink).1
  exact ⟨hq, hk.left hc (hk.ended hend i hlt c.link hlink) hh hq⟩

theorem run_ended (hr : (system nickname).Run Delivers house ms later)
    (hend : house.stage = .ended) : later.stage = .ended := by
  induction hr with
  | nil => exact hend
  | cons hd hs _ ih =>
    obtain ⟨hstage, u, i, rfl⟩ := hd
    refine ih ?_
    obtain ⟨l, s', -, -, -, rfl⟩ | ⟨_, _, hm, -⟩ | ⟨_, hm, -⟩ := step_cases hs
    · exact hstage
    · cases hm
    · cases hm

/-- Once the host's process is over, what is under way comes to an end, in
whatever order, and then every client is out. -/
theorem closes (h : (system nickname).Reach allowed house) (hend : house.stage = .ended) :
    (∀ ms later, (system nickname).Run Delivers house ms later →
      ms.length + later.pending ≤ house.pending ∧
        ((∀ m house', later.Delivers m → later.step m ≠ some house') → later.Emptied)) ∧
    ∃ ms later, (system nickname).Run Delivers house ms later ∧ later.Emptied := by
  have hany : (system nickname).Reach (fun _ _ => True) house := h.mono fun _ _ _ _ => trivial
  have hle : ∀ (house : House) m, house.Delivers m → True := fun _ _ _ => trivial
  have hdrop : ∀ house m house', (system nickname).Reach (fun _ _ => True) house →
      house.Delivers m → (system nickname).step house m house' → house'.pending < house.pending :=
    fun _ _ _ _ hd hs => pending_lt hd hs
  have hrest {ms : List Move} {later : House} (hr : (system nickname).Run Delivers house ms later)
      (hstuck : ∀ m house', later.Delivers m → later.step m ≠ some house') : later.Emptied :=
    emptied_of_stuck (kept (hr.reach hle hany)) (run_ended hr hend) hstuck
  refine ⟨fun ms later hr => ⟨hr.bounded hle hdrop hany, hrest hr⟩, ?_⟩
  obtain ⟨ms, later, hr, hstuck⟩ := hany.rests hle hdrop
  exact ⟨ms, later, hr, hrest hr hstuck⟩

theorem closes_leftBehind : ∃ house,
    leftBehind.bind (·.step (.gone fun _ => (0, 0))) = some house ∧
    (∀ ms later, (system ann).Run Delivers house ms later →
      ms.length + later.pending ≤ house.pending ∧
        ((∀ m house', later.Delivers m → later.step m ≠ some house') → later.Emptied)) ∧
    ∃ ms later, (system ann).Run Delivers house ms later ∧ later.Emptied := by
  have hstage : (leftBehind.bind (·.step (.gone fun _ => (0, 0)))).map House.stage =
      some .ended := by decide +kernel
  obtain ⟨house, hbind, hend⟩ := Option.map_eq_some_iff.mp hstage
  obtain ⟨before, hleft, hover⟩ := Option.bind_eq_some_iff.mp hbind
  have hreach : (system ann).Reach (fun _ _ => True) house :=
    .step (leftBehind_reach hleft) trivial hover
  exact ⟨house, hbind, closes hreach hend⟩

end House

end ENetChat

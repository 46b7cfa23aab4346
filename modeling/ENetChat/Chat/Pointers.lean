import ENetChat.Chat.EventLaws

/-!
# The pointers before they are assigned

`ChatApp()` initialises `m_enet` and `m_quit` but neither `m_state` nor
`m_localuser_ptr`, and `goToState`, the first thing that `run` calls after the
window's `init`, reads `m_state`. So no run of the program keeps its pointers
tame (`pointers_wild`).
-/

namespace ENetChat

/-- Not stopped by a read through a pointer that is unassigned or dangles. -/
def NotWild : EStateM.Result Halt World Unit → Prop
  | .error h _ => h ≠ .wildRead
  | .ok _ _ => True

/-- All along a run, no handler reads a wild pointer, and between handlers the
local pointer is NULL or points to an entry of the map. -/
def ChatApp.Tame (app : ChatApp) : List Happening → Prop
  | [] => app.local? ≠ none
  | h :: hs => app.local? ≠ none ∧ NotWild (app.exec (handle h.u h.event)) ∧
      ∀ w, app.exec (handle h.u h.event) = .ok () w → w.app.Tame hs

/-- The same from construction on, through `run`. -/
def TameFromStart (u : Unspecified) (hs : List Happening) : Prop :=
  let app := ChatApp.construct false false
  app.local? ≠ none ∧ NotWild (app.exec (run u)) ∧
    ∀ w, app.exec (run u) = .ok () w → w.app.Tame hs

/-- `goToState` asks an unassigned `m_state` whether there is a state to
end. -/
theorem run_wild (u : Unspecified) (localZero : Bool) :
    (ChatApp.construct localZero false).exec (run u) =
      .error .wildRead ⟨ChatApp.construct localZero false, [.window .init]⟩ := rfl

/-- Whatever happens to the program, a pointer is wild. -/
theorem pointers_wild (u : Unspecified) (hs : List Happening) : ¬ TameFromStart u hs := by
  rintro ⟨-, hrun, -⟩
  rw [run_wild] at hrun
  exact hrun rfl

theorem pointers_wild_at_start : ¬ TameFromStart default [] := by
  rintro ⟨hlocal, -, -⟩
  exact hlocal rfl

end ENetChat

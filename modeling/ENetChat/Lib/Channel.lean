import Mathlib.Data.List.Forall2

/-!
# Connections

A connection carries items between a hub and a peer, in order each way, after
an `opened` and before a `closed` that each end sees. `Link` is its state at
the hub: what the hub sends goes to connections that are up. A disconnection
may lose what is under way, from some point on.
-/

namespace ENetChat.Channel

inductive Wire (α : Type) where
  | opened
  | item (a : α)
  | closed
  deriving DecidableEq, Repr

inductive Link where
  | pending  -- the hub has not seen it open
  | up
  | down     -- the hub has not seen it close
  | gone
  deriving DecidableEq, Repr

variable {α β : Type} {q : List (Wire α)} {w : Wire α}

def Wire.item? : Wire α → Option α
  | .item a => some a
  | _ => none

def Wire.isOpened : Wire α → Bool
  | .opened => true
  | _ => false

def items (q : List (Wire α)) : List α := q.filterMap Wire.item?

namespace Link

def live : Link → Bool
  | pending => true
  | up => true
  | _ => false

def opened : Link → Link
  | pending => up
  | link => link

/-- The hub sends. -/
def deliver (link : Link) (q : List (Wire α)) (a : α) : List (Wire α) :=
  if link = up then q ++ [.item a] else q

/-- The peer sends. -/
def send (link : Link) (q : List (Wire α)) (a : α) : List (Wire α) :=
  if link.live then q ++ [.item a] else q

/-- What the way to the hub looks like. -/
def Ends : Link → List (Wire α) → Prop
  | pending, q => ∃ rest, q = .opened :: rest ∧ .closed ∉ rest
  | up, q => .closed ∉ q
  | down, q => ∃ rest, q = rest ++ [.closed] ∧ .closed ∉ rest
  | gone, q => q = []

end Link

/-- What a disconnection leaves of a way: as much of it as has come through,
and the news. -/
def cut (n : Nat) (q : List (Wire α)) : List (Wire α) := q.take n ++ [.closed]

-- ---------------------------------------------------------------------------
-- Items
-- ---------------------------------------------------------------------------

@[simp] theorem items_nil : items ([] : List (Wire α)) = [] := rfl

@[simp] theorem items_opened : items (.opened :: q) = items q := rfl

@[simp] theorem items_closed : items (.closed :: q) = items q := rfl

@[simp] theorem items_item : items (.item a :: q) = a :: items q := rfl

@[simp] theorem items_append : items (q ++ q') = items q ++ items q' := List.filterMap_append

theorem mem_items : a ∈ items q ↔ .item a ∈ q := by
  simp only [items, List.mem_filterMap]
  constructor
  · rintro ⟨w, hw, ha⟩
    cases w with
    | item b => cases ha; exact hw
    | _ => cases ha
  · intro h
    exact ⟨_, h, rfl⟩

/-- What is left when an item is lost. -/
theorem items_lose : (items (q ++ q')).Sublist (items (q ++ .item a :: q')) := by
  rw [items_append, items_append, items_item]
  exact (List.sublist_cons_self _ _).append_left _

theorem items_cut : items (cut n q) <+: items q := by
  rw [cut, items_append, items_closed, items_nil, List.append_nil]
  have h : items q = items (q.take n) ++ items (q.drop n) := by
    rw [← items_append, List.take_append_drop]
  exact ⟨_, h.symm⟩

-- ---------------------------------------------------------------------------
-- The way to the hub
-- ---------------------------------------------------------------------------

namespace Link

variable {link : Link}

@[simp] theorem live_opened : link.opened.live = link.live := by
  cases link <;> rfl

@[simp] theorem opened_eq_gone : link.opened = gone ↔ link = gone := by
  cases link <;> simp [Link.opened]

theorem Ends.send (h : link.Ends q) (a : α) : link.Ends (link.send q a) := by
  cases link with
  | pending =>
    obtain ⟨rest, rfl, hc⟩ := h
    exact ⟨rest ++ [.item a], rfl, by simp [hc]⟩
  | up =>
    intro hc
    exact h (by simpa [Link.send, Link.live] using hc)
  | down => exact h
  | gone => exact h

theorem Ends.item (h : link.Ends (.item a :: q)) : link ≠ pending ∧ link ≠ gone ∧ link.Ends q := by
  cases link with
  | pending => obtain ⟨rest, heq, -⟩ := h; cases heq
  | up =>
    refine ⟨by simp, by simp, ?_⟩
    intro hc
    exact h (List.mem_cons_of_mem _ hc)
  | down =>
    obtain ⟨rest, heq, hc⟩ := h
    cases rest with
    | nil => cases heq
    | cons x rest =>
      cases heq
      exact ⟨by simp, by simp, rest, rfl, fun hm => hc (List.mem_cons_of_mem _ hm)⟩
  | gone => cases h

theorem Ends.opened (h : link.Ends (.opened :: q)) : link.opened.Ends q ∧ link ≠ gone := by
  cases link with
  | pending =>
    obtain ⟨rest, heq, hc⟩ := h
    cases heq
    exact ⟨hc, by simp⟩
  | up => exact ⟨fun hc => h (List.mem_cons_of_mem _ hc), by simp⟩
  | down =>
    obtain ⟨rest, heq, hc⟩ := h
    cases rest with
    | nil => cases heq
    | cons x rest =>
      cases heq
      exact ⟨⟨rest, rfl, fun hm => hc (List.mem_cons_of_mem _ hm)⟩, by simp⟩
  | gone => cases h

theorem Ends.closed (h : link.Ends (.closed :: q)) : link = down ∧ q = [] := by
  cases link with
  | pending => obtain ⟨rest, heq, -⟩ := h; cases heq
  | up => exact absurd List.mem_cons_self h
  | down =>
    obtain ⟨rest, heq, hc⟩ := h
    cases rest with
    | nil => cases heq; exact ⟨rfl, rfl⟩
    | cons x rest => cases heq; exact absurd List.mem_cons_self hc
  | gone => cases h

theorem Ends.cut (h : link.Ends q) (hl : link.live = true) : down.Ends (cut n q) := by
  refine ⟨q.take n, rfl, fun hc => ?_⟩
  have hm := List.mem_of_mem_take hc
  cases link with
  | pending =>
    obtain ⟨rest, rfl, hc'⟩ := h
    simp at hm
    exact hc' hm
  | up => exact h hm
  | down => cases hl
  | gone => cases hl

theorem Ends.lose (h : link.Ends (q ++ .item a :: q')) : link.Ends (q ++ q') := by
  cases link with
  | pending =>
    obtain ⟨rest, heq, hc⟩ := h
    cases q with
    | nil => cases heq
    | cons x q =>
      obtain ⟨rfl, rfl⟩ := List.cons.inj heq
      refine ⟨q ++ q', rfl, fun hm => hc ?_⟩
      simp at hm ⊢
      exact hm
  | up =>
    intro hm
    refine h ?_
    simp at hm ⊢
    exact hm
  | down =>
    obtain ⟨rest, heq, hc⟩ := h
    obtain rfl | ⟨last, w, rfl⟩ := q'.eq_nil_or_concat'
    · have := (List.append_inj' heq rfl).2
      cases this
    · rw [← List.cons_append, ← List.append_assoc] at heq
      obtain ⟨rfl, hw⟩ := List.append_inj' heq rfl
      cases hw
      refine ⟨q ++ last, by simp, fun hm => hc ?_⟩
      simp at hm ⊢
      exact hm
  | gone => exact absurd (show q ++ .item a :: q' = [] from h) (by simp)

end Link

-- ---------------------------------------------------------------------------
-- The same way, up to its items
-- ---------------------------------------------------------------------------

inductive Wire.Rel (R : α → β → Prop) : Wire α → Wire β → Prop
  | opened : Rel R .opened .opened
  | item : R a b → Rel R (.item a) (.item b)
  | closed : Rel R .closed .closed

/-- Two ways carry related items, in the same order. -/
abbrev Matches (R : α → β → Prop) (q : List (Wire α)) (p : List (Wire β)) : Prop :=
  List.Forall₂ (Wire.Rel R) q p

namespace Matches

variable {R : α → β → Prop} {p : List (Wire β)} {link : Link}

theorem eq_nil (h : Matches R q p) (hq : q = []) : p = [] := by
  subst hq
  exact List.forall₂_nil_left_iff.mp h

theorem mem (h : Matches R q p) (ha : .item a ∈ q) : ∃ b, .item b ∈ p ∧ R a b := by
  induction h with
  | nil => cases ha
  | cons hw _ ih =>
    obtain rfl | ha := List.mem_cons.mp ha
    · cases hw with
      | item hab => exact ⟨_, List.mem_cons_self, hab⟩
    · obtain ⟨b, hb, hab⟩ := ih ha
      exact ⟨b, List.mem_cons_of_mem _ hb, hab⟩

theorem concat (h : Matches R q p) (hab : R a b) : Matches R (q ++ [.item a]) (p ++ [.item b]) :=
  List.rel_append h (.cons (.item hab) .nil)

theorem deliver (h : Matches R q p) (hab : R a b) :
    Matches R (link.deliver q a) (link.deliver p b) := by
  unfold Link.deliver
  split
  · exact h.concat hab
  · exact h

theorem send (h : Matches R q p) (hab : R a b) : Matches R (link.send q a) (link.send p b) := by
  unfold Link.send
  split
  · exact h.concat hab
  · exact h

theorem cut (h : Matches R q p) : Matches R (Channel.cut n q) (Channel.cut n p) :=
  List.rel_append (List.forall₂_take n h) (.cons .closed .nil)

theorem opened_mem (h : Matches R q p) : .opened ∈ q ↔ .opened ∈ p := by
  induction h with
  | nil => simp
  | cons hw _ ih => cases hw <;> simp [ih]

theorem lose (h : Matches R q p) (hn : q[n]? = some (.item a)) :
    ∃ p₁ b p₂, p = p₁ ++ .item b :: p₂ ∧ R a b ∧ Matches R (q.eraseIdx n) (p₁ ++ p₂) := by
  induction h generalizing n with
  | nil => simp at hn
  | @cons w v q p hw h ih =>
    cases n with
    | zero =>
      cases hn
      cases hw with
      | item hab => exact ⟨[], _, p, rfl, hab, h⟩
    | succ n =>
      obtain ⟨p₁, b, p₂, rfl, hab, h'⟩ := ih hn
      exact ⟨v :: p₁, b, p₂, rfl, hab, .cons hw h'⟩

end Matches

end ENetChat.Channel

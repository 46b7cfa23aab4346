import Mathlib.Tactic.Common

/-!
# Computations that change a state and may stop

Rules for `EStateM ε σ`, where a computation that stops keeps the state it
stopped in. `Triple m s Q E` says where `m` goes from one state: to a result
and a state of `Q`, or to a stop in `E`. `Keeps I m` says of every state that
`m` leads from `I` to `I`, whether it completes or stops, `Takes I J m` that it
leads from `I` to `J` if it completes, and `Respects R m` that from two states
which `R` relates `m` does the same. `Adds c n m` says that `m` adds at most `n`
to what `c` counts.
-/

namespace ENetChat.Exec

variable {ε σ α β : Type}

/-- From `s`, `m` completes in `Q` or stops in `E`. -/
def Triple (m : EStateM ε σ α) (s : σ) (Q : α → σ → Prop) (E : ε → σ → Prop) : Prop :=
  match m.run s with
  | .ok a s' => Q a s'
  | .error e s' => E e s'

theorem Triple.of_run {m : EStateM ε σ α} (h : m.run s = .ok a s') (hq : Q a s') :
    Triple m s Q E := by
  simp [Triple, h, hq]

/-- A computation may be replaced by one that runs the same. -/
theorem Triple.of_eq {m : EStateM ε σ α} {m' : EStateM ε σ α} (h : m.run s = m'.run s')
    (ht : Triple m' s' Q E) : Triple m s Q E := by
  unfold Triple at *
  rwa [h]

theorem Triple.ok {m : EStateM ε σ α} (h : Triple m s Q E) (hr : m.run s = .ok a s') : Q a s' := by
  simpa [Triple, hr] using h

theorem Triple.error {m : EStateM ε σ α} (h : Triple m s Q E) (hr : m.run s = .error e s') :
    E e s' := by
  simpa [Triple, hr] using h

/-- Nothing is said of a stop. -/
theorem Triple.of_ok {m : EStateM ε σ α} (h : ∀ a s', m.run s = .ok a s' → Q a s') :
    Triple m s Q fun _ _ => True := by
  unfold Triple
  split
  · next a s' hr => exact h a s' hr
  · trivial

theorem Triple.mono {m : EStateM ε σ α} (h : Triple m s Q E) (hq : ∀ a s', Q a s' → Q' a s')
    (he : ∀ e s', E e s' → E' e s') : Triple m s Q' E' := by
  unfold Triple at *
  cases hm : m.run s with
  | ok a s' => rw [hm] at h; exact hq a s' h
  | error e s' => rw [hm] at h; exact he e s' h

theorem Triple.and {m : EStateM ε σ α} (h : Triple m s Q E) (h' : Triple m s Q' E') :
    Triple m s (fun a s' => Q a s' ∧ Q' a s') fun e s' => E e s' ∧ E' e s' := by
  unfold Triple at *
  cases hm : m.run s with
  | ok a s' =>
    rw [hm] at h h'
    exact ⟨h, h'⟩
  | error e s' =>
    rw [hm] at h h'
    exact ⟨h, h'⟩

theorem Triple.pure' {Q : α → σ → Prop} {E : ε → σ → Prop} (h : Q a s) :
    Triple (pure a) s Q E := h

theorem Triple.throw' {Q : α → σ → Prop} {E : ε → σ → Prop} (h : E e s) :
    Triple (throw e) s Q E := h

theorem Triple.bind {m : EStateM ε σ α} {f : α → EStateM ε σ β} (hm : Triple m s P E)
    (hf : ∀ a s', P a s' → Triple (f a) s' Q E) : Triple (m >>= f) s Q E := by
  unfold Triple at hm ⊢
  rw [EStateM.run_bind]
  cases h : m.run s with
  | ok a s' => rw [h] at hm; exact hf a s' hm
  | error e s' => rw [h] at hm; exact hm

/-- What a computation that runs over a list keeps: `I rest s` holds with
`rest` still to do. -/
theorem Triple.forM {f : α → EStateM ε σ PUnit} {I : List α → σ → Prop} (h : I l s)
    (hstep : ∀ x rest s, I (x :: rest) s → Triple (f x) s (fun _ s' => I rest s') E) :
    Triple (l.forM f) s (fun _ s' => I [] s') E := by
  induction l generalizing s with
  | nil => exact h
  | cons x rest ih => exact Triple.bind (hstep x rest s h) fun _ s' h' => ih h'

-- From here on by these rules only: unfolding would run `m`.
attribute [irreducible] Triple

-- ---------------------------------------------------------------------------
-- Invariants
-- ---------------------------------------------------------------------------

def Keeps (I : σ → Prop) (m : EStateM ε σ α) : Prop :=
  ∀ s, I s → Triple m s (fun _ => I) fun _ => I

variable {I : σ → Prop}

theorem Keeps.pure (a : α) : Keeps I (Pure.pure a : EStateM ε σ α) := fun _ h => Triple.pure' h

theorem Keeps.throw (e : ε) : Keeps I (MonadExcept.throw e : EStateM ε σ α) :=
  fun _ h => Triple.throw' h

theorem Keeps.bind {m : EStateM ε σ α} {f : α → EStateM ε σ β} (hm : Keeps I m)
    (hf : ∀ a, Keeps I (f a)) : Keeps I (m >>= f) :=
  fun s h => Triple.bind (hm s h) fun a s' => hf a s'

theorem Keeps.forM {f : α → EStateM ε σ PUnit} (l : List α) (hf : ∀ x, Keeps I (f x)) :
    Keeps I (l.forM f) :=
  fun _ h => Triple.forM (I := fun _ => I) h fun x _ s' => hf x s'

/-- From `I`, `m` completes in `J`, or stops anywhere. -/
def Takes (I J : σ → Prop) (m : EStateM ε σ α) : Prop :=
  ∀ s, I s → Triple m s (fun _ => J) fun _ _ => True

variable {J K : σ → Prop}

theorem Takes.pure (a : α) : Takes I I (Pure.pure a : EStateM ε σ α) := fun _ h => Triple.pure' h

theorem Takes.throw (e : ε) : Takes I J (MonadExcept.throw e : EStateM ε σ α) :=
  fun _ _ => Triple.throw' trivial

theorem Takes.bind {m : EStateM ε σ α} {f : α → EStateM ε σ β} (hm : Takes I J m)
    (hf : ∀ a, Takes J K (f a)) : Takes I K (m >>= f) :=
  fun s h => Triple.bind (hm s h) fun a s' => hf a s'

theorem Takes.forM {f : α → EStateM ε σ PUnit} (l : List α) (hf : ∀ x, Takes I I (f x)) :
    Takes I I (l.forM f) := by
  induction l with
  | nil => exact Takes.pure _
  | cons x l ih => exact Takes.bind (hf x) fun _ => ih

theorem Takes.mono {m : EStateM ε σ α} (h : Takes I J m) (hle : ∀ s, J s → K s) : Takes I K m :=
  fun s hs => (h s hs).mono (fun _ _ hj => hle _ hj) fun _ _ he => he

-- ---------------------------------------------------------------------------
-- Two runs
-- ---------------------------------------------------------------------------

variable {R : σ → σ → Prop}

/-- The same result, in states that `R` relates. -/
inductive Twin (R : σ → σ → Prop) : EStateM.Result ε σ α → EStateM.Result ε σ α → Prop
  | ok : R s t → Twin R (.ok a s) (.ok a t)
  | error : R s t → Twin R (.error e s) (.error e t)

def Respects (R : σ → σ → Prop) (m : EStateM ε σ α) : Prop :=
  ∀ s t, R s t → Twin R (m.run s) (m.run t)

theorem Respects.pure (a : α) : Respects R (Pure.pure a : EStateM ε σ α) := fun _ _ h => .ok h

theorem Respects.throw (e : ε) : Respects R (MonadExcept.throw e : EStateM ε σ α) :=
  fun _ _ h => .error h

theorem Respects.bind {m : EStateM ε σ α} {f : α → EStateM ε σ β} (hm : Respects R m)
    (hf : ∀ a, Respects R (f a)) : Respects R (m >>= f) := by
  intro s t h
  have hst := hm s t h
  rw [EStateM.run_bind, EStateM.run_bind]
  generalize m.run s = r, m.run t = r' at hst
  cases hst with
  | ok h' => exact hf _ _ _ h'
  | error h' => exact .error h'

theorem Respects.forM {f : α → EStateM ε σ PUnit} (l : List α) (hf : ∀ x, Respects R (f x)) :
    Respects R (l.forM f) := by
  induction l with
  | nil => exact Respects.pure _
  | cons x l ih => exact Respects.bind (hf x) fun _ => ih

-- ---------------------------------------------------------------------------
-- Counting
-- ---------------------------------------------------------------------------

variable {c : σ → Nat} {n n' : Nat}

def Adds (c : σ → Nat) (n : Nat) (m : EStateM ε σ α) : Prop :=
  ∀ s, Triple m s (fun _ s' => c s' ≤ c s + n) fun _ s' => c s' ≤ c s + n

theorem Adds.pure (a : α) : Adds c 0 (Pure.pure a : EStateM ε σ α) :=
  fun _ => Triple.pure' (Nat.le_refl _)

theorem Adds.throw (e : ε) : Adds c n (MonadExcept.throw e : EStateM ε σ α) :=
  fun _ => Triple.throw' (Nat.le_add_right _ _)

theorem Adds.mono {m : EStateM ε σ α} (h : Adds c n m) (hle : n ≤ n') : Adds c n' m := by
  have hmono (s s' : σ) (hs : c s' ≤ c s + n) : c s' ≤ c s + n' :=
    Nat.le_trans hs (Nat.add_le_add_left hle _)
  exact fun s => (h s).mono (fun _ s' => hmono s s') fun _ s' => hmono s s'

theorem Adds.bind {m : EStateM ε σ α} {f : α → EStateM ε σ β} (hm : Adds c n m)
    (hf : ∀ a, Adds c n' (f a)) : Adds c (n + n') (m >>= f) := by
  intro s
  have hadd (s' t : σ) (hs : c s' ≤ c s + n) (ht : c t ≤ c s' + n') : c t ≤ c s + (n + n') :=
    calc c t ≤ c s' + n' := ht
      _ ≤ c s + n + n' := Nat.add_le_add_right hs n'
      _ = c s + (n + n') := Nat.add_assoc _ _ _
  refine Triple.bind ((hm s).mono (fun _ _ hs => hs) fun _ s' hs => ?_) fun a s' hs => ?_
  · exact Nat.le_trans hs (Nat.add_le_add_left (Nat.le_add_right _ _) _)
  · exact (hf a s').mono (fun _ t => hadd s' t hs) fun _ t => hadd s' t hs

/-- What comes first adds nothing. -/
theorem Adds.after {m : EStateM ε σ α} {f : α → EStateM ε σ β} (hm : Adds c 0 m)
    (hf : ∀ a, Adds c n (f a)) : Adds c n (m >>= f) :=
  (hm.bind hf).mono (Nat.le_of_eq (Nat.zero_add n))

theorem Adds.forM {f : α → EStateM ε σ PUnit} (l : List α) (hf : ∀ x, Adds c 0 (f x)) :
    Adds c 0 (l.forM f) := by
  induction l with
  | nil => exact Adds.pure _
  | cons x l ih => exact Adds.after (hf x) fun _ => ih

-- ---------------------------------------------------------------------------
-- Running
-- ---------------------------------------------------------------------------

@[simp] theorem run_throw {e : ε} : (throw e : EStateM ε σ α).run s = .error e s := rfl

@[simp] theorem run_map {m : EStateM ε σ α} {f : α → β} :
    (f <$> m).run s = match m.run s with
      | .ok a s' => .ok (f a) s'
      | .error e s' => .error e s' := rfl

theorem run_discard {m : EStateM ε σ α} :
    (discard m).run s = match m.run s with
      | .ok _ s' => .ok () s'
      | .error e s' => .error e s' := rfl

/-- A run that completes passed through a completed first part. -/
theorem bind_ok {m : EStateM ε σ α} {f : α → EStateM ε σ β} :
    (m >>= f).run s = .ok b s' ↔ ∃ a t, m.run s = .ok a t ∧ (f a).run t = .ok b s' := by
  rw [EStateM.run_bind]
  cases h : m.run s <;> simp

theorem run_forM_cons {f : α → EStateM ε σ PUnit} :
    ((x :: l).forM f).run s = (f x >>= fun _ => l.forM f).run s := rfl

def Completes (m : EStateM ε σ α) (s : σ) : Prop := ∃ a s', m.run s = .ok a s'

theorem completes_bind {m : EStateM ε σ α} {f : α → EStateM ε σ β} (h : m.run s = .ok a t) :
    Completes (m >>= f) s ↔ Completes (f a) t := by
  simp [Completes, h]

end ENetChat.Exec

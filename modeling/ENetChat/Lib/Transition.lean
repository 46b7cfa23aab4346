import Mathlib.Tactic.Common

/-!
# Labelled transition systems

A system takes labelled steps from an initial state. `Reach allowed` are the
states of the runs whose steps are all allowed, so that an assumption about
the environment, made of one step at a time, is a choice of `allowed`.
A `History` keeps the states passed on the way, and simulation is stated of it
(`History.simulate`).

Steps that lower a measure come to an end (`Reach.rests`), however they are
chosen (`Run.bounded`).

Where the label settles the step, a list of labels is a run: `Along` says of
each of its steps what holds of it, `observe` collects what they show, and
`ends` is where they lead. A run shows what its specification does if each step
does (`observe_simulate`).
-/

namespace ENetChat.Transition

structure System (σ l : Type) where
  init : σ → Prop
  step : σ → l → σ → Prop

variable {σ τ l m : Type}

inductive System.Reach (S : System σ l) (allowed : σ → l → Prop) : σ → Prop
  | init : S.init s → S.Reach allowed s
  | step : S.Reach allowed s → allowed s a → S.step s a s' → S.Reach allowed s'

variable {S : System σ l} {T : System τ m} {allowed : σ → l → Prop} {permitted : τ → m → Prop}

/-- An invariant may use what reachability has shown before. -/
theorem System.Reach.invariant {I : σ → Prop} (hinit : ∀ s, S.init s → I s)
    (hstep : ∀ s a s', S.Reach allowed s → I s → allowed s a → S.step s a s' → I s')
    (h : S.Reach allowed s) : I s := by
  induction h with
  | init h => exact hinit _ h
  | step hr ha hs ih => exact hstep _ _ _ hr ih ha hs

/-- What is allowed in a reachable state may be known to be allowed elsewhere. -/
theorem System.Reach.mono {looser : σ → l → Prop}
    (hle : ∀ s a, S.Reach allowed s → allowed s a → looser s a) (h : S.Reach allowed s) :
    S.Reach looser s := by
  induction h with
  | init h => exact .init h
  | step hr ha hs ih => exact .step ih (hle _ _ hr ha) hs

-- ---------------------------------------------------------------------------
-- Histories
-- ---------------------------------------------------------------------------

/-- A run by its states: those passed, the last one first, and where it is. -/
inductive System.History (S : System σ l) (allowed : σ → l → Prop) : List σ → σ → Prop
  | init : S.init s → S.History allowed [] s
  | step : S.History allowed past s → allowed s a → S.step s a s' → S.History allowed (s :: past) s'

theorem System.History.reach (h : S.History allowed past s) : S.Reach allowed s := by
  induction h with
  | init h => exact .init h
  | step _ ha hs ih => exact .step ih ha hs

theorem System.Reach.history (h : S.Reach allowed s) : ∃ past, S.History allowed past s := by
  induction h with
  | init h => exact ⟨[], .init h⟩
  | step _ ha hs ih =>
    obtain ⟨past, hpast⟩ := ih
    exact ⟨_, .step hpast ha hs⟩

/-- A step of `S` is matched by no step of `T`, or by one that is permitted:
then a run of `S` is matched by a run of `T`, all of whose states are matched
by states of the run. -/
theorem System.History.simulate {R : σ → τ → Prop}
    (hinit : ∀ s, S.init s → ∃ t, T.init t ∧ R s t)
    (hstep : ∀ s t a s', R s t → T.Reach permitted t → allowed s a → S.step s a s' →
      R s' t ∨ ∃ b t', permitted t b ∧ T.step t b t' ∧ R s' t')
    (h : S.History allowed past s) : ∃ past' t, T.History permitted past' t ∧ R s t ∧
      ∀ t' ∈ t :: past', ∃ s' ∈ s :: past, R s' t' := by
  induction h with
  | init h =>
    obtain ⟨t, ht, hr⟩ := hinit _ h
    refine ⟨[], t, .init ht, hr, fun t' ht' => ?_⟩
    rw [List.mem_singleton.mp ht']
    exact ⟨_, List.mem_cons_self, hr⟩
  | @step past s a s' _ ha hs ih =>
    obtain ⟨past', t, ht, hr, hall⟩ := ih
    have hback (t') (ht' : t' ∈ t :: past') : ∃ s'' ∈ s' :: s :: past, R s'' t' := by
      obtain ⟨s'', hs'', hr''⟩ := hall t' ht'
      exact ⟨s'', List.mem_cons_of_mem _ hs'', hr''⟩
    obtain hr' | ⟨b, t', hb, ht', hr'⟩ := hstep _ _ _ _ hr ht.reach ha hs
    · exact ⟨past', t, ht, hr', hback⟩
    · refine ⟨t :: past', t', .step ht hb ht', hr', fun t'' ht'' => ?_⟩
      obtain rfl | ht'' := List.mem_cons.mp ht''
      · exact ⟨s', List.mem_cons_self, hr'⟩
      · exact hback t'' ht''

-- ---------------------------------------------------------------------------
-- Coming to rest
-- ---------------------------------------------------------------------------

/-- Steps that are all allowed, from a state to a state. -/
inductive System.Run (S : System σ l) (allowed : σ → l → Prop) : σ → List l → σ → Prop
  | nil : S.Run allowed s [] s
  | cons : allowed s a → S.step s a s' → S.Run allowed s' as t → S.Run allowed s (a :: as) t

section Rest

variable {drains : σ → l → Prop} {μ : σ → Nat} {s t : σ} {as : List l}
  (hle : ∀ s a, drains s a → allowed s a)

include hle

theorem System.Run.reach (h : S.Reach allowed s) (hr : S.Run drains s as t) :
    S.Reach allowed t := by
  induction hr with
  | nil => exact h
  | cons ha hs _ ih => exact ih (.step h (hle _ _ ha) hs)

variable (hdrop : ∀ s a s', S.Reach allowed s → drains s a → S.step s a s' → μ s' < μ s)

include hdrop

/-- If every step lowers a measure, a run is no longer than the measure. -/
theorem System.Run.bounded (h : S.Reach allowed s) (hr : S.Run drains s as t) :
    as.length + μ t ≤ μ s := by
  induction hr with
  | nil => exact Nat.le_of_eq (Nat.zero_add _)
  | cons ha hs _ ih =>
    have hlt := hdrop _ _ _ h ha hs
    have hrest := ih (.step h (hle _ _ ha) hs)
    rw [List.length_cons]
    omega

/-- And some run ends where no such step is left. -/
theorem System.Reach.rests (h : S.Reach allowed s) :
    ∃ as t, S.Run drains s as t ∧ ∀ a t', drains t a → ¬ S.step t a t' := by
  induction hn : μ s using Nat.strongRecOn generalizing s with
  | _ n ih =>
    by_cases hstep : ∃ a s', drains s a ∧ S.step s a s'
    · obtain ⟨a, s', ha, hs⟩ := hstep
      obtain ⟨as, t, hr, hrest⟩ := ih _ (hn ▸ hdrop s a s' h ha hs) (.step h (hle s a ha) hs) rfl
      exact ⟨a :: as, t, .cons ha hs hr, hrest⟩
    · exact ⟨[], s, .nil, fun a t' ha ht => hstep ⟨a, t', ha, ht⟩⟩

end Rest

-- ---------------------------------------------------------------------------
-- Runs of a partial function
-- ---------------------------------------------------------------------------

variable {next : σ → l → Option σ} {P Q : σ → l → Prop}

/-- `P` holds of every step of a run, up to one that does not return. -/
def Along (next : σ → l → Option σ) (P : σ → l → Prop) (s : σ) : List l → Prop
  | [] => True
  | a :: as => P s a ∧ ∀ s', next s a = some s' → Along next P s' as

/-- Steps may be compared in the states that the steps so far allow. -/
theorem Along.congr {I : σ → Prop} (hstep : ∀ s a s', I s → P s a → next s a = some s' → I s')
    (hiff : ∀ s a, I s → (P s a ↔ Q s a)) (h : I s) (as : List l) :
    Along next P s as ↔ Along next Q s as := by
  induction as generalizing s with
  | nil => exact Iff.rfl
  | cons a as ih =>
    constructor
    · rintro ⟨hp, hrest⟩
      exact ⟨(hiff s a h).mp hp, fun s' hs' => (ih (hstep s a s' h hp hs')).mp (hrest s' hs')⟩
    · rintro ⟨hq, hrest⟩
      have hp := (hiff s a h).mpr hq
      exact ⟨hp, fun s' hs' => (ih (hstep s a s' h hp hs')).mpr (hrest s' hs')⟩

-- ---------------------------------------------------------------------------
-- Two runs side by side
-- ---------------------------------------------------------------------------

variable {o : Type} {obs : σ → l → List o} {Mute : σ → Prop}

/-- What the steps of a run show, up to one that does not return. -/
def observe (next : σ → l → Option σ) (obs : σ → l → List o) (s : σ) : List l → List o
  | [] => []
  | a :: as => obs s a ++
    match next s a with
    | some s' => observe next obs s' as
    | none => []

theorem observe_mute (hmute : ∀ s a, Mute s → obs s a = [] ∧ ∀ s', next s a = some s' → Mute s')
    (h : Mute s) (as : List l) : observe next obs s as = [] := by
  induction as generalizing s with
  | nil => rfl
  | cons a as ih =>
    obtain ⟨hobs, hnext⟩ := hmute s a h
    simp only [observe, hobs, List.nil_append]
    cases hs : next s a with
    | none => rfl
    | some s' => exact ih (hnext s' hs)

/-- Steps from related states with related labels show the same and lead to
related states, or to states that show nothing any more: then runs do. -/
theorem observe_eq {R : σ → σ → Prop} {E : l → l → Prop}
    (hmute : ∀ s a, Mute s → obs s a = [] ∧ ∀ s', next s a = some s' → Mute s')
    (hstep : ∀ s t a b, R s t → E a b → obs s a = obs t b ∧
      Option.Rel (fun s' t' => R s' t' ∨ Mute s' ∧ Mute t') (next s a) (next t b))
    (h : R s t) (hl : List.Forall₂ E as bs) :
    observe next obs s as = observe next obs t bs := by
  induction hl generalizing s t with
  | nil => rfl
  | cons hab _ ih =>
    obtain ⟨hobs, hnext⟩ := hstep _ _ _ _ h hab
    simp only [observe, hobs]
    generalize next s _ = s', next t _ = t' at hnext
    cases hnext with
    | none => rfl
    | some hr =>
      obtain hr | ⟨hs, ht⟩ := hr
      · simp only [ih hr]
      · simp only [observe_mute hmute hs, observe_mute hmute ht]

-- ---------------------------------------------------------------------------
-- A run and its specification
-- ---------------------------------------------------------------------------

/-- Where the steps of a run lead, if all of them return. -/
def ends (next : σ → l → Option σ) (s : σ) : List l → Option σ
  | [] => some s
  | a :: as => (next s a).bind fun s' => ends next s' as

theorem System.Run.of_ends
    (hstep : ∀ s a s', next s a = some s' → allowed s a ∧ S.step s a s')
    (h : ends next s as = some s') : S.Run allowed s as s' := by
  induction as generalizing s with
  | nil =>
    cases h
    exact .nil
  | cons a as ih =>
    obtain ⟨t, ht, hrest⟩ := Option.bind_eq_some_iff.mp h
    obtain ⟨ha, hs⟩ := hstep s a t ht
    exact .cons ha hs (ih hrest)

variable {next' : τ → l → Option τ} {obs' : τ → l → List o} {R : σ → τ → Prop} {t : τ}

/-- From related states a step of two systems shows the same, and returns in
related states or in neither: then a run does. -/
theorem observe_simulate
    (hstep : ∀ s t a, R s t → obs s a = obs' t a ∧ Option.Rel R (next s a) (next' t a))
    (h : R s t) (as : List l) : observe next obs s as = observe next' obs' t as ∧
      Option.Rel R (ends next s as) (ends next' t as) := by
  induction as generalizing s t with
  | nil => exact ⟨rfl, .some h⟩
  | cons a as ih =>
    obtain ⟨hobs, hnext⟩ := hstep s t a h
    simp only [observe, ends, hobs]
    generalize next s a = s', next' t a = t' at hnext
    cases hnext with
    | none => exact ⟨rfl, .none⟩
    | some hr =>
      obtain ⟨hrest, hends⟩ := ih hr
      exact ⟨by simp only [hrest], hends⟩

/-- Labels that no state tells apart. -/
theorem observe_congr {E : l → l → Prop}
    (hstep : ∀ s a b, E a b → obs s a = obs s b ∧ next s a = next s b)
    (hl : List.Forall₂ E as bs) (s : σ) :
    observe next obs s as = observe next obs s bs ∧ ends next s as = ends next s bs := by
  induction hl generalizing s with
  | nil => exact ⟨rfl, rfl⟩
  | cons hab _ ih =>
    obtain ⟨hobs, hnext⟩ := hstep s _ _ hab
    simp only [observe, ends, hobs, hnext]
    cases next s _ with
    | none => exact ⟨rfl, rfl⟩
    | some s' =>
      obtain ⟨hrest, hends⟩ := ih s'
      exact ⟨congrArg _ hrest, hends⟩

end ENetChat.Transition

import Mathlib.Data.List.Basic

/-!
# A replicated table

A table is kept in one place and followed in others, by notes: a snapshot of
it, a name that has joined, an id that has left, and texts said in an id's
name. A follower inserts only what it does not have. `View` is what a
follower has made of its notes, and `play` what it will have made of the
notes under way. The laws say which notes keep a replica equal to the table
or inside it (`Within`), and which notes find the id they are about
(`Safe`).
-/

namespace ENetChat.Replica

variable {ι ν τ : Type}

abbrev Table (ι ν : Type) := ι → Option ν

inductive Note (ι ν τ : Type) where
  | snapshot (id : ι) (table : Table ι ν)  -- and the follower's own id
  | joined (id : ι) (name : ν)
  | left (id : ι)
  | said (id : ι) (text : τ)

def Note.isSnapshot : Note ι ν τ → Bool
  | .snapshot _ _ => true
  | _ => false

theorem Note.eq_snapshot {n : Note ι ν τ} (h : n.isSnapshot = true) :
    ∃ id table, n = .snapshot id table := by
  cases n with
  | snapshot id table => exact ⟨id, table, rfl⟩
  | _ => cases h

structure View (ι ν τ : Type) where
  synced : Bool := false
  replica : Table ι ν := fun _ => none
  shown : List (ν × τ) := []  -- since the snapshot

namespace Table

def Within (t t' : Table ι ν) : Prop := ∀ i name, t i = some name → t' i = some name

/-- What a part of the table has, a snapshot of the table does not change. -/
theorem or_of_within {t t' : Table ι ν} (h : t.Within t') : (fun i => (t i).or (t' i)) = t' := by
  funext i
  cases ht : t i with
  | none => rfl
  | some name => rw [h i name ht, Option.some_or]

variable [DecidableEq ι]

def insert (t : Table ι ν) (id : ι) (name : ν) : Table ι ν :=
  fun i => (t i).or (if i = id then some name else none)

def erase (t : Table ι ν) (id : ι) : Table ι ν := fun i => if i = id then none else t i

end Table

variable [DecidableEq ι]

namespace View

/-- What a follower with id `me` makes of a note. It does not show what it
said itself. -/
def see (me : ι) (v : View ι ν τ) : Note ι ν τ → View ι ν τ
  | .snapshot _ table =>
    { synced := true, replica := fun i => (v.replica i).or (table i), shown := [] }
  | .joined id name => { v with replica := v.replica.insert id name }
  | .left id => { v with replica := v.replica.erase id }
  | .said id text =>
    if v.synced ∧ id = me then v
    else match v.replica id with
      | some name => { v with shown := v.shown ++ [(name, text)] }
      | none => v

/-- A note finds the id that it is about. -/
def Finds (v : View ι ν τ) : Note ι ν τ → Prop
  | .left id => v.replica id ≠ none
  | .said id _ => v.replica id ≠ none
  | _ => True

/-- The follower has an id, or has news of it under way. -/
def Told (v : View ι ν τ) (notes : List (Note ι ν τ)) (id : ι) : Prop :=
  v.replica id ≠ none ∨ ∃ name, .joined id name ∈ notes

def play (me : ι) (v : View ι ν τ) (notes : List (Note ι ν τ)) : View ι ν τ :=
  notes.foldl (see me) v

/-- Every note that is seen under `g` will find its id. -/
def Safe (g : View ι ν τ → Prop) (me : ι) : View ι ν τ → List (Note ι ν τ) → Prop
  | _, [] => True
  | v, n :: notes => (g v → v.Finds n) ∧ Safe g me (v.see me n) notes

end View

open Table View

variable {me id : ι} {v : View ι ν τ} {n : Note ι ν τ} {notes notes' : List (Note ι ν τ)}
  {t t' : Table ι ν} {name : ν} {text : τ} {g : View ι ν τ → Prop}

-- ---------------------------------------------------------------------------
-- Tables
-- ---------------------------------------------------------------------------

@[simp] theorem insert_self (h : t id = none) : t.insert id name id = some name := by
  simp [Table.insert, h]

theorem insert_of_ne (h : i ≠ id) : t.insert id name i = t i := by simp [Table.insert, h]

@[simp] theorem erase_self : t.erase id id = none := by simp [Table.erase]

theorem erase_of_ne (h : i ≠ id) : t.erase id i = t i := by simp [Table.erase, h]

theorem Table.Within.insert (h : t.Within t') (hnew : t' id = none) :
    (t.insert id name).Within (t'.insert id name) := by
  intro i m hi
  by_cases heq : i = id
  · subst heq
    have hnone : t i = none := by
      cases ht : t i with
      | none => rfl
      | some x => rw [h i x ht] at hnew; cases hnew
    rw [insert_self hnone] at hi
    rw [insert_self hnew, hi]
  · rw [insert_of_ne heq] at hi ⊢
    exact h i m hi

theorem Table.Within.erase (h : t.Within t') : (t.erase id).Within (t'.erase id) := by
  intro i m hi
  by_cases heq : i = id
  · rw [heq, erase_self] at hi
    cases hi
  · rw [erase_of_ne heq] at hi ⊢
    exact h i m hi

theorem insert_of_some (h : t id ≠ none) : t.insert id name = t := by
  funext i
  by_cases heq : i = id
  · subst heq
    obtain ⟨x, hx⟩ := Option.ne_none_iff_exists'.mp h
    simp [Table.insert, hx]
  · exact insert_of_ne heq

-- ---------------------------------------------------------------------------
-- Playing notes
-- ---------------------------------------------------------------------------

@[simp] theorem play_nil : v.play me [] = v := rfl

@[simp] theorem play_cons : v.play me (n :: notes) = (v.see me n).play me notes := rfl

theorem play_append : v.play me (notes ++ notes') = (v.play me notes).play me notes' :=
  List.foldl_append

theorem play_concat : v.play me (notes ++ [n]) = (v.play me notes).see me n := by
  simp [play_append]

theorem safe_append :
    Safe g me v (notes ++ notes') ↔ Safe g me v notes ∧ Safe g me (v.play me notes) notes' := by
  induction notes generalizing v with
  | nil => simp [Safe]
  | cons n notes ih => simp only [List.cons_append, Safe, ih, play_cons, and_assoc]

theorem safe_concat : Safe g me v (notes ++ [n]) ↔
    Safe g me v notes ∧ (g (v.play me notes) → (v.play me notes).Finds n) := by
  simp [safe_append, Safe]

@[simp] theorem see_snapshot_synced : (v.see me (.snapshot id t)).synced = true := rfl

theorem see_synced (hn : n.isSnapshot = false) : (v.see me n).synced = v.synced := by
  cases n with
  | snapshot i t => cases hn
  | said i x =>
    simp only [View.see]
    split
    · rfl
    · split <;> rfl
  | _ => rfl

theorem play_synced :
    (v.play me notes).synced = true ↔ v.synced = true ∨ ∃ n ∈ notes, n.isSnapshot = true := by
  induction notes generalizing v with
  | nil => simp
  | cons n notes ih =>
    rw [play_cons, ih]
    cases hn : n.isSnapshot with
    | true =>
      obtain ⟨i, t, rfl⟩ := Note.eq_snapshot hn
      simp [hn]
    | false => simp [see_synced hn, hn]

@[simp] theorem see_said_replica : (v.see me (.said id text)).replica = v.replica := by
  simp only [View.see]
  split
  · rfl
  · split <;> rfl

/-- News that is seen is of what there was news of. -/
theorem Told.of_see (h : (v.see me n).Told notes i) (hn : n.isSnapshot = false) :
    v.Told (n :: notes) i := by
  obtain h | ⟨name, h⟩ := h
  · cases n with
    | snapshot id t => cases hn
    | joined id name =>
      by_cases heq : i = id
      · subst heq
        exact .inr ⟨name, List.mem_cons_self⟩
      · exact .inl (by simpa only [View.see, insert_of_ne heq] using h)
    | left id =>
      refine .inl fun hnone => h ?_
      simp [View.see, Table.erase, hnone]
    | said id text => exact .inl (by rwa [see_said_replica] at h)
  · exact .inr ⟨name, List.mem_cons_of_mem _ h⟩

omit [DecidableEq ι] in
theorem told_concat : v.Told (notes ++ [n]) i ↔ v.Told notes i ∨ ∃ name, n = .joined i name := by
  simp only [View.Told, List.mem_append, List.mem_singleton, exists_or, or_assoc, eq_comm]

-- ---------------------------------------------------------------------------
-- What is heard
-- ---------------------------------------------------------------------------

/-- A note adds what another has said, found or not. Nothing counts before the
snapshot. -/
def View.hear (me : ι) (heard : Option (List τ)) : Note ι ν τ → Option (List τ)
  | .snapshot _ _ => some []
  | .said id text => if id = me then heard else heard.map (· ++ [text])
  | _ => heard

/-- The texts of others that the follower has shown since its snapshot, or is
being told. -/
def View.heard (me : ι) (v : View ι ν τ) (notes : List (Note ι ν τ)) : Option (List τ) :=
  notes.foldl (View.hear me) (if v.synced then some (v.shown.map (·.2)) else none)

/-- Nothing counts yet, or what counts is a part of it, in its order. -/
def Below (l l' : Option (List τ)) : Prop := ∀ x, l = some x → ∃ y, l' = some y ∧ x.Sublist y

theorem Below.refl {l : Option (List τ)} : Below l l := fun x h => ⟨x, h, .refl x⟩

theorem below_none {l : Option (List τ)} : Below none l := by
  intro x h
  cases h

theorem Below.eq_none {l : Option (List τ)} (h : Below l none) : l = none := by
  cases l with
  | none => rfl
  | some x =>
    obtain ⟨y, hy, -⟩ := h x rfl
    cases hy

theorem Below.hear {l l' : Option (List τ)} (h : Below l l') (n : Note ι ν τ) :
    Below (View.hear me l n) (View.hear me l' n) := by
  cases n with
  | snapshot i t => exact Below.refl
  | said i text =>
    simp only [View.hear]
    split
    · exact h
    · intro x hx
      obtain ⟨y, rfl, rfl⟩ := Option.map_eq_some_iff.mp hx
      obtain ⟨z, rfl, hz⟩ := h y rfl
      exact ⟨_, rfl, hz.append_right _⟩
  | _ => exact h

/-- A note that is no snapshot only adds. -/
theorem below_hear {l : Option (List τ)} (hn : n.isSnapshot = false) :
    Below l (View.hear me l n) := by
  cases n with
  | snapshot i t => cases hn
  | said i text =>
    simp only [View.hear]
    split
    · exact Below.refl
    · rintro x rfl
      exact ⟨x ++ [text], rfl, List.sublist_append_left x [text]⟩
  | _ => exact Below.refl

theorem isSome_hear {l : Option (List τ)} (hn : n.isSnapshot = false) :
    (View.hear me l n).isSome = l.isSome := by
  cases n with
  | snapshot i t => cases hn
  | said i text =>
    simp only [View.hear]
    split
    · rfl
    · rw [Option.isSome_map]
  | _ => rfl

theorem foldl_hear_none (h : ∀ n ∈ notes, n.isSnapshot = false) :
    notes.foldl (View.hear me) none = none := by
  induction notes with
  | nil => rfl
  | cons n notes ih =>
    have hn : (View.hear me none n).isSome = false := isSome_hear (h n List.mem_cons_self)
    rw [List.foldl_cons, Option.isSome_eq_false_iff.mp hn |> Option.isNone_iff_eq_none.mp]
    exact ih fun n' hn' => h n' (List.mem_cons_of_mem _ hn')

theorem Below.foldl {l l' : Option (List τ)} (h : Below l l') (notes : List (Note ι ν τ)) :
    Below (notes.foldl (View.hear me) l) (notes.foldl (View.hear me) l') := by
  induction notes generalizing l l' with
  | nil => exact h
  | cons n notes ih => exact ih (h.hear n)

theorem heard_concat : v.heard me (notes ++ [n]) = View.hear me (v.heard me notes) n := by
  simp [View.heard]

/-- What is seen is heard, and shown if it is found. -/
theorem heard_see : Below ((v.see me n).heard me notes) (v.heard me (n :: notes)) := by
  refine Below.foldl ?_ notes
  cases n with
  | snapshot i t => exact Below.refl
  | said i text =>
    rw [see_synced rfl]
    cases hv : v.synced with
    | false => exact below_none
    | true =>
      simp only [View.see, View.hear, hv, true_and, if_true]
      by_cases hi : i = me
      · simp only [hi, if_true]
        exact Below.refl
      · simp only [hi, if_false]
        intro x hx
        refine ⟨_, rfl, ?_⟩
        obtain rfl := Option.some.inj hx
        cases v.replica i with
        | none => exact List.sublist_append_left _ _
        | some name => simp
  | _ => exact Below.refl

/-- With one snapshot at most, fewer notes are less to hear. -/
theorem foldl_hear_sublist {l l' : Option (List τ)} (h : Below l l')
    (hsub : notes'.Sublist notes)
    (hone : notes.countP Note.isSnapshot + l'.isSome.toNat ≤ 1) :
    Below (notes'.foldl (View.hear me) l) (notes.foldl (View.hear me) l') := by
  induction hsub generalizing l l' with
  | slnil => exact h
  | @cons notes' notes n hsub ih =>
    cases hn : n.isSnapshot with
    | false =>
      refine ih (fun x hx => ?_) ?_
      · obtain ⟨y, hy, hxy⟩ := h x hx
        have hmore : Below l' (View.hear me l' n) := below_hear hn
        obtain ⟨z, hz, hyz⟩ := hmore y hy
        exact ⟨z, hz, hxy.trans hyz⟩
      · rw [isSome_hear hn]
        simpa [hn] using hone
    | true =>
      -- nothing counted before this snapshot, and no other comes
      simp only [List.countP_cons, hn, if_true] at hone
      have hl' : l' = none := by
        cases l' with
        | none => rfl
        | some y => simp at hone
      subst hl'
      have hnone : ∀ n' ∈ notes', n'.isSnapshot = false := by
        intro n' hn'
        cases hs : n'.isSnapshot with
        | false => rfl
        | true =>
          have := List.countP_pos_iff.mpr ⟨n', hsub.subset hn', hs⟩
          omega
      rw [h.eq_none, foldl_hear_none hnone]
      exact below_none
  | @cons_cons notes' notes n hsub ih =>
    refine ih (h.hear n) ?_
    cases hn : n.isSnapshot with
    | false =>
      rw [isSome_hear hn]
      simpa [hn] using hone
    | true =>
      simp only [List.countP_cons, hn, if_true] at hone
      have := Bool.toNat_le (View.hear me l' n).isSome
      omega

theorem heard_sublist (hsub : notes'.Sublist notes)
    (hone : notes.countP Note.isSnapshot + v.synced.toNat ≤ 1) :
    Below (v.heard me notes') (v.heard me notes) := by
  refine foldl_hear_sublist Below.refl hsub ?_
  cases hv : v.synced <;> simpa [hv] using hone

-- ---------------------------------------------------------------------------
-- What is shown
-- ---------------------------------------------------------------------------

/-- Until the next snapshot, what is shown stays. -/
theorem shown_prefix_play (h : ∀ n ∈ notes, n.isSnapshot = false) :
    v.shown <+: (v.play me notes).shown := by
  induction notes generalizing v with
  | nil => exact List.prefix_rfl
  | cons n notes ih =>
    refine List.IsPrefix.trans ?_ (ih fun n' hn' => h n' (List.mem_cons_of_mem _ hn'))
    have hn := h n List.mem_cons_self
    cases n with
    | snapshot i t => cases hn
    | said i text =>
      simp only [View.see]
      split
      · exact List.prefix_rfl
      · split
        · exact List.prefix_append _ _
        · exact List.prefix_rfl
    | _ => exact List.prefix_rfl

/-- With one snapshot at most, less is shown of the first notes. -/
theorem play_shown_prefix (hpre : notes' <+: notes)
    (hone : notes.countP Note.isSnapshot + v.synced.toNat ≤ 1)
    (hsync : (v.play me notes').synced = true) :
    (v.play me notes').shown <+: (v.play me notes).shown := by
  obtain ⟨rest, rfl⟩ := hpre
  rw [play_append]
  refine shown_prefix_play fun n hn => ?_
  rw [List.countP_append] at hone
  cases hs : n.isSnapshot with
  | false => rfl
  | true =>
    have hrest := List.countP_pos_iff.mpr ⟨n, hn, hs⟩
    rcases play_synced.mp hsync with hv | ⟨n', hn', hs'⟩
    · rw [hv, Bool.toNat_true] at hone
      omega
    · have hfirst := List.countP_pos_iff.mpr ⟨n', hn', hs'⟩
      omega

end ENetChat.Replica

import ENetChat.Session.Room

/-!
# What holds in a room

Three invariants. `Core` holds whatever is lost: ids are unique, the table is
the hub and the members that have introduced themselves, each member gets one
snapshot and keeps its own entry. `Followed` holds when nothing is lost on a
connection that stands: what a connected member will have made of the notes
under way is the table and the log. `Greeted` holds when no introduction and
no snapshot is lost.
-/

namespace ENetChat

open Channel Replica

variable {κ ι ν τ : Type} {r r' : Room κ ι ν τ} {k k' : κ}
  {m m' : Member ι ν τ} {n : Note ι ν τ} {s : Speech ι ν τ} {hub id : ι} {hubName name : ν}
  {t t' : Table ι ν} {text : τ} {q q' : List (Wire (Note ι ν τ))}
  {out out' : List (Wire (Speech ι ν τ))}

-- ---------------------------------------------------------------------------
-- Members of a room
-- ---------------------------------------------------------------------------

namespace Room

theorem members_tell_cases (h : (r.tell n).members k = some m') :
    ∃ m, r.members k = some m ∧ m' = m.hear n := by
  obtain ⟨m, hm, rfl⟩ := Option.map_eq_some_iff.mp h
  exact ⟨m, hm, rfl⟩

def All (r : Room κ ι ν τ) (P : κ → Member ι ν τ → Prop) : Prop :=
  ∀ k m, r.members k = some m → P k m

variable {P : κ → Member ι ν τ → Prop}

theorem All.tell (h : r.All fun k m => P k (m.hear n)) : (r.tell n).All P := by
  intro k' m' hk
  obtain ⟨m, hm, rfl⟩ := members_tell_cases hk
  exact h k' m hm

variable [DecidableEq κ]

theorem members_put : (r.put k m).members k' = if k' = k then some m else r.members k' := by
  simp [Room.put, Function.update_apply]

@[simp] theorem members_put_self : (r.put k m).members k = some m := by simp [members_put]

theorem put_self (h : r.members k = some m) : r.put k m = r := by
  simp [Room.put, ← h]

theorem members_put_cases (h : (r.put k m).members k' = some m') :
    (k' = k ∧ m' = m) ∨ (k' ≠ k ∧ r.members k' = some m') := by
  rw [members_put] at h
  split at h
  · next heq => cases h; exact .inl ⟨heq, rfl⟩
  · next hne => exact .inr ⟨hne, h⟩

theorem All.put (h : r.All P) (hm : P k m) : (r.put k m).All P := by
  intro k' m' hk
  obtain ⟨rfl, rfl⟩ | ⟨-, hk⟩ := members_put_cases hk
  · exact hm
  · exact h k' m' hk

end Room

-- ---------------------------------------------------------------------------
-- The core
-- ---------------------------------------------------------------------------

namespace Member

section

variable [DecidableEq ι]

@[simp] theorem see_id : (m.see n).id = m.id := rfl
@[simp] theorem see_name : (m.see n).name = m.name := rfl
@[simp] theorem see_link : (m.see n).link = m.link := rfl
@[simp] theorem see_running : (m.see n).running = m.running := rfl
@[simp] theorem see_mark : (m.see n).mark = m.mark := rfl
@[simp] theorem see_inbox : (m.see n).inbox = m.inbox := rfl
@[simp] theorem see_outbox : (m.see n).outbox = m.outbox := rfl

end

@[simp] theorem hear_id : (m.hear n).id = m.id := rfl
@[simp] theorem hear_name : (m.hear n).name = m.name := rfl
@[simp] theorem hear_link : (m.hear n).link = m.link := rfl
@[simp] theorem hear_running : (m.hear n).running = m.running := rfl
@[simp] theorem hear_view : (m.hear n).view = m.view := rfl
@[simp] theorem hear_typed : (m.hear n).typed = m.typed := rfl
@[simp] theorem hear_mark : (m.hear n).mark = m.mark := rfl
@[simp] theorem hear_outbox : (m.hear n).outbox = m.outbox := rfl
@[simp] theorem speak_id : (m.speak s).id = m.id := rfl
@[simp] theorem speak_name : (m.speak s).name = m.name := rfl
@[simp] theorem speak_link : (m.speak s).link = m.link := rfl
@[simp] theorem speak_running : (m.speak s).running = m.running := rfl
@[simp] theorem speak_view : (m.speak s).view = m.view := rfl
@[simp] theorem speak_typed : (m.speak s).typed = m.typed := rfl
@[simp] theorem speak_mark : (m.speak s).mark = m.mark := rfl
@[simp] theorem speak_inbox : (m.speak s).inbox = m.inbox := rfl

theorem hear_up (hl : m.link = .up) : m.hear n = { m with inbox := m.inbox ++ [.item n] } := by
  simp [Member.hear, Link.deliver, hl]

theorem hear_not_up (hl : m.link ≠ .up) : m.hear n = m := by
  simp [Member.hear, Link.deliver, hl]

/-- How far the member's introduction has come, each stage counted: not sent,
under way, in the table. -/
def greeting (m : Member ι ν τ) (t : Table ι ν) : Nat :=
  m.inbox.countP Wire.isOpened + (items m.outbox).countP Speech.isHello + (t m.id).isSome.toNat

/-- Snapshots on the way and seen. -/
def snapshots (m : Member ι ν τ) : Nat :=
  (items m.inbox).countP Note.isSnapshot + m.view.synced.toNat

/-- The hub has entered the member, or has still to. -/
def Marked (m : Member ι ν τ) : Prop := m.link.live = true ∨ 0 < m.snapshots

/-- Nobody else's note is about the member's own entry. -/
def Own (m : Member ι ν τ) : Note ι ν τ → Prop
  | .snapshot i table => i = m.id ∧ table m.id = some m.name
  | .joined i name => i = m.id → name = m.name
  | .left i => i ≠ m.id
  | .said _ _ => True

/-- A member's speech is its own. -/
def Speaks (m : Member ι ν τ) (t : Table ι ν) : Speech ι ν τ → Prop
  | .hello name => name = m.name
  | .message i _ => i = m.id ∧ t m.id = some m.name

structure Sound (hub : ι) (t : Table ι ν) (m : Member ι ν τ) : Prop where
  ne_hub : m.id ≠ hub
  ends : m.link.Ends m.outbox
  parted : m.link.live = false → .closed ∈ m.inbox
  entry : m.link ≠ .gone → t m.id = none ∨ t m.id = some m.name
  pending : m.link = .pending → t m.id = none
  once : m.link ≠ .gone → m.greeting t ≤ 1
  single : m.snapshots ≤ 1
  sent : m.link ≠ .gone → 0 < m.snapshots → t m.id = some m.name
  speech : ∀ s ∈ items m.outbox, m.Speaks t s
  notes : ∀ n ∈ items m.inbox, m.Own n
  own : m.view.replica m.id = none ∨ m.view.replica m.id = some m.name
  synced : m.view.synced = true → m.view.replica m.id = some m.name

theorem snapshots_pos (h : m.view.synced = true) : 0 < m.snapshots := by
  simp [snapshots, h]

theorem snapshots_le (hview : m'.view = m.view)
    (hin : (items m'.inbox).Sublist (items m.inbox)) : m'.snapshots ≤ m.snapshots := by
  rw [snapshots, snapshots, hview]
  exact Nat.add_le_add_right hin.countP_le _

theorem snapshots_see [DecidableEq ι] (hin : m.inbox = .item n :: q) :
    (Member.see n { m with inbox := q }).snapshots ≤ m.snapshots := by
  cases hn : n.isSnapshot with
  | true =>
    obtain ⟨i, table, rfl⟩ := Note.eq_snapshot hn
    simp [snapshots, hin, Member.see, hn]
  | false => simp [snapshots, hin, Member.see, see_synced hn, hn]

theorem Marked.less (h : m'.Marked) (hl : m'.link = m.link) (hs : m'.snapshots ≤ m.snapshots) :
    m.Marked := by
  rw [Marked, hl] at h
  exact h.imp_right fun h => Nat.lt_of_lt_of_le h hs

theorem marked_of_hear (h : (m.hear n).Marked) : m.Marked := by
  by_cases hl : m.link = .up
  · exact .inl (by simp [hl, Link.live])
  · rwa [hear_not_up hl] at h

namespace Sound

theorem congr (h : m.Sound hub t) (ht : m.link ≠ .gone → t' m.id = t m.id) : m.Sound hub t' where
  ne_hub := h.ne_hub
  ends := h.ends
  parted := h.parted
  entry hl := by rw [ht hl]; exact h.entry hl
  pending hl := by rw [ht (by simp [hl])]; exact h.pending hl
  once hl := by
    have := h.once hl
    rwa [greeting, ← ht hl] at this
  single := h.single
  sent hl hs := by rw [ht hl]; exact h.sent hl hs
  speech s hs := by
    have hl : m.link ≠ .gone := by
      intro hl
      have hnil := h.ends
      rw [hl] at hnil
      have hnil : m.outbox = [] := hnil
      simp [hnil] at hs
    cases s with
    | hello name => exact h.speech _ hs
    | message i text =>
      have := h.speech _ hs
      exact ⟨this.1, by rw [ht hl]; exact this.2⟩
  notes := h.notes
  own := h.own
  synced := h.synced

theorem hear (h : m.Sound hub t) (ho : m.link = .up → m.Own n) (hn : n.isSnapshot = false) :
    (m.hear n).Sound hub t := by
  by_cases hl : m.link = .up
  · have hbox : (m.hear n).inbox = m.inbox ++ [.item n] := by simp [Member.hear, Link.deliver, hl]
    have hg : (m.hear n).greeting t = m.greeting t := by
      simp [greeting, hbox, List.countP_append, Wire.isOpened]
    have hs : (m.hear n).snapshots = m.snapshots := by
      simp [snapshots, hbox, List.countP_append, hn]
    refine ⟨h.ne_hub, h.ends, fun hl' => ?_, h.entry, h.pending, fun hl' => ?_, ?_,
      fun hl' h' => ?_, h.speech, fun n' hn' => ?_, h.own, h.synced⟩
    · simp [Member.hear, hl, Link.live] at hl'
    · rw [hg]; exact h.once hl'
    · rw [hs]; exact h.single
    · rw [hs] at h'; exact h.sent hl' h'
    · rw [hbox, items_append, List.mem_append] at hn'
      obtain hn' | hn' := hn'
      · exact h.notes n' hn'
      · simp at hn'
        rw [hn']
        exact ho hl
  · have : m.hear n = m := by simp [Member.hear, Link.deliver, hl]
    rwa [this]

/-- What the member does to its own fields without notes and speech. -/
theorem same (h : m.Sound hub t) (hid : m'.id = m.id) (hname : m'.name = m.name)
    (hlink : m'.link = m.link) (hview : m'.view = m.view) (hin : m'.inbox = m.inbox)
    (hout : m'.outbox = m.outbox) : m'.Sound hub t := by
  obtain ⟨i, na, l, ru, v, ty, ma, inb, o⟩ := m
  obtain ⟨i', na', l', ru', v', ty', ma', inb', o'⟩ := m'
  simp only at hid hname hlink hview hin hout
  subst hid hname hlink hview hin hout
  exact ⟨h.ne_hub, h.ends, h.parted, h.entry, h.pending, h.once, h.single, h.sent, h.speech,
    h.notes, h.own, h.synced⟩

theorem greet (h : m.Sound hub t) (hin : m.inbox = .opened :: q) :
    (Member.speak (.hello m.name) { m with inbox := q }).Sound hub t := by
  have hout : ∀ s ∈ items (m.link.send m.outbox (.hello m.name)),
      s ∈ items m.outbox ∨ s = .hello m.name := by
    intro s hs
    unfold Link.send at hs
    split at hs
    · simpa using hs
    · exact .inl hs
  have hcount : (items (m.link.send m.outbox (.hello m.name))).countP Speech.isHello ≤
      (items m.outbox).countP Speech.isHello + 1 := by
    unfold Link.send
    split
    · simp [Speech.isHello]
    · omega
  refine ⟨h.ne_hub, h.ends.send _, fun hl => ?_, h.entry, h.pending, fun hl => ?_, ?_,
    fun hl hs => h.sent hl ?_, fun s hs => ?_, fun n hn => h.notes n ?_, h.own, h.synced⟩
  · simpa [hin] using h.parted hl
  · have := h.once hl
    simp only [greeting, hin, Member.speak, List.countP_cons, Wire.isOpened, if_true] at this ⊢
    omega
  · simpa [snapshots, hin] using h.single
  · simpa [snapshots, hin] using hs
  · obtain hs | rfl := hout s hs
    · exact h.speech s hs
    · rfl
  · rw [hin]
    exact hn

/-- The member speaks: it has its entry. -/
theorem say {ty : List τ} (h : m.Sound hub t) (hs : m.view.synced = true) :
    (Member.speak (.message m.id text) { m with typed := ty }).Sound hub t := by
  have hout : ∀ s ∈ items (m.link.send m.outbox (.message m.id text)),
      s ∈ items m.outbox ∨ (s = .message m.id text ∧ m.link ≠ .gone) := by
    intro s hs
    unfold Link.send at hs
    split at hs
    · next hl =>
      rw [items_append, List.mem_append] at hs
      obtain hs | hs := hs
      · exact .inl hs
      · refine .inr ⟨by simpa using hs, fun hg => ?_⟩
        rw [hg] at hl
        cases hl
    · exact .inl hs
  have hcount : (items (m.link.send m.outbox (.message m.id text))).countP Speech.isHello =
      (items m.outbox).countP Speech.isHello := by
    unfold Link.send
    split
    · simp [Speech.isHello]
    · rfl
  refine ⟨h.ne_hub, h.ends.send _, h.parted, h.entry, h.pending, fun hl => ?_, h.single, h.sent,
    fun s hs' => ?_, h.notes, h.own, h.synced⟩
  · have := h.once hl
    simpa only [greeting, Member.speak, hcount] using this
  · obtain hs' | ⟨rfl, hl⟩ := hout s hs'
    · exact h.speech s hs'
    · refine ⟨rfl, h.sent hl ?_⟩
      simp [snapshots, hs]

theorem hangup (h : m.Sound hub t) (hl : m.link.live = true) :
    ({ m with link := .down, inbox := cut i m.inbox, outbox := cut o m.outbox } :
      Member ι ν τ).Sound hub t := by
  have hpre := items_cut (n := i) (q := m.inbox)
  have hpost := items_cut (n := o) (q := m.outbox)
  have hne : m.link ≠ .gone := by
    intro hg
    rw [hg] at hl
    cases hl
  have hopened : (cut i m.inbox).countP Wire.isOpened ≤ m.inbox.countP Wire.isOpened := by
    rw [cut, List.countP_append]
    exact Nat.add_le_of_le_sub (by simp [Wire.isOpened])
      (by simpa [Wire.isOpened] using (List.take_sublist i m.inbox).countP_le)
  have hhello := hpost.sublist.countP_le (p := Speech.isHello)
  have hsnap : ({ m with inbox := cut i m.inbox } : Member ι ν τ).snapshots ≤ m.snapshots :=
    snapshots_le rfl hpre.sublist
  refine ⟨h.ne_hub, h.ends.cut hl, fun _ => by simp [cut], fun _ => h.entry hne,
    fun hp => (by cases hp), fun _ => ?_, ?_, fun _ hs => h.sent hne ?_,
    fun s hs => h.speech s (hpost.subset hs), fun n hn => h.notes n (hpre.subset hn), h.own,
    h.synced⟩
  · have := h.once hne
    simp only [greeting] at this ⊢
    omega
  · exact Nat.le_trans hsnap h.single
  · exact Nat.lt_of_lt_of_le hs hsnap

theorem loseNote (h : m.Sound hub t) (hin : m.inbox = q ++ .item n :: q') :
    ({ m with inbox := q ++ q' } : Member ι ν τ).Sound hub t := by
  have hopened : (q ++ q').countP Wire.isOpened = m.inbox.countP Wire.isOpened := by
    simp [hin, Wire.isOpened]
  have hsub : (items (q ++ q')).Sublist (items m.inbox) := hin ▸ items_lose
  have hsnap : ({ m with inbox := q ++ q' } : Member ι ν τ).snapshots ≤ m.snapshots :=
    snapshots_le rfl hsub
  refine ⟨h.ne_hub, h.ends, fun hl => ?_, h.entry, h.pending, fun hl => ?_, ?_,
    fun hl hs => h.sent hl ?_, h.speech, fun n hn => h.notes n (hsub.subset hn), h.own, h.synced⟩
  · have := h.parted hl
    rw [hin] at this
    simpa using this
  · have := h.once hl
    simp only [greeting] at this ⊢
    omega
  · exact Nat.le_trans hsnap h.single
  · exact Nat.lt_of_lt_of_le hs hsnap

theorem loseSpeech (h : m.Sound hub t) (hout : m.outbox = out ++ .item s :: out') :
    ({ m with outbox := out ++ out' } : Member ι ν τ).Sound hub t := by
  have hsub : (items (out ++ out')).Sublist (items m.outbox) := hout ▸ items_lose
  have hhello := hsub.countP_le (p := Speech.isHello)
  refine ⟨h.ne_hub, Link.Ends.lose (hout ▸ h.ends), h.parted, h.entry, h.pending, fun hl => ?_,
    h.single, h.sent, fun s hs => h.speech s (hsub.subset hs), h.notes, h.own, h.synced⟩
  have := h.once hl
  simp only [greeting] at this ⊢
  omega

theorem pop (h : m.Sound hub t) (hout : m.outbox = .item s :: out) :
    ({ m with outbox := out } : Member ι ν τ).Sound hub t :=
  h.loseSpeech (show m.outbox = [] ++ .item s :: out from hout)

theorem opened (h : m.Sound hub t) (hout : m.outbox = .opened :: out) :
    ({ m with outbox := out, link := m.link.opened } : Member ι ν τ).Sound hub t := by
  obtain ⟨hends, hne⟩ := Link.Ends.opened (hout ▸ h.ends)
  have hitems : items m.outbox = items out := by rw [hout, items_opened]
  have hlive : m.link.opened.live = m.link.live := by cases m.link <;> rfl
  refine ⟨h.ne_hub, hends, fun hl => h.parted (hlive ▸ hl), fun _ => h.entry hne, fun hp => ?_,
    fun _ => ?_, h.single, fun _ => h.sent hne, fun s hs => h.speech s (hitems ▸ hs), h.notes,
    h.own, h.synced⟩
  · cases hl : m.link <;> simp [hl, Link.opened] at hp
  · have := h.once hne
    simpa [greeting, hitems] using this

theorem closed (h : m.Sound hub t) (hout : m.outbox = .closed :: out) :
    ({ m with outbox := out, link := .gone } : Member ι ν τ).Sound hub t' := by
  obtain ⟨hdown, rfl⟩ := Link.Ends.closed (hout ▸ h.ends)
  exact ⟨h.ne_hub, rfl, fun _ => h.parted (by rw [hdown]; rfl), by simp, by simp, by simp,
    h.single, by simp, by simp, h.notes, h.own, h.synced⟩

theorem join (hne : id ≠ hub) (ht : t id = none) :
    ({ id, name } : Member ι ν τ).Sound hub t where
  ne_hub := hne
  ends := ⟨[], rfl, by simp⟩
  parted h := by cases h
  entry _ := .inl ht
  pending _ := ht
  once _ := by simp [greeting, ht, Wire.isOpened]
  single := by simp [snapshots]
  sent _ h := by simp [snapshots] at h
  speech := by simp
  notes := by simp
  own := .inl rfl
  synced h := by cases h

/-- A member introduces itself, by its own name, before it is in the table. -/
theorem hello (h : m.Sound hub t) (hout : m.outbox = .item (.hello name) :: out) :
    name = m.name ∧ t m.id = none ∧ m.link ≠ .gone := by
  have hends := h.ends
  rw [hout] at hends
  obtain ⟨-, hne, -⟩ := hends.item
  refine ⟨h.speech (.hello name) (by simp [hout]), ?_, hne⟩
  have honce := h.once hne
  cases ht : t m.id with
  | none => rfl
  | some x => simp [greeting, hout, Speech.isHello, ht] at honce

/-- Who is not in the table has been sent no snapshot. -/
theorem snapshots_eq_zero (h : m.Sound hub t) (hl : m.link ≠ .gone) (hnone : t m.id = none) :
    m.snapshots = 0 := by
  by_contra hpos
  have := h.sent hl (by omega)
  rw [hnone] at this
  cases this

variable [DecidableEq ι]

/-- The hub enters the member and sends it the table. -/
theorem enter (h : m.Sound hub t) (hout : m.outbox = .item (.hello name) :: out) :
    (Member.hear (.snapshot m.id (t.insert m.id name))
      { m with outbox := out, mark := i }).Sound hub (t.insert m.id name) := by
  obtain ⟨rfl, hnone, hne⟩ := h.hello hout
  have hself : t.insert m.id m.name m.id = some m.name := insert_self hnone
  have hends := h.ends
  rw [hout] at hends
  obtain ⟨hpend, -, hends⟩ := hends.item
  have honce := h.once hne
  have hzero := h.snapshots_eq_zero hne hnone
  have hgreet : m.inbox.countP Wire.isOpened + (items out).countP Speech.isHello = 0 := by
    simp only [greeting, hout, items_item, List.countP_cons, Speech.isHello, hnone, if_true,
      Option.isSome_none, Bool.toNat_false] at honce
    omega
  have hspeech : ∀ s ∈ items out, m.Speaks (t.insert m.id m.name) s := by
    intro s hs
    have := h.speech s (by simp [hout, hs])
    cases s with
    | hello name => exact this
    | message i text => exact ⟨this.1, hself⟩
  by_cases hl : m.link = .up
  · have hbox : m.link.deliver m.inbox (.snapshot m.id (t.insert m.id m.name)) =
        m.inbox ++ [.item (.snapshot m.id (t.insert m.id m.name))] := by
      simp [Link.deliver, hl]
    refine ⟨h.ne_hub, hends, fun hl' => ?_, fun _ => .inr hself, fun hp => absurd hp hpend,
      fun _ => ?_, ?_, fun _ _ => hself, hspeech, fun n hn => ?_, h.own, h.synced⟩
    · simp [hl, Link.live] at hl'
    · simp only [greeting, Member.hear, hbox, hself, List.countP_append, List.countP_cons,
        List.countP_nil, Wire.isOpened, Bool.false_eq_true, if_false, Option.isSome_some,
        Bool.toNat_true]
      omega
    · simp only [snapshots] at hzero
      simp [snapshots, Member.hear, hbox, Note.isSnapshot]
      omega
    · rw [Member.hear, hbox, items_append, List.mem_append] at hn
      obtain hn | hn := hn
      · exact h.notes n hn
      · simp at hn
        rw [hn]
        exact ⟨rfl, hself⟩
  · have hbox : m.link.deliver m.inbox (.snapshot m.id (t.insert m.id m.name)) = m.inbox := by
      simp [Link.deliver, hl]
    refine ⟨h.ne_hub, hends, fun hl' => ?_, fun _ => .inr hself, fun hp => absurd hp hpend,
      fun _ => ?_, ?_, fun _ _ => hself, hspeech, fun n hn => ?_, h.own, h.synced⟩
    · rw [Member.hear, hbox]
      exact h.parted hl'
    · simp only [greeting, Member.hear, hbox, hself, Option.isSome_some, Bool.toNat_true]
      omega
    · rw [snapshots, Member.hear, hbox]
      exact h.single
    · rw [Member.hear, hbox] at hn
      exact h.notes n hn

/-- A note leaves the member's own entry alone, or makes it. -/
theorem see_own (h : m.Sound hub t) (hn : m.Own n) :
    ((m.view.see m.id n).replica m.id = none ∨ (m.view.see m.id n).replica m.id = some m.name) ∧
      ((m.view.see m.id n).synced = true → (m.view.see m.id n).replica m.id = some m.name) := by
  cases n with
  | snapshot i table =>
    have hsome : (m.view.see m.id (.snapshot i table)).replica m.id = some m.name := by
      show (m.view.replica m.id).or (table m.id) = some m.name
      obtain h' | h' := h.own <;> simp [h', hn.2]
    exact ⟨.inr hsome, fun _ => hsome⟩
  | joined i name =>
    have heq : i = m.id → name = m.name := hn
    by_cases hi : m.id = i
    · have hname := heq hi.symm
      obtain h' | h' := h.own
      · refine ⟨.inr ?_, fun _ => ?_⟩ <;> simp [View.see, Table.insert, hi.symm, h', hname]
      · refine ⟨.inr ?_, fun _ => ?_⟩ <;> simp [View.see, Table.insert, h']
    · simp only [View.see, insert_of_ne hi]
      exact ⟨h.own, h.synced⟩
  | left i =>
    have hne : m.id ≠ i := fun heq => hn heq.symm
    simp only [View.see, erase_of_ne hne]
    exact ⟨h.own, h.synced⟩
  | said i text =>
    rw [see_said_replica, see_synced rfl]
    exact ⟨h.own, h.synced⟩

theorem see (h : m.Sound hub t) (hin : m.inbox = .item n :: q) :
    (Member.see n { m with inbox := q }).Sound hub t := by
  have hown := h.see_own (h.notes n (by simp [hin]))
  have hsnap := snapshots_see hin
  refine ⟨h.ne_hub, h.ends, fun hl => ?_, h.entry, h.pending, fun hl => ?_, ?_,
    fun hl hs => h.sent hl ?_, h.speech, fun n' hn' => h.notes n' ?_, hown.1, hown.2⟩
  · simpa [hin] using h.parted hl
  · have := h.once hl
    simpa [greeting, hin, Wire.isOpened] using this
  · exact Nat.le_trans hsnap h.single
  · omega
  · rw [hin]
    exact List.mem_cons_of_mem _ hn'

end Sound

end Member

namespace Room

structure Core (hub : ι) (hubName : ν) (r : Room κ ι ν τ) : Prop where
  hub_in : r.table hub = some hubName
  owners : ∀ i name, r.table i = some name → i ≠ hub →
    ∃ k m, r.members k = some m ∧ m.link ≠ .gone ∧ m.id = i
  uniq : ∀ k m k' m', r.members k = some m → r.members k' = some m' → m.link ≠ .gone →
    m'.link ≠ .gone → m.id = m'.id → k = k'
  sound : ∀ k m, r.members k = some m → m.Sound hub r.table

namespace Core

theorem record (h : Core hub hubName r) : Core hub hubName (r.record source name text) :=
  ⟨h.hub_in, h.owners, h.uniq, h.sound⟩

/-- A broadcast that is about the entry of nobody who hears it. -/
theorem tell (h : Core hub hubName r) (hn : n.isSnapshot = false)
    (ho : ∀ k m, r.members k = some m → m.link = .up → m.Own n) : Core hub hubName (r.tell n) := by
  refine ⟨h.hub_in, fun i name hi hne => ?_, fun k m k' m' hk hk' hl hl' hid => ?_,
    fun k m hk => ?_⟩
  · obtain ⟨k, m, hk, hl, hid⟩ := h.owners i name hi hne
    exact ⟨k, m.hear n, by simp [Room.tell, hk], hl, hid⟩
  · obtain ⟨m, hm, rfl⟩ := members_tell_cases hk
    obtain ⟨m', hm', rfl⟩ := members_tell_cases hk'
    exact h.uniq k m k' m' hm hm' hl hl' hid
  · obtain ⟨m, hm, rfl⟩ := members_tell_cases hk
    exact (h.sound k m hm).hear (ho k m hm) hn

/-- Whoever else is there has another id. -/
theorem other (h : Core hub hubName r) (hk : r.members k = some m) (hl : m.link ≠ .gone) :
    ∀ k' m', k' ≠ k → r.members k' = some m' → m'.link ≠ .gone → m'.id ≠ m.id :=
  fun k' m' hne hk' hl' hid => hne (h.uniq k' m' k m hk' hk hl' hl hid)

variable [DecidableEq κ]

/-- One member changes, and the table where it is about nobody else. -/
theorem put (h : Core hub hubName r) (hm : m.Sound hub t) (hhub : t hub = some hubName)
    (howners : ∀ i name, t i = some name → i ≠ hub →
      ∃ k' m', (r.put k m).members k' = some m' ∧ m'.link ≠ .gone ∧ m'.id = i)
    (hother : ∀ k' m', k' ≠ k → r.members k' = some m' → m'.link ≠ .gone →
      t m'.id = r.table m'.id ∧ (m.link ≠ .gone → m'.id ≠ m.id)) :
    Core hub hubName ({ r with table := t }.put k m) := by
  refine ⟨hhub, howners, fun k₁ m₁ k₂ m₂ hk₁ hk₂ hl₁ hl₂ hid => ?_, fun k' m' hk => ?_⟩
  · obtain ⟨rfl, rfl⟩ | ⟨hne₁, hr₁⟩ := members_put_cases hk₁ <;>
      obtain ⟨heq₂, rfl⟩ | ⟨hne₂, hr₂⟩ := members_put_cases hk₂
    · exact heq₂.symm
    · exact absurd hid.symm ((hother k₂ m₂ hne₂ hr₂ hl₂).2 hl₁)
    · exact absurd hid ((hother k₁ m₁ hne₁ hr₁ hl₁).2 hl₂)
    · exact h.uniq k₁ m₁ k₂ m₂ hr₁ hr₂ hl₁ hl₂ hid
  · obtain ⟨rfl, rfl⟩ | ⟨hne, hk⟩ := members_put_cases hk
    · exact hm
    · exact (h.sound k' m' hk).congr fun hl => (hother k' m' hne hk hl).1

theorem update (h : Core hub hubName r) (hk : r.members k = some m) (hs : m'.Sound hub r.table)
    (hid : m'.id = m.id) (hl : m'.link = .gone ↔ m.link = .gone) :
    Core hub hubName (r.put k m') := by
  refine h.put hs h.hub_in (fun i name hi hne => ?_) fun k₁ m₁ hne hk₁ hl₁ => ⟨rfl, fun hl' => ?_⟩
  · obtain ⟨k₁, m₁, hk₁, hl₁, hi₁⟩ := h.owners i name hi hne
    by_cases heq : k₁ = k
    · subst heq
      rw [hk] at hk₁
      cases hk₁
      exact ⟨k₁, m', members_put_self, by rwa [Ne, hl], by rw [hid, hi₁]⟩
    · exact ⟨k₁, m₁, by simp [members_put, heq, hk₁], hl₁, hi₁⟩
  · rw [hid]
    exact h.other hk (by rwa [Ne, ← hl]) k₁ m₁ hne hk₁ hl₁

theorem stays (hk : r.members k = some m) (hk' : r.members k' = some m') (hne : m'.id ≠ m.id) :
    ({ r with table := t }.put k m₀).members k' = some m' := by
  have : k' ≠ k := by
    rintro rfl
    rw [hk] at hk'
    cases hk'
    exact hne rfl
  rw [members_put, if_neg this]
  exact hk'

theorem join (h : Core hub hubName r) (hk : r.members k = none) (hne : id ≠ hub)
    (hfree : ∀ k' m', r.members k' = some m' → m'.link ≠ .gone → m'.id ≠ id) :
    Core hub hubName (r.put k { id, name }) := by
  have hnone : r.table id = none := by
    cases ht : r.table id with
    | none => rfl
    | some x =>
      obtain ⟨k', m', hk', hl', hid⟩ := h.owners id x ht hne
      exact absurd hid (hfree k' m' hk' hl')
  refine h.put (.join hne hnone) h.hub_in (fun i x hi hne' => ?_)
    fun k' m' _ hk' hl' => ⟨rfl, fun _ => hfree k' m' hk' hl'⟩
  obtain ⟨k', m', hk', hl', hid⟩ := h.owners i x hi hne'
  refine ⟨k', m', ?_, hl', hid⟩
  have : k' ≠ k := by
    rintro rfl
    rw [hk] at hk'
    cases hk'
  rw [members_put, if_neg this]
  exact hk'

variable [DecidableEq ι]

theorem enter (h : Core hub hubName r) (hk : r.members k = some m)
    (hout : m.outbox = .item (.hello name) :: out) :
    Core hub hubName (r.enter k { m with outbox := out } name) := by
  have hs := h.sound k m hk
  obtain ⟨rfl, hnone, hl⟩ := hs.hello hout
  have hother := h.other hk hl
  refine tell (h.put (hs.enter hout) ?_ (fun i x hi hne => ?_) fun k' m' hne hk' hl' => ⟨?_, ?_⟩)
    rfl fun k' m' hk' hup => ?_
  · rw [insert_of_ne hs.ne_hub.symm]
    exact h.hub_in
  · by_cases heq : i = m.id
    · exact ⟨k, _, members_put_self, hl, heq.symm⟩
    · rw [insert_of_ne heq] at hi
      obtain ⟨k', m', hk', hl', hid⟩ := h.owners i x hi hne
      exact ⟨k', m', stays hk hk' (hid ▸ heq), hl', hid⟩
  · exact insert_of_ne (hother k' m' hne hk' hl')
  · exact fun _ => hother k' m' hne hk' hl'
  · obtain ⟨rfl, rfl⟩ | ⟨hne, hk'⟩ := members_put_cases hk'
    · exact fun _ => rfl
    · exact fun heq => absurd heq.symm (hother k' m' hne hk' (by simp [hup]))

theorem leave (h : Core hub hubName r) (hk : r.members k = some m)
    (hout : m.outbox = .closed :: out) :
    Core hub hubName (r.leave k { m with outbox := out, link := .gone }) := by
  have hs := h.sound k m hk
  have hdown := (Link.Ends.closed (hout ▸ hs.ends)).1
  have hother := h.other hk (by simp [hdown])
  unfold Room.leave
  split
  · next hnone =>
    have hnone : r.table m.id = none := hnone
    refine h.put (hs.closed hout) h.hub_in (fun i x hi hne => ?_)
      fun k' m' _ _ _ => ⟨rfl, fun hg => absurd rfl hg⟩
    obtain ⟨k', m', hk', hl', hid⟩ := h.owners i x hi hne
    have heq : m'.id ≠ m.id := by
      rintro heq
      rw [← heq, hid, hi] at hnone
      cases hnone
    exact ⟨k', m', stays hk hk' heq, hl', hid⟩
  · refine tell (h.put (hs.closed hout) ?_ (fun i x hi hne => ?_)
      fun k' m' hne hk' hl' => ⟨?_, fun hg => absurd rfl hg⟩) rfl fun k' m' hk' hup => ?_
    · rw [erase_of_ne hs.ne_hub.symm]
      exact h.hub_in
    · have heq : i ≠ m.id := by
        rintro rfl
        simp at hi
      rw [erase_of_ne heq] at hi
      obtain ⟨k', m', hk', hl', hid⟩ := h.owners i x hi hne
      exact ⟨k', m', stays hk hk' (hid ▸ heq), hl', hid⟩
    · exact erase_of_ne (hother k' m' hne hk' hl')
    · obtain ⟨rfl, rfl⟩ | ⟨hne, hk'⟩ := members_put_cases hk'
      · cases hup
      · exact fun heq => hother k' m' hne hk' (by simp [hup]) heq.symm

omit [DecidableEq κ] in
theorem starts (h : Starts hub hubName r) : Core hub hubName r := by
  obtain ⟨htable, -, hmembers⟩ := h
  refine ⟨by simp [htable], fun i x hi hne => ?_, fun k m _ _ hk => ?_, fun k m hk => ?_⟩
  · simp [htable, hne] at hi
  · simp [hmembers] at hk
  · simp [hmembers] at hk

theorem step (h : Core hub hubName r) (hs : Step hub r a r') : Core hub hubName r' := by
  cases hs with
  | join hk hne hfree => exact h.join hk hne hfree
  | hubSay => exact (h.tell rfl fun _ _ _ _ => by trivial).record
  | hubOpened hk hout => exact h.update hk ((h.sound _ _ hk).opened hout) rfl Link.opened_eq_gone
  | hubHello hk hout => exact h.enter hk hout
  | hubHear hk hout =>
    have hpop := h.update hk ((h.sound _ _ hk).pop hout) rfl Iff.rfl
    exact (hpop.tell rfl fun _ _ _ _ => by trivial).record
  | hubClosed hk hout => exact h.leave hk hout
  | memberOpened hk _ hin => exact h.update hk ((h.sound _ _ hk).greet hin) rfl Iff.rfl
  | memberNote hk _ hin => exact h.update hk ((h.sound _ _ hk).see hin) rfl Iff.rfl
  | memberSay hk _ hsync => exact h.update hk ((h.sound _ _ hk).say hsync) rfl Iff.rfl
  | memberStop hk =>
    exact h.update hk ((h.sound _ _ hk).same rfl rfl rfl rfl rfl rfl) rfl Iff.rfl
  | hangup hk hl =>
    refine h.update hk ((h.sound _ _ hk).hangup hl) rfl ?_
    constructor
    · simp
    · intro hg
      rw [hg] at hl
      cases hl
  | loseNote hk hin => exact h.update hk ((h.sound _ _ hk).loseNote hin) rfl Iff.rfl
  | loseSpeech hk hout => exact h.update hk ((h.sound _ _ hk).loseSpeech hout) rfl Iff.rfl

end Core

variable [DecidableEq κ] [DecidableEq ι]

theorem core (h : (system hub hubName).Reach allowed r) : Core hub hubName r :=
  h.invariant (fun _ => .starts) fun _ _ _ _ h _ hs => h.step hs

end Room

end ENetChat

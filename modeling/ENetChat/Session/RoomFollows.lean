import ENetChat.Session.RoomLaws

/-!
# What a member has of the room

When nothing is lost on a connection that stands, what a connected member will
have made of the notes under way is a part of the table until it is entered,
and then the table and what others have said since (`Follows`); what it has
typed since is what it has said and will say (`Spoken`). A note that is seen
under `g` finds its id (`Safe g`) if every broadcast is made to members that
know the id, under `g` (`Informs`).
-/

namespace ENetChat

open Channel Replica

variable {κ ι ν τ : Type} [DecidableEq κ] {r r' : Room κ ι ν τ} {k k' : κ}
  {m m' : Member ι ν τ} {n : Note ι ν τ} {hub id : ι} {hubName name : ν} {t t' : Table ι ν}
  {log : List (Option κ × ν × τ)} {text : τ} {source : Option κ} {g : View ι ν τ → Prop}

namespace Member

/-- The messages that the hub has still to hear. -/
def messages (m : Member ι ν τ) : List τ := (items m.outbox).filterMap Speech.text?

/-- Connected, as the hub sees it, and running. -/
def Here (m : Member ι ν τ) : Prop := m.link = .up ∧ m.running = true

@[simp] theorem messages_hear : (m.hear n).messages = m.messages := rfl

-- ---------------------------------------------------------------------------
-- The log
-- ---------------------------------------------------------------------------

theorem others_concat : others k (log ++ [(source, name, text)]) =
    others k log ++ if source = some k then [] else [(name, text)] := by
  by_cases h : source = some k <;> simp [others, List.filter_append, h]

theorem said_concat : said k (log ++ [(source, name, text)]) =
    said k log ++ if source = some k then [text] else [] := by
  by_cases h : source = some k <;> simp [said, List.filter_append, h]

-- ---------------------------------------------------------------------------
-- Speaking
-- ---------------------------------------------------------------------------

def Spoken (t : Table ι ν) (log : List (Option κ × ν × τ)) (k : κ) (m : Member ι ν τ) : Prop :=
  m.Here → t m.id ≠ none →
    (if m.view.synced then m.typed else []) = said k (log.drop m.mark) ++ m.messages

namespace Spoken

section Hear

variable (h : m.Spoken t log k)

include h

theorem other (hmark : m.Here → t m.id ≠ none → m.mark ≤ log.length)
    (hme : m.link = .up → source ≠ some k) :
    (m.hear n).Spoken t (log ++ [(source, name, text)]) k := by
  intro h' ht
  rw [messages_hear, hear_mark, List.drop_append_of_le_length (hmark h' ht), said_concat,
    if_neg (hme h'.1), List.append_nil]
  exact h h' ht

theorem own (hmark : m.Here → t m.id ≠ none → m.mark ≤ log.length)
    (hout : m.outbox = .item (.message id text) :: out) :
    (Member.hear n { m with outbox := out }).Spoken t (log ++ [(some k, name, text)]) k := by
  intro h' ht
  rw [messages_hear, hear_mark, List.drop_append_of_le_length (hmark h' ht), said_concat,
    if_pos rfl, List.append_assoc]
  refine (h h' ht).trans ?_
  simp [messages, hout]

theorem table (ht' : m.link = .up → t' m.id = t m.id) : (m.hear n).Spoken t' log k := by
  intro h' ht
  have ht : t' m.id ≠ none := ht
  rw [ht' h'.1] at ht
  exact h h' ht

theorem say (hid : m.view.synced = true) :
    (Member.speak (.message m.id text) { m with typed := m.typed ++ [text] }).Spoken t log k := by
  intro h' ht
  have hup : m.link = .up := h'.1
  have := h h' ht
  simp only [hid, if_true] at this
  simp [messages, Member.speak, Link.send, Link.live, hup, hid, this]

theorem greet :
    (Member.speak (.hello m.name) { m with inbox := q }).Spoken t log k := by
  intro h' ht
  have hup : m.link = .up := h'.1
  have := h h' ht
  simpa [messages, Member.speak, Link.send, Link.live, hup, List.filterMap_cons] using this

end Hear

end Spoken

theorem Sound.silent (h : m.Sound hub t) (hnone : t m.id = none) : m.messages = [] := by
  rw [messages, List.filterMap_eq_nil_iff]
  intro s hs
  cases s with
  | hello name => rfl
  | message i text =>
    have := (h.speech _ hs).2
    rw [hnone] at this
    cases this

theorem Sound.unsynced (h : m.Sound hub t) (hl : m.link ≠ .gone) (hnone : t m.id = none) :
    m.view.synced = false := by
  have := h.snapshots_eq_zero hl hnone
  cases hv : m.view.synced with
  | false => rfl
  | true => simp [snapshots, hv] at this

theorem Spoken.opened (h : m.Spoken t log k) (hpend : m.link = .pending → t m.id = none)
    (hout : m.outbox = .opened :: out) :
    ({ m with outbox := out, link := m.link.opened } : Member ι ν τ).Spoken t log k := by
  intro h' ht
  have hl : m.link = .up := by
    cases hm : m.link with
    | pending => exact absurd (hpend hm) ht
    | up => rfl
    | _ => simp [Here, hm, Link.opened] at h'
  have := h ⟨hl, h'.2⟩ ht
  rwa [messages, hout, items_opened] at this

/-- Of a member that is just entered there is nothing to count. -/
theorem Spoken.enter (h : m.Sound hub t) (hout : m.outbox = .item (.hello name) :: out) :
    ((Member.hear n { m with outbox := out, mark := log.length }).hear n').Spoken t' log k := by
  obtain ⟨-, hnone, hl⟩ := h.hello hout
  have hsilent := h.silent hnone
  simp only [messages, hout, items_item, List.filterMap_cons, Speech.text?_hello] at hsilent
  intro _ _
  show (if m.view.synced then m.typed else []) =
    ENetChat.said k (log.drop log.length) ++ (items out).filterMap Speech.text?
  simp [h.unsynced hl hnone, hsilent, ENetChat.said]

-- ---------------------------------------------------------------------------
-- Following
-- ---------------------------------------------------------------------------

/-- The member has an id, or has news of it under way. -/
def Told (m : Member ι ν τ) (i : ι) : Prop := m.view.Told (items m.inbox) i

theorem told_hear (hl : m.link = .up) (h : (m.hear n).Told id) :
    m.Told id ∨ ∃ name, n = .joined id name := by
  rw [hear_up hl] at h
  simpa [Told, told_concat] using h

variable [DecidableEq ι]

/-- What the member will have made of the notes under way. -/
def coming (m : Member ι ν τ) : View ι ν τ := m.view.play m.id (items m.inbox)

structure Follows (t : Table ι ν) (log : List (Option κ × ν × τ)) (k : κ) (m : Member ι ν τ) :
    Prop where
  fresh : m.link = .pending → m.view = {} ∧ items m.inbox = []
  outside : m.Here → t m.id = none → m.coming.replica.Within t
  told : m.Here → t m.id = none → ∀ i, t i ≠ none → m.Told i → m.coming.replica i ≠ none
  synced : m.Here → t m.id ≠ none → m.coming.synced = true
  inside : m.Here → t m.id ≠ none → m.coming.replica = t
  mark : m.Here → t m.id ≠ none → m.mark ≤ log.length
  shown : m.Here → t m.id ≠ none → m.coming.shown = others k (log.drop m.mark)

theorem coming_hear (hl : m.link = .up) : (m.hear n).coming = m.coming.see m.id n := by
  rw [hear_up hl]
  simp [coming, play_concat]

namespace Follows

theorem of_not_up (hl : m.link ≠ .up) (hp : m.link ≠ .pending) : m.Follows t log k :=
  ⟨fun h => absurd h hp, fun h => absurd h.1 hl, fun h => absurd h.1 hl, fun h => absurd h.1 hl,
    fun h => absurd h.1 hl, fun h => absurd h.1 hl, fun h => absurd h.1 hl⟩

/-- What is under way and what is seen of it may change places. -/
theorem same (h : m.Follows t log k) (hid : m'.id = m.id) (hl : m'.link = m.link)
    (hrun : m'.running = true → m.running = true) (hmark : m'.mark = m.mark)
    (hcoming : m'.coming = m.coming) (htold : m.Here → t m.id = none → ∀ i, m'.Told i → m.Told i)
    (hfresh : m.link = .pending → items m.inbox = [] → m'.view = m.view ∧ items m'.inbox = []) :
    m'.Follows t log k := by
  have here : m'.Here → m.Here := fun h' => ⟨hl ▸ h'.1, hrun h'.2⟩
  refine ⟨fun hp => ?_, ?_, ?_, ?_, ?_, ?_, ?_⟩
  · have hp' := h.fresh (hl ▸ hp)
    have := hfresh (hl ▸ hp) hp'.2
    exact ⟨this.1.trans hp'.1, this.2⟩
  all_goals rw [hid]; try rw [hcoming]
  · exact fun h' => h.outside (here h')
  · exact fun h' ht i hi hi' => h.told (here h') ht i hi (htold (here h') ht i hi')
  · exact fun h' => h.synced (here h')
  · exact fun h' => h.inside (here h')
  · rw [hmark]; exact fun h' => h.mark (here h')
  · rw [hmark]; exact fun h' => h.shown (here h')

theorem opened (h : m.Follows t log k) (hpend : m.link = .pending → t m.id = none) :
    ({ m with outbox := out, link := m.link.opened } : Member ι ν τ).Follows t log k := by
  by_cases hl : m.link = .pending
  · obtain ⟨hview, hin⟩ := h.fresh hl
    have hnone := hpend hl
    refine ⟨fun hp => ?_, fun _ _ i x hi => ?_, fun _ _ i _ hi => ?_, fun _ ht => absurd hnone ht,
      fun _ ht => absurd hnone ht, fun _ ht => absurd hnone ht, fun _ ht => absurd hnone ht⟩
    · simp [hl, Link.opened] at hp
    · simp [coming, hview, hin] at hi
    · simp [Told, View.Told, hview, hin] at hi
  · have : m.link.opened = m.link := by
      cases hm : m.link with
      | pending => exact absurd hm hl
      | _ => rfl
    rw [this]
    exact h.same rfl rfl (fun h => h) rfl rfl (fun _ _ _ h => h) fun hp => absurd hp hl

section Hear

variable (h : m.Follows t log k)

include h

theorem said (hname : t id = some name) (hme : m.link = .up → (source = some k ↔ id = m.id)) :
    (m.hear (.said id text)).Follows t (log ++ [(source, name, text)]) k := by
  by_cases hl : m.link = .up
  · have hc := coming_hear (n := .said id text) hl
    refine ⟨fun hp => ?_, fun h' ht => ?_, fun h' ht i hi hi' => ?_, fun h' ht => ?_,
      fun h' ht => ?_, fun h' ht => ?_, fun h' ht => ?_⟩
    · simp [hl] at hp
    · rw [hc, see_said_replica]
      exact h.outside h' ht
    · rw [hc, see_said_replica]
      exact h.told h' ht i hi ((told_hear hl hi').resolve_right (by simp))
    · rw [hc, see_synced rfl]
      exact h.synced h' ht
    · rw [hc, see_said_replica]
      exact h.inside h' ht
    · simpa using Nat.le_succ_of_le (h.mark h' ht)
    · rw [hc, hear_mark, List.drop_append_of_le_length (h.mark h' ht), others_concat,
        ← h.shown h' ht]
      simp only [View.see, h.synced h' ht, true_and, h.inside h' ht, hname, hme hl]
      split <;> simp
  · rw [hear_not_up hl]
    exact ⟨h.fresh, fun h' => absurd h'.1 hl, fun h' => absurd h'.1 hl, fun h' => absurd h'.1 hl,
      fun h' => absurd h'.1 hl, fun h' => absurd h'.1 hl, fun h' => absurd h'.1 hl⟩

theorem joined (hnew : t id = none) (hne : m.link = .up → id ≠ m.id) :
    (m.hear (.joined id name)).Follows (t.insert id name) log k := by
  by_cases hl : m.link = .up
  · have hc := coming_hear (n := .joined id name) hl
    have ht' : t.insert id name m.id = t m.id := insert_of_ne (hne hl).symm
    refine ⟨fun hp => ?_, fun h' ht => ?_, fun h' ht i hi hi' => ?_, fun h' ht => ?_,
      fun h' ht => ?_, fun h' ht => ?_, fun h' ht => ?_⟩ <;> simp only [hear_id, ht'] at *
    · simp [hl] at hp
    · rw [hc]
      exact (h.outside h' ht).insert hnew
    · rw [hc]
      by_cases heq : i = id
      · simp [View.see, Table.insert, heq]
      · simp only [View.see, insert_of_ne heq] at hi ⊢
        refine h.told h' ht i hi ((told_hear hl hi').resolve_right ?_)
        simp [Ne.symm heq]
    · rw [hc, see_synced rfl]
      exact h.synced h' ht
    · rw [hc]
      simp only [View.see, h.inside h' ht]
    · exact h.mark h' ht
    · rw [hc]
      exact h.shown h' ht
  · rw [hear_not_up hl]
    exact ⟨h.fresh, fun h' => absurd h'.1 hl, fun h' => absurd h'.1 hl, fun h' => absurd h'.1 hl,
      fun h' => absurd h'.1 hl, fun h' => absurd h'.1 hl, fun h' => absurd h'.1 hl⟩

theorem left (hne : m.link = .up → id ≠ m.id) :
    (m.hear (.left id)).Follows (t.erase id) log k := by
  by_cases hl : m.link = .up
  · have hc := coming_hear (n := .left id) hl
    have ht' : t.erase id m.id = t m.id := erase_of_ne (hne hl).symm
    refine ⟨fun hp => ?_, fun h' ht => ?_, fun h' ht i hi hi' => ?_, fun h' ht => ?_,
      fun h' ht => ?_, fun h' ht => ?_, fun h' ht => ?_⟩ <;> simp only [hear_id, ht'] at *
    · simp [hl] at hp
    · rw [hc]
      exact (h.outside h' ht).erase
    · rw [hc]
      have heq : i ≠ id := by
        rintro rfl
        simp at hi
      simp only [View.see, erase_of_ne heq] at hi ⊢
      exact h.told h' ht i hi ((told_hear hl hi').resolve_right (by simp))
    · rw [hc, see_synced rfl]
      exact h.synced h' ht
    · rw [hc]
      simp only [View.see, h.inside h' ht]
    · exact h.mark h' ht
    · rw [hc]
      exact h.shown h' ht
  · rw [hear_not_up hl]
    exact ⟨h.fresh, fun h' => absurd h'.1 hl, fun h' => absurd h'.1 hl, fun h' => absurd h'.1 hl,
      fun h' => absurd h'.1 hl, fun h' => absurd h'.1 hl, fun h' => absurd h'.1 hl⟩

/-- A snapshot, and its own news: the member has the table. -/
theorem enter (hnew : t m.id = none) (hpend : m.link ≠ .pending) :
    (((Member.hear (.snapshot m.id (t.insert m.id name))
      { m with outbox := out, mark := log.length }).hear (.joined m.id name))).Follows
        (t.insert m.id name) log k := by
  by_cases hl : m.link = .up
  · have hc : (((Member.hear (.snapshot m.id (t.insert m.id name))
        { m with outbox := out, mark := log.length }).hear (.joined m.id name))).coming =
        (m.coming.see m.id (.snapshot m.id (t.insert m.id name))).see m.id (.joined m.id name) := by
      rw [coming_hear (by exact hl), coming_hear (by exact hl)]
      rfl
    have hself : t.insert m.id name m.id ≠ none := by simp [insert_self hnew]
    have hwithin : m.Here → m.coming.replica.Within (t.insert m.id name) := by
      intro h' i x hi
      have := h.outside h' hnew i x hi
      rw [insert_of_ne (by rintro rfl; rw [hnew] at this; cases this)]
      exact this
    refine ⟨fun hp => ?_, fun _ ht => absurd ht hself, fun _ ht => absurd ht hself, fun h' ht => ?_,
      fun h' ht => ?_, fun h' ht => Nat.le_refl _, fun h' ht => ?_⟩
    · simp [hl] at hp
    · rw [hc]
      rfl
    · rw [hc]
      simp only [View.see, Table.or_of_within (hwithin h'), insert_of_some hself]
    · rw [hc]
      simp [View.see, others]
  · exact of_not_up hl hpend

end Hear

end Follows

def SafeNotes (g : View ι ν τ → Prop) (m : Member ι ν τ) : Prop :=
  m.running = true → View.Safe g m.id m.view (items m.inbox)

theorem SafeNotes.hear (h : m.SafeNotes g) (hn : m.Here → g m.coming → m.coming.Finds n) :
    (m.hear n).SafeNotes g := by
  by_cases hl : m.link = .up
  · intro hrun
    rw [hear_up hl, items_append]
    exact safe_concat.mpr ⟨h hrun, hn ⟨hl, hrun⟩⟩
  · rwa [hear_not_up hl]

theorem SafeNotes.mono (h : m.SafeNotes g) (hid : m'.id = m.id) (hview : m'.view = m.view)
    (hrun : m'.running = true → m.running = true) (hin : items m'.inbox <+: items m.inbox) :
    m'.SafeNotes g := by
  intro hr
  have hsafe := h (hrun hr)
  obtain ⟨rest, hrest⟩ := hin
  rw [← hrest, safe_append] at hsafe
  rw [hid, hview]
  exact hsafe.1

theorem SafeNotes.see (h : m.SafeNotes g) (hin : m.inbox = .item n :: q) :
    (Member.see n { m with inbox := q }).SafeNotes g := by
  intro hrun
  have := h hrun
  rw [hin] at this
  exact this.2

theorem coming_see (hin : m.inbox = .item n :: q) :
    (Member.see n { m with inbox := q }).coming = m.coming := by
  simp [coming, hin, Member.see]

theorem Sound.told_see (h : m.Sound hub t) (hin : m.inbox = .item n :: q) (hh : m.Here)
    (hnone : t m.id = none) (hi : (Member.see n { m with inbox := q }).Told i) : m.Told i := by
  have hzero := h.snapshots_eq_zero (by simp [hh.1]) hnone
  have hn : n.isSnapshot = false := by
    cases hs : n.isSnapshot with
    | false => rfl
    | true => simp [snapshots, hin, hs] at hzero
  have := Told.of_see hi hn
  rwa [Member.Told, hin]

/-- What is typed before the snapshot is seen does not count. -/
theorem Spoken.see (h : m.Spoken t log k) (hs : m.Sound hub t) (hin : m.inbox = .item n :: q) :
    (Member.see n { m with inbox := q }).Spoken t log k := by
  intro h' ht
  refine Eq.trans ?_ (h h' ht)
  cases hn : n.isSnapshot with
  | true =>
    obtain ⟨i, table, rfl⟩ := Note.eq_snapshot hn
    have hsingle := hs.single
    have hnot : m.view.synced = false := by
      cases hv : m.view.synced with
      | false => rfl
      | true => simp [snapshots, hin, hv, Note.isSnapshot] at hsingle
    simp [Member.see, View.see, hnot]
  | false =>
    have hty : (Member.see n { m with inbox := q }).typed = m.typed := by
      cases n with
      | snapshot => cases hn
      | _ => rfl
    rw [hty]
    simp only [Member.see, see_synced hn]

end Member

-- ---------------------------------------------------------------------------
-- Rooms
-- ---------------------------------------------------------------------------

namespace Room

variable [DecidableEq ι]

structure Followed (g : View ι ν τ → Prop) (r : Room κ ι ν τ) : Prop where
  follows : r.All (Member.Follows r.table r.log)
  spoken : r.All (Member.Spoken r.table r.log)
  safe : r.All fun _ => Member.SafeNotes g

/-- Whoever is connected and not in the table yet has been told of `i`, under `g`. -/
def Informed (g : View ι ν τ → Prop) (r : Room κ ι ν τ) (i : ι) : Prop :=
  r.All fun _ m => m.Here → r.table m.id = none → g m.coming → m.Told i

/-- A broadcast about an id is made to members that are informed. -/
def Informs (hub : ι) (g : View ι ν τ → Prop) (r : Room κ ι ν τ) : Act κ ι ν τ → Prop
  | .hubSay _ => r.Informed g hub
  | .hubHear k => ∀ m, r.members k = some m → r.Informed g m.id
  | .hubClosed k => ∀ m, r.members k = some m → r.table m.id ≠ none → r.Informed g m.id
  | _ => True

/-- A member that follows the table, or is informed, finds what is in the table. -/
theorem Informed.finds (h : r.Informed g id) (hf : r.All (Member.Follows r.table r.log))
    (ht : r.table id ≠ none) (hk : r.members k = some m) (hh : m.Here) (hg : g m.coming) :
    m.coming.replica id ≠ none := by
  by_cases hm : r.table m.id = none
  · exact (hf k m hk).told hh hm id ht (h k m hk hh hm hg)
  · rwa [(hf k m hk).inside hh hm]

theorem Informed.put_pop (h : r.Informed g id) (hk : r.members k = some m) :
    (r.put k { m with outbox := out }).Informed g id :=
  All.put h (h k m hk)

namespace Followed

theorem put (h : Followed g r) (hf : m.Follows r.table r.log k) (hs : m.Spoken r.table r.log k)
    (hsafe : m.SafeNotes g) : Followed g (r.put k m) :=
  ⟨h.follows.put hf, h.spoken.put hs, h.safe.put hsafe⟩

theorem tell_said (hf : r.All (Member.Follows r.table r.log))
    (hsafe : r.All fun _ => Member.SafeNotes g)
    (hname : r.table id = some name) (hi : r.Informed g id)
    (hme : r.All fun k m => m.link = .up → (source = some k ↔ id = m.id))
    (hspoken : r.All fun k m =>
      (m.hear (.said id text)).Spoken r.table (r.log ++ [(source, name, text)]) k) :
    Followed g ((r.tell (.said id text)).record source name text) := by
  refine ⟨All.tell fun k m hk => ?_, All.tell hspoken, All.tell fun k m hk => ?_⟩
  · exact (hf k m hk).said hname (hme k m hk)
  · exact (hsafe k m hk).hear (hi.finds hf (by simp [hname]) hk)

theorem tell_left (h : Followed g r) (hin : r.table id ≠ none) (hi : r.Informed g id)
    (hne : r.All fun _ m => m.link = .up → id ≠ m.id) :
    Followed g ({ r with table := r.table.erase id }.tell (.left id)) := by
  refine ⟨All.tell fun k m hk => ?_, All.tell fun k m hk => ?_, All.tell fun k m hk => ?_⟩
  · exact (h.follows k m hk).left (hne k m hk)
  · exact (h.spoken k m hk).table fun hl => erase_of_ne (hne k m hk hl).symm
  · exact (h.safe k m hk).hear (hi.finds h.follows hin hk)

theorem hubSay (h : Followed g r) (hc : Core hub hubName r) (hname : r.table hub = some name)
    (hi : r.Informed g hub) :
    Followed g ((r.tell (.said hub text)).record none name text) := by
  refine tell_said h.follows h.safe hname hi (fun k m hk _ => ?_) fun k m hk => ?_
  · simpa using (hc.sound k m hk).ne_hub.symm
  · exact (h.spoken k m hk).other (h.follows k m hk).mark fun _ => by simp

theorem hubHear (h : Followed g r) (hc : Core hub hubName r) (hk : r.members k = some m)
    (hout : m.outbox = .item (.message id text) :: out) (hname : r.table id = some name)
    (hi : r.Informed g m.id) :
    Followed g (((r.put k { m with outbox := out }).tell (.said id text)).record (some k) name
      text) := by
  have hs := hc.sound k m hk
  obtain ⟨rfl, -⟩ := hs.speech (.message id text) (by simp [hout])
  have hl : m.link ≠ .gone := by
    have hends := hs.ends
    rw [hout] at hends
    exact hends.item.2.1
  have hfol : ({ m with outbox := out } : Member ι ν τ).Follows r.table r.log k :=
    (h.follows k m hk).same rfl rfl (fun h => h) rfl rfl (fun _ _ _ h => h) fun _ h => ⟨rfl, h⟩
  refine tell_said (h.follows.put hfol) (h.safe.put (h.safe k m hk)) hname (hi.put_pop hk)
    (fun k' m' hk' hl' => ?_) fun k' m' hk' => ?_
  · obtain ⟨rfl, rfl⟩ | ⟨hne, hk'⟩ := members_put_cases hk'
    · simp
    · simp [hne.symm, (hc.other hk hl k' m' hne hk' (by simp [hl'])).symm]
  · obtain ⟨rfl, rfl⟩ | ⟨hne, hk'⟩ := members_put_cases hk'
    · exact (h.spoken _ _ hk).own (h.follows _ _ hk).mark hout
    · exact (h.spoken k' m' hk').other (h.follows k' m' hk').mark fun _ => by simp [hne.symm]

theorem enter (h : Followed g r) (hc : Core hub hubName r) (hk : r.members k = some m)
    (hout : m.outbox = .item (.hello name) :: out) :
    Followed g (r.enter k { m with outbox := out } name) := by
  have hs := hc.sound k m hk
  obtain ⟨-, hnone, hl⟩ := hs.hello hout
  have hpend : m.link ≠ .pending := by
    have hends := hs.ends
    rw [hout] at hends
    exact hends.item.1
  have hother := hc.other hk hl
  refine ⟨All.tell fun k' m' hk' => ?_, All.tell fun k' m' hk' => ?_, All.tell fun k' m' hk' => ?_⟩
    <;> obtain ⟨rfl, rfl⟩ | ⟨hne, hk'⟩ := members_put_cases hk'
  · exact (h.follows _ _ hk).enter hnone hpend
  · exact (h.follows k' m' hk').joined hnone
      fun hl' => (hother k' m' hne hk' (by simp [hl'])).symm
  · exact Member.Spoken.enter (m := m) hs hout
  · exact (h.spoken k' m' hk').table
      fun hl' => insert_of_ne (hother k' m' hne hk' (by simp [hl']))
  · exact ((h.safe _ _ hk).hear fun _ _ => by trivial).hear fun _ _ => by trivial
  · exact (h.safe k' m' hk').hear fun _ _ => by trivial

theorem leave (h : Followed g r) (hc : Core hub hubName r) (hk : r.members k = some m)
    (hout : m.outbox = .closed :: out) (hi : r.table m.id ≠ none → r.Informed g m.id) :
    Followed g (r.leave k { m with outbox := out, link := .gone }) := by
  have hdown := (Link.Ends.closed (hout ▸ (hc.sound k m hk).ends)).1
  have hput : Followed g (r.put k { m with outbox := out, link := .gone }) :=
    h.put (.of_not_up (by simp) (by simp)) (fun h' => by cases h'.1) (h.safe k m hk)
  unfold Room.leave
  split
  · exact hput
  · next hin =>
    refine hput.tell_left hin (All.put (hi hin) fun h' => by cases h'.1) fun k' m' hk' hl' => ?_
    obtain ⟨rfl, rfl⟩ | ⟨hne, hk'⟩ := members_put_cases hk'
    · cases hl'
    · exact (hc.other hk (by simp [hdown]) k' m' hne hk' (by simp [hl'])).symm

theorem step (h : Followed g r) (hc : Core hub hubName r) (hs : Step hub r a r')
    (hloss : a.lossless) (hi : Informs hub g r a) : Followed g r' := by
  cases hs with
  | join hk hne hfree =>
    refine h.put ⟨fun _ => ⟨rfl, rfl⟩, ?_, ?_, ?_, ?_, ?_, ?_⟩ ?_ fun _ => trivial <;>
      exact fun h' => by cases h'.1
  | hubSay hname => exact h.hubSay hc hname hi
  | hubOpened hk hout =>
    have hpend := (hc.sound _ _ hk).pending
    exact h.put ((h.follows _ _ hk).opened hpend) ((h.spoken _ _ hk).opened hpend hout)
      ((h.safe _ _ hk).mono rfl rfl (fun h => h) List.prefix_rfl)
  | hubHello hk hout => exact h.enter hc hk hout
  | hubHear hk hout hname => exact h.hubHear hc hk hout hname (hi _ hk)
  | hubClosed hk hout => exact h.leave hc hk hout (hi _ hk)
  | memberOpened hk _ hin =>
    have hsame := congrArg items hin
    rw [items_opened] at hsame
    refine h.put ((h.follows _ _ hk).same rfl rfl (fun h => h) rfl ?_ (fun _ _ i hi => ?_)
      fun _ hnil => ⟨rfl, ?_⟩) (h.spoken _ _ hk).greet
        ((h.safe _ _ hk).mono rfl rfl (fun h => h) ?_)
    · simp [Member.coming, hsame]
    · rwa [Member.Told, hsame]
    · exact hsame ▸ hnil
    · exact hsame ▸ List.prefix_rfl
  | memberNote hk _ hin =>
    refine h.put ((h.follows _ _ hk).same rfl rfl (fun h => h) rfl (Member.coming_see hin)
      (fun hh ht i => (hc.sound _ _ hk).told_see hin hh ht) fun _ hnil => ?_)
      ((h.spoken _ _ hk).see (hc.sound _ _ hk) hin) ((h.safe _ _ hk).see hin)
    simp [hin] at hnil
  | memberSay hk _ hsync =>
    exact h.put ((h.follows _ _ hk).same rfl rfl (fun h => h) rfl rfl (fun _ _ _ h => h)
      fun _ h => ⟨rfl, h⟩) ((h.spoken _ _ hk).say hsync)
      ((h.safe _ _ hk).mono rfl rfl (fun h => h) List.prefix_rfl)
  | memberStop hk =>
    exact h.put ((h.follows _ _ hk).same rfl rfl (fun h => by cases h) rfl rfl (fun _ _ _ h => h)
      fun _ h => ⟨rfl, h⟩) (fun h' => by cases h'.2) fun hrun => by cases hrun
  | hangup hk hl =>
    exact h.put (.of_not_up (by simp) (by simp)) (fun h' => by cases h'.1)
      ((h.safe _ _ hk).mono rfl rfl (fun h => h) items_cut)
  | loseNote hk hin => cases hloss
  | loseSpeech hk hout => cases hloss

end Followed

/-- Without losses, with informed broadcasts. -/
theorem followed (h : (system hub hubName).Reach
      (fun r a => a.lossless ∧ Informs (κ := κ) (τ := τ) hub g r a) r) : Followed g r := by
  refine Transition.System.Reach.invariant (fun r hr => ?_) (fun r a r' hr h ha hs => ?_) h
  · obtain ⟨-, -, hmembers⟩ := hr
    refine ⟨?_, ?_, ?_⟩ <;> intro k m hk <;> simp [hmembers] at hk
  · exact h.step (core hr) hs ha.1 ha.2

omit [DecidableEq κ] in
theorem Core.informed (h : Core hub hubName r) (i : ι) :
    r.Informed (fun v => v.synced = true) i := by
  intro k m hk hh hnone hsync
  have hl : m.link ≠ .gone := by simp [hh.1]
  have hzero := (h.sound k m hk).snapshots_eq_zero hl hnone
  obtain hv | ⟨n, hn, hsnap⟩ := play_synced.mp hsync
  · simp [Member.snapshots, hv] at hzero
  · have := List.countP_pos_iff.mpr ⟨n, hn, hsnap⟩
    simp only [Member.snapshots] at hzero
    omega

/-- A member that has seen its snapshot needs no information. -/
theorem followed_synced (h : (system hub hubName).Reach
      (fun (_ : Room κ ι ν τ) a => a.lossless) r) : Followed (fun v => v.synced = true) r := by
  refine followed (h.mono fun r a hr ha => ⟨ha, ?_⟩)
  have hc := core hr
  cases a with
  | hubSay => exact hc.informed hub
  | hubHear => exact fun m _ => hc.informed m.id
  | hubClosed => exact fun m _ _ => hc.informed m.id
  | _ => trivial

-- ---------------------------------------------------------------------------
-- Introductions
-- ---------------------------------------------------------------------------

/-- What is lost is no introduction and no snapshot of a connected member. -/
def Spares (r : Room κ ι ν τ) : Act κ ι ν τ → Prop
  | .loseNote k n => ∀ m, r.members k = some m → m.link.live = true → m.running = true →
      n.isSnapshot = false
  | .loseSpeech k s => ∀ m, r.members k = some m → m.link.live = true → m.running = true →
      s.isHello = false
  | _ => True

end Room

namespace Member

/-- The member's introduction is to come, under way, or answered. -/
def Greeted (m : Member ι ν τ) : Prop :=
  m.link.live = true → m.running = true →
    .opened ∈ m.inbox ∨ (∃ s ∈ items m.outbox, s.isHello = true) ∨ 0 < m.snapshots

theorem Greeted.mono (h : m.Greeted) (hlive : m'.link.live = true → m.link.live = true)
    (hrun : m'.running = true → m.running = true)
    (hopened : .opened ∈ m.inbox → .opened ∈ m'.inbox)
    (hhello : ∀ s ∈ items m.outbox, s.isHello = true → s ∈ items m'.outbox)
    (hsnap : m.snapshots ≤ m'.snapshots) : m'.Greeted := by
  intro hl hr
  obtain h | ⟨s, hs, hh⟩ | h := h (hlive hl) (hrun hr)
  · exact .inl (hopened h)
  · exact .inr (.inl ⟨s, hhello s hs hh, hh⟩)
  · exact .inr (.inr (Nat.lt_of_lt_of_le h hsnap))

theorem snapshots_hear : m.snapshots ≤ (m.hear n).snapshots := by
  by_cases hl : m.link = .up
  · rw [hear_up hl]
    simp only [snapshots, items_append, List.countP_append]
    omega
  · exact Nat.le_of_eq (by rw [hear_not_up hl])

theorem Greeted.hear (h : m.Greeted) : (m.hear n).Greeted := by
  refine h.mono (fun h => h) (fun h => h) (fun ho => ?_) (fun _ hs _ => hs) snapshots_hear
  simp only [Member.hear, Link.deliver]
  split
  · exact List.mem_append_left _ ho
  · exact ho

theorem Greeted.greet :
    (Member.speak (.hello m.name) { m with inbox := q }).Greeted := by
  intro hl _
  have hl : m.link.live = true := hl
  exact .inr (.inl ⟨.hello m.name, by simp [Member.speak, Link.send, hl], rfl⟩)

theorem Greeted.enter (hl : m.link ≠ .pending) :
    (Member.hear (.snapshot m.id t) m).Greeted := by
  intro hlive _
  have hup : m.link = .up := by
    cases hm : m.link <;> simp [hm, Link.live] at hlive hl ⊢
  refine .inr (.inr ?_)
  rw [hear_up hup]
  simp only [snapshots, items_append, items_item, List.countP_append, List.countP_cons,
    Note.isSnapshot, if_true]
  omega

variable [DecidableEq ι]

theorem Greeted.see (h : m.Greeted) (hin : m.inbox = .item n :: q) :
    (Member.see n { m with inbox := q }).Greeted := by
  cases hn : n.isSnapshot with
  | true =>
    obtain ⟨i, table, rfl⟩ := Note.eq_snapshot hn
    exact fun _ _ => .inr (.inr (by simp [snapshots, Member.see]))
  | false =>
    refine h.mono (fun h => h) (fun h => h) (fun ho => ?_) (fun _ hs _ => hs) (Nat.le_of_eq ?_)
    · simpa [hin] using ho
    · simp [snapshots, hin, Member.see, see_synced hn, hn]

end Member

namespace Room

variable [DecidableEq ι]

theorem greeted_step (h : r.All fun _ => Member.Greeted) (hc : Core hub hubName r)
    (hs : Step hub r a r') (hspare : Spares r a) : r'.All fun _ => Member.Greeted := by
  have hput {k : κ} {m m' : Member ι ν τ} (hk : r.members k = some m)
      (hm : m.Greeted → m'.Greeted) : (r.put k m').All fun _ => Member.Greeted :=
    All.put h (hm (h k m hk))
  have htell {r : Room κ ι ν τ} {n : Note ι ν τ} (h : r.All fun _ => Member.Greeted) :
      (r.tell n).All fun _ => Member.Greeted := All.tell fun k m hk => (h k m hk).hear
  cases hs with
  | join => exact All.put h fun _ _ => .inl (by simp)
  | hubSay => exact htell h
  | hubOpened hk hout =>
    refine hput hk fun h => h.mono (fun hl => ?_) (fun h => h) (fun h => h) ?_ (Nat.le_refl _)
    · simpa using hl
    · simp only [hout, items_opened]
      exact fun _ hs _ => hs
  | hubHello hk hout =>
    have hends := (hc.sound _ _ hk).ends
    rw [hout] at hends
    exact htell (All.put h (.enter hends.item.1))
  | hubHear hk hout =>
    refine htell (hput hk fun h => h.mono (fun h => h) (fun h => h) (fun h => h) ?_ (Nat.le_refl _))
    intro s hs hh
    simp only [hout, items_item, List.mem_cons] at hs
    obtain rfl | hs := hs
    · cases hh
    · exact hs
  | hubClosed hk hout =>
    unfold Room.leave
    split
    · exact hput hk fun _ hl => by cases hl
    · exact htell (hput hk fun _ hl => by cases hl)
  | memberOpened hk _ hin => exact All.put h .greet
  | memberNote hk _ hin => exact hput hk (·.see hin)
  | memberSay hk _ hsync =>
    refine hput hk fun h => h.mono (fun h => h) (fun h => h) (fun h => h) (fun s hs _ => ?_)
      (Nat.le_refl _)
    simp only [Member.speak, Link.send]
    split
    · simp [hs]
    · exact hs
  | memberStop hk => exact hput hk fun _ _ hr => by cases hr
  | hangup hk hl => exact hput hk fun _ hl => by cases hl
  | loseNote hk hin =>
    intro k' m' hk'
    obtain ⟨rfl, rfl⟩ | ⟨hne, hk'⟩ := members_put_cases hk'
    · intro hl hr
      have hn := hspare _ hk hl hr
      refine (h _ _ hk).mono (fun h => h) (fun h => h) ?_ (fun _ hs _ => hs) (Nat.le_of_eq ?_) hl hr
      · simp [hin]
      · simp [Member.snapshots, hin, hn]
    · exact h k' m' hk'
  | loseSpeech hk hout =>
    intro k' m' hk'
    obtain ⟨rfl, rfl⟩ | ⟨hne, hk'⟩ := members_put_cases hk'
    · intro hl hr
      have hs := hspare _ hk hl hr
      refine (h _ _ hk).mono (fun h => h) (fun h => h) (fun h => h) ?_ (Nat.le_refl _) hl hr
      intro s' hs' hh
      simp only [hout, items_append, items_item, List.mem_append, List.mem_cons] at hs' ⊢
      obtain hs' | rfl | hs' := hs'
      · exact .inl hs'
      · rw [hs] at hh
        cases hh
      · exact .inr hs'
    · exact h k' m' hk'

theorem greeted (h : (system hub hubName).Reach (Spares (κ := κ) (τ := τ)) r) :
    r.All fun _ => Member.Greeted := by
  refine h.invariant (I := fun r => r.All fun _ => Member.Greeted) (fun r hr => ?_)
    (fun r a r' hr h ha hs => ?_)
  · intro k m hk
    simp [hr.2.2] at hk
  · exact greeted_step h (core hr) hs ha

end Room

end ENetChat

import ENetChat.Session.RoomFollows

/-!
# The order in a room

What holds of texts whatever is lost: the texts of others that a member has
shown since its snapshot, or is being told, are some of what others have said
since, in the hub's order and no more often (`Ordered.heard`); and what the
hub has heard of the member since is some of what it typed, in the order it
typed it (`Ordered.spoken`). While nothing is lost on connections that stand,
nothing is left out before the end (`Unbroken`).
-/

namespace ENetChat

open Channel Replica

variable {κ ι ν τ : Type} [DecidableEq κ] {r r' : Room κ ι ν τ} {k k' : κ}
  {m m' : Member ι ν τ} {n : Note ι ν τ} {hub id : ι} {hubName name : ν} {t t' : Table ι ν}
  {log : List (Option κ × ν × τ)} {text : τ} {source : Option κ}
  {g : View ι ν τ → Prop} {q : List (Wire (Note ι ν τ))} {out : List (Wire (Speech ι ν τ))}

namespace Member

theorem messages_send {link : Link} (hs : s.text? = none) :
    (items (link.send out s)).filterMap Speech.text? = (items out).filterMap Speech.text? := by
  unfold Link.send
  split
  · simp [hs]
  · rfl

/-- What the hub has heard, and is to hear, of the member since its snapshot was sent. -/
def uttered (log : List (Option κ × ν × τ)) (k : κ) (m : Member ι ν τ) : List τ :=
  said k (log.drop m.mark) ++ m.messages

/-- What the member has typed since it saw its snapshot. -/
def counted (m : Member ι ν τ) : List τ := if m.view.synced then m.typed else []

-- ---------------------------------------------------------------------------
-- The log since the mark
-- ---------------------------------------------------------------------------

section Log

variable (hmark : m.mark ≤ log.length)

include hmark

theorem others_other (hne : source ≠ some k) :
    others k ((log ++ [(source, name, text)]).drop m.mark) =
      others k (log.drop m.mark) ++ [(name, text)] := by
  rw [List.drop_append_of_le_length hmark, others_concat, if_neg hne]

theorem others_own :
    others k ((log ++ [(some k, name, text)]).drop m.mark) = others k (log.drop m.mark) := by
  rw [List.drop_append_of_le_length hmark, others_concat, if_pos rfl, List.append_nil]

theorem prefix_others :
    others k (log.drop m.mark) <+: others k ((log ++ [(source, name, text)]).drop m.mark) := by
  rw [List.drop_append_of_le_length hmark, others_concat]
  exact List.prefix_append _ _

theorem uttered_other (hne : source ≠ some k) :
    (m.hear n).uttered (log ++ [(source, name, text)]) k = m.uttered log k := by
  rw [uttered, hear_mark, List.drop_append_of_le_length hmark, said_concat, if_neg hne,
    List.append_nil, messages_hear, uttered]

theorem uttered_own (hout : m.outbox = .item (.message id text) :: out) :
    ({ m with outbox := out } : Member ι ν τ).uttered (log ++ [(some k, name, text)]) k =
      m.uttered log k := by
  show said k ((log ++ [(some k, name, text)]).drop m.mark) ++
    (items out).filterMap Speech.text? = _
  rw [List.drop_append_of_le_length hmark, said_concat, if_pos rfl]
  simp [uttered, messages, hout]

end Log

/-- A member that is just entered has said nothing. -/
theorem uttered_enter (hs : m.Sound hub t) (hout : m.outbox = .item (.hello name) :: out) :
    ({ m with outbox := out, mark := log.length } : Member ι ν τ).uttered log k = [] := by
  have hsilent := hs.silent (hs.hello hout).2.1
  rw [messages, hout] at hsilent
  show said k (log.drop log.length) ++ (items out).filterMap Speech.text? = []
  rw [List.drop_length]
  exact hsilent

theorem counted_say (hsync : m.view.synced = true) :
    (Member.speak (.message m.id text) { m with typed := m.typed ++ [text] }).counted =
      m.counted ++ [text] := by
  simp [counted, hsync]

theorem uttered_say :
    (Member.speak (.message m.id text) { m with typed := m.typed ++ [text] }).uttered log k =
      m.uttered log k ++ if m.link.live then [text] else [] := by
  rw [uttered, uttered, List.append_assoc]
  congr 1
  by_cases hl : m.link.live = true <;> simp [messages, Member.speak, Link.send, hl]

variable [DecidableEq ι]

theorem heard_eq_none (h : m.snapshots = 0) : m.view.heard m.id (items m.inbox) = none := by
  have hzero : (items m.inbox).countP Note.isSnapshot = 0 ∧ m.view.synced = false := by
    cases hv : m.view.synced <;> simp only [snapshots, hv, Bool.toNat_true, Bool.toNat_false] at h
    · exact ⟨h, rfl⟩
    · omega
  rw [View.heard, hzero.2]
  exact foldl_hear_none fun n hn => by simpa using List.countP_eq_zero.mp hzero.1 n hn

/-- What is typed before the snapshot is seen does not count. -/
theorem counted_see (hs : m.Sound hub t) (hin : m.inbox = .item n :: q) :
    (Member.see n { m with inbox := q }).counted = m.counted := by
  cases hn : n.isSnapshot with
  | true =>
    obtain ⟨i, table, rfl⟩ := Note.eq_snapshot hn
    have hsingle := hs.single
    have hnot : m.view.synced = false := by
      cases hv : m.view.synced with
      | false => rfl
      | true => simp [snapshots, hin, hv, Note.isSnapshot] at hsingle
    simp [counted, Member.see, View.see, hnot]
  | false =>
    have hty : (Member.see n { m with inbox := q }).typed = m.typed := by
      cases n with
      | snapshot => cases hn
      | _ => rfl
    rw [counted, counted, hty]
    simp only [Member.see, see_synced hn]

-- ---------------------------------------------------------------------------
-- Whatever is lost
-- ---------------------------------------------------------------------------

structure Ordered (log : List (Option κ × ν × τ)) (k : κ) (m : Member ι ν τ) : Prop where
  mark : m.mark ≤ log.length
  heard : Below (m.view.heard m.id (items m.inbox))
    (some ((others k (log.drop m.mark)).map (·.2)))
  spoken : (m.uttered log k).Sublist m.counted

namespace Ordered

/-- Notes and speech may be lost. -/
theorem lose (h : m.Ordered log k) (hone : m.snapshots ≤ 1) (hid : m'.id = m.id)
    (hview : m'.view = m.view) (htyped : m'.typed = m.typed) (hmark : m'.mark = m.mark)
    (hin : (items m'.inbox).Sublist (items m.inbox)) (hout : m'.messages.Sublist m.messages) :
    m'.Ordered log k := by
  refine ⟨hmark ▸ h.mark, ?_, ?_⟩
  · rw [hid, hview, hmark]
    intro x hx
    obtain ⟨y, hy, hxy⟩ := heard_sublist hin hone x hx
    obtain ⟨z, hz, hyz⟩ := h.heard y hy
    exact ⟨z, hz, hxy.trans hyz⟩
  · rw [uttered, counted, hview, htyped, hmark]
    exact (hout.append_left _).trans h.spoken

/-- The hub's note of something else than what is said. -/
theorem hear (h : m.Ordered log k) (hn : ∀ l : Option (List τ), View.hear m.id l n = l) :
    (m.hear n).Ordered log k := by
  by_cases hl : m.link = .up
  · rw [hear_up hl]
    refine ⟨h.mark, ?_, h.spoken⟩
    simp only [items_append, items_item, items_nil, heard_concat, hn]
    exact h.heard
  · rwa [hear_not_up hl]

/-- Somebody else is heard. -/
theorem other (h : m.Ordered log k) (hne : source ≠ some k) :
    (m.hear (.said id text)).Ordered (log ++ [(source, name, text)]) k := by
  refine ⟨?_, fun x hx => ⟨_, rfl, ?_⟩, ?_⟩
  · rw [hear_mark, List.length_append]
    exact Nat.le_add_right_of_le h.mark
  · rw [hear_mark, others_other h.mark hne, List.map_append]
    by_cases hl : m.link = .up
    · rw [hear_up hl] at hx
      simp only [items_append, items_item, items_nil, heard_concat, View.hear] at hx
      split at hx
      · obtain ⟨y, hy, hxy⟩ := h.heard x hx
        cases hy
        exact hxy.trans (List.sublist_append_left _ _)
      · obtain ⟨y, hy, rfl⟩ := Option.map_eq_some_iff.mp hx
        obtain ⟨z, hz, hyz⟩ := h.heard y hy
        cases hz
        exact hyz.append_right _
    · rw [hear_not_up hl] at hx
      obtain ⟨y, hy, hxy⟩ := h.heard x hx
      cases hy
      exact hxy.trans (List.sublist_append_left _ _)
  · rw [uttered_other h.mark hne]
    exact h.spoken

/-- The member itself is heard. -/
theorem own (h : m.Ordered log k) (hout : m.outbox = .item (.message m.id text) :: out) :
    (Member.hear (.said m.id text) { m with outbox := out }).Ordered
      (log ++ [(some k, name, text)]) k := by
  have hpop : ({ m with outbox := out } : Member ι ν τ).Ordered
      (log ++ [(some k, name, text)]) k := by
    refine ⟨?_, ?_, ?_⟩
    · rw [List.length_append]
      exact Nat.le_add_right_of_le h.mark
    · show Below _ (some ((others k ((log ++ [(some k, name, text)]).drop m.mark)).map (·.2)))
      rw [others_own h.mark]
      exact h.heard
    · rw [uttered_own h.mark hout]
      exact h.spoken
  exact hpop.hear fun l => by simp [View.hear]

/-- Nothing has been said since the member is entered, by others either. -/
theorem snapshot (hmark : m.mark = log.length) (hsilent : m.uttered log k = [])
    (hnone : m.view.heard m.id (items m.inbox) = none) :
    (m.hear (.snapshot m.id t)).Ordered log k := by
  refine ⟨Nat.le_of_eq hmark, ?_, ?_⟩
  · by_cases hup : m.link = .up
    · rw [hear_up hup]
      simp only [items_append, items_item, items_nil, heard_concat, View.hear]
      rintro x ⟨⟩
      exact ⟨_, rfl, List.nil_sublist _⟩
    · rw [hear_not_up hup, hnone]
      exact below_none
  · rw [uttered, hear_mark, messages_hear, ← uttered, hsilent]
    exact List.nil_sublist _

theorem enter (hs : m.Sound hub t) (hout : m.outbox = .item (.hello name) :: out) :
    ((Member.hear (.snapshot m.id t') { m with outbox := out, mark := log.length }).hear
      (.joined m.id name)).Ordered log k := by
  obtain ⟨-, hnone, hl⟩ := hs.hello hout
  have hheard := heard_eq_none (hs.snapshots_eq_zero hl hnone)
  exact (snapshot (m := { m with outbox := out, mark := log.length }) rfl (uttered_enter hs hout)
    hheard).hear fun l => rfl

theorem see (h : m.Ordered log k) (hs : m.Sound hub t) (hin : m.inbox = .item n :: q) :
    (Member.see n { m with inbox := q }).Ordered log k := by
  refine ⟨h.mark, fun x hx => ?_, ?_⟩
  · have hsee : Below ((m.view.see m.id n).heard m.id (items q))
        (m.view.heard m.id (n :: items q)) := heard_see
    obtain ⟨y, hy, hxy⟩ := hsee x hx
    rw [← items_item, ← hin] at hy
    obtain ⟨z, hz, hyz⟩ := h.heard y hy
    exact ⟨z, hz, hxy.trans hyz⟩
  · rw [counted_see hs hin]
    exact h.spoken

theorem say (h : m.Ordered log k) (hsync : m.view.synced = true) :
    (Member.speak (.message m.id text) { m with typed := m.typed ++ [text] }).Ordered log k := by
  refine ⟨h.mark, h.heard, ?_⟩
  rw [uttered_say, counted_say hsync]
  refine h.spoken.append ?_
  split
  · exact .refl _
  · exact List.nil_sublist _

end Ordered

-- ---------------------------------------------------------------------------
-- While nothing is lost
-- ---------------------------------------------------------------------------

structure Unbroken (log : List (Option κ × ν × τ)) (k : κ) (m : Member ι ν τ) : Prop where
  shown : m.view.synced = true → m.view.shown <+: others k (log.drop m.mark)
  -- what comes on a connection that stands is known from `Follows`
  coming : m.link ≠ .up → m.running = true → m.coming.synced = true →
    m.coming.shown <+: others k (log.drop m.mark)
  spoken : m.uttered log k <+: m.counted

theorem Sound.sent_coming (hs : m.Sound hub t) (hl : m.link ≠ .gone)
    (hsync : m.coming.synced = true) : t m.id ≠ none := by
  have hpos : 0 < m.snapshots := by
    rcases play_synced.mp hsync with hv | ⟨n, hn, hsnap⟩
    · rw [snapshots, hv, Bool.toNat_true]
      exact Nat.succ_pos _
    · exact Nat.add_pos_left (List.countP_pos_iff.mpr ⟨n, hn, hsnap⟩) _
  rw [hs.sent hl hpos]
  exact Option.some_ne_none _

namespace Unbroken

/-- On a connection that stands or not. -/
theorem of_coming (h : m.Unbroken log k) (hf : m.Follows t log k) (hs : m.Sound hub t)
    (hrun : m.running = true) (hsync : m.coming.synced = true) :
    m.coming.shown <+: others k (log.drop m.mark) := by
  by_cases hl : m.link = .up
  · have ht := hs.sent_coming (by rw [hl]; exact Link.noConfusion) hsync
    exact hf.shown ⟨hl, hrun⟩ ht ▸ List.prefix_rfl
  · exact h.coming hl hrun hsync

/-- Another end of a member's connection, with fewer notes and less speech under way. -/
theorem ends (h : m.Unbroken log k) (hf : m.Follows t log k) (hs : m.Sound hub t)
    (hid : m'.id = m.id) (hview : m'.view = m.view) (htyped : m'.typed = m.typed)
    (hmark : m'.mark = m.mark) (hrun : m'.running = true → m.running = true)
    (hin : items m'.inbox <+: items m.inbox) (hout : m'.messages <+: m.messages) :
    m'.Unbroken log k := by
  refine ⟨?_, fun _ hr hsync => ?_, ?_⟩
  · rw [hview, hmark]
    exact h.shown
  · have hone := hs.single
    rw [Member.coming, hid, hview] at hsync ⊢
    have hless := play_shown_prefix hin hone hsync
    have hsync' : m.coming.synced = true := by
      rcases play_synced.mp hsync with hv | ⟨n, hn, hsnap⟩
      · exact play_synced.mpr (.inl hv)
      · exact play_synced.mpr (.inr ⟨n, hin.subset hn, hsnap⟩)
    rw [hmark]
    exact hless.trans (h.of_coming hf hs (hrun hr) hsync')
  · rw [uttered, counted, hview, htyped, hmark]
    exact (List.prefix_append_right_inj _ |>.mpr hout).trans h.spoken

theorem hear (h : m.Unbroken log k) : (m.hear n).Unbroken log k := by
  by_cases hl : m.link = .up
  · rw [hear_up hl]
    exact ⟨h.shown, fun hn => absurd hl hn, h.spoken⟩
  · rwa [hear_not_up hl]

/-- The log grows by what is no utterance of the member's. -/
theorem other (h : m.Unbroken log k) (hmark : m.mark ≤ log.length) (hne : source ≠ some k) :
    (m.hear n).Unbroken (log ++ [(source, name, text)]) k := by
  have hgrow : m.Unbroken (log ++ [(source, name, text)]) k := by
    refine ⟨fun hs => (h.shown hs).trans (prefix_others hmark),
      fun hl hr hs => (h.coming hl hr hs).trans (prefix_others hmark), ?_⟩
    have hsame : m.uttered (log ++ [(source, name, text)]) k = m.uttered log k :=
      uttered_other (n := n) hmark hne
    rw [hsame]
    exact h.spoken
  exact hgrow.hear

theorem own (h : m.Unbroken log k) (hmark : m.mark ≤ log.length)
    (hout : m.outbox = .item (.message m.id text) :: out) :
    (Member.hear n { m with outbox := out }).Unbroken (log ++ [(some k, name, text)]) k := by
  have hpop : ({ m with outbox := out } : Member ι ν τ).Unbroken
      (log ++ [(some k, name, text)]) k := by
    refine ⟨fun hs => (h.shown hs).trans (prefix_others hmark),
      fun hl hr hs => (h.coming hl hr hs).trans (prefix_others hmark), ?_⟩
    rw [uttered_own hmark hout]
    exact h.spoken
  exact hpop.hear

theorem enter (hs : m.Sound hub t) (hout : m.outbox = .item (.hello name) :: out) :
    ((Member.hear (.snapshot m.id t') { m with outbox := out, mark := log.length }).hear
      (.joined m.id name)).Unbroken log k := by
  obtain ⟨-, hnone, hl⟩ := hs.hello hout
  have hunsynced := hs.unsynced hl hnone
  have hnew : ({ m with outbox := out, mark := log.length } : Member ι ν τ).Unbroken log k := by
    refine ⟨fun hsync => ?_, fun _ _ hsync => absurd hnone (hs.sent_coming hl hsync), ?_⟩
    · exact absurd (hunsynced.symm.trans hsync) Bool.false_ne_true
    · rw [uttered_enter hs hout]
      exact List.nil_prefix
  exact hnew.hear.hear

theorem see (h : m.Unbroken log k) (hf : m.Follows t log k) (hs : m.Sound hub t)
    (hrun : m.running = true) (hin : m.inbox = .item n :: q) :
    (Member.see n { m with inbox := q }).Unbroken log k := by
  have hcoming := coming_see hin
  refine ⟨fun hsync => ?_, fun hl hr hsync => ?_, ?_⟩
  · -- what is seen is part of what was coming, in which there is no snapshot left
    have hall : m.coming.synced = true := hcoming ▸ play_synced.mpr (.inl hsync)
    refine List.IsPrefix.trans ?_ (h.of_coming hf hs hrun hall)
    rw [← hcoming]
    exact play_shown_prefix List.nil_prefix (hs.see hin).single hsync
  · rw [hcoming] at hsync ⊢
    exact h.coming hl hr hsync
  · rw [counted_see hs hin]
    exact h.spoken

theorem say (h : m.Unbroken log k) (hspoken : m.Spoken t log k) (hs : m.Sound hub t)
    (hrun : m.running = true) (hsync : m.view.synced = true) :
    (Member.speak (.message m.id text) { m with typed := m.typed ++ [text] }).Unbroken log k := by
  refine ⟨h.shown, h.coming, ?_⟩
  rw [uttered_say, counted_say hsync]
  by_cases hl : m.link.live = true
  · -- the hub has heard, or is to hear, all that was typed before
    have hne : m.link ≠ .gone := by
      rintro heq
      rw [heq] at hl
      cases hl
    have ht := hs.sent_coming hne (play_synced.mpr (.inl hsync))
    have hup : m.link = .up := by
      cases hm : m.link with
      | pending => exact absurd (hs.pending hm) ht
      | up => rfl
      | _ => simp [hm, Link.live] at hl
    have hall : m.counted = m.uttered log k := hspoken ⟨hup, hrun⟩ ht
    exact ⟨[], by rw [hall, if_pos hl, List.append_nil]⟩
  · rw [if_neg hl, List.append_nil]
    exact h.spoken.trans (List.prefix_append _ _)

end Unbroken

end Member

namespace Room

/-- Who has spoken has a place. -/
def Sources (r : Room κ ι ν τ) : Prop := ∀ e ∈ r.log, ∀ k, e.1 = some k → r.members k ≠ none

theorem Sources.said (h : r.Sources) (hk : r.members k = none) : said k r.log = [] := by
  rw [ENetChat.said, List.map_eq_nil_iff, List.filter_eq_nil_iff]
  rintro e he hek
  exact h e he k (of_decide_eq_true hek) hk

variable [DecidableEq ι]

theorem sources_step (h : r.Sources) (hs : Step hub r a r') : r'.Sources := by
  have hput {k : κ} {m : Member ι ν τ} (h : r.Sources) : (r.put k m).Sources := by
    intro e he k' hk'
    rw [members_put]
    split
    · simp
    · exact h e he k' hk'
  have htell {r : Room κ ι ν τ} {n : Note ι ν τ} (h : r.Sources) : (r.tell n).Sources := by
    intro e he k' hk'
    exact fun hnone => h e he k' hk' (Option.map_eq_none_iff.mp hnone)
  cases hs with
  | hubSay =>
    intro e he k' hk'
    rcases List.mem_append.mp he with he | he
    · exact htell h e he k' hk'
    · obtain rfl := List.mem_singleton.mp he
      cases hk'
  | hubHear hk =>
    intro e he k' hk'
    rcases List.mem_append.mp he with he | he
    · exact htell (hput h) e he k' hk'
    · obtain rfl := List.mem_singleton.mp he
      obtain rfl := Option.some.inj hk'
      simp [tell, record]
  | hubHello => exact htell (hput h)
  | hubClosed =>
    unfold Room.leave
    split
    · exact hput h
    · exact htell (hput h)
  | _ => exact hput h

theorem ordered_step (h : r.All (Member.Ordered r.log)) (hc : Core hub hubName r)
    (hsources : r.Sources) (hs : Step hub r a r') : r'.All (Member.Ordered r'.log) := by
  -- at the member's own place, unless nothing happens but that the place is told of
  have hlose {k : κ} {m m' : Member ι ν τ} (hk : r.members k = some m)
      (hm : m.Ordered r.log k → m.snapshots ≤ 1 → m'.Ordered r.log k) :
      (r.put k m').All (Member.Ordered r.log) :=
    All.put h (hm (h k m hk) (hc.sound k m hk).single)
  cases hs with
  | join hk =>
    refine All.put h ⟨Nat.zero_le _, below_none, ?_⟩
    show (said _ r.log ++ []).Sublist []
    rw [hsources.said hk]
    exact .refl _
  | hubSay hname => exact All.tell fun k m hk => (h k m hk).other (by simp)
  | hubOpened hk hout =>
    refine hlose hk fun h hone => h.lose hone rfl rfl rfl rfl (.refl _) ?_
    rw [Member.messages, Member.messages, hout]
    exact .refl _
  | @hubHello k m name out _ hk hout =>
    refine All.tell fun k' m' hk' => ?_
    rcases members_put_cases hk' with ⟨rfl, rfl⟩ | ⟨-, hk'⟩
    · exact Member.Ordered.enter (m := m) (hc.sound _ _ hk) hout
    · exact (h k' m' hk').hear fun l => rfl
  | hubHear hk hout hname =>
    have hid := ((hc.sound _ _ hk).speech (.message _ _) (by rw [hout]; exact .head _)).1
    subst hid
    refine All.tell fun k' m' hk' => ?_
    rcases members_put_cases hk' with ⟨rfl, rfl⟩ | ⟨hne, hk'⟩
    · exact (h _ _ hk).own hout
    · exact (h k' m' hk').other (by simpa using hne.symm)
  | @hubClosed k m out _ hk hout =>
    have hgone : (r.put k { m with outbox := out, link := .gone }).All (Member.Ordered r.log) := by
      refine hlose hk fun h hone => h.lose hone rfl rfl rfl rfl (.refl _) ?_
      rw [Member.messages, Member.messages, hout]
      exact .refl _
    unfold Room.leave
    split
    · exact hgone
    · exact All.tell fun k' m' hk' => (hgone k' m' hk').hear fun l => rfl
  | memberOpened hk _ hin =>
    refine hlose hk fun h hone => h.lose hone rfl rfl rfl rfl ?_ ?_
    · rw [hin]
      exact .refl _
    · rw [Member.messages, Member.speak, Member.messages_send rfl]
      exact .refl _
  | memberNote hk _ hin => exact All.put h ((h _ _ hk).see (hc.sound _ _ hk) hin)
  | memberSay hk _ hsync => exact All.put h ((h _ _ hk).say hsync)
  | memberStop hk =>
    exact hlose hk fun h hone => h.lose hone rfl rfl rfl rfl (.refl _) (.refl _)
  | hangup hk hl =>
    exact hlose hk fun h hone => h.lose hone rfl rfl rfl rfl items_cut.sublist
      (items_cut.sublist.filterMap _)
  | loseNote hk hin =>
    refine hlose hk fun h hone => h.lose hone rfl rfl rfl rfl ?_ (.refl _)
    rw [hin, items_append, items_append, items_item]
    exact (List.sublist_cons_self _ _).append_left _
  | loseSpeech hk hout =>
    refine hlose hk fun h hone => h.lose hone rfl rfl rfl rfl (.refl _) ?_
    rw [Member.messages, Member.messages, hout, items_append, items_append, items_item]
    exact ((List.sublist_cons_self _ _).append_left _).filterMap _

theorem sources (h : (system hub hubName).Reach allowed r) : r.Sources := by
  refine h.invariant (fun r hr => ?_) fun r a r' _ h _ hs => sources_step h hs
  intro e he
  rw [hr.2.1] at he
  cases he

theorem ordered (h : (system hub hubName).Reach allowed r) : r.All (Member.Ordered r.log) := by
  refine h.invariant (I := fun r => r.All (Member.Ordered r.log)) (fun r hr => ?_)
    fun r a r' hr h _ hs => ordered_step h (core hr) (sources hr) hs
  intro k m hk
  simp [hr.2.2] at hk

end Room

end ENetChat

import ENetChat.Network.ProtocolLaws

/-!
# Packets that are cut short

A USERNAME_ACK has no count of its users: cut between two of them, it is a
USERNAME_ACK with the first ones. No other packet survives being cut short
anywhere (`cut_short`).
-/

namespace ENetChat

open LittleEndian ByteStream

variable {u : Unspecified} {pkg pkg' : Package} {n k : Nat}

/-- A USERNAME_ACK with its first `k` users. -/
def Package.firstUsers (k : Nat) : Package → Option Package
  | .usernameAck pkg => some (.usernameAck { pkg with users := pkg.users.take k })
  | _ => none

/-- `n` bytes end with one of the package's users, or before the first. -/
def Package.EndsAt (pkg : Package) (n : Nat) : Prop :=
  ∃ k pkg', pkg.firstUsers k = some pkg' ∧ pkg'.layout.length = n

-- ---------------------------------------------------------------------------
-- Users
-- ---------------------------------------------------------------------------

/-- One user's bytes do not begin another's. -/
theorem userLayout_inj {user user' : UserInfo} {x y : Bytes}
    (hlt : user.name.length < 2 ^ 64) (hlt' : user'.name.length < 2 ^ 64)
    (h : user.layout ++ x = user'.layout ++ y) : user.layout = user'.layout ∧ x = y := by
  simp only [UserInfo.layout, stringLayout, List.append_assoc] at h ⊢
  obtain ⟨hid, h⟩ := List.append_inj h (by rw [length_toLE, length_toLE])
  obtain ⟨hlen, h⟩ := List.append_inj h (by rw [length_toLE, length_toLE])
  obtain ⟨hname, h⟩ := List.append_inj h (toLE_inj hlt hlt' hlen)
  exact ⟨by rw [hid, hlen, hname], h⟩

theorem name_le_layout (user : UserInfo) : user.name.length ≤ user.layout.length := by
  simp only [UserInfo.layout, stringLayout, List.length_append]
  omega

/-- What users' bytes begin with, as far as it is users, are the first of them. -/
theorem users_begin {users users' : List UserInfo} {rest : Bytes}
    (hlen : (users.flatMap UserInfo.layout).length < 2 ^ 64)
    (h : users.flatMap UserInfo.layout = users'.flatMap UserInfo.layout ++ rest) :
    ∃ k, users'.flatMap UserInfo.layout = (users.take k).flatMap UserInfo.layout := by
  induction users' generalizing users with
  | nil => exact ⟨0, rfl⟩
  | cons user' users' ih =>
    have hlen' := hlen
    rw [h, List.flatMap_cons, List.length_append, List.length_append] at hlen'
    have hpos := length_userLayout user'
    have hname' := name_le_layout user'
    cases users with
    | nil =>
      have hnil := congrArg List.length h
      simp only [List.flatMap_nil, List.flatMap_cons, List.length_append, List.length_nil] at hnil
      omega
    | cons user users =>
      have hname := name_le_layout user
      rw [List.flatMap_cons, List.length_append] at hlen
      rw [List.flatMap_cons, List.flatMap_cons, List.append_assoc] at h
      obtain ⟨hone, hrest⟩ := userLayout_inj (by omega) (by omega) h
      obtain ⟨k, hk⟩ := ih (by omega) hrest
      refine ⟨k + 1, ?_⟩
      rw [List.take_succ_cons, List.flatMap_cons, List.flatMap_cons, hone, hk]

-- ---------------------------------------------------------------------------
-- Packages
-- ---------------------------------------------------------------------------

theorem layout_firstUsers (h : pkg.firstUsers k = some pkg') :
    pkg.layout.take pkg'.layout.length = pkg'.layout := by
  cases pkg with
  | usernameAck p =>
    cases h
    have hsplit : (Package.usernameAck p).layout =
        (Package.usernameAck { p with users := p.users.take k }).layout ++
          (p.users.drop k).flatMap UserInfo.layout := by
      simp only [Package.layout, Package.body, List.cons_append, List.append_assoc]
      rw [← List.flatMap_append, List.take_append_drop]
      rfl
    rw [hsplit, List.take_left]
  | _ => cases h

theorem tagged_firstUsers (h : pkg.firstUsers k = some pkg') (htag : pkg.Tagged) :
    pkg'.Tagged := by
  cases pkg with
  | usernameAck p =>
    cases h
    exact htag
  | _ => cases h

/-- What is left of a package is none, unless it is cut between two users. -/
theorem cut_decodes (htag : pkg.Tagged) (hlen : pkg.layout.length < 2 ^ 32)
    (hn : n < pkg.layout.length) (h : Package.Decodes (pkg.layout.take n) pkg') : pkg.EndsAt n := by
  have hcut : (pkg.layout.take n).length = n := by
    rw [List.length_take]
    omega
  obtain ⟨htag', hrec, tail, htake, htail⟩ := h
  have hwhole : pkg.layout = pkg'.layout ++ (tail ++ pkg.layout.drop n) := by
    rw [← List.append_assoc, ← htake, List.take_append_drop]
  have htype : pkg'.type = pkg.type := by
    have hvalue : pkg'.packetType = pkg.packetType := by
      have hbyte := typeByte_layout (u := default) pkg []
      rw [List.append_nil, hwhole, typeByte_layout] at hbyte
      exact hbyte
    have hof := ofValue_value pkg'.type
    rw [← show pkg'.packetType = pkg'.type.value from htag', hvalue,
      show pkg.packetType = pkg.type.value from htag, ofValue_value] at hof
    exact (Option.some.inj hof).symm
  by_cases hack : pkg.type = .usernameAck
  · obtain rfl := htail (htype.trans hack)
    rw [List.append_nil] at htake
    rw [List.nil_append] at hwhole
    cases pkg with
    | usernameAck p =>
      cases pkg' with
      | usernameAck p' =>
        simp only [Package.layout, Package.body, List.cons_append, List.append_assoc] at hwhole
        obtain ⟨-, husers⟩ := List.append_inj (List.cons.inj hwhole).2
          (by rw [length_toLE, length_toLE])
        have hsmall : (p.users.flatMap UserInfo.layout).length < 2 ^ 64 := by
          simp only [Package.layout, Package.body, List.length_cons, List.length_append] at hlen
          omega
        obtain ⟨k, hk⟩ := users_begin hsmall husers
        refine ⟨k, _, rfl, ?_⟩
        rw [← hcut, htake]
        simp only [Package.layout, Package.body, List.length_cons, List.length_append, length_toLE,
          hk]
      | _ => cases htype
    | _ => cases hack
  · have hdecodes : Package.Decodes pkg.layout pkg' :=
      ⟨htag', hrec, _, hwhole, fun h => absurd (htype ▸ h) hack⟩
    have hsame := decodes_unique hlen hdecodes (decodes_received htag)
    have hle : pkg'.layout.length ≤ n := by
      rw [← hcut, htake, List.length_append]
      exact Nat.le_add_right _ _
    rw [hsame, layout_received] at hle
    exact absurd hn (Nat.not_lt.mpr hle)

/-- What a decoder makes of the first bytes of a package: a USERNAME_ACK with
fewer users, where they end with one of them, and otherwise it throws. -/
theorem cut_short (u : Unspecified) (pkg : Package) (n : Nat) (htag : pkg.Tagged)
    (hlen : pkg.layout.length < 2 ^ 32) (hpos : 0 < n) (hn : n < pkg.layout.length) :
    (∀ k pkg', pkg.firstUsers k = some pkg' → pkg'.layout.length = n →
      ∃ s, (Package.read u).run (payloadStream u (pkg.layout.take n)) =
        .ok (some pkg'.received) s) ∧
    (¬ pkg.EndsAt n → ∃ e s,
      (Package.read u).run (payloadStream u (pkg.layout.take n)) = .error (.threw e) s) := by
  have hcut : (pkg.layout.take n).length < 2 ^ 32 := by
    rw [List.length_take]
    omega
  constructor
  · rintro k pkg' hfirst rfl
    have hdecodes := decodes_received (tagged_firstUsers hfirst htag)
    rw [layout_firstUsers hfirst]
    rw [layout_firstUsers hfirst] at hcut
    exact ⟨_, read_decodes hcut hdecodes⟩
  · intro hends
    have htype : PacketType.ofValue (typeByte u (pkg.layout.take n)) = some pkg.type := by
      obtain ⟨m, rfl⟩ := Nat.exists_eq_succ_of_ne_zero (Nat.ne_of_gt hpos)
      have hbyte : typeByte u (pkg.layout.take (m + 1)) = pkg.packetType := by
        simp [typeByte, Package.layout]
      rw [hbyte, show pkg.packetType = pkg.type.value from htag, ofValue_value]
    refine read_throws hcut htype ?_
    rintro ⟨pkg', h⟩
    exact hends (cut_decodes htag hlen hn h)

def twoNames : Package :=
  .usernameAck {
    assignedUserId := 1
    users := [{ userId := 0, name := [65, 110, 110] }, { userId := 1, name := [66, 111, 98] }] }

-- After 16 bytes, Ann's record is over and Bob's has not begun.
example : twoNames.EndsAt 16 := ⟨1, _, rfl, rfl⟩

theorem cut_short_ack :
    (∀ k pkg', twoNames.firstUsers k = some pkg' → pkg'.layout.length = 16 →
      ∃ s, (Package.read default).run (payloadStream default (twoNames.layout.take 16)) =
        .ok (some pkg'.received) s) ∧
    (¬ twoNames.EndsAt 16 → ∃ e s,
      (Package.read default).run (payloadStream default (twoNames.layout.take 16)) =
        .error (.threw e) s) :=
  cut_short default twoNames 16 rfl (by decide) (by decide) (by decide)

end ENetChat

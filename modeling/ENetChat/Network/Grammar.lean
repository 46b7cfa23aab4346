import ENetChat.Network.ProtocolLaws

/-!
# The grammar of the packets

`Grammar` spells out, for each type, the byte strings that its decoder takes.
`decoder_grammar`: the decoder terminates on any bytes, takes these and no
others, and what it takes is what the package it returns serialises to.
-/

namespace ENetChat

open LittleEndian ByteStream

variable {u : Unspecified} {pkg : Package} {b : Bytes} {t : PacketType}

/-- An id and a string, in the packets about a user. -/
def record (id : UInt16) (str : Bytes) : Bytes := toLE 2 id.toNat ++ (toLE 8 str.length ++ str)

/-- The packets of a type, from the type byte on. All but USERNAME_ACK may be
followed by bytes that are ignored. -/
def Grammar (t : PacketType) (b : Bytes) : Prop :=
  match t with
  | .username => ∃ str ignored, b = t.value.toUInt8 :: (toLE 8 str.length ++ str) ++ ignored
  | .usernameAck => ∃ (id : UInt16) (records : List (UInt16 × Bytes)),
      b = t.value.toUInt8 :: toLE 2 id.toNat ++ records.flatMap fun r => record r.1 r.2
  | .stateAddUser => ∃ id str ignored, b = t.value.toUInt8 :: record id str ++ ignored
  | .stateRemUser => ∃ (id : UInt16) (ignored : Bytes),
      b = t.value.toUInt8 :: toLE 2 id.toNat ++ ignored
  | .message => ∃ id str ignored, b = t.value.toUInt8 :: record id str ++ ignored

theorem grammar_of_decodes (h : Package.Decodes b pkg) : Grammar pkg.type b := by
  obtain ⟨htag, hrec, tail, rfl, htail⟩ := h
  rw [Package.layout, show pkg.packetType = pkg.type.value from htag]
  cases pkg with
  | username p => exact ⟨p.username, tail, rfl⟩
  | usernameAck p =>
    obtain rfl := htail rfl
    refine ⟨p.assignedUserId, p.users.map fun user => (user.userId, user.name), ?_⟩
    rw [List.flatMap_map, List.append_nil]
    rfl
  | addUser p => exact ⟨p.user.userId, p.user.name, tail, rfl⟩
  | removeUser p => exact ⟨p.userId, tail, rfl⟩
  | message p => exact ⟨p.userId, p.message, tail, rfl⟩

theorem decodes_of_grammar (h : Grammar t b) : ∃ pkg, pkg.type = t ∧ Package.Decodes b pkg := by
  cases t with
  | username =>
    obtain ⟨str, ignored, rfl⟩ := h
    exact ⟨.username { username := str }, rfl, rfl, rfl, ignored, rfl, by simp [Package.type]⟩
  | usernameAck =>
    obtain ⟨id, records, rfl⟩ := h
    refine ⟨.usernameAck
      { assignedUserId := id, users := records.map fun r => { userId := r.1, name := r.2 } },
      rfl, rfl, ?_, [], ?_, fun _ => rfl⟩
    · simp [Package.received]
    · rw [List.append_nil, Package.layout, Package.body, List.flatMap_map]
      rfl
  | stateAddUser =>
    obtain ⟨id, str, ignored, rfl⟩ := h
    exact ⟨.addUser { user := { userId := id, name := str } }, rfl, rfl, rfl, ignored, rfl,
      by simp [Package.type]⟩
  | stateRemUser =>
    obtain ⟨id, ignored, rfl⟩ := h
    exact ⟨.removeUser { userId := id }, rfl, rfl, rfl, ignored, rfl, by simp [Package.type]⟩
  | message =>
    obtain ⟨id, str, ignored, rfl⟩ := h
    exact ⟨.message { userId := id, message := str }, rfl, rfl, rfl, ignored, rfl,
      by simp [Package.type]⟩

theorem typeByte_head (h : b.head? = some first) : typeByte u b = first.toInt8 := by
  cases b with
  | nil => cases h
  | cons x b => cases h; rfl

/-- A decoder completes or throws. -/
def Ends (r : EStateM.Result Halt ByteStream (Option Package)) : Prop :=
  (∃ pkg s, r = .ok (some pkg) s) ∨ ∃ e s, r = .error (.threw e) s

/-- Serialised, the package is the bytes `w`. -/
def SerialisesTo (pkg : Package) (w : Bytes) : Prop :=
  ∀ u u' cap, ∃ s, (pkg.serialize u).run (ofCap u cap) = .ok () s ∧ s.getBuf u' = w

/-- The decoders accept their grammar and nothing else, and read back what
they accept in no other spelling. -/
theorem decoder_grammar (u : Unspecified) (hb : b.head? = some first)
    (ht : PacketType.ofValue first.toInt8 = some t) (hlen : b.length < 2 ^ 31) :
    Ends ((Package.read u).run (payloadStream u b)) ∧
    ((∃ pkg s, (Package.read u).run (payloadStream u b) = .ok (some pkg) s) ↔ Grammar t b) ∧
    ∀ pkg s, (Package.read u).run (payloadStream u b) = .ok (some pkg) s →
      SerialisesTo pkg (b.take s.mOffset.toNat) ∧
      (t = .usernameAck → s.mOffset.toNat = b.length) := by
  have hlen' : b.length < 2 ^ 32 := by omega
  have htype : PacketType.ofValue (typeByte u b) = some t := by rw [typeByte_head hb, ht]
  by_cases hw : WellFormed b
  · obtain ⟨pkg, hd⟩ := hw
    have hread := read_decodes (u := u) hlen' hd
    have hpt : pkg.type = t := by
      rw [typeByte_decodes hd] at htype
      exact Option.some.inj htype
    refine ⟨.inl ⟨_, _, hread⟩, iff_of_true ⟨_, _, hread⟩ (hpt ▸ grammar_of_decodes hd), ?_⟩
    intro pkg' s hs
    rw [hread] at hs
    cases hs
    obtain ⟨-, -, tail, htl, hack⟩ := hd
    have hle : pkg.layout.length ≤ b.length := by
      rw [htl, List.length_append]
      omega
    have hoff : ((payloadStream u b).advance pkg.layout.length).mOffset.toNat =
        pkg.layout.length := by
      have hv : (payloadStream u b).Valid := ofBuf_valid hlen'
      rw [hv.offset_advance (by rwa [show (payloadStream u b).rest = b from ofBuf_rest hlen'])]
      exact Nat.zero_add _
    rw [hoff]
    constructor
    · intro u' u'' cap
      have hsmall : pkg.layout.length < 2 ^ 31 := by omega
      obtain ⟨s, hs, hbuf⟩ := serialize_fresh u' u'' cap hsmall
      refine ⟨s, hs, ?_⟩
      rw [hbuf, htl, List.take_left]
    · intro hta
      rw [htl, hack (hpt.trans hta), List.append_nil]
  · obtain ⟨e, s, he⟩ := read_throws hlen' htype hw
    rw [he]
    refine ⟨.inr ⟨e, s, rfl⟩, iff_of_false (by simp) fun hg => hw ?_, by simp⟩
    obtain ⟨pkg, -, hd⟩ := decodes_of_grammar hg
    exact ⟨pkg, hd⟩

/-- A MESSAGE of user 1, "hi", and two bytes that are ignored. -/
theorem decoder_grammar_message :
    let b : Bytes := [4, 1, 0, 2, 0, 0, 0, 0, 0, 0, 0, 104, 105, 7, 7]
    Ends ((Package.read default).run (payloadStream default b)) ∧
    ((∃ pkg s, (Package.read default).run (payloadStream default b) = .ok (some pkg) s) ↔
      Grammar .message b) ∧
    ∀ pkg s, (Package.read default).run (payloadStream default b) = .ok (some pkg) s →
      SerialisesTo pkg (b.take s.mOffset.toNat) ∧
      (PacketType.message = .usernameAck → s.mOffset.toNat = b.length) :=
  decoder_grammar default rfl (by decide) (by decide)

end ENetChat

import ENetChat.Network.Protocol
import ENetChat.Util.ByteStreamLaws

/-!
# The format of the packages

`Package.layout` is the byte string of a package. `serialize` writes it
(`serialize_writes`), and the decoder that the first byte selects reads
exactly the strings that begin with one, or, for a USERNAME_ACK, that are one
(`read_decodes`, `read_throws`). So the bytes of a package decode to what its
receiver gets of it (`decodes_received`).
-/

namespace ENetChat

open LittleEndian ByteStream

variable {u : Unspecified} {pkg : Package} {b : Bytes} {s : ByteStream}

-- ---------------------------------------------------------------------------
-- Layouts
-- ---------------------------------------------------------------------------

def UserInfo.layout (user : UserInfo) : Bytes :=
  toLE 2 user.userId.toNat ++ stringLayout user.name

namespace Package

def type : Package → PacketType
  | username _ => .username
  | usernameAck _ => .usernameAck
  | addUser _ => .stateAddUser
  | removeUser _ => .stateRemUser
  | message _ => .message

/-- The member `packet_type`. -/
def packetType : Package → Int8
  | username pkg => pkg.packetType
  | usernameAck pkg => pkg.packetType
  | addUser pkg => pkg.packetType
  | removeUser pkg => pkg.packetType
  | message pkg => pkg.packetType

/-- Its type byte is the one that its constructor sets. -/
def Tagged (pkg : Package) : Prop := pkg.packetType = pkg.type.value

instance (pkg : Package) : Decidable pkg.Tagged := by unfold Tagged; infer_instance

def body : Package → Bytes
  | username pkg => stringLayout pkg.username
  | usernameAck pkg => toLE 2 pkg.assignedUserId.toNat ++ pkg.users.flatMap UserInfo.layout
  | addUser pkg => pkg.user.layout
  | removeUser pkg => toLE 2 pkg.userId.toNat
  | message pkg => toLE 2 pkg.userId.toNat ++ stringLayout pkg.message

def layout (pkg : Package) : Bytes := pkg.packetType.toUInt8 :: pkg.body

/-- The package as it arrives: addresses are not serialised. -/
def received : Package → Package
  | usernameAck pkg =>
    usernameAck { pkg with users := pkg.users.map fun user => { user with address := {} } }
  | addUser pkg => addUser { pkg with user := { pkg.user with address := {} } }
  | pkg => pkg

/-- `b` is a complete package: its layout, and after any type but
USERNAME_ACK bytes that no decoder looks at. -/
def Decodes (b : Bytes) (pkg : Package) : Prop :=
  pkg.Tagged ∧ pkg.received = pkg ∧
    ∃ tail, b = pkg.layout ++ tail ∧ (pkg.type = .usernameAck → tail = [])

end Package

def WellFormed (b : Bytes) : Prop := ∃ pkg, Package.Decodes b pkg

/-- The byte that `receiveEvent` switches on; an empty packet has none. -/
def typeByte (u : Unspecified) (b : Bytes) : Int8 := (b.headD (u.byte 0)).toInt8

@[simp] theorem ofValue_value (t : PacketType) : PacketType.ofValue t.value = some t := by
  cases t <;> decide

theorem ofValue_eq_some (h : PacketType.ofValue i = some t) : i = t.value := by
  have := List.find?_some h
  exact (beq_iff_eq.mp this).symm

theorem layout_address (user : UserInfo) (a : Address) :
    UserInfo.layout { user with address := a } = user.layout := rfl

@[simp] theorem layout_received : pkg.received.layout = pkg.layout := by
  cases pkg <;>
    simp [Package.received, Package.layout, Package.body, Package.packetType, layout_address,
      List.flatMap_map]

@[simp] theorem received_received : pkg.received.received = pkg.received := by
  cases pkg <;> simp [Package.received]

@[simp] theorem tagged_received : pkg.received.Tagged ↔ pkg.Tagged := by
  cases pkg <;> rfl

@[simp] theorem type_received : pkg.received.type = pkg.type := by
  cases pkg <;> rfl

theorem decodes_received (h : pkg.Tagged) : Package.Decodes pkg.layout pkg.received :=
  ⟨tagged_received.mpr h, received_received, [], by simp, fun _ => rfl⟩

-- ---------------------------------------------------------------------------
-- Serialising
-- ---------------------------------------------------------------------------

theorem serializeType_writes (i : Int8) : Writes (serializeType u i) [i.toUInt8] := by
  have h := Writes.bind (writes_writeInt8 (u := u) i) fun _ => Writes.pure ()
  rwa [List.append_nil] at h

theorem userInfo_writes (user : UserInfo) : Writes (user.serialize u) user.layout := by
  have h := Writes.bind (writes_writeUInt16 (u := u) user.userId) fun _ =>
    Writes.bind (writes_writeString (u := u) user.name) fun _ => Writes.pure ()
  rwa [List.append_nil] at h

theorem serialize_writes (pkg : Package) : Writes (pkg.serialize u) pkg.layout := by
  cases pkg with
  | username pkg =>
    have h := Writes.bind (serializeType_writes (u := u) pkg.packetType) fun _ =>
      Writes.bind (writes_writeString (u := u) pkg.username) fun _ => Writes.pure ()
    rwa [List.append_nil] at h
  | usernameAck pkg =>
    exact Writes.bind (serializeType_writes pkg.packetType) fun _ =>
      Writes.bind (writes_writeUInt16 pkg.assignedUserId) fun _ =>
        Writes.forM userInfo_writes pkg.users
  | addUser pkg =>
    exact Writes.bind (serializeType_writes pkg.packetType) fun _ => userInfo_writes pkg.user
  | removeUser pkg =>
    have h := Writes.bind (serializeType_writes (u := u) pkg.packetType) fun _ =>
      Writes.bind (writes_writeUInt16 (u := u) pkg.userId) fun _ => Writes.pure ()
    rwa [List.append_nil] at h
  | message pkg =>
    have h := Writes.bind (serializeType_writes (u := u) pkg.packetType) fun _ =>
      Writes.bind (writes_writeUInt16 (u := u) pkg.userId) fun _ =>
        Writes.bind (writes_writeString (u := u) pkg.message) fun _ => Writes.pure ()
    rwa [List.append_nil] at h

/-- A fresh stream of any capacity ends up with the layout. -/
theorem serialize_fresh (u u' : Unspecified) (cap : UInt32) (h : pkg.layout.length < 2 ^ 31) :
    ∃ s, (pkg.serialize u).run (ofCap u cap) = .ok () s ∧ s.getBuf u' = pkg.layout := by
  obtain ⟨_, s, hs, hh⟩ := serialize_writes (u := u) pkg ofCap_holds (by simpa using h)
  exact ⟨s, hs, hh.getBuf⟩

-- ---------------------------------------------------------------------------
-- Decoding
-- ---------------------------------------------------------------------------

theorem reads_usernamePackage :
    Reads (UsernamePackage.read u) fun p w => w = (Package.username p).layout := by
  refine (Reads.bind reads_readInt8 fun i => Reads.bind reads_readString fun str =>
    Reads.pure (⟨i, str⟩ : UsernamePackage)).congr fun p w => ?_
  constructor
  · rintro ⟨i, _, _, rfl, rfl, str, _, _, rfl, rfl, rfl, rfl⟩
    simp [Package.layout, Package.packetType, Package.body]
  · rintro rfl
    exact ⟨p.packetType, _, _, rfl, rfl, p.username, _, [], by simp, rfl, rfl, rfl⟩

theorem reads_removeUserPackage :
    Reads (RemoveUserPackage.read u) fun p w => w = (Package.removeUser p).layout := by
  refine (Reads.bind reads_readInt8 fun i => Reads.bind reads_readUInt16 fun id =>
    Reads.pure (⟨i, id⟩ : RemoveUserPackage)).congr fun p w => ?_
  constructor
  · rintro ⟨i, _, _, rfl, rfl, id, _, _, rfl, rfl, rfl, rfl⟩
    simp [Package.layout, Package.packetType, Package.body]
  · rintro rfl
    exact ⟨p.packetType, _, _, rfl, rfl, p.userId, _, [], by simp, rfl, rfl, rfl⟩

theorem reads_messagePackage :
    Reads (MessagePackage.read u) fun p w => w = (Package.message p).layout := by
  refine (Reads.bind reads_readInt8 fun i => Reads.bind reads_readUInt16 fun id =>
    Reads.bind reads_readString fun str =>
      Reads.pure (⟨i, id, str⟩ : MessagePackage)).congr fun p w => ?_
  constructor
  · rintro ⟨i, _, _, rfl, rfl, id, _, _, rfl, rfl, str, _, _, rfl, rfl, rfl, rfl⟩
    simp [Package.layout, Package.packetType, Package.body]
  · rintro rfl
    exact ⟨p.packetType, _, _, rfl, rfl, p.userId, _, _, rfl, rfl, p.message, _, [], by simp, rfl,
      rfl, rfl⟩

theorem reads_addUserPackage :
    Reads (AddUserPackage.read u) fun p w =>
      p.user.address = {} ∧ w = (Package.addUser p).layout := by
  refine (Reads.bind reads_readInt8 fun i => Reads.bind reads_readUInt16 fun id =>
    Reads.bind reads_readString fun str =>
      Reads.pure (⟨i, ⟨id, str, {}⟩⟩ : AddUserPackage)).congr fun p w => ?_
  constructor
  · rintro ⟨i, _, _, rfl, rfl, id, _, _, rfl, rfl, str, _, _, rfl, rfl, rfl, rfl⟩
    simp [Package.layout, Package.packetType, Package.body, UserInfo.layout]
  · rintro ⟨ha, rfl⟩
    refine ⟨p.packetType, _, _, rfl, rfl, p.user.userId, _, _, rfl, rfl, p.user.name, _, [],
      by simp, rfl, ?_, rfl⟩
    rw [← ha]

theorem reads_readUser :
    Reads (UsernameAckPackage.readUser u) fun user w =>
      user.address = {} ∧ w = user.layout := by
  refine (Reads.bind reads_readUInt16 fun id => Reads.bind reads_readString fun str =>
    Reads.pure (⟨id, str, {}⟩ : UserInfo)).congr fun user w => ?_
  constructor
  · rintro ⟨id, _, _, rfl, rfl, str, _, _, rfl, rfl, rfl, rfl⟩
    simp [UserInfo.layout]
  · rintro ⟨ha, rfl⟩
    refine ⟨user.userId, _, _, rfl, rfl, user.name, _, [], by simp, rfl, ?_, rfl⟩
    rw [← ha]

theorem length_userLayout (user : UserInfo) : 0 < user.layout.length := by
  simp only [UserInfo.layout, List.length_append, length_toLE]
  omega

/-- The loop takes users until the end: `users` are what is left. -/
theorem readUsers_ok (hv : s.Valid) (hrest : s.rest = users.flatMap UserInfo.layout)
    (haddr : ∀ user ∈ users, user.address = {}) (hfuel : users.length < fuel) :
    (UsernameAckPackage.readUsers u fuel).run s = .ok users (s.advance s.rest.length) := by
  induction users generalizing s fuel with
  | nil =>
    obtain ⟨fuel, rfl⟩ : ∃ f, fuel = f + 1 := ⟨fuel - 1, by simp at hfuel; omega⟩
    have hend : s.atEnd = true := hv.atEnd_iff.mpr hrest
    have hnil : s.rest = [] := hrest
    simp [UsernameAckPackage.readUsers, hend, hnil]
  | cons user users ih =>
    obtain ⟨fuel, rfl⟩ : ∃ f, fuel = f + 1 := ⟨fuel - 1, by simp at hfuel; omega⟩
    rw [List.flatMap_cons] at hrest
    have hend : ¬ s.atEnd = true := by
      rw [hv.atEnd_iff, hrest]
      have := length_userLayout user
      intro h
      simp [(List.append_eq_nil_iff.mp h).1] at this
    have hread := (reads_readUser (u := u)).ok hv hrest ⟨haddr user (by simp), rfl⟩
    have hle : user.layout.length ≤ s.rest.length := by simp [hrest]
    have hrest' : (s.advance user.layout.length).rest = users.flatMap UserInfo.layout := by
      rw [hv.rest_advance hle, hrest, List.drop_left]
    have hfuel' : users.length < fuel := by simpa using hfuel
    have hih := ih (hv.advance hle) hrest' (fun x hx => haddr x (by simp [hx])) hfuel'
    rw [hrest', advance_advance] at hih
    simp only [UsernameAckPackage.readUsers, EStateM.run_bind, EStateM.run_get, hend, hread, hih,
      if_false, EStateM.run_pure, Bool.false_eq_true]
    rw [hrest, List.length_append]

theorem readUsers_throws (hv : s.Valid)
    (hno : ∀ users : List UserInfo, (∀ user ∈ users, user.address = {}) →
      s.rest ≠ users.flatMap UserInfo.layout)
    (hfuel : s.rest.length < fuel) :
    ∃ e s', (UsernameAckPackage.readUsers u fuel).run s = .error (.threw e) s' := by
  induction fuel generalizing s with
  | zero => omega
  | succ fuel ih =>
    have hend : ¬ s.atEnd = true := by
      rw [hv.atEnd_iff]
      exact hno [] (by simp)
    simp only [UsernameAckPackage.readUsers, EStateM.run_bind, EStateM.run_get, hend]
    by_cases hex : ∃ user w tail, s.rest = w ++ tail ∧ user.address = {} ∧ w = UserInfo.layout user
    · obtain ⟨user, w, tail, hrest, haddr, rfl⟩ := hex
      have hread := (reads_readUser (u := u)).ok hv hrest ⟨haddr, rfl⟩
      have hle : user.layout.length ≤ s.rest.length := by simp [hrest]
      have hrest' : (s.advance user.layout.length).rest = tail := by
        rw [hv.rest_advance hle, hrest, List.drop_left]
      have hpos := length_userLayout user
      obtain ⟨e, s', he⟩ := ih (s := s.advance user.layout.length) (hv.advance hle)
        (fun users hu h => hno (user :: users) (by simpa using ⟨haddr, hu⟩) (by
          rw [hrest, List.flatMap_cons, ← h, hrest']))
        (by
          rw [hrest']
          rw [hrest, List.length_append] at hfuel
          omega)
      exact ⟨e, s', by simp [hread, he]⟩
    · obtain ⟨e, s', he⟩ := (reads_readUser (u := u)).throws hv
        fun user w tail hw hp => hex ⟨user, w, tail, hw, hp⟩
      exact ⟨e, s', by simp [he]⟩

/-- The fixed part of a USERNAME_ACK. -/
def ackHead (u : Unspecified) : Stream (Int8 × UserId) := do
  let packetType ← readInt8 u
  let assignedUserId ← readUInt16 u
  return (packetType, assignedUserId)

theorem reads_ackHead :
    Reads (ackHead u) fun p w => w = p.1.toUInt8 :: toLE 2 p.2.toNat := by
  refine (Reads.bind reads_readInt8 fun i => Reads.bind reads_readUInt16 fun id =>
    Reads.pure ((i, id) : Int8 × UserId)).congr fun p w => ?_
  constructor
  · rintro ⟨i, _, _, rfl, rfl, id, _, _, rfl, rfl, rfl, rfl⟩
    rw [List.append_nil, List.singleton_append]
  · rintro rfl
    exact ⟨p.1, [p.1.toUInt8], toLE 2 p.2.toNat, rfl, rfl, p.2, _, [],
      (List.append_nil _).symm, rfl,
      rfl, rfl⟩

theorem ackRead_eq : UsernameAckPackage.read u = (do
    let head ← ackHead u
    let users ← UsernameAckPackage.readUsers u ((← get).mLength.toNat + 1)
    return { packetType := head.1, assignedUserId := head.2, users }) := by
  simp [UsernameAckPackage.read, ackHead]

theorem length_le_flatMap (users : List UserInfo) :
    users.length ≤ (users.flatMap UserInfo.layout).length := by
  induction users with
  | nil => simp
  | cons user users ih =>
    have := length_userLayout user
    simp only [List.length_cons, List.flatMap_cons, List.length_append]
    omega

theorem ackRead_ok (hv : s.Valid) (hrest : s.rest = (Package.usernameAck p).layout)
    (haddr : ∀ user ∈ p.users, user.address = {}) :
    (UsernameAckPackage.read u).run s = .ok p (s.advance s.rest.length) := by
  have hrest' : s.rest = (p.packetType.toUInt8 :: toLE 2 p.assignedUserId.toNat) ++
      p.users.flatMap UserInfo.layout := hrest
  have hhead := (reads_ackHead (u := u)).ok (a := (p.packetType, p.assignedUserId)) hv hrest' rfl
  generalize hw : (p.packetType.toUInt8 :: toLE 2 p.assignedUserId.toNat) = w at hhead hrest'
  have hle : w.length ≤ s.rest.length := by simp [hrest']
  have hdrop : (s.advance w.length).rest = p.users.flatMap UserInfo.layout := by
    rw [hv.rest_advance hle, hrest', List.drop_left]
  have hv' := hv.advance hle
  have hfuel : p.users.length < (s.advance w.length).mLength.toNat + 1 := by
    have h1 := length_le_flatMap p.users
    have h2 := hv'.rest_le
    rw [hdrop] at h2
    omega
  have husers := readUsers_ok (u := u) hv' hdrop haddr hfuel
  rw [hdrop, advance_advance] at husers
  rw [ackRead_eq]
  simp only [EStateM.run_bind, EStateM.run_get, hhead, husers, EStateM.run_pure]
  rw [hrest', List.length_append]

theorem ackRead_throws (hv : s.Valid)
    (hno : ∀ p, s.rest = (Package.usernameAck p).layout → ¬ ∀ user ∈ p.users, user.address = {}) :
    ∃ e s', (UsernameAckPackage.read u).run s = .error (.threw e) s' := by
  rw [ackRead_eq]
  by_cases hex : ∃ (h : Int8 × UserId) (w tail : Bytes),
      s.rest = w ++ tail ∧ w = h.1.toUInt8 :: toLE 2 h.2.toNat
  · obtain ⟨h, w, tail, hrest, hw⟩ := hex
    have hle : w.length ≤ s.rest.length := by simp [hrest]
    have hdrop : (s.advance w.length).rest = tail := by
      rw [hv.rest_advance hle, hrest, List.drop_left]
    have hv' := hv.advance hle
    have hfuel : (s.advance w.length).rest.length < (s.advance w.length).mLength.toNat + 1 := by
      have := hv'.rest_le
      omega
    obtain ⟨e, s', he⟩ := readUsers_throws (u := u) hv'
      (fun users haddr husers => hno ⟨h.1, h.2, users⟩ (by
        rw [hrest, hw, ← hdrop, husers]
        rfl) haddr) hfuel
    exact ⟨e, s', by
      simp [EStateM.run_bind, (reads_ackHead (u := u)).ok hv hrest hw, he]⟩
  · obtain ⟨e, s', he⟩ := (reads_ackHead (u := u)).throws hv
      fun h w tail hw hp => hex ⟨h, w, tail, hw, hp⟩
    exact ⟨e, s', by simp [EStateM.run_bind, he]⟩

-- ---------------------------------------------------------------------------
-- The switch
-- ---------------------------------------------------------------------------

theorem users_received {p : UsernameAckPackage}
    (h : (Package.usernameAck p).received = .usernameAck p) :
    ∀ user ∈ p.users, user.address = {} := by
  have hmap : p.users.map (fun user => { user with address := {} }) = p.users :=
    congrArg (fun | .usernameAck q => q.users | _ => []) h
  intro user hu
  rw [← hmap] at hu
  obtain ⟨x, -, rfl⟩ := List.mem_map.mp hu
  rfl

theorem user_received {p : AddUserPackage} (h : (Package.addUser p).received = .addUser p) :
    p.user.address = {} := by
  have := congrArg (fun | .addUser q => q.user.address | _ => ({} : Address)) h
  exact this.symm

/-- The decoder of a type reads a package of that type at the front. -/
theorem readAs_ok (hv : s.Valid) (hrest : s.rest = pkg.layout ++ tail) (hrec : pkg.received = pkg)
    (htail : pkg.type = .usernameAck → tail = []) :
    (Package.readAs u pkg.type).run s = .ok pkg (s.advance pkg.layout.length) := by
  cases pkg with
  | username p =>
    simp [Package.type, Package.readAs, (reads_usernamePackage (u := u)).ok hv hrest rfl]
  | addUser p =>
    simp [Package.type, Package.readAs,
      (reads_addUserPackage (u := u)).ok hv hrest ⟨user_received hrec, rfl⟩]
  | removeUser p =>
    simp [Package.type, Package.readAs, (reads_removeUserPackage (u := u)).ok hv hrest rfl]
  | message p =>
    simp [Package.type, Package.readAs, (reads_messagePackage (u := u)).ok hv hrest rfl]
  | usernameAck p =>
    obtain rfl := htail rfl
    rw [List.append_nil] at hrest
    have h := ackRead_ok (u := u) hv hrest (users_received hrec)
    rw [hrest] at h
    simp [Package.type, Package.readAs, h]

theorem readAs_throws (hv : s.Valid)
    (hno : ∀ (pkg : Package) (tail : Bytes),
      s.rest = pkg.layout ++ tail → pkg.type = t → pkg.received = pkg →
      (t = .usernameAck → tail = []) → False) :
    ∃ e s', (Package.readAs u t).run s = .error (.threw e) s' := by
  cases t with
  | username =>
    obtain ⟨e, s', he⟩ := (reads_usernamePackage (u := u)).throws hv fun p w tail hw hp =>
      hno (.username p) tail (hp ▸ hw) rfl rfl (by simp)
    exact ⟨e, s', by simp [Package.readAs, he]⟩
  | stateAddUser =>
    obtain ⟨e, s', he⟩ := (reads_addUserPackage (u := u)).throws hv fun p w tail hw hp =>
      hno (.addUser p) tail (hp.2 ▸ hw) rfl (by simp [Package.received, ← hp.1]) (by simp)
    exact ⟨e, s', by simp [Package.readAs, he]⟩
  | stateRemUser =>
    obtain ⟨e, s', he⟩ := (reads_removeUserPackage (u := u)).throws hv fun p w tail hw hp =>
      hno (.removeUser p) tail (hp ▸ hw) rfl rfl (by simp)
    exact ⟨e, s', by simp [Package.readAs, he]⟩
  | message =>
    obtain ⟨e, s', he⟩ := (reads_messagePackage (u := u)).throws hv fun p w tail hw hp =>
      hno (.message p) tail (hp ▸ hw) rfl rfl (by simp)
    exact ⟨e, s', by simp [Package.readAs, he]⟩
  | usernameAck =>
    obtain ⟨e, s', he⟩ := ackRead_throws (u := u) hv fun p hp haddr =>
      hno (.usernameAck p) [] (by simpa using hp) rfl (by
        have : p.users.map (fun user => { user with address := {} }) = p.users := by
          refine (List.map_congr_left fun user hu => ?_).trans (List.map_id p.users)
          simp [← haddr user hu]
        simp [Package.received, this]) fun _ => rfl
    exact ⟨e, s', by simp [Package.readAs, he]⟩

/-- The stream that `receiveEvent` builds. -/
def payloadStream (u : Unspecified) (b : Bytes) : ByteStream :=
  ofBuf u b (UInt64.ofNat b.length)

theorem peekInt8_payload (h : b.length < 2 ^ 32) :
    (payloadStream u b).peekInt8 u = typeByte u b := peekInt8_ofBuf h

theorem typeByte_layout (pkg : Package) (tail : Bytes) :
    typeByte u (pkg.layout ++ tail) = pkg.packetType := by
  simp [typeByte, Package.layout]

theorem typeByte_decodes (h : Package.Decodes b pkg) :
    PacketType.ofValue (typeByte u b) = some pkg.type := by
  obtain ⟨htag, -, tail, rfl, -⟩ := h
  rw [typeByte_layout, htag, ofValue_value]

/-- A complete package is decoded, and nothing is left unless bytes follow
it. -/
theorem read_decodes (hb : b.length < 2 ^ 32) (h : Package.Decodes b pkg) :
    (Package.read u).run (payloadStream u b) =
      .ok (some pkg) ((payloadStream u b).advance pkg.layout.length) := by
  have htype := typeByte_decodes (u := u) h
  obtain ⟨-, hrec, tail, rfl, htail⟩ := h
  have hread := readAs_ok (u := u) (s := payloadStream u (pkg.layout ++ tail)) (ofBuf_valid hb)
    (ofBuf_rest hb) hrec htail
  simp only [Package.read, EStateM.run_bind, EStateM.run_get, peekInt8_payload hb, htype]
  rw [hread]
  rfl

/-- A payload is a complete package in one way at most. -/
theorem decodes_unique (hb : b.length < 2 ^ 32) (h : Package.Decodes b pkg)
    (h' : Package.Decodes b pkg') : pkg = pkg' := by
  have hread := read_decodes (u := default) hb h
  rw [read_decodes hb h'] at hread
  cases hread
  rfl

theorem decodes_type (h : Package.Decodes b pkg) (h' : Package.Decodes b pkg') :
    pkg.type = pkg'.type := by
  have ht := typeByte_decodes (u := default) h
  rw [typeByte_decodes h'] at ht
  exact (Option.some.inj ht).symm

/-- A payload that is not a complete package makes the decoder of a known
type throw. -/
theorem read_throws (hb : b.length < 2 ^ 32) (ht : PacketType.ofValue (typeByte u b) = some t)
    (h : ¬ WellFormed b) :
    ∃ e s', (Package.read u).run (payloadStream u b) = .error (.threw e) s' := by
  obtain ⟨e, s', he⟩ := readAs_throws (u := u) (t := t) (ofBuf_valid hb) (s := payloadStream u b)
    fun pkg tail hrest hty hrec htail => by
      rw [show (payloadStream u b).rest = b from ofBuf_rest hb] at hrest
      refine h ⟨pkg, ?_, hrec, tail, hrest, fun hk => htail (hty ▸ hk)⟩
      rw [hrest, typeByte_layout] at ht
      rw [Package.Tagged, hty, ofValue_eq_some ht]
  exact ⟨e, s', by simp [Package.read, peekInt8_payload hb, ht, he]⟩

theorem read_unknown (hb : b.length < 2 ^ 32) (ht : PacketType.ofValue (typeByte u b) = none) :
    (Package.read u).run (payloadStream u b) = .ok none (payloadStream u b) := by
  simp [Package.read, peekInt8_payload hb, ht]

end ENetChat

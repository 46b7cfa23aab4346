import ENetChat.Util.ByteStreamReads
import ENetChat.Util.StreamWrites

/-!
# Tapes

A tape is a sequence of values of the types that a stream has operations for.
The read operations of its types, in its order, take back what was written,
and nothing of what is left of it when it is cut short (`tape_round_trip`).
-/

namespace ENetChat.ByteStream

open LittleEndian

variable {u : Unspecified} {s : ByteStream} {α : Type} {width : Nat}

inductive Field where
  | byte (b : UInt8)
  | int8 (i : Int8)
  | int16 (i : Int16)
  | int32 (i : Int32)
  | int64 (i : Int64)
  | uint8 (i : UInt8)
  | uint16 (i : UInt16)
  | uint32 (i : UInt32)
  | uint64 (i : UInt64)
  | string (str : Bytes)
  deriving DecidableEq, Repr

namespace Field

/-- How it is written; a string along with its length. -/
def write : Field → WriteOp
  | byte b => .byte b
  | int8 i => .int8 i
  | int16 i => .int16 i
  | int32 i => .int32 i
  | int64 i => .int64 i
  | uint8 i => .uint8 i
  | uint16 i => .uint16 i
  | uint32 i => .uint32 i
  | uint64 i => .uint64 i
  | string str => .string str (UInt64.ofNat str.length)

/-- The operation of its type. -/
def read : Field → ReadOp
  | byte _ => .byte
  | int8 _ => .int8
  | int16 _ => .int16
  | int32 _ => .int32
  | int64 _ => .int64
  | uint8 _ => .uint8
  | uint16 _ => .uint16
  | uint32 _ => .uint32
  | uint64 _ => .uint64
  | string _ => .string

def bytes (f : Field) : Bytes := f.write.bytes

end Field

/-- What the operation returns. -/
def ReadOp.value (u : Unspecified) : ReadOp → Stream Field
  | .byte => return .byte (← readByte u)
  | .int8 => return .int8 (← readInt8 u)
  | .int16 => return .int16 (← readInt16 u)
  | .int32 => return .int32 (← readInt32 u)
  | .int64 => return .int64 (← readInt64 u)
  | .uint8 => return .uint8 (← readUInt8 u)
  | .uint16 => return .uint16 (← readUInt16 u)
  | .uint32 => return .uint32 (← readUInt32 u)
  | .uint64 => return .uint64 (← readUInt64 u)
  | .string => return .string (← readString u)

/-- Values, each with what is unspecified when it is written. -/
abbrev Tape := List (Unspecified × Field)

namespace Tape

def run (tape : Tape) : Stream Unit := tape.forM fun x => x.2.write.run x.1

def fields (tape : Tape) : List Field := tape.map (·.2)

def bytes (tape : Tape) : Bytes := tape.fields.flatMap Field.bytes

end Tape

/-- The operations one after another. -/
def readAll : List (Unspecified × ReadOp) → Stream (List Field)
  | [] => return []
  | (u, op) :: ops => do
    let field ← op.value u
    let fields ← readAll ops
    return field :: fields

-- ---------------------------------------------------------------------------
-- One value
-- ---------------------------------------------------------------------------

/-- An integer type, by its numbers. -/
theorem reads_int {f : Nat → α} {g : α → Nat} (hw : width < 2 ^ 32) (hfg : ∀ a, f (g a) = a)
    (hg : ∀ a, g a < 256 ^ width) (hgf : ∀ n < 256 ^ width, g (f n) = n) :
    Reads (do return f (← readLE u width)) fun a w => w = toLE width (g a) := by
  refine (reads_map (reads_readLE hw) hfg fun n _ h => hgf n h.1).congr fun a w => ?_
  exact ⟨fun h => h.2, fun h => ⟨hg a, h⟩⟩

theorem reads_as (mk : α → Field) {r : Stream α} {enc : α → Bytes} {op : ReadOp}
    (hr : Reads r fun a w => w = enc a) (hop : ∀ field, field.read = op ↔ ∃ a, field = mk a)
    (henc : ∀ a, (mk a).bytes = enc a) :
    Reads (do return mk (← r)) fun field w => field.read = op ∧ w = field.bytes := by
  refine (hr.bind fun a => Reads.pure (mk a)).congr fun field w => ?_
  rw [hop]
  constructor
  · rintro ⟨a, x, y, rfl, rfl, rfl, rfl⟩
    exact ⟨⟨a, rfl⟩, by rw [List.append_nil, henc]⟩
  · rintro ⟨⟨a, rfl⟩, rfl⟩
    exact ⟨a, enc a, [], by rw [List.append_nil, henc], rfl, rfl, rfl⟩

/-- An operation takes the values of its type, and throws where there is none. -/
theorem reads_value (op : ReadOp) :
    Reads (op.value u) fun field w => field.read = op ∧ w = field.bytes := by
  cases op with
  | byte =>
    refine reads_as .byte (reads_int (g := UInt8.toNat) (by decide) (fun i => UInt8.ofNat_toNat)
      (fun i => i.toNat_lt) fun n hn => UInt8.toNat_ofNat_of_lt hn) (fun field => ?_) fun i => rfl
    cases field <;> simp [Field.read]
  | uint8 =>
    refine reads_as .uint8 (reads_int (g := UInt8.toNat) (by decide) (fun i => UInt8.ofNat_toNat)
      (fun i => i.toNat_lt) fun n hn => UInt8.toNat_ofNat_of_lt hn) (fun field => ?_) fun i => rfl
    cases field <;> simp [Field.read]
  | uint16 =>
    refine reads_as .uint16 (reads_int (g := UInt16.toNat) (by decide) (fun i => UInt16.ofNat_toNat)
      (fun i => i.toNat_lt) fun n hn => UInt16.toNat_ofNat_of_lt hn) (fun field => ?_) fun i => rfl
    cases field <;> simp [Field.read]
  | uint32 =>
    refine reads_as .uint32 (reads_int (g := UInt32.toNat) (by decide) (fun i => UInt32.ofNat_toNat)
      (fun i => i.toNat_lt) fun n hn => UInt32.toNat_ofNat_of_lt hn) (fun field => ?_) fun i => rfl
    cases field <;> simp [Field.read]
  | uint64 =>
    refine reads_as .uint64 (reads_int (g := UInt64.toNat) (by decide) (fun i => UInt64.ofNat_toNat)
      (fun i => i.toNat_lt) fun n hn => UInt64.toNat_ofNat_of_lt hn) (fun field => ?_) fun i => rfl
    cases field <;> simp [Field.read]
  | int8 =>
    refine reads_as .int8 (reads_int (g := fun i : Int8 => i.toUInt8.toNat) (by decide)
      (fun i => by simp) (fun i => i.toUInt8.toNat_lt) fun n hn => ?_) (fun field => ?_) fun i => rfl
    · rw [UInt8.toUInt8_toInt8]
      exact UInt8.toNat_ofNat_of_lt hn
    · cases field <;> simp [Field.read]
  | int16 =>
    refine reads_as .int16 (reads_int (g := fun i : Int16 => i.toUInt16.toNat) (by decide)
      (fun i => by simp) (fun i => i.toUInt16.toNat_lt) fun n hn => ?_) (fun field => ?_) fun i => rfl
    · rw [UInt16.toUInt16_toInt16]
      exact UInt16.toNat_ofNat_of_lt hn
    · cases field <;> simp [Field.read]
  | int32 =>
    refine reads_as .int32 (reads_int (g := fun i : Int32 => i.toUInt32.toNat) (by decide)
      (fun i => by simp) (fun i => i.toUInt32.toNat_lt) fun n hn => ?_) (fun field => ?_) fun i => rfl
    · rw [UInt32.toUInt32_toInt32]
      exact UInt32.toNat_ofNat_of_lt hn
    · cases field <;> simp [Field.read]
  | int64 =>
    refine reads_as .int64 (reads_int (g := fun i : Int64 => i.toUInt64.toNat) (by decide)
      (fun i => by simp) (fun i => i.toUInt64.toNat_lt) fun n hn => ?_) (fun field => ?_) fun i => rfl
    · rw [UInt64.toUInt64_toInt64]
      exact UInt64.toNat_ofNat_of_lt hn
    · cases field <;> simp [Field.read]
  | string =>
    refine reads_as .string reads_readString (fun field => ?_) fun str => rfl
    cases field <;> simp [Field.read]

-- ---------------------------------------------------------------------------
-- Tapes
-- ---------------------------------------------------------------------------

theorem reads_all (ops : List (Unspecified × ReadOp)) :
    Reads (readAll ops) fun fields w =>
      fields.map Field.read = ops.map (·.2) ∧ w = fields.flatMap Field.bytes := by
  induction ops with
  | nil =>
    refine (Reads.pure []).congr fun fields w => ?_
    rw [List.map_nil, List.map_eq_nil_iff]
    constructor
    · rintro ⟨rfl, rfl⟩
      exact ⟨rfl, rfl⟩
    · rintro ⟨rfl, rfl⟩
      exact ⟨rfl, rfl⟩
  | cons x ops ih =>
    refine ((reads_value x.2).bind fun field => ih.bind fun fields =>
      Reads.pure (field :: fields)).congr fun fields w => ?_
    constructor
    · rintro ⟨field, x, y, rfl, ⟨hop, rfl⟩, fields, y, z, rfl, ⟨hops, rfl⟩, rfl, rfl⟩
      exact ⟨by rw [List.map_cons, hop, hops, List.map_cons], by rw [List.append_nil]; rfl⟩
    · rintro ⟨hops, rfl⟩
      cases fields with
      | nil => cases hops
      | cons field fields =>
        rw [List.map_cons, List.map_cons, List.cons.injEq] at hops
        exact ⟨field, _, _, rfl, ⟨hops.1, rfl⟩, fields, _, [], by rw [List.append_nil]; rfl,
          ⟨hops.2, rfl⟩, rfl, rfl⟩

theorem writes_field (field : Field) : Writes (field.write.run u) field.bytes := by
  intro c s data h hlen
  refine writes_op field.write ?_ h hlen
  cases field with
  | string str =>
    have hstr : (Field.string str).bytes.length = 8 + str.length := by
      simp [Field.bytes, Field.write, WriteOp.bytes, stringLayout]
    rw [hstr] at hlen
    have hlt : str.length < 2 ^ 64 := by omega
    exact UInt64.toNat_ofNat_of_lt hlt
  | _ => trivial

theorem writes_tape (tape : Tape) : Writes tape.run tape.bytes := by
  have hbytes : tape.bytes = tape.flatMap fun x => x.2.bytes := by
    rw [Tape.bytes, Tape.fields, List.flatMap_map]
  rw [hbytes]
  exact Writes.forM (fun x => writes_field x.2) tape

/-- A stream that has been written, from its start on. -/
theorem Holds.rewound {c : Nat} {data : Bytes} (h : Holds c s data) :
    s.resetPtr.Valid ∧ s.resetPtr.rest = data := by
  have hroom := h.room
  have hle : s.mLength.toNat ≤ s.mBuffer.length := by
    rw [h.length, h.alloc]
    exact Nat.le_of_lt hroom
  refine ⟨⟨Nat.zero_le _, hle⟩, ?_⟩
  show (s.mBuffer.take s.mLength.toNat).drop 0 = data
  rw [List.drop_zero, h.length, h.bytes]

/-- Bytes begin with one tape of given types at most. -/
theorem tape_unique {ops : List (Unspecified × ReadOp)} {fields fields' : List Field}
    {tail tail' : Bytes} (hops : fields.map Field.read = ops.map (·.2))
    (hops' : fields'.map Field.read = ops.map (·.2))
    (heq : fields.flatMap Field.bytes ++ tail = fields'.flatMap Field.bytes ++ tail')
    (hlen : (fields.flatMap Field.bytes ++ tail).length < 2 ^ 32) : fields = fields' := by
  have hv := ofBuf_valid (u := default) hlen
  have hr := ofBuf_rest (u := default) hlen
  have h := (reads_all ops).ok hv hr ⟨hops, rfl⟩
  rw [(reads_all ops).ok hv (hr.trans heq) ⟨hops', rfl⟩] at h
  cases h
  rfl

/-- Written, rewound and read, a tape is as it was, and nothing is left. Of any
first part of its bytes, one of the reads throws. -/
theorem tape_round_trip (u : Unspecified) (cap : UInt32) (tape : Tape)
    (ops : List (Unspecified × ReadOp)) (hops : ops.map (·.2) = tape.fields.map Field.read)
    (htotal : tape.bytes.length < 2 ^ 31) :
    ∃ s, tape.run.run (ofCap u cap) = .ok () s ∧
      (∃ t, (readAll ops).run s.resetPtr = .ok tape.fields t ∧ t.atEnd = true) ∧
      ∀ n < tape.bytes.length, ∃ e t,
        (readAll ops).run (ofBuf u ((s.getBuf u).take n) (UInt64.ofNat n)) =
          .error (.threw e) t := by
  obtain ⟨_, s, hs, hh⟩ := writes_tape tape (ofCap_holds (u := u)) (by simpa using htotal)
  rw [List.nil_append] at hh
  obtain ⟨hv, hrest⟩ := hh.rewound
  refine ⟨s, hs, ?_, fun n hn => ?_⟩
  · have hall : s.resetPtr.rest = tape.fields.flatMap Field.bytes ++ [] := by
      rw [hrest, List.append_nil]
      rfl
    have hread := (reads_all ops).ok hv hall ⟨hops.symm, rfl⟩
    refine ⟨_, hread, ?_⟩
    have hle : (tape.fields.flatMap Field.bytes).length ≤ s.resetPtr.rest.length := by
      rw [hrest]
      exact Nat.le_refl _
    rw [(hv.advance hle).atEnd_iff, hv.rest_advance hle, hrest]
    exact List.drop_length
  · rw [hh.getBuf]
    have hcut : (tape.bytes.take n).length = n := by
      rw [List.length_take]
      omega
    have hlt : (tape.bytes.take n).length < 2 ^ 32 := by omega
    have hbuf := ofBuf_valid (u := u) hlt
    have hcutrest := ofBuf_rest (u := u) hlt
    rw [hcut] at hbuf hcutrest
    refine (reads_all ops).throws hbuf fun fields w tail hw hp => ?_
    obtain ⟨hfields, rfl⟩ := hp
    -- a tape that stood there would be the one that was written, and shorter
    have hwhole : tape.fields.flatMap Field.bytes ++ [] =
        fields.flatMap Field.bytes ++ (tail ++ tape.bytes.drop n) := by
      rw [← List.append_assoc, ← hw, hcutrest, List.take_append_drop, List.append_nil]
      rfl
    have hsame := tape_unique hops.symm hfields hwhole (by
      rw [List.append_nil]
      exact Nat.lt_trans htotal (by decide))
    have hlen := congrArg List.length hw
    rw [hcutrest, hcut, List.length_append, ← hsame] at hlen
    exact absurd hn (Nat.not_lt.mpr (hlen ▸ Nat.le_add_right _ _))

def mixed : Tape :=
  [(default, .uint16 513), (default, .string [104, 105]), (default, .int8 (-1))]

def mixedReads : List (Unspecified × ReadOp) :=
  [(default, .uint16), (default, .string), (default, .int8)]

theorem tape_round_trip_mixed :
    ∃ s, mixed.run.run (ofCap default 3) = .ok () s ∧
      (∃ t, (readAll mixedReads).run s.resetPtr = .ok mixed.fields t ∧ t.atEnd = true) ∧
      ∀ n < mixed.bytes.length, ∃ e t,
        (readAll mixedReads).run (ofBuf default ((s.getBuf default).take n) (UInt64.ofNat n)) =
          .error (.threw e) t :=
  tape_round_trip default 3 mixed mixedReads rfl (by decide)

end ENetChat.ByteStream

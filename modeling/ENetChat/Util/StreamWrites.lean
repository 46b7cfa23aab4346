import ENetChat.Util.ByteStreamLaws

/-!
# Writing a stream from its start

The public write operations, one after another, on a fresh stream. They
append their encodings, and the buffer doubles no further than it must
(`append_only`). The copies they make stay inside their allocations as long
as the buffer need not double at all (`copies_inBounds_iff`).
-/

namespace ENetChat

open LittleEndian
open Exec (run_discard run_forM_cons)

namespace ByteStream

variable {u : Unspecified} {s : ByteStream} {c n : Nat} {data : Bytes}

/-- A call of `write`: the memory behind the pointer, and the length. -/
structure WriteCall where
  data : Bytes
  length : UInt64
  deriving DecidableEq, Repr

/-- A call of `write` for an integer of `width` bytes. -/
def WriteCall.ofNat (width n : Nat) : WriteCall := ⟨toLE width n, UInt64.ofNat width⟩

def WriteCall.run (u : Unspecified) (call : WriteCall) : Stream Unit :=
  discard (write u call.data call.length)

inductive WriteOp where
  | byte (byte : UInt8)
  | int8 (i : Int8)
  | int16 (i : Int16)
  | int32 (i : Int32)
  | int64 (i : Int64)
  | uint8 (i : UInt8)
  | uint16 (i : UInt16)
  | uint32 (i : UInt32)
  | uint64 (i : UInt64)
  | string (str : Bytes) (length : UInt64)
  deriving DecidableEq, Repr

namespace WriteOp

def run (u : Unspecified) : WriteOp → Stream Unit
  | byte b => discard (writeByte u b)
  | int8 i => discard (writeInt8 u i)
  | int16 i => discard (writeInt16 u i)
  | int32 i => discard (writeInt32 u i)
  | int64 i => discard (writeInt64 u i)
  | uint8 i => discard (writeUInt8 u i)
  | uint16 i => discard (writeUInt16 u i)
  | uint32 i => discard (writeUInt32 u i)
  | uint64 i => discard (writeUInt64 u i)
  | string str length => discard (writeString u str length)

/-- The calls of `write` that it makes. -/
def calls : WriteOp → List WriteCall
  | byte b => [.ofNat 1 b.toNat]
  | int8 i => [.ofNat 1 i.toUInt8.toNat]
  | int16 i => [.ofNat 2 i.toUInt16.toNat]
  | int32 i => [.ofNat 4 i.toUInt32.toNat]
  | int64 i => [.ofNat 8 i.toUInt64.toNat]
  | uint8 i => [.ofNat 1 i.toNat]
  | uint16 i => [.ofNat 2 i.toNat]
  | uint32 i => [.ofNat 4 i.toNat]
  | uint64 i => [.ofNat 8 i.toNat]
  | string str length => [.ofNat 8 length.toNat, ⟨str ++ [0], length⟩]

/-- The length passed along with a string is the string's. -/
def Exact : WriteOp → Prop
  | string str length => length.toNat = str.length
  | _ => True

def bytes : WriteOp → Bytes
  | byte b => toLE 1 b.toNat
  | int8 i => toLE 1 i.toUInt8.toNat
  | int16 i => toLE 2 i.toUInt16.toNat
  | int32 i => toLE 4 i.toUInt32.toNat
  | int64 i => toLE 8 i.toUInt64.toNat
  | uint8 i => toLE 1 i.toNat
  | uint16 i => toLE 2 i.toNat
  | uint32 i => toLE 4 i.toNat
  | uint64 i => toLE 8 i.toNat
  | string str _ => stringLayout str

end WriteOp

/-- Write operations, each with what is unspecified in it. -/
abbrev Writing := List (Unspecified × WriteOp)

namespace Writing

def run (ops : Writing) : Stream Unit := ops.forM fun x => x.2.run x.1

def calls (ops : Writing) : List (Unspecified × WriteCall) :=
  ops.flatMap fun x => x.2.calls.map (x.1, ·)

def bytes (ops : Writing) : Bytes := ops.flatMap fun x => x.2.bytes

end Writing

theorem write_true {src : Bytes} {length : UInt64} (h : (write u src length).run s = .ok b t) :
    b = true := by
  rw [write_run] at h
  split at h
  · cases h
  · cases h
    rfl

theorem run_forM_one {α : Type} {f : α → Stream PUnit} {a : α} :
    ([a].forM f).run s = (f a).run s := by
  rw [run_forM_cons, EStateM.run_bind]
  cases (f a).run s <;> rfl

/-- An operation is its calls of `write`, which all return true. -/
theorem run_calls (op : WriteOp) :
    (op.run u).run s = (op.calls.forM (WriteCall.run u)).run s := by
  cases op with
  | string str length =>
    simp only [WriteOp.run, WriteOp.calls, run_discard, writeString, writeUInt64, writeLE,
      EStateM.run_bind, run_forM_cons, WriteCall.run, WriteCall.ofNat]
    cases h : (write u (toLE 8 length.toNat) (UInt64.ofNat 8)).run s with
    | error e t => rfl
    | ok b t =>
      obtain rfl := write_true h
      simp only [if_true]
      cases (write u (str ++ [0]) length).run t <;> rfl
  | _ => exact run_forM_one.symm

-- ---------------------------------------------------------------------------
-- Contents
-- ---------------------------------------------------------------------------

/-- The capacity that `ByteStream(cap)` starts with. -/
def firstCapacity (cap : UInt32) : Nat := if cap = 0 then 64 else cap.toNat

theorem firstCapacity_eq (u : Unspecified) (cap : UInt32) :
    (ofCap u cap).mCapacity.toNat = firstCapacity cap := by
  show (if cap > 0 then cap else initCapacity).toNat = if cap = 0 then 64 else cap.toNat
  by_cases h : cap = 0
  · rw [h]
    rfl
  · rw [if_neg h, if_pos (UInt32.pos_iff_ne_zero.mpr h)]

/-- The stream of first capacity `c` after `data` has been written to it. -/
structure Appended (c : Nat) (data : Bytes) (s : ByteStream) : Prop where
  offset : s.mOffset.toNat = data.length
  length : s.mLength.toNat = data.length
  /-- The least `c * 2 ^ k` above the length, with no wrapping. -/
  capacity : ∃ k, s.mCapacity.toNat = c * 2 ^ k ∧ data.length < c * 2 ^ k ∧
    ∀ j, data.length < c * 2 ^ j → k ≤ j
  contents : ∀ u, s.getBuf u = data

theorem Holds.appended (h : Holds c s data) : Appended c data s := by
  refine ⟨h.offset, h.length, ?_, fun u => h.getBuf⟩
  obtain ⟨k, hk, hle⟩ := h.grown
  have hroom := h.room
  rw [hk] at hroom
  refine ⟨k, hk, hroom, fun j hj => ?_⟩
  by_contra hlt
  obtain rfl | hle := hle
  · exact hlt (Nat.zero_le j)
  · have hpow : c * 2 ^ j ≤ c * 2 ^ (k - 1) :=
      Nat.mul_le_mul_left c (Nat.pow_le_pow_right (by decide) (by omega))
    omega

theorem writes_op (op : WriteOp) (h : op.Exact) : Writes (op.run u) op.bytes := by
  have hone : ∀ {m : Stream Bool} {w : Bytes}, Writes m w → Writes (discard m) w := by
    intro m w hm c s data hd hlen
    obtain ⟨b, s', hs', hh⟩ := hm hd hlen
    exact ⟨(), s', by rw [run_discard, hs'], hh⟩
  cases op with
  | string str length =>
    have hlen : length = UInt64.ofNat str.length := by
      rw [← show length.toNat = str.length from h, UInt64.ofNat_toNat]
    rw [WriteOp.run, hlen]
    exact hone (writes_writeString str)
  | _ => exact hone writes_writeLE

/-- Write operations append their encodings. A first part of a sequence is a
sequence, so this is so after every operation, whatever the capacity was. -/
theorem append_only (u : Unspecified) (cap : UInt32) (ops : Writing)
    (hexact : ∀ x ∈ ops, x.2.Exact) (htotal : ops.bytes.length < 2 ^ 31) :
    ∃ s, ops.run.run (ofCap u cap) = .ok () s ∧ Appended (firstCapacity cap) ops.bytes s := by
  have hwrites : ∀ ops : Writing, (∀ x ∈ ops, x.2.Exact) → Writes ops.run ops.bytes := by
    intro ops
    induction ops with
    | nil => exact fun _ => Writes.pure ()
    | cons x ops ih =>
      intro hall
      exact Writes.bind (writes_op x.2 (hall x (by simp))) fun _ =>
        ih fun y hy => hall y (by simp [hy])
  have h : Holds (ofCap u cap).mCapacity.toNat (ofCap u cap) [] := ofCap_holds
  obtain ⟨_, s, hs, hh⟩ := hwrites ops hexact h (by simpa using htotal)
  rw [firstCapacity_eq] at hh
  exact ⟨s, hs, hh.appended⟩

/-- Four operations on a stream of first capacity 3, which grows three times. -/
def growing : Writing :=
  [(default, .uint16 513), (default, .byte 7), (default, .string [104, 105] 2),
    (default, .int8 (-1))]

theorem append_only_growing :
    ∃ s, growing.run.run (ofCap default 3) = .ok () s ∧
      Appended (firstCapacity 3) growing.bytes s :=
  append_only default 3 growing (by simp [growing, WriteOp.Exact]) (by decide)

-- ---------------------------------------------------------------------------
-- Copies
-- ---------------------------------------------------------------------------

/-- A `memcpy` of `size` bytes from one allocation to another. -/
structure Memcpy where
  dest : Bytes
  destOff : Nat
  source : Bytes
  sourceOff : Nat
  size : Nat
  deriving DecidableEq, Repr

namespace Memcpy

/-- The destination afterwards. -/
def result (u : Unspecified) (m : Memcpy) : Bytes :=
  writeMem m.dest m.destOff (readMem u m.source m.sourceOff m.size)

def InBounds (m : Memcpy) : Prop :=
  ∀ i < m.size, m.sourceOff + i < m.source.length ∧ m.destOff + i < m.dest.length

end Memcpy

def resizeCopy (u : Unspecified) (s : ByteStream) : Memcpy where
  dest := alloc u (s.mCapacity * 2).toNat
  destOff := 0
  source := s.mBuffer
  sourceOff := 0
  size := (s.mCapacity * 2).toNat

/-- The copy of `write`, in the stream that the loop leaves. -/
def writeCopy (call : WriteCall) (s : ByteStream) : Memcpy where
  dest := s.mBuffer
  destOff := s.mOffset.toNat
  source := call.data
  sourceOff := 0
  size := call.length.toNat

theorem resize_eq :
    s.resize u =
      { s with mCapacity := s.mCapacity * 2, mBuffer := (s.resizeCopy u).result u } := rfl

theorem write_eq (call : WriteCall) :
    (write u call.data call.length).run s =
      match grow u growFuel { s with mLength := s.mLength + call.length.toUInt32 } with
      | none => .error .diverges s
      | some t => .ok true
          { t with
            mBuffer := (writeCopy call t).result u
            mOffset := t.mOffset + call.length.toUInt32 } := write_run

/-- The copies of the loop in `write`. -/
def growCopies (u : Unspecified) : (fuel : Nat) → ByteStream → List Memcpy
  | 0, _ => []
  | fuel + 1, s =>
    if s.mLength ≥ s.mCapacity then s.resizeCopy u :: growCopies u fuel (s.resize u) else []

def WriteCall.copies (u : Unspecified) (call : WriteCall) (s : ByteStream) : List Memcpy :=
  let s := { s with mLength := s.mLength + call.length.toUInt32 }
  growCopies u growFuel s ++ (grow u growFuel s).toList.map (writeCopy call)

/-- The copies of calls of `write`, one after another. -/
def copies : List (Unspecified × WriteCall) → ByteStream → List Memcpy
  | [], _ => []
  | (u, call) :: calls, s =>
    call.copies u s ++
      match (call.run u).run s with
      | .ok _ s' => copies calls s'
      | .error _ _ => []

def total (calls : List (Unspecified × WriteCall)) : Nat :=
  (calls.map fun x => x.2.length.toNat).sum

/-- The memory behind the pointer is as long as the call claims. -/
def WriteCall.Backed (call : WriteCall) : Prop := call.length.toNat ≤ call.data.length

/-- A string is followed by a NUL, so its memory is longer than it. -/
theorem exact_backed (op : WriteOp) (h : op.Exact) : ∀ call ∈ op.calls, call.Backed := by
  have hint : ∀ width n : Nat, width < 2 ^ 32 → (WriteCall.ofNat width n).Backed := by
    intro width n hw
    simp only [WriteCall.Backed, WriteCall.ofNat, length_toLE, UInt64.toNat_ofNat']
    exact Nat.mod_le _ _
  cases op with
  | string str length =>
    simp only [WriteOp.calls, List.forall_mem_cons, List.not_mem_nil, false_implies, implies_true,
      and_true]
    refine ⟨hint 8 _ (by decide), ?_⟩
    simp only [WriteCall.Backed, List.length_append, List.length_singleton]
    have hlen : length.toNat = str.length := h
    omega
  | _ => simpa only [WriteOp.calls, List.forall_mem_singleton] using hint _ _ (by decide)

/-- A `resize` reads twice as much as there is. -/
theorem resizeCopy_not_inBounds (halloc : s.mBuffer.length = s.mCapacity.toNat)
    (hpos : 0 < s.mCapacity.toNat) (hcap : s.mCapacity.toNat < 2 ^ 31) :
    ¬ (s.resizeCopy u).InBounds := by
  intro h
  have hsize : (s.resizeCopy u).size = s.mCapacity.toNat * 2 := toNat_double (u := u) hcap
  have hread := (h s.mCapacity.toNat (by omega)).1
  simp only [resizeCopy, halloc] at hread
  omega

theorem Holds.writeCopy_inBounds (h : Holds c s data) (call : WriteCall)
    (hroom : data.length + call.length.toNat < s.mCapacity.toNat) (l : UInt32) :
    (writeCopy call { s with mLength := l }).InBounds ↔ call.Backed := by
  have hdest : ∀ i < call.length.toNat, s.mOffset.toNat + i < s.mBuffer.length := by
    intro i hi
    rw [h.offset, h.alloc]
    omega
  constructor
  · intro hin
    by_contra hno
    have hlast := (hin call.data.length (Nat.not_le.mp hno)).1
    simp only [writeCopy] at hlast
    omega
  · intro hbacked i hi
    refine ⟨?_, hdest i hi⟩
    simp only [writeCopy, WriteCall.Backed] at hi hbacked ⊢
    omega

theorem Holds.toNat_length_add (h : Holds c s data) (call : WriteCall)
    (htotal : data.length + call.length.toNat < 2 ^ 31) :
    (s.mLength + call.length.toUInt32).toNat = data.length + call.length.toNat := by
  rw [UInt32.toNat_add, h.length, UInt64.toNat_toUInt32]
  omega

theorem Holds.grow_fits (h : Holds c s data) (hc : s.mCapacity.toNat = c) (call : WriteCall)
    (hroom : data.length + call.length.toNat < c)
    (htotal : data.length + call.length.toNat < 2 ^ 31) :
    grow u growFuel { s with mLength := s.mLength + call.length.toUInt32 } =
      some { s with mLength := s.mLength + call.length.toUInt32 } :=
  grow_room growFuel (by simp only [h.toNat_length_add call htotal, hc]; exact hroom)

/-- Without a `resize`, the only copy of a call is its own; with one, there is
a copy out of bounds. -/
theorem Holds.copies_iff (h : Holds c s data) (hc : s.mCapacity.toNat = c) (call : WriteCall)
    (htotal : data.length + call.length.toNat < 2 ^ 31) :
    (∀ m ∈ call.copies u s, m.InBounds) ↔
      data.length + call.length.toNat < c ∧ call.Backed := by
  have hlen := h.toNat_length_add call htotal
  by_cases hroom : data.length + call.length.toNat < c
  · have hgrow := h.grow_fits (u := u) hc call hroom htotal
    have hnone : growCopies u growFuel { s with mLength := s.mLength + call.length.toUInt32 } =
        [] := by
      rw [growFuel, growCopies, if_neg]
      simp only [ge_iff_le, UInt32.le_iff_toNat_le, hlen]
      omega
    simp only [WriteCall.copies, hgrow, hnone, Option.toList_some, List.map_cons, List.map_nil,
      List.nil_append, List.mem_singleton, forall_eq]
    rw [h.writeCopy_inBounds call (by omega)]
    exact (and_iff_right hroom).symm
  · refine iff_of_false (fun hin => ?_) (fun hand => hroom hand.1)
    have hmem : resizeCopy u { s with mLength := s.mLength + call.length.toUInt32 } ∈
        call.copies u s := by
      rw [WriteCall.copies, growFuel, growCopies, if_pos]
      · simp
      · simp only [ge_iff_le, UInt32.le_iff_toNat_le, hlen]
        omega
    have hroom' := h.room
    exact resizeCopy_not_inBounds h.alloc (show 0 < s.mCapacity.toNat by omega)
      (show s.mCapacity.toNat < 2 ^ 31 by omega) (hin _ hmem)

theorem Holds.run_call (h : Holds c s data) (hc : s.mCapacity.toNat = c) (call : WriteCall)
    (hroom : data.length + call.length.toNat < c)
    (htotal : data.length + call.length.toNat < 2 ^ 31) :
    ∃ s', (call.run u).run s = .ok () s' ∧ s'.mCapacity.toNat = c ∧
      Holds c s' (data ++ readMem u call.data 0 call.length.toNat) := by
  obtain ⟨s', hs', hh⟩ := h.write_mem (u := u) (n := call.length.toNat) call.data htotal
  rw [UInt64.ofNat_toNat] at hs'
  refine ⟨s', by rw [WriteCall.run, run_discard, hs'], ?_, hh⟩
  rw [write_run, h.grow_fits hc call hroom htotal] at hs'
  cases hs'
  exact hc

theorem Holds.all_copies_iff (calls : List (Unspecified × WriteCall)) (h : Holds c s data)
    (hc : s.mCapacity.toNat = c) (htotal : data.length + total calls < 2 ^ 31) :
    (∀ m ∈ copies calls s, m.InBounds) ↔
      data.length + total calls < c ∧ ∀ x ∈ calls, x.2.Backed := by
  induction calls generalizing s data with
  | nil =>
    have hroom := h.room
    refine iff_of_true (by simp [copies]) ⟨?_, by simp⟩
    simp only [total, List.map_nil, List.sum_nil]
    omega
  | cons x calls ih =>
    obtain ⟨u, call⟩ := x
    have hsum : total ((u, call) :: calls) = call.length.toNat + total calls := by
      simp [total]
    rw [hsum] at htotal ⊢
    have hfirst := h.copies_iff (u := u) hc call (by omega)
    simp only [copies, List.mem_append, or_imp, forall_and, hfirst, List.forall_mem_cons]
    constructor
    · rintro ⟨⟨hroom, hbacked⟩, hrest⟩
      obtain ⟨s', hs', hc', hh⟩ := h.run_call (u := u) hc call hroom (by omega)
      rw [hs'] at hrest
      have hih := (ih hh hc' (by simp only [List.length_append, length_readMem]; omega)).mp hrest
      simp only [List.length_append, length_readMem] at hih
      exact ⟨by omega, hbacked, hih.2⟩
    · rintro ⟨hroom, hbacked, hrest⟩
      have hroom' : data.length + call.length.toNat < c := by omega
      obtain ⟨s', hs', hc', hh⟩ := h.run_call (u := u) hc call hroom' (by omega)
      rw [hs']
      refine ⟨⟨hroom', hbacked⟩, ?_⟩
      refine (ih hh hc' (by simp only [List.length_append, length_readMem]; omega)).mpr ⟨?_, hrest⟩
      simp only [List.length_append, length_readMem]
      omega

/-- All copies of a sequence of operations stay inside their allocations
exactly when the buffer never has to grow, and no call claims more memory
than it has. -/
theorem copies_inBounds_iff (u : Unspecified) (cap : UInt32) (ops : Writing)
    (htotal : total ops.calls < 2 ^ 31) :
    (∀ m ∈ copies ops.calls (ofCap u cap), m.InBounds) ↔
      total ops.calls < firstCapacity cap ∧ ∀ x ∈ ops.calls, x.2.Backed := by
  have h : Holds (ofCap u cap).mCapacity.toNat (ofCap u cap) [] := ofCap_holds
  rw [firstCapacity_eq] at h
  have hiff := h.all_copies_iff ops.calls (firstCapacity_eq u cap) (by simpa using htotal)
  rwa [List.length_nil, Nat.zero_add] at hiff

theorem copies_inBounds_growing :
    (∀ m ∈ copies growing.calls (ofCap default 3), m.InBounds) ↔
      total growing.calls < firstCapacity 3 ∧ ∀ x ∈ growing.calls, x.2.Backed :=
  copies_inBounds_iff default 3 growing (by decide)

/-- Eight integers fill the 64 bytes of `ByteStream s;`. -/
def filling : Writing := List.replicate 8 (default, .uint64 0)

/-- The 64 bytes are copied as if they were 128. -/
theorem filled_buffer_overread :
    ¬ ∀ m ∈ copies filling.calls (ofCap default 0), m.InBounds := by
  intro hin
  have h : Holds (ofCap default 0).mCapacity.toNat (ofCap default 0) [] := ofCap_holds
  rw [firstCapacity_eq] at h
  have hiff := h.all_copies_iff filling.calls (firstCapacity_eq default 0) (by decide)
  exact absurd (hiff.mp hin).1 (by decide)

end ByteStream

end ENetChat

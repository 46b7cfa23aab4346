import ENetChat.Lib.Transition
import ENetChat.Util.ByteStreamReads
import ENetChat.Util.StreamWrites

/-!
# Streams in any use

Sequences of all the public operations, in any mixture. `writes_exit_iff`:
the growth loop of a write exits exactly when some doubling of the capacity,
as a 32-bit number, is above the new length. `writes_filled_iff`: every byte
below the length was supplied exactly when every write appends.

What was supplied is followed by running the program's own copies on marks:
1 for a byte that was supplied, 0 for one that was not.
-/

namespace ENetChat

open Exec (run_discard run_forM_cons)
open Transition (Along)

namespace ByteStream

variable {u : Unspecified} {s t : ByteStream} {b dst data : Bytes} {n i off cap len : Nat}

-- ---------------------------------------------------------------------------
-- Calls
-- ---------------------------------------------------------------------------

/-- A call of a public operation or, for the operations that write, of
`write`. -/
inductive Call where
  | write (call : WriteCall)
  | read (op : ReadOp)
  | inspect  -- an operation that is const
  | resetPtr
  | copy  -- and on with the copy

/-- The stream once the call has returned or thrown, if it does. -/
def Call.after (u : Unspecified) (call : Call) (s : ByteStream) : Option ByteStream :=
  match call with
  | write call =>
    match (call.run u).run s with
    | .ok _ s' => some s'
    | .error _ _ => none
  | read op =>
    match (op.run u).run s with
    | .ok _ s' => some s'
    | .error _ s' => some s'
  | inspect => some s
  | resetPtr => some s.resetPtr
  | copy => some (ofCopy u s)

inductive StreamOp where
  | write (op : WriteOp)
  | read (op : ReadOp)
  | inspect
  | resetPtr
  | copy

def StreamOp.calls : StreamOp → List Call
  | write op => op.calls.map .write
  | read op => [.read op]
  | inspect => [.inspect]
  | resetPtr => [.resetPtr]
  | copy => [.copy]

/-- A sequence of operations, each with what is unspecified in it. -/
abbrev Use := List (Unspecified × StreamOp)

def Use.calls (ops : Use) : List (Unspecified × Call) :=
  ops.flatMap fun x => x.2.calls.map (x.1, ·)

/-- The calls of a write operation, one after another, are the operation. -/
theorem after_calls (op : WriteOp) :
    (op.calls.map Call.write).foldlM (fun s call => call.after u s) s =
      match (op.run u).run s with
      | .ok _ s' => some s'
      | .error _ _ => none := by
  rw [run_calls]
  induction op.calls generalizing s with
  | nil => rfl
  | cons call calls ih =>
    simp only [List.map_cons, List.foldlM_cons, run_forM_cons, EStateM.run_bind, Call.after]
    cases (call.run u).run s with
    | ok a t => exact ih
    | error e t => rfl

def next (s : ByteStream) (x : Unspecified × Call) : Option ByteStream := x.2.after x.1 s

-- ---------------------------------------------------------------------------
-- The growth loop
-- ---------------------------------------------------------------------------

/-- A capacity after `k` doublings, as the 32-bit number it is. -/
def doubled (cap k : Nat) : Nat := cap * 2 ^ k % 2 ^ 32

theorem doubled_zero (h : cap < 2 ^ 32) : doubled cap 0 = cap := by
  rw [doubled, Nat.pow_zero, Nat.mul_one, Nat.mod_eq_of_lt h]

theorem doubled_succ : doubled (doubled cap 1) k = doubled cap (k + 1) := by
  simp only [doubled]
  rw [Nat.mod_mul_mod, Nat.pow_one, Nat.mul_assoc, ← Nat.pow_succ']

/-- A 32-bit number is shifted out after 32 doublings. -/
theorem doubled_out (h : 32 ≤ k) : doubled cap k = 0 := by
  obtain ⟨j, rfl⟩ := Nat.exists_eq_add_of_le h
  rw [doubled, Nat.pow_add, Nat.mul_left_comm, Nat.mul_mod_right]

theorem lt_of_doubled (h : n < doubled cap k) : k < 32 := by
  by_contra hout
  rw [doubled_out (Nat.not_lt.mp hout)] at h
  exact Nat.not_lt_zero _ h

theorem toNat_resize : (s.resize u).mCapacity.toNat = doubled s.mCapacity.toNat 1 := by
  show (s.mCapacity * 2).toNat = _
  rw [UInt32.toNat_mul, doubled, Nat.pow_one]
  rfl

/-- The byte at an index, unspecified past the end. -/
def cell (u : Unspecified) (b : Bytes) (i : Nat) : UInt8 := b[i]?.getD (u.byte i)

theorem cell_resize :
    cell u (s.resize u).mBuffer i =
      if i < doubled s.mCapacity.toNat 1 then cell u s.mBuffer i else u.byte i := by
  have hcap : (s.mCapacity * 2).toNat = doubled s.mCapacity.toNat 1 := toNat_resize (u := u)
  have hbuf : (s.resize u).mBuffer = readMem u s.mBuffer 0 (doubled s.mCapacity.toNat 1) := by
    show writeMem _ 0 (readMem u s.mBuffer 0 (s.mCapacity * 2).toNat) = _
    rw [writeMem_all (by simp), hcap]
  rw [hbuf, cell]
  by_cases hi : i < doubled s.mCapacity.toNat 1
  · simp [readMem, hi, cell]
  · simp [readMem, hi]

/-- The loop exits after `k` rounds, at the first doubling above the length.
A byte survives while every allocation on the way has its index. -/
structure Exits (u : Unspecified) (s : ByteStream) (k : Nat) (t : ByteStream) : Prop where
  length : t.mLength = s.mLength
  offset : t.mOffset = s.mOffset
  capacity : t.mCapacity.toNat = doubled s.mCapacity.toNat k
  alloc : t.mBuffer.length = t.mCapacity.toNat
  above : s.mLength.toNat < doubled s.mCapacity.toNat k
  first : ∀ j < k, doubled s.mCapacity.toNat j ≤ s.mLength.toNat
  bytes : ∀ i, cell u t.mBuffer i =
    if ∀ j ≤ k, i < doubled s.mCapacity.toNat j then cell u s.mBuffer i else u.byte i

theorem cell_past (h : b.length ≤ i) : cell u b i = u.byte i := by
  simp [cell, List.getElem?_eq_none h]

theorem Exits.zero (halloc : s.mBuffer.length = s.mCapacity.toNat) (h : ¬ s.mLength ≥ s.mCapacity) :
    Exits u s 0 s := by
  have hcap : doubled s.mCapacity.toNat 0 = s.mCapacity.toNat := doubled_zero s.mCapacity.toNat_lt
  have hlt := UInt32.lt_iff_toNat_lt.mp (UInt32.not_le.mp h)
  refine ⟨rfl, rfl, hcap.symm, halloc, by rwa [hcap], fun j hj => absurd hj (Nat.not_lt_zero j), ?_⟩
  intro i
  by_cases hi : i < s.mCapacity.toNat
  · rw [if_pos]
    intro j hj
    rwa [Nat.le_zero.mp hj, hcap]
  · rw [if_neg]
    · exact cell_past (by omega)
    · intro hall
      have := hall 0 (Nat.le_refl 0)
      omega

theorem Exits.succ (halloc : s.mBuffer.length = s.mCapacity.toNat) (h : s.mLength ≥ s.mCapacity)
    (hr : Exits u (s.resize u) k t) : Exits u s (k + 1) t := by
  have hcap : doubled s.mCapacity.toNat 0 = s.mCapacity.toNat := doubled_zero s.mCapacity.toNat_lt
  have hle := UInt32.le_iff_toNat_le.mp h
  have hsucc : ∀ j, doubled (s.resize u).mCapacity.toNat j = doubled s.mCapacity.toNat (j + 1) := by
    intro j
    rw [toNat_resize, doubled_succ]
  refine ⟨hr.length, hr.offset, ?_, hr.alloc, ?_, ?_, ?_⟩
  · rw [hr.capacity, hsucc]
  · have := hr.above
    rwa [hsucc] at this
  · intro j hj
    cases j with
    | zero => rwa [hcap]
    | succ j =>
      have := hr.first j (by omega)
      rwa [hsucc] at this
  · intro i
    have hbytes := hr.bytes i
    simp only [hsucc] at hbytes
    rw [hbytes, cell_resize]
    by_cases hall : ∀ j ≤ k + 1, i < doubled s.mCapacity.toNat j
    · rw [if_pos hall, if_pos fun j hj => hall (j + 1) (by omega), if_pos (hall 1 (by omega))]
    · rw [if_neg hall]
      split
      · next hrest =>
        -- what is left is an index past the first buffer
        have hpast : ¬ i < s.mCapacity.toNat := fun hi => hall fun j hj => by
          cases j with
          | zero => rwa [hcap]
          | succ j => exact hrest j (by omega)
        rw [if_pos (hrest 0 (by omega))]
        exact cell_past (by omega)
      · rfl

theorem grow_exits (fuel : Nat) (halloc : s.mBuffer.length = s.mCapacity.toNat)
    (h : grow u fuel s = some t) : ∃ k ≤ fuel, Exits u s k t := by
  induction fuel generalizing s with
  | zero =>
    simp only [grow] at h
    split at h
    · cases h
    · next hlt => cases h; exact ⟨0, Nat.le_refl 0, .zero halloc hlt⟩
  | succ fuel ih =>
    simp only [grow] at h
    split at h
    · next hge =>
      obtain ⟨k, hk, hr⟩ := ih length_resize h
      exact ⟨k + 1, by omega, .succ halloc hge hr⟩
    · next hlt => cases h; exact ⟨0, Nat.zero_le _, .zero halloc hlt⟩

/-- The loop exits within its rounds exactly when one of them is enough. -/
theorem grow_isSome (fuel : Nat) :
    (grow u fuel s).isSome ↔ ∃ k ≤ fuel, s.mLength.toNat < doubled s.mCapacity.toNat k := by
  have hcap : ∀ s : ByteStream, doubled s.mCapacity.toNat 0 = s.mCapacity.toNat :=
    fun s => doubled_zero s.mCapacity.toNat_lt
  induction fuel generalizing s with
  | zero =>
    simp only [grow, Nat.le_zero, exists_eq_left, hcap, ge_iff_le, UInt32.le_iff_toNat_le]
    split <;> simp <;> omega
  | succ fuel ih =>
    simp only [grow, ge_iff_le, UInt32.le_iff_toNat_le]
    split
    · next hge =>
      refine (ih (s := s.resize u)).trans ?_
      constructor
      · rintro ⟨k, hk, hlt⟩
        rw [toNat_resize, doubled_succ] at hlt
        exact ⟨k + 1, by omega, hlt⟩
      · rintro ⟨k, hk, hlt⟩
        cases k with
        | zero => rw [hcap] at hlt; omega
        | succ k =>
          refine ⟨k, by omega, ?_⟩
          rw [toNat_resize, doubled_succ]
          exact hlt
    · next hlt =>
      refine iff_of_true rfl ⟨0, by omega, ?_⟩
      rw [hcap]
      omega

theorem grow_above (fuel : Nat) (h : grow u fuel s = some t) : t.mLength < t.mCapacity := by
  induction fuel generalizing s with
  | zero =>
    simp only [grow] at h
    split at h
    · cases h
    · next hlt => cases h; exact UInt32.not_le.mp hlt
  | succ fuel ih =>
    simp only [grow] at h
    split at h
    · exact ih h
    · next hlt => cases h; exact UInt32.not_le.mp hlt

-- ---------------------------------------------------------------------------
-- Termination
-- ---------------------------------------------------------------------------

/-- The stream at the loop of `write`. -/
def atLoop (s : ByteStream) (call : WriteCall) : ByteStream :=
  { s with mLength := s.mLength + call.length.toUInt32 }

theorem toNat_atLoop (call : WriteCall) :
    (s.atLoop call).mLength.toNat = (s.mLength.toNat + call.length.toNat) % 2 ^ 32 := by
  show (s.mLength + call.length.toUInt32).toNat = _
  rw [UInt32.toNat_add, UInt64.toNat_toUInt32]
  omega

/-- After finitely many resizes the loop exits. -/
def LeavesLoop (u : Unspecified) (call : WriteCall) (s : ByteStream) : Prop :=
  ∃ rounds t, grow u rounds (s.atLoop call) = some t ∧ t.mLength < t.mCapacity

/-- Some doubling of the capacity is above the length, in 32 bits. -/
def Reaches (cap len : Nat) : Prop := ∃ k < 32, len % 2 ^ 32 < doubled cap k

theorem leavesLoop_iff (call : WriteCall) :
    LeavesLoop u call s ↔ Reaches s.mCapacity.toNat (s.mLength.toNat + call.length.toNat) := by
  constructor
  · rintro ⟨rounds, t, ht, -⟩
    obtain ⟨k, -, hk⟩ := (grow_isSome rounds).mp (Option.isSome_iff_exists.mpr ⟨t, ht⟩)
    rw [toNat_atLoop] at hk
    exact ⟨k, lt_of_doubled hk, hk⟩
  · rintro ⟨k, -, hk⟩
    rw [← toNat_atLoop call] at hk
    obtain ⟨t, ht⟩ := Option.isSome_iff_exists.mp
      ((grow_isSome (u := u) (s := s.atLoop call) k).mpr ⟨k, Nat.le_refl k, hk⟩)
    exact ⟨k, t, ht, grow_above k ht⟩

/-- The rounds that `write` is given are enough to tell. -/
theorem grow_atLoop_isSome (call : WriteCall) :
    (grow u growFuel (s.atLoop call)).isSome ↔ LeavesLoop u call s := by
  rw [leavesLoop_iff]
  refine (grow_isSome growFuel).trans ?_
  rw [toNat_atLoop]
  constructor
  · rintro ⟨k, -, hk⟩
    exact ⟨k, lt_of_doubled hk, hk⟩
  · rintro ⟨k, hlt, hk⟩
    exact ⟨k, by simp only [growFuel]; omega, hk⟩

/-- Every write of a step leaves its loop. -/
def Leaves (s : ByteStream) (x : Unspecified × Call) : Prop :=
  ∀ call, x.2 = .write call → LeavesLoop x.1 call s

/-- Its new length is below some doubling of the capacity. -/
def Reaching (s : ByteStream) (x : Unspecified × Call) : Prop :=
  ∀ call, x.2 = .write call →
    Reaches s.mCapacity.toNat (s.mLength.toNat + call.length.toNat)

theorem leaves_iff (s : ByteStream) (x : Unspecified × Call) : Leaves s x ↔ Reaching s x :=
  forall_congr' fun call => forall_congr' fun _ => leavesLoop_iff call

/-- In any use of any stream, however it was built, all writes leave their
loops exactly when their lengths can be reached. -/
theorem writes_exit_iff (s : ByteStream) (ops : Use) :
    Along next Leaves s ops.calls ↔ Along next Reaching s ops.calls :=
  Along.congr (I := fun _ => True) (fun _ _ _ _ _ _ => trivial) (fun s x _ => leaves_iff s x)
    trivial ops.calls

/-- A capacity of zero stays zero. -/
theorem empty_buffer_loops :
    ¬ Along next Leaves (ofBuf default [] 0) (Use.calls [(default, .write (.byte 7))]) := by
  rintro ⟨hleaves, -⟩
  obtain ⟨k, hk, hlt⟩ := (leaves_iff _ _).mp hleaves _ rfl
  have hzero : doubled (ofBuf default [] 0).mCapacity.toNat k = 0 := by
    show 0 * 2 ^ k % 2 ^ 32 = 0
    rw [Nat.zero_mul, Nat.zero_mod]
  rw [hzero] at hlt
  exact Nat.not_lt_zero _ hlt

theorem doubled_exact (h : cap * 2 ^ k < 2 ^ 32) (hj : j ≤ k) : doubled cap j = cap * 2 ^ j := by
  have hle : cap * 2 ^ j ≤ cap * 2 ^ k :=
    Nat.mul_le_mul_left cap (Nat.pow_le_pow_right (by decide) hj)
  exact Nat.mod_eq_of_lt (by omega)

/-- Below 2^31 the first doubling above the length is an exact one. -/
theorem exists_doubled (hcap : 0 < cap) (h32 : cap < 2 ^ 32) (hlen : len < 2 ^ 31) :
    ∃ k < 32, len < doubled cap k ∧ ∀ j ≤ k, doubled cap j = cap * 2 ^ j := by
  have hdown : ∀ m, len < cap * 2 ^ m →
      ∃ k ≤ m, len < cap * 2 ^ k ∧ cap * 2 ^ k < 2 ^ 32 := by
    intro m
    induction m with
    | zero => exact fun hm => ⟨0, Nat.le_refl 0, hm, by simpa using h32⟩
    | succ m ih =>
      intro hm
      by_cases hless : len < cap * 2 ^ m
      · obtain ⟨k, hk, hrest⟩ := ih hless
        exact ⟨k, by omega, hrest⟩
      · rw [Nat.pow_succ, ← Nat.mul_assoc] at hm
        refine ⟨m + 1, Nat.le_refl _, ?_⟩
        rw [Nat.pow_succ, ← Nat.mul_assoc]
        omega
  obtain ⟨k, hk, hlt, hexact⟩ := hdown 31 (by omega)
  refine ⟨k, by omega, ?_, fun j hj => doubled_exact hexact hj⟩
  rwa [doubled_exact hexact (Nat.le_refl k)]

/-- Lengths below 2^31 are within reach of every capacity but zero. -/
theorem reaches_of_small (hcap : 0 < cap) (h32 : cap < 2 ^ 32) (hlen : len < 2 ^ 31) :
    Reaches cap len := by
  obtain ⟨k, hk, hlt, -⟩ := exists_doubled hcap h32 hlen
  exact ⟨k, hk, by omega⟩

-- ---------------------------------------------------------------------------
-- What was supplied
-- ---------------------------------------------------------------------------

/-- A stream, and for each byte of its buffer the mark of its origin. -/
structure Traced where
  stream : ByteStream
  marks : Bytes

namespace Traced

/-- The stream with its marks for its bytes. -/
def marked (t : Traced) : ByteStream := { t.stream with mBuffer := t.marks }

/-- Every byte below the length was supplied. -/
def Filled (t : Traced) : Prop := ∀ i < t.stream.mLength.toNat, t.marks[i]? = some 1

end Traced

/-- The marks after a call: those of a write are 1, and what nobody has
written is 0. -/
def Call.marks (call : Call) (t : Traced) : Bytes :=
  match call with
  | write call =>
    match (ByteStream.write default (List.replicate call.data.length 1) call.length).run
      t.marked with
    | .ok _ m => m.mBuffer
    | .error _ m => m.mBuffer
  | copy => (ofCopy default t.marked).mBuffer
  | _ => t.marks

def Traced.next (t : Traced) (x : Unspecified × Call) : Option Traced :=
  (x.2.after x.1 t.stream).map fun s => { stream := s, marks := x.2.marks t }

/-- The constructors that do not copy a stream. -/
inductive Constructor where
  | cap (cap : UInt32)
  | buf (buf : Bytes) (length : UInt64)

def Constructor.build (u : Unspecified) : Constructor → Traced
  | .cap n => ⟨ofCap u n, (ofCap default n).mBuffer⟩
  | .buf b length => ⟨ofBuf u b length, (ofBuf default (List.replicate b.length 1) length).mBuffer⟩

/-- The buffer is as long as the constructor is told, as far as `m_length` and
`m_capacity` keep it: they are 32 bits of `length`. -/
def Constructor.Backed : Constructor → Prop
  | .cap _ => True
  | .buf b length => length.toUInt32.toNat ≤ b.length

/-- A step leaves nothing below the length that was not supplied, and a write
makes the length what it has to be. -/
def Fills (t : Traced) (x : Unspecified × Call) : Prop :=
  ∃ t', t.next x = some t' ∧ t'.Filled ∧
    ∀ call, x.2 = .write call → t'.stream.mLength.toNat =
      max t.stream.mLength.toNat (t.stream.mOffset.toNat + call.length.toNat)

/-- The loop reaches a capacity above the new length, and no capacity on the
way there is below the old one. -/
def Room (cap len n : Nat) : Prop := ∃ k, len + n < doubled cap k ∧ ∀ j < k, len ≤ doubled cap j

/-- A write appends, if it writes anything, from memory that holds as much,
and finds room. -/
def Appends (t : Traced) (x : Unspecified × Call) : Prop :=
  ∀ call, x.2 = .write call →
    call.Backed ∧ (call.length.toNat = 0 ∨ t.stream.mOffset = t.stream.mLength) ∧
      Room t.stream.mCapacity.toNat t.stream.mLength.toNat call.length.toNat

/-- Below 2^31 there is room in any stream with a capacity. -/
theorem room_of_small (hcap : 0 < cap) (h32 : cap < 2 ^ 32) (hle : len ≤ cap)
    (hlen : len + n < 2 ^ 31) : Room cap len n := by
  obtain ⟨k, -, hlt, hexact⟩ := exists_doubled hcap h32 hlen
  refine ⟨k, hlt, fun j hj => ?_⟩
  rw [hexact j (by omega)]
  have := Nat.mul_le_mul_left cap (Nat.one_le_two_pow (n := j))
  omega

/-- What a run keeps while nothing goes wrong. -/
structure Traced.Sound (t : Traced) : Prop where
  filled : t.Filled
  offset_le : t.stream.mOffset.toNat ≤ t.stream.mLength.toNat
  length_le : t.stream.mLength.toNat ≤ t.stream.mCapacity.toNat
  alloc : t.stream.mBuffer.length = t.stream.mCapacity.toNat
  marks : t.marks.length = t.stream.mCapacity.toNat

theorem cell_eq_one : cell default b i = 1 ↔ b[i]? = some 1 := by
  rw [cell]
  cases b[i]? with
  | none => simp [default, Inhabited.default]
  | some x => simp

/-- The loop runs alike on the bytes and on the marks. -/
theorem Exits.unique (h : Exits u s k t) (h' : Exits u' s' k' t')
    (hcap : s'.mCapacity = s.mCapacity) (hlen : s'.mLength = s.mLength) : k' = k := by
  have ha := h.above
  have ha' := h'.above
  rw [hcap, hlen] at ha'
  obtain hlt | rfl | hlt := Nat.lt_trichotomy k k'
  · have := h'.first k hlt
    rw [hcap, hlen] at this
    omega
  · rfl
  · have := h.first k' hlt
    omega

/-- What a write makes of a traced stream, once the loop has left `g` for the
marks. -/
structure Wrote (t : Traced) (call : WriteCall) (k : Nat) (g : ByteStream) (t' : Traced) :
    Prop where
  loop : Exits default (t.marked.atLoop call) k g
  length : t'.stream.mLength.toNat = (t.stream.mLength.toNat + call.length.toNat) % 2 ^ 32
  offset : t'.stream.mOffset = t.stream.mOffset + call.length.toUInt32
  capacity : t'.stream.mCapacity.toNat = doubled t.stream.mCapacity.toNat k
  alloc : t'.stream.mBuffer.length = t'.stream.mCapacity.toNat
  marks : t'.marks = writeMem g.mBuffer t.stream.mOffset.toNat
    (readMem default (List.replicate call.data.length 1) 0 call.length.toNat)

variable {t t' : Traced} {call : WriteCall}

theorem after_write : (Call.write call).after u s =
    (grow u growFuel (s.atLoop call)).map fun g =>
      { g with
        mBuffer := writeMem g.mBuffer g.mOffset.toNat (readMem u call.data 0 call.length.toNat)
        mOffset := g.mOffset + call.length.toUInt32 } := by
  simp only [Call.after, WriteCall.run, run_discard, write_run]
  show _ = Option.map _ (grow u growFuel
    { s with mLength := s.mLength + call.length.toUInt32 })
  cases grow u growFuel { s with mLength := s.mLength + call.length.toUInt32 } <;> rfl

theorem marks_write (hg : grow default growFuel (t.marked.atLoop call) = some g) :
    (Call.write call).marks t = writeMem g.mBuffer g.mOffset.toNat
      (readMem default (List.replicate call.data.length 1) 0 call.length.toNat) := by
  have hrun : (ByteStream.write default (List.replicate call.data.length 1) call.length).run
    t.marked = _ := write_run
  rw [show grow default growFuel
    { t.marked with mLength := t.marked.mLength + call.length.toUInt32 } = some g from hg] at hrun
  simp only [Call.marks, hrun]

theorem wrote_of_next (h : t.Sound) (hn : t.next (u, .write call) = some t') :
    ∃ k g, Wrote t call k g t' := by
  obtain ⟨s', hs', rfl⟩ := Option.map_eq_some_iff.mp hn
  rw [after_write] at hs'
  obtain ⟨r, hr, rfl⟩ := Option.map_eq_some_iff.mp hs'
  obtain ⟨k, -, hk⟩ := grow_exits growFuel (by exact h.alloc) hr
  have hreach := (leavesLoop_iff call).mp ((grow_atLoop_isSome call).mp
    (Option.isSome_iff_exists.mpr ⟨r, hr⟩))
  obtain ⟨g, hg⟩ := Option.isSome_iff_exists.mp ((grow_atLoop_isSome (u := default) call).mpr
    ((leavesLoop_iff (s := t.marked) call).mpr hreach))
  obtain ⟨k', -, hk'⟩ := grow_exits growFuel (by exact h.marks) hg
  obtain rfl : k' = k := hk.unique hk' rfl rfl
  refine ⟨k', g, hk', ?_, ?_, ?_, ?_, ?_⟩
  · show r.mLength.toNat = _
    rw [hk.length, toNat_atLoop]
  · show r.mOffset + _ = _
    rw [hk.offset]
    rfl
  · exact hk.capacity
  · show (writeMem _ _ _).length = r.mCapacity.toNat
    rw [length_writeMem, hk.alloc]
  · show (Call.write call).marks t = _
    rw [marks_write hg, hk'.offset]
    rfl

theorem exists_next (h : Reaches t.stream.mCapacity.toNat
    (t.stream.mLength.toNat + call.length.toNat)) : ∃ t', t.next (u, .write call) = some t' := by
  obtain ⟨r, hr⟩ := Option.isSome_iff_exists.mp
    ((grow_atLoop_isSome (u := u) call).mpr ((leavesLoop_iff call).mpr h))
  exact ⟨_, by rw [Traced.next, after_write, hr]; rfl⟩

theorem Wrote.mark (h : Wrote t call k g t')
    (hfit : t.stream.mOffset.toNat + call.length.toNat ≤ doubled t.stream.mCapacity.toNat k)
    (i : Nat) :
    t'.marks[i]? = some 1 ↔
      if t.stream.mOffset.toNat ≤ i ∧ i < t.stream.mOffset.toNat + call.length.toNat then
        i - t.stream.mOffset.toNat < call.data.length
      else (∀ j ≤ k, i < doubled t.stream.mCapacity.toNat j) ∧ t.marks[i]? = some 1 := by
  have hg : g.mBuffer.length = doubled t.stream.mCapacity.toNat k := by
    rw [h.loop.alloc, h.loop.capacity]
    rfl
  rw [h.marks, getElem?_writeMem (by rw [length_readMem, hg]; exact hfit), length_readMem]
  by_cases hin : t.stream.mOffset.toNat ≤ i ∧ i < t.stream.mOffset.toNat + call.length.toNat
  · rw [if_pos hin, if_pos hin, getElem?_readMem (by omega), Nat.zero_add]
    by_cases hd : i - t.stream.mOffset.toNat < call.data.length
    · simp [hd]
    · simp [hd, default, Inhabited.default]
  · rw [if_neg hin, if_neg hin, ← cell_eq_one, h.loop.bytes]
    show (if ∀ j ≤ k, i < doubled t.stream.mCapacity.toNat j then cell default t.marks i
      else (default : Unspecified).byte i) = 1 ↔ _
    by_cases hall : ∀ j ≤ k, i < doubled t.stream.mCapacity.toNat j
    · rw [if_pos hall, cell_eq_one]
      exact (and_iff_right hall).symm
    · rw [if_neg hall]
      exact iff_of_false (show ¬ (0 : UInt8) = 1 by decide) fun hc => hall hc.1

theorem length_rule {len off n : Nat} (hle : off ≤ len) (hlt : len < 2 ^ 32) :
    (len + n) % 2 ^ 32 = max len (off + n) ↔ len + n < 2 ^ 32 ∧ (n = 0 ∨ off = len) := by
  omega

/-- Where the loop of a write stops, when the new length is the exact sum. -/
theorem Wrote.bounds (h : Wrote t call k g t')
    (h32 : t.stream.mLength.toNat + call.length.toNat < 2 ^ 32) :
    t'.stream.mLength.toNat = t.stream.mLength.toNat + call.length.toNat ∧
      t.stream.mLength.toNat + call.length.toNat < doubled t.stream.mCapacity.toNat k ∧
      ∀ j < k, doubled t.stream.mCapacity.toNat j ≤
        t.stream.mLength.toNat + call.length.toNat := by
  have habove := h.loop.above
  have hfirst := h.loop.first
  rw [toNat_atLoop] at habove hfirst
  simp only [show t.marked.mLength = t.stream.mLength from rfl,
    show (t.marked.atLoop call).mCapacity = t.stream.mCapacity from rfl, Nat.mod_eq_of_lt h32]
    at habove hfirst
  exact ⟨by rw [h.length, Nat.mod_eq_of_lt h32], habove, hfirst⟩

theorem Fills.appends (h : t.Sound) (hf : Fills t (u, .write call)) :
    Appends t (u, .write call) := by
  have hoff := h.offset_le
  obtain ⟨t', hn, hfilled, hrule⟩ := hf
  intro call' heq
  cases heq
  obtain ⟨k, g, hw⟩ := wrote_of_next h hn
  have hrule := hrule call rfl
  rw [hw.length, length_rule hoff t.stream.mLength.toNat_lt] at hrule
  obtain ⟨h32, happend⟩ := hrule
  obtain ⟨hnew, habove, -⟩ := hw.bounds h32
  have hmark := hw.mark (by omega)
  refine ⟨?_, ?_, k, habove, fun j hj => ?_⟩
  · -- the first byte that the memory does not hold has no mark
    by_contra hno
    have hno : call.data.length < call.length.toNat := Nat.not_le.mp hno
    have hi := (hmark (t.stream.mOffset.toNat + call.data.length)).mp
      (hfilled _ (by omega))
    rw [if_pos (by omega)] at hi
    omega
  · exact happend.imp_right UInt32.toNat_inj.mp
  · -- nor has the first one that an allocation on the way was too small for
    by_contra hno
    have hi := (hmark (doubled t.stream.mCapacity.toNat j)).mp (hfilled _ (by omega))
    rw [if_neg (by omega)] at hi
    exact absurd (hi.1 j (by omega)) (Nat.lt_irrefl _)

theorem Appends.fills (h : t.Sound) (ha : Appends t (u, .write call)) :
    Fills t (u, .write call) := by
  have hoff := h.offset_le
  obtain ⟨hbacked, happend, m, hm, hkeep⟩ := ha call rfl
  have h32 : t.stream.mLength.toNat + call.length.toNat < 2 ^ 32 :=
    Nat.lt_trans hm (Nat.mod_lt _ (by decide))
  have hreach : Reaches t.stream.mCapacity.toNat
      (t.stream.mLength.toNat + call.length.toNat) :=
    ⟨m, lt_of_doubled hm, by rwa [Nat.mod_eq_of_lt h32]⟩
  have happend : call.length.toNat = 0 ∨ t.stream.mOffset.toNat = t.stream.mLength.toNat :=
    happend.imp_right fun heq => congrArg UInt32.toNat heq
  obtain ⟨t', hn⟩ := exists_next (u := u) hreach
  obtain ⟨k, g, hw⟩ := wrote_of_next h hn
  obtain ⟨hnew, habove, hfirst⟩ := hw.bounds h32
  have hkm : k ≤ m := by
    by_contra hlt
    have := hfirst m (by omega)
    omega
  refine ⟨t', hn, fun i hi => ?_, fun call' heq => ?_⟩
  · rw [hnew] at hi
    refine (hw.mark (by omega) i).mpr ?_
    split
    · next hin =>
      have hbacked : call.length.toNat ≤ call.data.length := hbacked
      omega
    · have hold : i < t.stream.mLength.toNat := by omega
      refine ⟨fun j hj => ?_, h.filled i hold⟩
      obtain rfl | hlt := Nat.eq_or_lt_of_le hj
      · omega
      · have := hkeep j (by omega)
        omega
  · cases heq
    rw [hw.length, length_rule hoff t.stream.mLength.toNat_lt]
    exact ⟨h32, happend⟩

theorem Traced.Sound.write (h : t.Sound) (hf : Fills t (u, .write call))
    (hn : t.next (u, .write call) = some t') : t'.Sound := by
  obtain ⟨t'', hn', hfilled, hrule⟩ := hf
  rw [hn] at hn'
  cases hn'
  obtain ⟨k, g, hw⟩ := wrote_of_next h hn
  have hrule := hrule call rfl
  have habove := hw.loop.above
  rw [toNat_atLoop] at habove
  have hcap : g.mCapacity.toNat = t'.stream.mCapacity.toNat := by
    rw [hw.loop.capacity, hw.capacity]
    rfl
  refine ⟨hfilled, ?_, ?_, hw.alloc, ?_⟩
  · have hlt := t'.stream.mLength.toNat_lt
    rw [hw.offset, UInt32.toNat_add, UInt64.toNat_toUInt32]
    omega
  · rw [hw.length, hw.capacity]
    exact Nat.le_of_lt habove
  · rw [hw.marks, length_writeMem, hw.loop.alloc, hcap]

/-- A read moves the offset on, within the length, or nothing. -/
theorem read_after (op : ReadOp) (h : s.mOffset ≤ s.mLength) :
    ∃ n ≤ s.left, (Call.read op).after u s = some (s.advance n) := by
  cases hw : op.width? with
  | some width =>
    simp only [Call.after, run_fixed h hw]
    by_cases hle : width ≤ s.left
    · exact ⟨width, hle, by rw [if_pos hle]⟩
    · exact ⟨0, Nat.zero_le _, by rw [if_neg hle, advance_zero]⟩
  | none =>
    obtain rfl := eq_string hw
    simp only [Call.after, run_string h]
    by_cases h8 : s.left < 8
    · exact ⟨0, Nat.zero_le _, by rw [if_pos h8, advance_zero]⟩
    rw [if_neg h8]
    by_cases hle : s.stringLength u ≤ s.left - 8
    · exact ⟨8 + s.stringLength u, by omega, by rw [if_pos hle]⟩
    · rw [if_neg hle]
      refine ⟨8, by omega, ?_⟩
      by_cases hwrap : s.mOffset.toNat + 8 + s.stringLength u < 2 ^ 64
      · rw [if_pos hwrap]
      · rw [if_neg hwrap]

/-- Any call but `write` keeps what was supplied. -/
theorem Traced.Sound.other (h : t.Sound) (x : Unspecified × Call)
    (hx : ∀ call, x.2 ≠ .write call) : ∃ t', t.next x = some t' ∧ t'.Sound := by
  obtain ⟨u, call⟩ := x
  have hle : t.stream.mOffset ≤ t.stream.mLength := UInt32.le_iff_toNat_le.mpr h.offset_le
  cases call with
  | write call => exact absurd rfl (hx call)
  | read op =>
    obtain ⟨n, hn, hafter⟩ := read_after (u := u) op hle
    refine ⟨⟨t.stream.advance n, t.marks⟩, by rw [Traced.next, hafter]; rfl, h.filled, ?_,
      h.length_le, h.alloc, h.marks⟩
    show (t.stream.advance n).mOffset.toNat ≤ t.stream.mLength.toNat
    rw [toNat_offset_add hle hn]
    have := h.offset_le
    simp only [left] at hn
    omega
  | inspect => exact ⟨t, rfl, h⟩
  | resetPtr =>
    exact ⟨⟨t.stream.resetPtr, t.marks⟩, rfl, h.filled, Nat.zero_le _, h.length_le, h.alloc,
      h.marks⟩
  | copy =>
    have hmarks : Call.copy.marks t = t.marks := by
      show writeMem (ENetChat.alloc default t.stream.mCapacity.toNat) 0
        (readMem default t.marks 0 t.stream.mCapacity.toNat) = t.marks
      rw [writeMem_all (by simp), ← h.marks, readMem_all]
    refine ⟨⟨ofCopy u t.stream, t.marks⟩, by rw [Traced.next, hmarks]; rfl, h.filled,
      Nat.zero_le _, h.length_le, ?_, h.marks⟩
    show (writeMem _ _ _).length = t.stream.mCapacity.toNat
    rw [length_writeMem, length_alloc]

theorem fills_iff (h : t.Sound) (x : Unspecified × Call) : Fills t x ↔ Appends t x := by
  by_cases hx : ∃ call, x.2 = .write call
  · obtain ⟨u, _⟩ := x
    obtain ⟨call, rfl⟩ := hx
    exact ⟨Fills.appends h, Appends.fills h⟩
  · obtain ⟨t', hn, hsound⟩ := h.other x fun call hc => hx ⟨call, hc⟩
    exact iff_of_true ⟨t', hn, hsound.filled, fun call hc => absurd ⟨call, hc⟩ hx⟩
      fun call hc => absurd ⟨call, hc⟩ hx

theorem Traced.Sound.step (h : t.Sound) (x : Unspecified × Call) (hf : Fills t x)
    (hn : t.next x = some t') : t'.Sound := by
  by_cases hx : ∃ call, x.2 = .write call
  · obtain ⟨u, _⟩ := x
    obtain ⟨call, rfl⟩ := hx
    exact h.write hf hn
  · obtain ⟨t'', hn', hsound⟩ := h.other x fun call hc => hx ⟨call, hc⟩
    rw [hn] at hn'
    cases hn'
    exact hsound

theorem Traced.Sound.along_iff (h : t.Sound) (ops : Use) :
    Along Traced.next Fills t ops.calls ↔ Along Traced.next Appends t ops.calls := by
  refine Along.congr (I := Traced.Sound) ?_ ?_ h ops.calls
  · intro t x t' h hf hn
    exact h.step x hf hn
  · intro t x h
    exact fills_iff h x

theorem build_filled (c : Constructor) : (c.build u).Filled ↔ c.Backed := by
  cases c with
  | cap n => exact iff_of_true (fun i hi => absurd hi (Nat.not_lt_zero i)) trivial
  | buf b length =>
    have hmark : ∀ i < length.toUInt32.toNat,
        ((Constructor.buf b length).build u).marks[i]? = some 1 ↔ i < b.length := by
      intro i hi
      have hlen : i < length.toNat := by
        rw [UInt64.toNat_toUInt32] at hi
        omega
      have hcell : ((Constructor.buf b length).build u).marks[i]? =
          (readMem default (List.replicate b.length 1) 0 length.toNat)[i]? := by
        show (writeMem (alloc default length.toUInt32.toNat) 0 _)[i]? = _
        rw [writeMem, List.take_zero, List.nil_append, length_alloc, List.getElem?_take, if_pos hi,
          List.getElem?_append_left (by rwa [length_readMem])]
      rw [hcell, getElem?_readMem hlen, Nat.zero_add]
      by_cases hb : i < b.length
      · simp [hb]
      · simp [hb, default, Inhabited.default]
    constructor
    · intro hfilled
      by_contra hno
      have hno : b.length < length.toUInt32.toNat := Nat.not_le.mp hno
      exact absurd ((hmark b.length hno).mp (hfilled b.length hno)) (Nat.lt_irrefl _)
    · intro hbacked i hi
      exact (hmark i hi).mpr (Nat.lt_of_lt_of_le hi hbacked)

theorem build_sound (c : Constructor) (h : (c.build u).Filled) : (c.build u).Sound := by
  refine ⟨h, ?_, ?_, ?_, ?_⟩ <;> cases c <;> simp [Constructor.build, ofCap, ofBuf]

/-- In any use of a stream, nothing below the length is left unsupplied
exactly when the constructor had its buffer and every write appends. -/
theorem writes_filled_iff (c : Constructor) (u : Unspecified) (ops : Use) :
    (c.build u).Filled ∧ Along Traced.next Fills (c.build u) ops.calls ↔
      c.Backed ∧ Along Traced.next Appends (c.build u) ops.calls := by
  constructor
  · rintro ⟨hfilled, halong⟩
    exact ⟨(build_filled c).mp hfilled, ((build_sound c hfilled).along_iff ops).mp halong⟩
  · rintro ⟨hbacked, halong⟩
    have hfilled := (build_filled (u := u) c).mpr hbacked
    exact ⟨hfilled, ((build_sound c hfilled).along_iff ops).mpr halong⟩

/-- Two bytes, back to the start, and one more. -/
def rewriting : Use :=
  [(default, .write (.uint16 513)), (default, .resetPtr), (default, .write (.byte 7))]

/-- The length goes from two to three, and nobody has written the third byte. -/
theorem overwrite_exposes :
    ¬ (((Constructor.cap 0).build default).Filled ∧
      Along Traced.next Fills ((Constructor.cap 0).build default) rewriting.calls) := by
  rintro ⟨hfilled, halong⟩
  obtain ⟨-, h1⟩ := ((build_sound _ hfilled).along_iff rewriting).mp halong
  obtain ⟨-, h2⟩ := h1 _ rfl
  obtain ⟨h3, -⟩ := h2 _ rfl
  obtain ⟨-, h4, -⟩ := h3 _ rfl
  revert h4
  decide +kernel

/-- What `getBuf` and the reads copy is all supplied. -/
theorem Traced.Filled.exposes (h : t.Filled) (hle : off + n ≤ t.stream.mLength.toNat) :
    readMem u t.marks off n = List.replicate n 1 := by
  apply List.ext_getElem
  · simp
  · intro i hi _
    have hi : i < n := by simpa using hi
    simp [readMem, h (off + i) (by omega)]

end ByteStream

end ENetChat

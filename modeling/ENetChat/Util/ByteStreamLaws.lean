import ENetChat.Lib.Exec
import ENetChat.Util.ByteStream
import Mathlib.Data.List.Basic

/-!
# What the byte stream reads and writes

Reading is stated on the bytes that are left, `rest`: a reader `Reads` a
relation between values and byte strings when it takes the value whose
encoding stands at the front and throws when there is none. Readers compose
as their relations do.

Writing is stated on the bytes written so far: a stream `Holds` them, and a
writer `Writes` the bytes it appends. The buffer grows by doubling, so the
capacity is the least doubling of the first one above the length.
-/

namespace ENetChat

open LittleEndian
open Exec (run_map run_throw)

variable {u : Unspecified} {src dst data buf : Bytes} {off n m k : Nat}

-- ---------------------------------------------------------------------------
-- Memory
-- ---------------------------------------------------------------------------

@[simp] theorem length_alloc : (alloc u n).length = n := by simp [alloc]

@[simp] theorem length_readMem : (readMem u src off n).length = n := by simp [readMem]

@[simp] theorem length_writeMem : (writeMem dst off data).length = dst.length := by
  simp only [writeMem, List.length_take, List.length_append, List.length_drop]
  omega

theorem readMem_eq (h : off + n ≤ src.length) : readMem u src off n = (src.drop off).take n := by
  apply List.ext_getElem
  · simp only [length_readMem, List.length_take, List.length_drop]
    omega
  · intro i hi _
    have hi' : i < n := by simpa using hi
    have hs : off + i < src.length := by omega
    simp [readMem, hs]

theorem readMem_all : readMem u src 0 src.length = src := by
  rw [readMem_eq (by omega)]
  simp

/-- Reading from the front past the end of the source. -/
theorem take_readMem (h : k ≤ src.length) (hn : k ≤ n) :
    (readMem u src 0 n).take k = src.take k := by
  apply List.ext_getElem
  · simp only [List.length_take, length_readMem]
    omega
  · intro i hi _
    have hs : i < src.length := by simp at hi; omega
    simp [readMem, hs]

theorem writeMem_all (h : dst.length = data.length) : writeMem dst 0 data = data := by
  simp [writeMem, h]

theorem take_writeMem (h : off + data.length ≤ dst.length) :
    (writeMem dst off data).take (off + data.length) = dst.take off ++ data := by
  have hlen : (dst.take off ++ data).length = off + data.length := by
    simp only [List.length_append, List.length_take]
    omega
  rw [writeMem, List.take_take, Nat.min_eq_left h, ← hlen, List.take_left]

theorem getElem?_writeMem (h : off + data.length ≤ dst.length) :
    (writeMem dst off data)[i]? =
      if off ≤ i ∧ i < off + data.length then data[i - off]? else dst[i]? := by
  have htake : (dst.take off).length = off := by simp; omega
  have hlen : (dst.take off ++ data ++ dst.drop (off + data.length)).length = dst.length := by
    simp
    omega
  rw [writeMem, ← hlen, List.take_length, List.append_assoc, List.getElem?_append, htake,
    List.getElem?_append]
  by_cases h1 : i < off
  · rw [if_pos h1, if_neg (by omega), List.getElem?_take, if_pos h1]
  · rw [if_neg h1]
    by_cases h2 : i < off + data.length
    · rw [if_pos (by omega), if_pos (by omega)]
    · rw [if_neg (by omega), if_neg (by omega), List.getElem?_drop]
      congr 1
      omega

theorem getElem?_readMem (h : i < n) :
    (readMem u src off n)[i]? = some (src[off + i]?.getD (u.byte (off + i))) := by
  simp [readMem, h]

-- ---------------------------------------------------------------------------
-- Reading
-- ---------------------------------------------------------------------------

namespace ByteStream

variable {s : ByteStream} {α β : Type} {P : α → Bytes → Prop} {Q : α → β → Bytes → Prop}

/-- The offset is within the data and the data within the buffer. -/
structure Valid (s : ByteStream) : Prop where
  offset_le : s.mOffset.toNat ≤ s.mLength.toNat
  length_le : s.mLength.toNat ≤ s.mBuffer.length

/-- The bytes left to read. -/
def rest (s : ByteStream) : Bytes := (s.mBuffer.take s.mLength.toNat).drop s.mOffset.toNat

def advance (s : ByteStream) (n : Nat) : ByteStream :=
  { s with mOffset := s.mOffset + UInt32.ofNat n }

theorem Valid.length_rest (h : s.Valid) :
    s.rest.length = s.mLength.toNat - s.mOffset.toNat := by
  have := h.length_le
  simp only [rest, List.length_drop, List.length_take]
  omega

theorem Valid.rest_le (h : s.Valid) : s.rest.length ≤ s.mLength.toNat := by
  have := h.length_rest
  omega

theorem Valid.rest_lt (h : s.Valid) : s.mOffset.toNat + s.rest.length < 2 ^ 32 := by
  have := h.length_rest
  have := h.offset_le
  have := s.mLength.toNat_lt
  omega

theorem Valid.offset_advance (h : s.Valid) (hn : n ≤ s.rest.length) :
    (s.advance n).mOffset.toNat = s.mOffset.toNat + n := by
  have := h.rest_lt
  simp only [advance, UInt32.toNat_add, UInt32.toNat_ofNat']
  omega

theorem Valid.advance (h : s.Valid) (hn : n ≤ s.rest.length) : (s.advance n).Valid := by
  refine ⟨?_, h.length_le⟩
  have := h.length_rest
  have := h.offset_le
  rw [h.offset_advance hn]
  show _ ≤ s.mLength.toNat
  omega

theorem Valid.rest_advance (h : s.Valid) (hn : n ≤ s.rest.length) :
    (s.advance n).rest = s.rest.drop n := by
  rw [rest, h.offset_advance hn, rest, List.drop_drop]
  rfl

theorem advance_advance :
    (s.advance n).advance m = s.advance (n + m) := by
  simp only [ByteStream.advance, mk.injEq, true_and, UInt32.add_assoc]
  congr 1
  apply UInt32.toNat_inj.mp
  simp only [UInt32.toNat_add, UInt32.toNat_ofNat']
  omega

@[simp] theorem advance_zero : s.advance 0 = s := by simp [advance]

theorem Valid.atEnd_iff (h : s.Valid) : s.atEnd = true ↔ s.rest = [] := by
  have h1 := h.length_rest
  have h2 := h.offset_le
  rw [← List.length_eq_zero_iff]
  simp only [atEnd, beq_iff_eq, ← UInt32.toNat_inj]
  omega

theorem Valid.readMem_rest (h : s.Valid) (hn : n ≤ s.rest.length) :
    readMem u s.mBuffer s.mOffset.toNat n = s.rest.take n := by
  have h1 := h.length_rest
  have h2 := h.length_le
  have h3 := h.offset_le
  rw [readMem_eq (by omega), rest, List.drop_take, List.take_take]
  congr 1
  omega

theorem toNat_size (h : buf.length < 2 ^ 32) :
    (UInt64.ofNat buf.length).toUInt32.toNat = buf.length := by
  simp only [UInt64.toNat_toUInt32, UInt64.toNat_ofNat']
  omega

theorem ofBuf_mBuffer (h : buf.length < 2 ^ 32) :
    (ofBuf u buf (UInt64.ofNat buf.length)).mBuffer = buf := by
  have hm : (UInt64.ofNat buf.length).toNat = buf.length := by
    simp only [UInt64.toNat_ofNat']
    omega
  simp only [ofBuf, toNat_size h, hm, readMem_all]
  exact writeMem_all (by simp)

theorem ofBuf_valid (h : buf.length < 2 ^ 32) :
    (ofBuf u buf (UInt64.ofNat buf.length)).Valid :=
  ⟨by simp [ofBuf], by rw [ofBuf_mBuffer h]; exact Nat.le_of_eq (toNat_size h)⟩

theorem ofBuf_rest (h : buf.length < 2 ^ 32) :
    (ofBuf u buf (UInt64.ofNat buf.length)).rest = buf := by
  have hl : (ofBuf u buf (UInt64.ofNat buf.length)).mLength.toNat = buf.length := toNat_size h
  rw [rest, ofBuf_mBuffer h, hl]
  simp [ofBuf]

/-- `peek` of one byte takes the byte at the offset, also when none is left. -/
theorem Valid.peek_one (h : s.Valid) :
    peek u 1 s = readMem u s.mBuffer s.mOffset.toNat 1 := by
  have hle := h.offset_le
  simp only [peek]
  split
  · rename_i hgt
    have hlt := s.mLength.toNat_lt
    have heq : s.mLength - s.mOffset = 0 := by
      apply UInt32.toNat_inj.mp
      simp only [gt_iff_lt, UInt64.lt_iff_toNat_lt, UInt64.toNat_add, UInt32.toNat_toUInt64] at hgt
      rw [UInt32.toNat_sub_of_le _ _ (UInt32.le_iff_toNat_le.mpr hle)]
      simp at hgt ⊢
      omega
    simp [heq]
  · simp

theorem peekInt8_ofBuf (h : buf.length < 2 ^ 32) :
    (ofBuf u buf (UInt64.ofNat buf.length)).peekInt8 u = (buf.headD (u.byte 0)).toInt8 := by
  have hoff : (ofBuf u buf (UInt64.ofNat buf.length)).mOffset.toNat = 0 := rfl
  rw [peekInt8, peekByte, (ofBuf_valid h).peek_one, ofBuf_mBuffer h, hoff]
  cases buf <;> simp [readMem]

def left (s : ByteStream) : Nat := s.mLength.toNat - s.mOffset.toNat

theorem toNat_offset_add (h : s.mOffset ≤ s.mLength) (hn : n ≤ s.left) :
    (s.advance n).mOffset.toNat = s.mOffset.toNat + n := by
  have h1 := UInt32.le_iff_toNat_le.mp h
  have h2 := s.mLength.toNat_lt
  simp only [left] at hn
  simp only [advance, UInt32.toNat_add, UInt32.toNat_ofNat']
  omega

/-- `read`: the next bytes if they are there, and nothing changed if not. -/
theorem read_run (h : s.mOffset ≤ s.mLength) (hn : n < 2 ^ 32) :
    (read u (UInt64.ofNat n)).run s =
      if n ≤ s.left then .ok (readMem u s.mBuffer s.mOffset.toNat n) (s.advance n)
      else .error (.threw .outOfRange) s := by
  have h2 := UInt32.le_iff_toNat_le.mp h
  have h3 := s.mLength.toNat_lt
  have hguard : (s.mOffset.toUInt64 + UInt64.ofNat n > s.mLength.toUInt64) ↔
      ¬ n ≤ s.left := by
    simp only [gt_iff_lt, UInt64.lt_iff_toNat_lt, UInt64.toNat_add, UInt32.toNat_toUInt64,
      UInt64.toNat_ofNat', left]
    omega
  simp only [read, EStateM.run_bind, EStateM.run_get, hguard]
  by_cases hle : n ≤ s.left
  · have ht : (UInt64.ofNat n).toNat = n := by simp only [UInt64.toNat_ofNat']; omega
    have hu : (UInt64.ofNat n).toUInt32 = UInt32.ofNat n := by
      apply UInt32.toNat_inj.mp
      simp only [UInt64.toNat_toUInt32, UInt64.toNat_ofNat', UInt32.toNat_ofNat']
      omega
    simp [hle, ht, hu, ByteStream.advance]
  · simp [hle]

theorem Valid.left_eq (h : s.Valid) : s.left = s.rest.length := h.length_rest.symm

theorem Valid.read_run (h : s.Valid) (hn : n < 2 ^ 32) :
    (read u (UInt64.ofNat n)).run s =
      if n ≤ s.rest.length then .ok (s.rest.take n) (s.advance n)
      else .error (.threw .outOfRange) s := by
  rw [ByteStream.read_run (UInt32.le_iff_toNat_le.mpr h.offset_le) hn, h.left_eq]
  by_cases hle : n ≤ s.rest.length
  · rw [if_pos hle, if_pos hle, h.readMem_rest hle]
  · rw [if_neg hle, if_neg hle]

-- ---------------------------------------------------------------------------
-- Readers and what they read
-- ---------------------------------------------------------------------------

/-- `r` takes a value whose encoding, by `P`, stands at the front, and throws
when there is none. -/
structure Reads (r : Stream α) (P : α → Bytes → Prop) : Prop where
  ok {s : ByteStream} {a : α} {w tail : Bytes} : s.Valid → s.rest = w ++ tail → P a w →
    r.run s = .ok a (s.advance w.length)
  throws {s : ByteStream} : s.Valid → (∀ a w tail, s.rest = w ++ tail → ¬ P a w) →
    ∃ e s', r.run s = .error (.threw e) s'

theorem Reads.pure (a : α) : Reads (pure a : Stream α) (fun b w => b = a ∧ w = []) where
  ok := by
    rintro s b w tail _ _ ⟨rfl, rfl⟩
    simp
  throws := by
    intro s _ h
    exact absurd ⟨rfl, rfl⟩ (h a [] s.rest rfl)

theorem Reads.bind {r : Stream α} {f : α → Stream β} (hr : Reads r P)
    (hf : ∀ a, Reads (f a) (Q a)) :
    Reads (r >>= f) (fun b w => ∃ a x y, w = x ++ y ∧ P a x ∧ Q a b y) where
  ok := by
    rintro s b w tail hv hrest ⟨a, x, y, rfl, hx, hy⟩
    rw [List.append_assoc] at hrest
    have hx' := hr.ok hv hrest hx
    have hxl : x.length ≤ s.rest.length := by simp [hrest]
    have hrest' : (s.advance x.length).rest = y ++ tail := by
      rw [hv.rest_advance hxl, hrest, List.drop_left]
    have hy' := (hf a).ok (hv.advance hxl) hrest' hy
    rw [EStateM.run_bind, hx']
    simp only [hy']
    rw [advance_advance, List.length_append]
  throws := by
    intro s hv h
    rw [EStateM.run_bind]
    by_cases hex : ∃ a w tail, s.rest = w ++ tail ∧ P a w
    · obtain ⟨a, x, tail, hrest, hx⟩ := hex
      have hxl : x.length ≤ s.rest.length := by simp [hrest]
      have hrest' : (s.advance x.length).rest = tail := by
        rw [hv.rest_advance hxl, hrest, List.drop_left]
      rw [hr.ok hv hrest hx]
      apply (hf a).throws (hv.advance hxl)
      intro b y tail' hy hq
      rw [hrest'] at hy
      refine h b (x ++ y) tail' ?_ ⟨a, x, y, rfl, hx, hq⟩
      rw [hrest, hy, List.append_assoc]
    · obtain ⟨e, s', he⟩ := hr.throws hv fun a w tail hw hp => hex ⟨a, w, tail, hw, hp⟩
      exact ⟨e, s', by rw [he]⟩

theorem Reads.congr {Q : α → Bytes → Prop} (hr : Reads r P) (h : ∀ a w, P a w ↔ Q a w) :
    Reads r Q where
  ok hv hrest hq := hr.ok hv hrest ((h _ _).mpr hq)
  throws hv hno := hr.throws hv fun a w tail hw hp => hno a w tail hw ((h a w).mp hp)

theorem reads_readLE (hw : width < 2 ^ 32) :
    Reads (readLE u width) (fun n w => n < 256 ^ width ∧ w = toLE width n) where
  ok := by
    rintro s n w tail hv hrest ⟨hn, rfl⟩
    have hl : width ≤ s.rest.length := by simp [hrest]
    have ht : s.rest.take width = toLE width n := by
      rw [hrest, List.take_left' length_toLE]
    simp [readLE, hv.read_run hw, hl, ht, fromLE_toLE_of_lt hn]
  throws := by
    intro s hv h
    have hl : ¬ width ≤ s.rest.length := by
      intro hl
      have hlen : (s.rest.take width).length = width := by simp [hl]
      refine h (fromLE (s.rest.take width)) (s.rest.take width) (s.rest.drop width)
        (List.take_append_drop width s.rest).symm ⟨?_, ?_⟩
      · have := fromLE_lt (s.rest.take width)
        rwa [hlen] at this
      · have := toLE_fromLE (s.rest.take width)
        rw [hlen] at this
        exact this.symm
    exact ⟨.outOfRange, s, by simp [readLE, hv.read_run hw, hl]⟩

theorem reads_map {r : Stream α} {f : α → β} {g : β → α} (hr : Reads r P) (hfg : ∀ b, f (g b) = b)
    (hgf : ∀ a w, P a w → g (f a) = a) :
    Reads (do return f (← r)) (fun b w => P (g b) w) := by
  refine (hr.bind fun a => Reads.pure (f a)).congr fun b w => ?_
  constructor
  · rintro ⟨a, x, y, rfl, hp, rfl, rfl⟩
    rw [List.append_nil, hgf a x hp]
    exact hp
  · intro hp
    exact ⟨g b, w, [], by simp, hp, (hfg b).symm, rfl⟩

theorem reads_readUInt16 : Reads (readUInt16 u) (fun i w => w = toLE 2 i.toNat) := by
  refine (reads_map (g := UInt16.toNat) (reads_readLE (by decide)) (fun b => by simp) ?_).congr ?_
  · rintro n _ ⟨hn, -⟩
    simp only [UInt16.toNat_ofNat']
    omega
  · intro i w
    have := i.toNat_lt
    exact ⟨fun h => h.2, fun h => ⟨by omega, h⟩⟩

theorem reads_readUInt64 : Reads (readUInt64 u) (fun i w => w = toLE 8 i.toNat) := by
  refine (reads_map (g := UInt64.toNat) (reads_readLE (by decide)) (fun b => by simp) ?_).congr ?_
  · rintro n _ ⟨hn, -⟩
    simp only [UInt64.toNat_ofNat']
    omega
  · intro i w
    have := i.toNat_lt
    exact ⟨fun h => h.2, fun h => ⟨by omega, h⟩⟩

theorem reads_readInt8 : Reads (readInt8 u) (fun i w => w = [i.toUInt8]) := by
  refine (reads_map (g := fun i : Int8 => i.toUInt8.toNat) (reads_readLE (by decide))
    (fun b => by simp) ?_).congr ?_
  · rintro n _ ⟨hn, -⟩
    simp only [UInt8.toUInt8_toInt8, UInt8.toNat_ofNat']
    omega
  · intro i w
    have := i.toUInt8.toNat_lt
    simp only [toLE, UInt8.ofNat_toNat]
    exact ⟨fun h => h.2, fun h => ⟨by omega, h⟩⟩

/-- A string: its length in eight bytes, and its bytes. -/
def stringLayout (str : Bytes) : Bytes := toLE 8 str.length ++ str

theorem reads_readString : Reads (readString u) (fun str w => w = stringLayout str) where
  ok := by
    rintro s str w tail hv hrest rfl
    have hlt := hv.rest_lt
    have hlen : str.length < 2 ^ 32 := by
      simp [hrest, stringLayout] at hlt
      omega
    have hn : (UInt64.ofNat str.length).toNat = str.length := by
      simp only [UInt64.toNat_ofNat']
      omega
    rw [stringLayout, List.append_assoc] at hrest
    have h8 : (toLE 8 str.length).length ≤ s.rest.length := by simp [hrest]
    have hv' := hv.advance h8
    have hrest' : (s.advance 8).rest = str ++ tail := by
      have := hv.rest_advance h8
      rw [length_toLE] at this
      rw [this, hrest, List.drop_left' length_toLE]
    rw [length_toLE] at hv'
    have hguard : ¬ ((s.advance 8).mOffset.toUInt64 + UInt64.ofNat str.length >
        (s.advance 8).mLength.toUInt64) := by
      have h1 := hv'.length_rest
      have h2 := hv'.offset_le
      have h3 := (s.advance 8).mLength.toNat_lt
      rw [hrest', List.length_append] at h1
      simp only [gt_iff_lt, UInt64.lt_iff_toNat_lt, UInt64.toNat_add, UInt32.toNat_toUInt64, hn]
      omega
    have hmax : ¬ (UInt64.ofNat str.length > stdStringMaxSize) := by
      simp only [gt_iff_lt, UInt64.lt_iff_toNat_lt, hn, stdStringMaxSize]
      simp
      omega
    have hu : (UInt64.ofNat str.length).toUInt32 = UInt32.ofNat str.length := by
      apply UInt32.toNat_inj.mp
      simp only [UInt64.toNat_toUInt32, hn, UInt32.toNat_ofNat']
    have hrun := (reads_readUInt64 (u := u)).ok (a := UInt64.ofNat str.length) hv hrest (by rw [hn])
    rw [length_toLE] at hrun
    have hmem : readMem u (s.advance 8).mBuffer (s.advance 8).mOffset.toNat str.length = str := by
      rw [hv'.readMem_rest (by simp [hrest']), hrest', List.take_left]
    simp only [readString, EStateM.run_bind, hrun, EStateM.run_get, hguard, hmax, if_false,
      EStateM.run_set, EStateM.run_pure, hu, hn, hmem]
    congr 1
    rw [show (stringLayout str).length = 8 + str.length by simp [stringLayout],
      ← advance_advance]
    rfl
  throws := by
    intro s hv h
    by_cases hex : ∃ (n : UInt64) (w tail : Bytes), s.rest = w ++ tail ∧ w = toLE 8 n.toNat
    · obtain ⟨n, w, tail, hrest, rfl⟩ := hex
      have h8 : (toLE 8 n.toNat).length ≤ s.rest.length := by simp [hrest]
      have hv' := hv.advance h8
      have hrest' : (s.advance 8).rest = tail := by
        have := hv.rest_advance h8
        rw [length_toLE] at this
        rw [this, hrest, List.drop_left' length_toLE]
      have hrun := (reads_readUInt64 (u := u)).ok (a := n) hv hrest rfl
      rw [length_toLE] at hrun hv'
      simp only [readString, EStateM.run_bind, hrun, EStateM.run_get]
      split
      · exact ⟨.outOfRange, s.advance 8, rfl⟩
      · rename_i hguard
        split
        · exact ⟨.lengthError, s.advance 8, rfl⟩
        · -- a length that passes both guards is the length of a string that is there
          exfalso
          rename_i hmax
          have h1 := hv'.length_rest
          have h2 := hv'.offset_le
          have h3 := (s.advance 8).mLength.toNat_lt
          have hle : n.toNat ≤ tail.length := by
            simp only [gt_iff_lt, UInt64.lt_iff_toNat_lt, stdStringMaxSize] at hmax
            simp only [gt_iff_lt, UInt64.lt_iff_toNat_lt, UInt64.toNat_add,
              UInt32.toNat_toUInt64] at hguard
            simp at hmax
            rw [hrest'] at h1
            omega
          refine h (tail.take n.toNat) _ (tail.drop n.toNat) ?_ rfl
          have hl : (tail.take n.toNat).length = n.toNat := by simp [hle]
          rw [stringLayout, hl, List.append_assoc, List.take_append_drop, hrest]
    · obtain ⟨e, s', he⟩ := (reads_readUInt64 (u := u)).throws hv
        fun a w tail hw hp => hex ⟨a, w, tail, hw, hp⟩
      exact ⟨e, s', by simp [readString, he]⟩

-- ---------------------------------------------------------------------------
-- Writing
-- ---------------------------------------------------------------------------

/-- A capacity that came from `c` by doubling, no further than `length`
demands. -/
def GrownFrom (c capacity length : Nat) : Prop :=
  ∃ k, capacity = c * 2 ^ k ∧ (k = 0 ∨ c * 2 ^ (k - 1) ≤ length)

theorem GrownFrom.mono (h : GrownFrom c cap n) (hn : n ≤ m) : GrownFrom c cap m := by
  obtain ⟨k, hk, hle⟩ := h
  exact ⟨k, hk, hle.imp_right (Nat.le_trans · hn)⟩

theorem GrownFrom.double (h : GrownFrom c cap n) (hle : cap ≤ n) : GrownFrom c (cap * 2) n := by
  obtain ⟨k, rfl, -⟩ := h
  exact ⟨k + 1, by rw [Nat.pow_succ, Nat.mul_assoc], .inr (by simpa using hle)⟩

/-- A stream of first capacity `c` that was written `data`. -/
structure Holds (c : Nat) (s : ByteStream) (data : Bytes) : Prop where
  length : s.mLength.toNat = data.length
  offset : s.mOffset.toNat = data.length
  alloc : s.mBuffer.length = s.mCapacity.toNat
  grown : GrownFrom c s.mCapacity.toNat data.length
  room : data.length < s.mCapacity.toNat
  bytes : s.mBuffer.take data.length = data

theorem ofCap_holds : Holds (ofCap u cap).mCapacity.toNat (ofCap u cap) [] := by
  refine ⟨by simp [ofCap], by simp [ofCap], by simp [ofCap], ⟨0, by simp, .inl rfl⟩, ?_, by simp⟩
  show 0 < (if cap > 0 then cap else initCapacity).toNat
  split
  · rename_i h
    exact UInt32.lt_iff_toNat_lt.mp h
  · decide

theorem Holds.getBuf (h : Holds c s data) : s.getBuf u = data := by
  have hr := h.room
  rw [ByteStream.getBuf, h.length, readMem_eq (by rw [h.alloc]; omega), List.drop_zero, h.bytes]

/-- What the growth loop keeps: it changes the buffer and its capacity, and
of the buffer only what lies past the first `k` bytes. -/
structure Grows (k c : Nat) (s s' : ByteStream) : Prop where
  length : s'.mLength = s.mLength
  offset : s'.mOffset = s.mOffset
  alloc : s'.mBuffer.length = s'.mCapacity.toNat
  grown : GrownFrom c s'.mCapacity.toNat s.mLength.toNat
  room : s.mLength.toNat < s'.mCapacity.toNat
  bytes : s'.mBuffer.take k = s.mBuffer.take k

theorem length_resize : (s.resize u).mBuffer.length = (s.resize u).mCapacity.toNat := by
  simp [resize]

theorem toNat_double (h : s.mCapacity.toNat < 2 ^ 31) :
    (s.resize u).mCapacity.toNat = s.mCapacity.toNat * 2 := by
  show (s.mCapacity * 2).toNat = _
  rw [UInt32.toNat_mul, Nat.mod_eq_of_lt]
  · rfl
  · show s.mCapacity.toNat * 2 < 2 ^ 32
    omega

theorem take_resize (hcap : s.mCapacity.toNat < 2 ^ 31) (hb : k ≤ s.mBuffer.length)
    (hk : k ≤ s.mCapacity.toNat) : (s.resize u).mBuffer.take k = s.mBuffer.take k := by
  have hc := toNat_double (u := u) hcap
  have hc' : (s.mCapacity * 2).toNat = s.mCapacity.toNat * 2 := hc
  show (writeMem _ 0 (readMem u s.mBuffer 0 (s.mCapacity * 2).toNat)).take k = _
  rw [writeMem_all (by simp), take_readMem hb (by omega)]

/-- The loop exits with room for the length: `capacity` has at most 31
doublings to go. -/
theorem grow_ok (fuel : Nat) (hlen : s.mLength.toNat < 2 ^ 31)
    (hb : s.mBuffer.length = s.mCapacity.toNat)
    (hg : GrownFrom c s.mCapacity.toNat s.mLength.toNat) (hk : k ≤ s.mBuffer.length)
    (hfuel : s.mLength.toNat < s.mCapacity.toNat * 2 ^ fuel) :
    ∃ s', grow u fuel s = some s' ∧ Grows k c s s' := by
  induction fuel generalizing s with
  | zero =>
    have hroom : s.mLength.toNat < s.mCapacity.toNat := by simpa using hfuel
    have hno : ¬ s.mLength ≥ s.mCapacity := by
      simp only [ge_iff_le, UInt32.le_iff_toNat_le]
      omega
    exact ⟨s, by simp [grow, hno], ⟨rfl, rfl, hb, hg, hroom, rfl⟩⟩
  | succ fuel ih =>
    by_cases hge : s.mLength ≥ s.mCapacity
    · have hle : s.mCapacity.toNat ≤ s.mLength.toNat := UInt32.le_iff_toNat_le.mp hge
      have hc := toNat_double (u := u) (show s.mCapacity.toNat < 2 ^ 31 by omega)
      have htake := take_resize (u := u) (k := k) (by omega) hk (by omega)
      obtain ⟨s', hs', hl, ho, ha, hgr, hr, ht⟩ := ih (s := s.resize u) hlen
        length_resize
        (by rw [hc]; exact hg.double hle)
        (by rw [length_resize, hc]; omega)
        (by rw [hc, Nat.mul_assoc, ← Nat.pow_succ']; exact hfuel)
      exact ⟨s', by simp [grow, hge, hs'], ⟨hl, ho, ha, hgr, hr, ht.trans htake⟩⟩
    · have hroom : s.mLength.toNat < s.mCapacity.toNat := by
        have := UInt32.not_le.mp hge
        exact UInt32.lt_iff_toNat_lt.mp this
      exact ⟨s, by simp [grow, hge], ⟨rfl, rfl, hb, hg, hroom, rfl⟩⟩

theorem grow_room (fuel : Nat) (h : s.mLength.toNat < s.mCapacity.toNat) :
    grow u fuel s = some s := by
  have hno : ¬ s.mLength ≥ s.mCapacity := by
    simp only [ge_iff_le, UInt32.le_iff_toNat_le]
    omega
  cases fuel <;> simp only [grow, hno, if_false]

theorem write_run {length : UInt64} :
    (ByteStream.write u src length).run s =
      match grow u growFuel { s with mLength := s.mLength + length.toUInt32 } with
      | none => .error .diverges s
      | some t => .ok true
          { t with
            mBuffer := writeMem t.mBuffer t.mOffset.toNat (readMem u src 0 length.toNat)
            mOffset := t.mOffset + length.toUInt32 } := by
  simp only [ByteStream.write, EStateM.run_bind, EStateM.run_get]
  cases grow u growFuel { s with mLength := s.mLength + length.toUInt32 } <;> rfl

/-- `write` appends what it finds behind the pointer, and returns true. -/
theorem Holds.write_mem (src : Bytes) (h : Holds c s data) (htotal : data.length + n < 2 ^ 31) :
    ∃ s', (ByteStream.write u src (UInt64.ofNat n)).run s = .ok true s' ∧
      Holds c s' (data ++ readMem u src 0 n) := by
  have hroom := h.room
  have hn64 : (UInt64.ofNat n).toNat = n := by
    simp only [UInt64.toNat_ofNat']
    omega
  have hn32 : (UInt64.ofNat n).toUInt32.toNat = n := by
    simp only [UInt64.toNat_toUInt32, hn64]
    omega
  have hlen : (s.mLength + (UInt64.ofNat n).toUInt32).toNat = data.length + n := by
    rw [UInt32.toNat_add, h.length, hn32]
    omega
  have hoff : (s.mOffset + (UInt64.ofNat n).toUInt32).toNat = data.length + n := by
    rw [UInt32.toNat_add, h.offset, hn32]
    omega
  obtain ⟨t, ht, hg⟩ := grow_ok (u := u) (c := c) (k := data.length) growFuel
    (s := { s with mLength := s.mLength + (UInt64.ofNat n).toUInt32 })
    (by simp only [hlen]; exact htotal) h.alloc
    (by simp only [hlen]; exact h.grown.mono (by omega))
    (by rw [h.alloc]; omega)
    (by
      simp only [hlen, growFuel]
      omega)
  have htl := hg.length
  have hto := hg.offset
  have hta := hg.alloc
  have hgr := hg.grown
  have htr := hg.room
  simp only [hlen] at hgr htr
  simp only at htl hto
  refine ⟨_, by simp only [write_run, ht]; rfl, ?_⟩
  simp only [hn64]
  generalize hw : readMem u src 0 n = w
  have hwl : w.length = n := by rw [← hw, length_readMem]
  refine ⟨?_, ?_, ?_, ?_, ?_, ?_⟩
  · show t.mLength.toNat = _
    rw [htl, hlen, List.length_append, hwl]
  · show (t.mOffset + _).toNat = _
    rw [hto, hoff, List.length_append, hwl]
  · simpa using hta
  · rw [List.length_append, hwl]
    exact hgr
  · rw [List.length_append, hwl]
    exact htr
  · have hoff' : t.mOffset.toNat = data.length := by rw [hto, h.offset]
    have hfit : data.length + w.length ≤ t.mBuffer.length := by omega
    show (writeMem t.mBuffer t.mOffset.toNat w).take _ = _
    rw [hoff', List.length_append, take_writeMem hfit, hg.bytes, h.bytes]

theorem Holds.write (src : Bytes) (h : Holds c s data) (hw : src.take n = w) (hn : n ≤ src.length)
    (htotal : data.length + n < 2 ^ 31) :
    ∃ s', (ByteStream.write u src (UInt64.ofNat n)).run s = .ok true s' ∧
      Holds c s' (data ++ w) := by
  have hread : readMem u src 0 n = w := by rw [readMem_eq (by omega), List.drop_zero, hw]
  rw [← hread]
  exact h.write_mem src htotal

/-- `m` appends `bytes`, as long as the total stays below 2^31. -/
def Writes (m : Stream α) (bytes : Bytes) : Prop :=
  ∀ ⦃c s data⦄, Holds c s data → data.length + bytes.length < 2 ^ 31 →
    ∃ a s', m.run s = .ok a s' ∧ Holds c s' (data ++ bytes)

theorem Writes.pure (a : α) : Writes (pure a : Stream α) [] := by
  intro c s data h _
  exact ⟨a, s, rfl, by simpa using h⟩

theorem Writes.bind {m : Stream α} {f : α → Stream β} (hm : Writes m x) (hf : ∀ a, Writes (f a) y) :
    Writes (m >>= f) (x ++ y) := by
  intro c s data h hlen
  rw [List.length_append] at hlen
  obtain ⟨a, t, ht, hx⟩ := hm h (by omega)
  obtain ⟨b, s', hs', hy⟩ := hf a hx (by rw [List.length_append]; omega)
  refine ⟨b, s', ?_, by rwa [List.append_assoc] at hy⟩
  rw [EStateM.run_bind, ht]
  exact hs'

theorem Writes.forM {f : α → Stream PUnit} {enc : α → Bytes} (hf : ∀ a, Writes (f a) (enc a))
    (l : List α) : Writes (l.forM f) (l.flatMap enc) := by
  induction l with
  | nil => exact Writes.pure _
  | cons a l ih => exact Writes.bind (hf a) fun _ => ih

theorem writes_writeLE : Writes (writeLE u width n) (toLE width n) := by
  intro c s data h hlen
  rw [length_toLE] at hlen
  obtain ⟨s', hs', hh⟩ := h.write (u := u) (n := width) (toLE width n)
    (List.take_of_length_le (by simp)) (by simp) hlen
  exact ⟨true, s', hs', hh⟩

theorem writes_writeUInt16 (i : UInt16) : Writes (writeUInt16 u i) (toLE 2 i.toNat) :=
  writes_writeLE

theorem writes_writeInt8 (i : Int8) : Writes (writeInt8 u i) [i.toUInt8] := by
  have h : toLE 1 i.toUInt8.toNat = [i.toUInt8] := by simp [toLE]
  rw [← h]
  exact writes_writeLE

theorem writes_writeString (str : Bytes) :
    Writes (writeString u str (UInt64.ofNat str.length)) (stringLayout str) := by
  intro c s data h hlen
  have hl : (stringLayout str).length = 8 + str.length := by simp [stringLayout]
  rw [hl] at hlen
  have h64 : (UInt64.ofNat str.length).toNat = str.length := by
    simp only [UInt64.toNat_ofNat']
    omega
  obtain ⟨t, ht, hh⟩ := h.write (u := u) (n := 8) (toLE 8 (UInt64.ofNat str.length).toNat)
    (List.take_of_length_le (by simp)) (by simp) (by omega)
  obtain ⟨s', hs', hh'⟩ := hh.write (u := u) (n := str.length) (str ++ [0])
    List.take_left (by simp) (by simp; omega)
  refine ⟨true, s', ?_, by rwa [h64, List.append_assoc] at hh'⟩
  have ht' : (writeUInt64 u (UInt64.ofNat str.length)).run s = .ok true t := ht
  simp only [writeString, EStateM.run_bind, ht', if_true]
  exact hs'

end ByteStream

end ENetChat

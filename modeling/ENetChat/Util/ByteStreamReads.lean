import ENetChat.Util.ByteStreamLaws

/-!
# Reading at the edges

What the readers do on any stream whose offset is within its length, edges
included: where the guard of `readString` gives way
(`readString_exact_iff`), which failed reads leave the stream as it was
(`failed_read_iff`), and how many bytes `peek` copies (`peek_clamps_iff`).
-/

namespace ENetChat

open LittleEndian
open Exec (run_discard)

namespace ByteStream

variable {u : Unspecified} {s : ByteStream} {n width : Nat}

-- ---------------------------------------------------------------------------
-- Strings
-- ---------------------------------------------------------------------------

/-- The length that a string at the offset announces. -/
def stringLength (u : Unspecified) (s : ByteStream) : Nat :=
  fromLE (readMem u s.mBuffer s.mOffset.toNat 8)

theorem stringLength_lt : s.stringLength u < 2 ^ 64 := by
  have := fromLE_lt (readMem u s.mBuffer s.mOffset.toNat 8)
  rw [length_readMem] at this
  exact this

theorem readLE_run (h : s.mOffset ≤ s.mLength) (hw : width < 2 ^ 32) :
    (readLE u width).run s =
      if width ≤ s.left then
        .ok (fromLE (readMem u s.mBuffer s.mOffset.toNat width)) (s.advance width)
      else .error (.threw .outOfRange) s := by
  simp only [readLE, EStateM.run_bind, read_run h hw]
  by_cases hle : width ≤ s.left <;> simp [hle]

theorem toNat_stringLength : (UInt64.ofNat (s.stringLength u)).toNat = s.stringLength u := by
  have hlen := stringLength_lt (u := u) (s := s)
  simp only [UInt64.toNat_ofNat']
  omega

theorem readPrefix_run (h : s.mOffset ≤ s.mLength) :
    (readUInt64 u).run s =
      if 8 ≤ s.left then .ok (UInt64.ofNat (s.stringLength u)) (s.advance 8)
      else .error (.threw .outOfRange) s := by
  simp only [readUInt64, EStateM.run_bind, readLE_run h (show 8 < 2 ^ 32 by decide)]
  by_cases h8 : 8 ≤ s.left
  · rw [if_pos h8, if_pos h8]
    rfl
  · rw [if_neg h8, if_neg h8]

/-- The guard, once the prefix is read, in the program's 64-bit arithmetic. -/
theorem stringGuard_iff (h : s.mOffset ≤ s.mLength) (h8 : 8 ≤ s.left) :
    ((s.advance 8).mOffset.toUInt64 + UInt64.ofNat (s.stringLength u) >
      (s.advance 8).mLength.toUInt64) ↔
    s.left - 8 < s.stringLength u ∧ s.mOffset.toNat + 8 + s.stringLength u < 2 ^ 64 := by
  have hle := UInt32.le_iff_toNat_le.mp h
  have hlt := s.mLength.toNat_lt
  have hlen := stringLength_lt (u := u) (s := s)
  have hoff : (s.advance 8).mOffset.toNat = s.mOffset.toNat + 8 := toNat_offset_add h h8
  simp only [left] at h8 ⊢
  simp only [gt_iff_lt, UInt64.lt_iff_toNat_lt, UInt64.toNat_add, UInt32.toNat_toUInt64,
    toNat_stringLength, hoff]
  show s.mLength.toNat < _ ↔ _
  omega

/-- The prefix is read, then guarded in 64-bit arithmetic: a length that
wraps around gets as far as the constructor of `std::string`. -/
theorem readString_run (h : s.mOffset ≤ s.mLength) :
    (readString u).run s =
      if s.left < 8 then .error (.threw .outOfRange) s
      else if s.stringLength u ≤ s.left - 8 then
        .ok (readMem u s.mBuffer (s.mOffset.toNat + 8) (s.stringLength u))
          (s.advance (8 + s.stringLength u))
      else if s.mOffset.toNat + 8 + s.stringLength u < 2 ^ 64 then
        .error (.threw .outOfRange) (s.advance 8)
      else .error (.threw .lengthError) (s.advance 8) := by
  by_cases h8 : s.left < 8
  · rw [if_pos h8]
    simp only [readString, EStateM.run_bind, readPrefix_run h, Nat.not_le.mpr h8, if_false]
  rw [if_neg h8]
  have h8 := Nat.not_lt.mp h8
  have hoff : (s.advance 8).mOffset.toNat = s.mOffset.toNat + 8 := toNat_offset_add h h8
  have hmax : (UInt64.ofNat (s.stringLength u) > stdStringMaxSize) ↔
      2 ^ 63 ≤ s.stringLength u := by
    simp only [gt_iff_lt, UInt64.lt_iff_toNat_lt, toNat_stringLength]
    exact Nat.lt_iff_add_one_le
  simp only [readString, EStateM.run_bind, readPrefix_run h, h8, if_true, EStateM.run_get,
    stringGuard_iff h h8, hmax]
  have hle := UInt32.le_iff_toNat_le.mp h
  have hlt := s.mLength.toNat_lt
  by_cases hfits : s.stringLength u ≤ s.left - 8
  · have hu : (UInt64.ofNat (s.stringLength u)).toUInt32 = UInt32.ofNat (s.stringLength u) := by
      apply UInt32.toNat_inj.mp
      simp only [UInt64.toNat_toUInt32, toNat_stringLength, UInt32.toNat_ofNat']
    have hno : ¬ (s.left - 8 < s.stringLength u ∧
        s.mOffset.toNat + 8 + s.stringLength u < 2 ^ 64) := by omega
    have hsmall : ¬ 2 ^ 63 ≤ s.stringLength u := by
      simp only [left] at hfits
      omega
    rw [if_pos hfits, if_neg hno, if_neg hsmall, ← advance_advance]
    simp only [EStateM.run_bind, EStateM.run_set, EStateM.run_pure, toNat_stringLength, hu, hoff]
    rfl
  · rw [if_neg hfits]
    by_cases hwrap : s.mOffset.toNat + 8 + s.stringLength u < 2 ^ 64
    · rw [if_pos hwrap, if_pos ⟨by omega, hwrap⟩]
      rfl
    · have hbig : 2 ^ 63 ≤ s.stringLength u := by omega
      rw [if_neg hwrap, if_neg fun hc => hwrap hc.2, if_pos hbig]
      rfl

/-- The guard goes by the bytes that remain after the prefix. -/
structure ExactGuard (u : Unspecified) (s : ByteStream) : Prop where
  throws : (∃ s', (readString u).run s = .error (.threw .outOfRange) s') ↔
    s.left < 8 ∨ s.left - 8 < s.stringLength u
  returns : 8 ≤ s.left → s.stringLength u ≤ s.left - 8 → ∃ s',
    (readString u).run s =
      .ok (readMem u s.mBuffer (s.mOffset.toNat + 8) (s.stringLength u)) s' ∧
    s'.mOffset.toNat = s.mOffset.toNat + 8 + s.stringLength u

/-- The guard is exact but for the lengths that wrap around. -/
theorem readString_exact_iff (h : s.mOffset ≤ s.mLength) :
    ExactGuard u s ↔ s.left < 8 ∨ s.mOffset.toNat + 8 + s.stringLength u < 2 ^ 64 := by
  have hrun := readString_run (u := u) h
  have hle := UInt32.le_iff_toNat_le.mp h
  have hlt := s.mLength.toNat_lt
  constructor
  · intro hexact
    by_contra hno
    obtain ⟨h8, hwrap⟩ := not_or.mp hno
    have hfits : ¬ s.stringLength u ≤ s.left - 8 := by
      simp only [left] at h8 ⊢
      omega
    rw [if_neg h8, if_neg hfits, if_neg hwrap] at hrun
    obtain ⟨s', hs'⟩ := hexact.throws.mpr (.inr (by omega))
    rw [hrun] at hs'
    cases hs'
  · intro hsmall
    by_cases h8 : s.left < 8
    · rw [if_pos h8] at hrun
      exact ⟨iff_of_true ⟨s, hrun⟩ (.inl h8), fun hge => absurd h8 (by omega)⟩
    have hwrap := hsmall.resolve_left h8
    rw [if_neg h8, if_pos hwrap] at hrun
    by_cases hfits : s.stringLength u ≤ s.left - 8
    · rw [if_pos hfits] at hrun
      have hoff : (s.advance (8 + s.stringLength u)).mOffset.toNat =
          s.mOffset.toNat + (8 + s.stringLength u) := toNat_offset_add h (by omega)
      refine ⟨iff_of_false ?_ (by omega), fun _ _ => ⟨_, hrun, by rw [hoff, Nat.add_assoc]⟩⟩
      rintro ⟨s', hs'⟩
      rw [hrun] at hs'
      cases hs'
    · rw [if_neg hfits] at hrun
      exact ⟨iff_of_true ⟨_, hrun⟩ (.inr (by omega)), fun _ hge => absurd hge hfits⟩

theorem readString_exact_hi :
    let s := ofBuf default [2, 0, 0, 0, 0, 0, 0, 0, 104, 105] 10
    ExactGuard default s ↔
      s.left < 8 ∨ s.mOffset.toNat + 8 + s.stringLength default < 2 ^ 64 :=
  readString_exact_iff (by decide)

/-- The length 2^64 - 1 wraps to an offset within the eight bytes. -/
theorem wrapped_length_passes : ¬ ExactGuard default (ofBuf default (List.replicate 8 255) 8) := by
  intro hexact
  have hrun : (readString default).run (ofBuf default (List.replicate 8 255) 8) =
      .error (.threw .lengthError) ((ofBuf default (List.replicate 8 255) 8).advance 8) := by
    rw [readString_run (by decide), if_neg (by decide), if_neg (by decide), if_neg (by decide)]
  obtain ⟨s', hs'⟩ := hexact.throws.mpr (by decide)
  rw [hrun] at hs'
  cases hs'

-- ---------------------------------------------------------------------------
-- Failed reads
-- ---------------------------------------------------------------------------

inductive ReadOp where
  | byte
  | int8
  | int16
  | int32
  | int64
  | uint8
  | uint16
  | uint32
  | uint64
  | string
  deriving DecidableEq, Repr

namespace ReadOp

def run (u : Unspecified) : ReadOp → Stream Unit
  | byte => discard (readByte u)
  | int8 => discard (readInt8 u)
  | int16 => discard (readInt16 u)
  | int32 => discard (readInt32 u)
  | int64 => discard (readInt64 u)
  | uint8 => discard (readUInt8 u)
  | uint16 => discard (readUInt16 u)
  | uint32 => discard (readUInt32 u)
  | uint64 => discard (readUInt64 u)
  | string => discard (readString u)

/-- The size of what it reads, if that is fixed. -/
def width? : ReadOp → Option Nat
  | byte | int8 | uint8 => some 1
  | int16 | uint16 => some 2
  | int32 | uint32 => some 4
  | int64 | uint64 => some 8
  | string => none

end ReadOp

variable {op : ReadOp}

theorem run_fixed (h : s.mOffset ≤ s.mLength) (hw : op.width? = some width) :
    (op.run u).run s =
      if width ≤ s.left then .ok () (s.advance width) else .error (.threw .outOfRange) s := by
  have hlt : width < 2 ^ 32 := by cases op <;> cases hw <;> decide
  have hrun := readLE_run (u := u) h hlt
  by_cases hle : width ≤ s.left <;> simp only [hle, if_true, if_false] at hrun ⊢ <;>
    cases op <;> cases hw <;>
    simp only [ReadOp.run, run_discard, readByte, readInt8, readInt16, readInt32, readInt64,
      readUInt8, readUInt16, readUInt32, readUInt64, EStateM.run_bind, hrun, EStateM.run_pure]

theorem eq_string (hw : op.width? = none) : op = .string := by
  cases op <;> first | rfl | cases hw

theorem run_string (h : s.mOffset ≤ s.mLength) :
    (ReadOp.string.run u).run s =
      if s.left < 8 then .error (.threw .outOfRange) s
      else if s.stringLength u ≤ s.left - 8 then .ok () (s.advance (8 + s.stringLength u))
      else if s.mOffset.toNat + 8 + s.stringLength u < 2 ^ 64 then
        .error (.threw .outOfRange) (s.advance 8)
      else .error (.threw .lengthError) (s.advance 8) := by
  rw [ReadOp.run, run_discard, readString_run h]
  split_ifs <;> rfl

/-- A read that throws leaves the stream as it was. -/
def Untouched (u : Unspecified) (op : ReadOp) (s : ByteStream) : Prop :=
  ∀ e s', (op.run u).run s = .error (.threw e) s' → s' = s

theorem advance_eight_ne (h : s.mOffset ≤ s.mLength) (h8 : ¬ s.left < 8) : s.advance 8 ≠ s := by
  intro heq
  have hoff : (s.advance 8).mOffset.toNat = s.mOffset.toNat + 8 := toNat_offset_add h (by omega)
  rw [heq] at hoff
  omega

/-- `readString` is two reads: it may fail after the first. -/
theorem failed_read_iff (op : ReadOp) (h : s.mOffset ≤ s.mLength) :
    Untouched u op s ↔ op ≠ .string ∨ s.left < 8 ∨ s.stringLength u ≤ s.left - 8 := by
  cases hw : op.width? with
  | some width =>
    have hop : op ≠ .string := by
      rintro rfl
      cases hw
    refine iff_of_true (fun e s' hrun => ?_) (.inl hop)
    rw [run_fixed h hw] at hrun
    split at hrun
    · cases hrun
    · cases hrun
      rfl
  | none =>
    obtain rfl := eq_string hw
    have hrun := run_string (u := u) h
    by_cases h8 : s.left < 8
    · rw [if_pos h8] at hrun
      refine iff_of_true (fun e s' hs' => ?_) (.inr (.inl h8))
      rw [hrun] at hs'
      cases hs'
      rfl
    rw [if_neg h8] at hrun
    by_cases hfits : s.stringLength u ≤ s.left - 8
    · rw [if_pos hfits] at hrun
      refine iff_of_true (fun e s' hs' => ?_) (.inr (.inr hfits))
      rw [hrun] at hs'
      cases hs'
    · rw [if_neg hfits] at hrun
      refine iff_of_false (fun huntouched => ?_) (by simp [h8, hfits])
      have hne := advance_eight_ne h h8
      by_cases hwrap : s.mOffset.toNat + 8 + s.stringLength u < 2 ^ 64
      · rw [if_pos hwrap] at hrun
        exact hne (huntouched _ _ hrun)
      · rw [if_neg hwrap] at hrun
        exact hne (huntouched _ _ hrun)

/-- The stream of a string that announces one byte and has none. -/
def truncatedString : ByteStream := ofBuf default [1, 0, 0, 0, 0, 0, 0, 0] 8

theorem failed_read_truncated :
    Untouched default .uint64 truncatedString ↔ ReadOp.uint64 ≠ .string ∨
      truncatedString.left < 8 ∨ truncatedString.stringLength default ≤ truncatedString.left - 8 :=
  failed_read_iff .uint64 (by decide)

/-- The length is gone when the string is found missing. -/
theorem truncated_string_consumed : ¬ Untouched default .string truncatedString := by
  intro huntouched
  have hrun := run_string (u := default) (s := truncatedString) (by decide)
  rw [if_neg (by decide), if_neg (by decide), if_pos (by decide)] at hrun
  exact absurd (huntouched _ _ hrun) (by decide)

-- ---------------------------------------------------------------------------
-- Peeking
-- ---------------------------------------------------------------------------

/-- The clamp takes off what remains, and only if the sum does not wrap. -/
theorem peek_eq (n : UInt64) (h : s.mOffset ≤ s.mLength) :
    peek u n s = readMem u s.mBuffer s.mOffset.toNat
      (if s.left < n.toNat ∧ s.mOffset.toNat + n.toNat < 2 ^ 64 then n.toNat - s.left
        else n.toNat) := by
  have hle := UInt32.le_iff_toNat_le.mp h
  have hlt := s.mLength.toNat_lt
  have hn := n.toNat_lt
  have hguard : (s.mOffset.toUInt64 + n > s.mLength.toUInt64) ↔
      s.left < n.toNat ∧ s.mOffset.toNat + n.toNat < 2 ^ 64 := by
    simp only [gt_iff_lt, UInt64.lt_iff_toNat_lt, UInt64.toNat_add, UInt32.toNat_toUInt64, left]
    omega
  simp only [peek, hguard]
  congr 1
  split
  · next hc =>
    have hsub : (s.mLength - s.mOffset).toNat = s.left := UInt32.toNat_sub_of_le _ _ h
    rw [UInt64.toNat_sub_of_le _ _ ?_]
    · rw [UInt32.toNat_toUInt64, hsub]
    · rw [UInt64.le_iff_toNat_le, UInt32.toNat_toUInt64, hsub]
      omega
  · simp

/-- `peek` copies what a `read` of no more than what remains would return. It
returns bytes and no stream: there is nothing that it changes. -/
structure Clamps (u : Unspecified) (n : UInt64) (s : ByteStream) : Prop where
  count : (peek u n s).length = min n.toNat s.left
  inside : ∀ i < (peek u n s).length, s.mOffset.toNat + i < s.mLength.toNat
  agrees : ∃ s', (read u (UInt64.ofNat (min n.toNat s.left))).run s = .ok (peek u n s) s'

/-- `peekInt8` is the next `readInt8`, and at the end copies no byte. -/
structure PeeksNext (u : Unspecified) (s : ByteStream) : Prop where
  next : 0 < s.left → ∃ s', (readInt8 u).run s = .ok (s.peekInt8 u) s'
  nothing : s.left = 0 → peek u 1 s = []

theorem clamps_iff (n : UInt64) (h : s.mOffset ≤ s.mLength) :
    Clamps u n s ↔ n.toNat ≤ s.left ∨ n.toNat = 2 * s.left := by
  have hlt := s.mLength.toNat_lt
  have hoff := s.mOffset.toNat_lt
  have hpeek := peek_eq (u := u) n h
  have hleft : s.left = s.mLength.toNat - s.mOffset.toNat := rfl
  constructor
  · intro hc
    have hcount := hc.count
    rw [hpeek, length_readMem] at hcount
    split at hcount <;> omega
  · intro hn
    have hk : (if s.left < n.toNat ∧ s.mOffset.toNat + n.toNat < 2 ^ 64 then n.toNat - s.left
        else n.toNat) = min n.toNat s.left := by
      split <;> omega
    rw [hk] at hpeek
    have hlen : (peek u n s).length = min n.toNat s.left := by rw [hpeek, length_readMem]
    refine ⟨hlen, fun i hi => by omega, s.advance (min n.toNat s.left), ?_⟩
    rw [read_run h (by omega), if_pos (by omega), hpeek]

theorem peeksNext_iff (h : s.mOffset ≤ s.mLength) : PeeksNext u s ↔ 0 < s.left := by
  have hpeek := peek_eq (u := u) 1 h
  have hoff := s.mOffset.toNat_lt
  have hone : (1 : UInt64).toNat = 1 := rfl
  rw [hone] at hpeek
  constructor
  · intro hp
    by_contra hno
    have hnil := congrArg List.length (hp.nothing (by omega))
    rw [hpeek, length_readMem] at hnil
    split at hnil
    · simp only [List.length_nil] at hnil
      omega
    · cases hnil
  · intro hpos
    rw [if_neg (by omega)] at hpeek
    refine ⟨fun _ => ⟨s.advance 1, ?_⟩, fun h0 => absurd h0 (by omega)⟩
    have hint : s.peekInt8 u =
        (UInt8.ofNat (fromLE (readMem u s.mBuffer s.mOffset.toNat 1))).toInt8 := by
      rw [peekInt8, peekByte, hpeek]
      simp [readMem, fromLE]
    rw [readInt8, EStateM.run_bind, readLE_run h (by decide), if_pos (show 1 ≤ s.left by omega),
      hint]
    rfl

/-- `peek` is right about requests that fit, and about twice what remains;
`peekInt8` while a byte remains. -/
theorem peek_clamps_iff (n : UInt64) (h : s.mOffset ≤ s.mLength) :
    (Clamps u n s ↔ n.toNat ≤ s.left ∨ n.toNat = 2 * s.left) ∧ (PeeksNext u s ↔ 0 < s.left) :=
  ⟨clamps_iff n h, peeksNext_iff h⟩

theorem peek_clamps_two :
    let s := ofBuf default [7, 8] 2
    (Clamps default 4 s ↔ (4 : UInt64).toNat ≤ s.left ∨ (4 : UInt64).toNat = 2 * s.left) ∧
      (PeeksNext default s ↔ 0 < s.left) :=
  peek_clamps_iff 4 (by decide)

/-- The stream of an empty packet: `peekInt8` copies the byte behind it. -/
theorem empty_packet_peeked :
    ¬ Clamps default 1 (ofBuf default [] 0) ∧ ¬ PeeksNext default (ofBuf default [] 0) := by
  constructor
  · rw [clamps_iff 1 (by decide)]
    decide
  · rw [peeksNext_iff (by decide)]
    decide

end ByteStream

end ENetChat

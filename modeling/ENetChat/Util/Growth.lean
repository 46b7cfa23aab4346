import ENetChat.Util.StreamWrites

/-!
# What growing costs

A `resize` copies as many bytes as it makes room for, and a stream that keeps
writing pays for that with what it writes: all the copies together move five
times the bytes that were written at most (`copies_linear`). Twice the
capacity is the potential.
-/

namespace ENetChat.ByteStream

open Exec (run_discard)

variable {u : Unspecified} {s t : ByteStream} {c fuel : Nat} {data : Bytes}

/-- The bytes that copies move. -/
def moved (copies : List Memcpy) : Nat := (copies.map (·.size)).sum

theorem moved_append (ms ms' : List Memcpy) : moved (ms ++ ms') = moved ms + moved ms' := by
  rw [moved, List.map_append, List.sum_append]
  rfl

/-- Each `resize` moves the new capacity, which is twice what it adds. -/
theorem moved_grow (hlen : s.mLength.toNat < 2 ^ 31) (h : grow u fuel s = some t) :
    moved (growCopies u fuel s) + 2 * s.mCapacity.toNat = 2 * t.mCapacity.toNat := by
  induction fuel generalizing s with
  | zero =>
    rw [grow] at h
    split at h
    · cases h
    · cases h
      exact Nat.zero_add _
  | succ fuel ih =>
    rw [grow] at h
    rw [growCopies]
    split at h
    · next hge =>
      rw [if_pos hge]
      have hcap : s.mCapacity.toNat < 2 ^ 31 :=
        Nat.lt_of_le_of_lt (UInt32.le_iff_toNat_le.mp hge) hlen
      have hrest : moved (growCopies u fuel (s.resize u)) + 2 * (s.resize u).mCapacity.toNat =
          2 * t.mCapacity.toNat := ih hlen h
      have hdouble := toNat_double (u := u) hcap
      have hone : moved (s.resizeCopy u :: growCopies u fuel (s.resize u)) =
          (s.resize u).mCapacity.toNat + moved (growCopies u fuel (s.resize u)) := rfl
      omega
    · next hlt =>
      rw [if_neg hlt]
      cases h
      exact Nat.zero_add _

/-- One call: what it moves, with the potential before, is the potential after
and what it writes. -/
theorem Holds.moved_call (h : Holds c s data) (call : WriteCall)
    (htotal : data.length + call.length.toNat < 2 ^ 31) :
    ∃ s', (call.run u).run s = .ok () s' ∧
      Holds c s' (data ++ readMem u call.data 0 call.length.toNat) ∧
      moved (call.copies u s) + 2 * s.mCapacity.toNat =
        2 * s'.mCapacity.toNat + call.length.toNat := by
  obtain ⟨s', hs', hh⟩ := h.write_mem (u := u) (n := call.length.toNat) call.data htotal
  rw [UInt64.ofNat_toNat] at hs'
  refine ⟨s', by rw [WriteCall.run, run_discard, hs'], hh, ?_⟩
  rw [write_eq] at hs'
  split at hs'
  · cases hs'
  · next t ht =>
    cases hs'
    have hgrow := moved_grow (by rw [h.toNat_length_add call htotal]; exact htotal) ht
    rw [WriteCall.copies, moved_append, ht]
    have hlast : moved ((some t).toList.map (writeCopy call)) = call.length.toNat := rfl
    rw [hlast]
    show _ = 2 * t.mCapacity.toNat + _
    simp only at hgrow
    omega

theorem Holds.moved_calls (calls : List (Unspecified × WriteCall)) (h : Holds c s data)
    (htotal : data.length + total calls < 2 ^ 31) :
    ∃ capacity, GrownFrom c capacity (data.length + total calls) ∧
      moved (copies calls s) + 2 * s.mCapacity.toNat = 2 * capacity + total calls := by
  induction calls generalizing s data with
  | nil => exact ⟨s.mCapacity.toNat, h.grown, Nat.zero_add _⟩
  | cons x calls ih =>
    obtain ⟨u, call⟩ := x
    have hsum : total ((u, call) :: calls) = call.length.toNat + total calls := by
      simp [total]
    rw [hsum] at htotal ⊢
    obtain ⟨s', hs', hh, hmoved⟩ := h.moved_call (u := u) call (by omega)
    have hlen : (data ++ readMem u call.data 0 call.length.toNat).length + total calls =
        data.length + (call.length.toNat + total calls) := by
      rw [List.length_append, length_readMem, Nat.add_assoc]
    obtain ⟨capacity, hgrown, hrest⟩ := ih hh (by rw [hlen]; exact htotal)
    rw [hlen] at hgrown
    refine ⟨capacity, hgrown, ?_⟩
    rw [copies, moved_append, hs']
    simp only
    omega

/-- Whatever the first capacity: the copies of a sequence of operations move
at most five bytes for each that is written. -/
theorem copies_linear (u : Unspecified) (cap : UInt32) (ops : Writing)
    (htotal : total ops.calls < 2 ^ 31) :
    moved (copies ops.calls (ofCap u cap)) ≤ 5 * total ops.calls := by
  have h : Holds (ofCap u cap).mCapacity.toNat (ofCap u cap) [] := ofCap_holds
  obtain ⟨capacity, ⟨k, hk, hle⟩, hmoved⟩ := h.moved_calls ops.calls (by simpa using htotal)
  rw [List.length_nil, Nat.zero_add] at hle
  rcases hle with rfl | hle
  · rw [Nat.pow_zero, Nat.mul_one] at hk
    omega
  · cases k with
    | zero => omega
    | succ k =>
      rw [Nat.add_sub_cancel] at hle
      rw [Nat.pow_succ, ← Nat.mul_assoc] at hk
      omega

theorem copies_linear_growing :
    moved (copies growing.calls (ofCap default 3)) ≤ 5 * total growing.calls :=
  copies_linear default 3 growing (by decide)

end ENetChat.ByteStream

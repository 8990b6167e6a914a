import DeviceTree.Platform.MappedMemory
import DeviceTree.Proofs.Encoding

/-!
# Accesses to mapped memory

A write puts the low-order bytes of its value at its address and leaves all other bytes alone. So
what was written is read back, masked to the width, and a read apart from it gives what it gave
before. Only addresses beyond those of the CPU are refused.
-/
namespace DeviceTree

namespace MappedMemory

variable {m next : MappedMemory} {width other : Width} {address place : Nat} {value : UInt64}

theorem read_eq (m : MappedMemory) (width : Width) (address : Nat) : m.read width address =
    if address < UInt64.size then
      .ok (.ofNat (ofBigEndian
        ((List.range width.bytes).map fun i => m.byteAt (address + i)).reverse))
    else .error (.unsupported .addressTooWide) := by
  rw [read, checkAddress]
  split <;> rfl

theorem write_eq_ok_iff : m.write width address value = .ok next ↔
    address < UInt64.size ∧ m.store address (littleEndian width.bytes value.toNat) = next := by
  rw [write, checkAddress]
  split
  next haddress => simp [haddress, bind, Except.bind, pure, Except.pure]
  next haddress => simp [haddress, bind, Except.bind]

private theorem byteAt_set (m : MappedMemory) (address i : Nat) (byte : UInt8) :
    byteAt { bytes := m.bytes.setIfInBounds address byte } i =
      if address = i ∧ i < m.bytes.size then byte else m.byteAt i := by
  simp only [byteAt, Array.getD_eq_getD_getElem?, Array.getElem?_setIfInBounds]
  by_cases haddress : address = i
  · subst haddress
    by_cases hlt : address < m.bytes.size <;> simp [hlt]
  · simp [haddress]

theorem size_store (m : MappedMemory) (address : Nat) (bytes : List UInt8) :
    (m.store address bytes).bytes.size = m.bytes.size := by
  induction bytes generalizing m address with
  | nil => rfl
  | cons byte bytes ih => rw [store, ih, Array.size_setIfInBounds]

/-- The bytes that are stored are there, unless they are outside the memory, and all others are as
they were. -/
theorem byteAt_store (m : MappedMemory) (address i : Nat) (bytes : List UInt8) :
    (m.store address bytes).byteAt i =
      if address ≤ i ∧ i < address + bytes.length ∧ i < m.bytes.size then
        bytes.getD (i - address) 0
      else m.byteAt i := by
  induction bytes generalizing m address with
  | nil => exact (if_neg fun h => Nat.not_lt.2 h.1 h.2.1).symm
  | cons byte bytes ih =>
    rw [store, ih, byteAt_set, Array.size_setIfInBounds, List.length_cons]
    by_cases hfirst : address = i
    · subst hfirst
      rw [if_neg fun hlater => Nat.not_succ_le_self address hlater.1]
      by_cases hlt : address < m.bytes.size <;> simp [hlt]
    · by_cases hlater : address + 1 ≤ i ∧ i < address + 1 + bytes.length ∧ i < m.bytes.size
      · have hindex : i - address = i - (address + 1) + 1 := by omega
        rw [if_pos hlater, if_pos (by omega), hindex, List.getD_cons_succ]
      · rw [if_neg hlater, if_neg (by omega), if_neg (by omega)]

theorem length_littleEndian (k n : Nat) : (littleEndian k n).length = k := by
  rw [littleEndian, List.length_reverse, length_bigEndian]

private theorem ofNat_mod_eq_mask (width : Width) (value : UInt64) :
    UInt64.ofNat (value.toNat % 256 ^ width.bytes) = width.mask value := by
  have hmax : width.maxValue.toNat = 2 ^ (8 * width.bytes) - 1 := by cases width <;> rfl
  have hpow : 256 ^ width.bytes = 2 ^ (8 * width.bytes) := by
    rw [Nat.pow_mul]
  apply UInt64.toNat_inj.1
  rw [Width.mask, UInt64.toNat_and, hmax, Nat.and_two_pow_sub_one_eq_mod, ← hpow]
  exact UInt64.toNat_ofNat_of_lt' (Nat.lt_of_le_of_lt (Nat.mod_le _ _) value.toNat_lt)

/-- What is written inside the memory is read back, masked to the width. -/
theorem read_of_write (h : m.write width address value = .ok next)
    (hinside : address + width.bytes ≤ m.bytes.size) :
    next.read width address = .ok (width.mask value) := by
  obtain ⟨haddress, rfl⟩ := write_eq_ok_iff.1 h
  have hbytes : (List.range width.bytes).map (fun i =>
      (m.store address (littleEndian width.bytes value.toNat)).byteAt (address + i)) =
        littleEndian width.bytes value.toNat := by
    have hlength := length_littleEndian width.bytes value.toNat
    refine List.ext_getElem (by simp [hlength]) fun i _ hi => ?_
    rw [List.getElem_map, List.getElem_range, byteAt_store, if_pos (by omega),
      Nat.add_sub_cancel_left, List.getD_eq_getElem?_getD, List.getElem?_eq_getElem hi,
      Option.getD_some]
  rw [read_eq, if_pos haddress, hbytes, littleEndian, List.reverse_reverse, ofBigEndian_bigEndian,
    ofNat_mod_eq_mask]

/-- A read apart from what is written gives what it gave before. -/
theorem read_apart (h : m.write width address value = .ok next)
    (hapart : place + other.bytes ≤ address ∨ address + width.bytes ≤ place) :
    next.read other place = m.read other place := by
  obtain ⟨-, rfl⟩ := write_eq_ok_iff.1 h
  have hbytes : ∀ i ∈ List.range other.bytes,
      (m.store address (littleEndian width.bytes value.toNat)).byteAt (place + i) =
        m.byteAt (place + i) := by
    intro i hi
    have hlt := List.mem_range.1 hi
    rw [byteAt_store, length_littleEndian, if_neg (by omega)]
  rw [read_eq, read_eq, List.map_congr_left hbytes]

end MappedMemory

end DeviceTree

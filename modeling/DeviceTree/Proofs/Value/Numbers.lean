import Mathlib.Data.List.Induction
import DeviceTree.Proofs.Encoding

/-!
# Numbers in cells

The number that cells spell is the one that their bytes spell, and the number of cells bounds it.
-/
namespace DeviceTree

theorem ofBigEndian_lt (bytes : List UInt8) : ofBigEndian bytes < 256 ^ bytes.length := by
  induction bytes using List.reverseRecOn with
  | nil => exact Nat.one_pos
  | append_singleton bytes byte ih =>
    have hbyte := byte.toNat_lt
    rw [ofBigEndian_append, List.length_append, List.length_singleton, Nat.pow_succ]
    omega

/-- Bytes are read on from a number as after the bytes that spell it. -/
theorem foldl_bigEndian (n : Nat) (bytes : List UInt8) :
    bytes.foldl (fun n byte => 256 * n + byte.toNat) n =
      256 ^ bytes.length * n + ofBigEndian bytes := by
  induction bytes using List.reverseRecOn with
  | nil => simp [ofBigEndian]
  | append_singleton bytes byte ih =>
    rw [List.foldl_append, ih, ofBigEndian_append, List.length_append, List.length_singleton,
      Nat.pow_succ', Nat.mul_assoc, ← Nat.add_assoc, ← Nat.mul_add]
    rfl

namespace Cell

theorem limit_eq_two_pow (count : Nat) : limit count = 2 ^ (32 * count) := by
  induction count with
  | zero => rfl
  | succ count ih => rw [limit, ih, Nat.mul_succ, Nat.pow_add, Nat.mul_comm]

theorem limit_pos (count : Nat) : 0 < limit count := by
  rw [limit_eq_two_pow]
  exact Nat.two_pow_pos _

theorem limit_le {m n : Nat} (h : m ≤ n) : limit m ≤ limit n := by
  rw [limit_eq_two_pow, limit_eq_two_pow]
  exact Nat.pow_le_pow_right Nat.two_pos (Nat.mul_le_mul_left 32 h)

variable {bytes : List UInt8} {count : Nat}

/-- Whole cells are the first of them and the rest. -/
theorem exists_ofBytes_eq_cons (h : bytes.length = (count + 1) * size) :
    ∃ first rest, bytes = first ++ rest ∧ first.length = size ∧ rest.length = count * size ∧
      ofBytes bytes = UInt32.ofNat (ofBigEndian first) :: ofBytes rest := by
  rw [Nat.succ_mul] at h
  have hfirst : (bytes.take size).length = size := by rw [List.length_take]; omega
  refine ⟨bytes.take size, bytes.drop size, (List.take_append_drop _ _).symm, hfirst, ?_, ?_⟩
  · rw [List.length_drop, h, Nat.add_sub_cancel]
  · rw [← ofBytes_append hfirst, List.take_append_drop]

theorem length_ofBytes (h : bytes.length = count * size) : (ofBytes bytes).length = count := by
  induction count generalizing bytes with
  | zero =>
    obtain rfl := List.eq_nil_of_length_eq_zero (h.trans (Nat.zero_mul _))
    rfl
  | succ count ih =>
    obtain ⟨first, rest, -, -, hrest, hcells⟩ := exists_ofBytes_eq_cons h
    rw [hcells, List.length_cons, ih hrest]

/-- Joined cells are the number that their bytes spell. -/
theorem join_ofBytes (h : bytes.length = count * size) :
    join (ofBytes bytes) = ofBigEndian bytes := by
  suffices hfold : ∀ n, (ofBytes bytes).foldl (fun n cell => UInt32.size * n + cell.toNat) n =
      bytes.foldl (fun n byte => 256 * n + byte.toNat) n from hfold 0
  induction count generalizing bytes with
  | zero =>
    obtain rfl := List.eq_nil_of_length_eq_zero (h.trans (Nat.zero_mul _))
    exact fun n => rfl
  | succ count ih =>
    intro n
    obtain ⟨first, rest, rfl, hfirst, hrest, hcells⟩ := exists_ofBytes_eq_cons h
    have hlt := ofBigEndian_lt first
    rw [hfirst] at hlt
    rw [hcells, List.foldl_cons, ih hrest, List.foldl_append, foldl_bigEndian n first, hfirst,
      UInt32.toNat_ofNat_of_lt' hlt]
    rfl

end Cell

end DeviceTree

import Mathlib.Algebra.Group.Nat.Defs
import DeviceTree.Encoding.BigEndian
import DeviceTree.Encoding.Text

/-!
# Encodings that read back

Numbers, cells and text come back from the bytes they are stored as. Text comes back from the front
of any bytes it is followed by, as long as no NUL of its own ends it early.
-/
namespace DeviceTree

theorem ofBigEndian_append (bytes : List UInt8) (byte : UInt8) :
    ofBigEndian (bytes ++ [byte]) = 256 * ofBigEndian bytes + byte.toNat := by
  simp [ofBigEndian, List.foldl_append]

/-- What `k` bytes keep of a number. -/
theorem ofBigEndian_bigEndian (k n : Nat) : ofBigEndian (bigEndian k n) = n % 256 ^ k := by
  induction k generalizing n with
  | zero => simp [bigEndian, ofBigEndian, Nat.mod_one]
  | succ k ih =>
    have hbyte : (UInt8.ofNat n).toNat = n % 256 := by simp
    rw [bigEndian, ofBigEndian_append, ih, hbyte, Nat.pow_succ', Nat.mod_mul]
    omega

namespace Cell

@[simp] theorem length_toBytes (cell : Cell) : cell.toBytes.length = size :=
  length_bigEndian 4 cell.toNat

theorem ofNat_ofBigEndian_bigEndian {n : Nat} (h : n < UInt32.size) :
    (UInt32.ofNat (ofBigEndian (bigEndian 4 n))).toNat = n := by
  have hsize : UInt32.size = 256 ^ 4 := rfl
  rw [ofBigEndian_bigEndian, Nat.mod_eq_of_lt (hsize ▸ h), UInt32.toNat_ofNat_of_lt' h]

theorem ofBytes_append {bytes : List UInt8} (h : bytes.length = size) (rest : List UInt8) :
    ofBytes (bytes ++ rest) = UInt32.ofNat (ofBigEndian bytes) :: ofBytes rest := by
  match bytes, h with
  | [a, b, c, d], _ => rfl

theorem map_toNat_ofBytes_flatMap {words : List Nat} (h : ∀ n ∈ words, n < UInt32.size) :
    (ofBytes (words.flatMap (bigEndian 4))).map UInt32.toNat = words := by
  induction words with
  | nil => rfl
  | cons n words ih =>
    obtain ⟨hn, hrest⟩ := List.forall_mem_cons.1 h
    rw [List.flatMap_cons, ofBytes_append (length_bigEndian 4 n), List.map_cons,
      ofNat_ofBigEndian_bigEndian hn, ih hrest]

end Cell

namespace Text

@[simp] theorem length_encode (text : String) : (encode text).length = text.utf8ByteSize := by
  rw [encode, String.toUTF8_eq_toByteArray, Array.length_toList]
  exact text.size_toByteArray

@[simp] theorem length_terminated (text : String) :
    (terminated text).length = text.utf8ByteSize + 1 := by
  simp [terminated]

@[simp] theorem decode?_encode (text : String) : decode? (encode text) = some text := by
  simp only [decode?, encode, Array.toArray_toList, String.fromUTF8?,
    String.toUTF8_eq_toByteArray, dif_pos text.isValidUTF8]
  rfl

/-- Nothing is lost of bytes that were decoded. -/
theorem encode_of_decode? {bytes : List UInt8} {text : String} (h : decode? bytes = some text) :
    encode text = bytes := by
  unfold decode? String.fromUTF8? at h
  split at h
  · obtain rfl := Option.some.inj h
    rfl
  · contradiction

theorem untilNul?_append {text : List UInt8} (h : 0 ∉ text) (tail : List UInt8) :
    untilNul? (text ++ 0 :: tail) = some (text, tail) := by
  induction text with
  | nil => simp [untilNul?]
  | cons byte text ih =>
    obtain ⟨hbyte, htext⟩ := List.ne_and_not_mem_of_not_mem_cons h
    simp [untilNul?, hbyte.symm, ih htext]

theorem untilNul?_eq (bytes : List UInt8) :
    untilNul? bytes =
      (bytes.findIdx? (· = 0)).map fun n => (bytes.take n, bytes.drop (n + 1)) := by
  induction bytes with
  | nil => rfl
  | cons byte bytes ih =>
    rw [untilNul?, List.findIdx?_cons, ih]
    by_cases hbyte : byte = 0
    · simp [hbyte]
    · simp [hbyte, Option.map_map, Function.comp_def]

/-- Terminated text is found and decoded, whatever follows it. -/
theorem decode?_untilNul?_terminated {text : String} (h : 0 ∉ encode text) (tail : List UInt8) :
    ((untilNul? (terminated text ++ tail)).bind fun (bytes, _) => decode? bytes) = some text := by
  rw [terminated, List.append_assoc, List.singleton_append, untilNul?_append h]
  simp

end Text

end DeviceTree

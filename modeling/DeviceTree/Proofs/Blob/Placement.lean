import DeviceTree.Blob.Node
import DeviceTree.Proofs.Encoding

/-!
# Bytes at an offset

`Holds offset bytes` says that the blob has `bytes` from `offset` on. Bytes that are put together
are held piece by piece, and each reader of the structure block gives back what was written where it
reads: cells, tokens, names and properties. Nothing is asked of what fills up to a cell boundary.
-/
namespace DeviceTree

theorem aligned_add {offset : Nat} (h : offset % Cell.size = 0) (length : Nat) :
    aligned (offset + length) = offset + aligned length := by
  simp only [Cell.size, aligned] at *
  omega

theorem aligned_mod (offset : Nat) : aligned offset % Cell.size = 0 :=
  Nat.mul_mod_left _ 4

theorem Token.ofCell?_toCell (token : Token) : Token.ofCell? token.toCell = some token := by
  cases token <;> decide

namespace Blob

variable {b : Blob} {offset stop : Nat} {bytes front back : List UInt8}

def Holds (b : Blob) (offset : Nat) (bytes : List UInt8) : Prop :=
  bytes <+: b.bytes.toList.drop offset

theorem holds_append_iff :
    b.Holds offset (front ++ back) ↔
      b.Holds offset front ∧ b.Holds (offset + front.length) back := by
  constructor
  · rintro ⟨rest, h⟩
    rw [List.append_assoc] at h
    refine ⟨⟨_, h⟩, rest, ?_⟩
    rw [← List.drop_drop, ← h, List.drop_left]
  · rintro ⟨⟨middle, hfront⟩, rest, hback⟩
    refine ⟨rest, ?_⟩
    rw [← List.drop_drop, ← hfront, List.drop_left] at hback
    rw [List.append_assoc, hback, hfront]

theorem Holds.length_le (h : b.Holds offset bytes) : bytes.length ≤ b.size - offset := by
  have := List.IsPrefix.length_le h
  simpa [size] using this

theorem slice_eq (b : Blob) (offset stop : Nat) :
    b.slice offset stop = (b.bytes.toList.drop offset).take (stop - offset) := by
  rw [slice, Array.toList_extract, List.extract_eq_take_drop]

theorem Holds.slice_eq (h : b.Holds offset bytes) :
    b.slice offset (offset + bytes.length) = bytes := by
  rw [Blob.slice_eq, Nat.add_sub_cancel_left]
  exact (List.prefix_iff_eq_take.1 h).symm

theorem Holds.slice_append (h : b.Holds offset bytes) (hstop : offset + bytes.length ≤ stop) :
    ∃ rest, b.slice offset stop = bytes ++ rest := by
  obtain ⟨rest, hrest⟩ := h
  refine ⟨rest.take (stop - offset - bytes.length), ?_⟩
  rw [Blob.slice_eq, ← hrest, List.take_append, List.take_of_length_le (by omega)]

theorem Holds.cellAt_eq {n : Nat} (h : b.Holds offset (bigEndian 4 n)) (hn : n < UInt32.size) :
    ∃ cell, b.cellAt offset = .ok cell ∧ cell.toNat = n := by
  have hfits := h.length_le
  have hslice := h.slice_eq
  rw [length_bigEndian] at hfits hslice
  refine ⟨_, ?_, Cell.ofNat_ofBigEndian_bigEndian hn⟩
  rw [cellAt, if_neg (by simp only [Cell.size]; omega), Cell.size, hslice]

theorem Holds.token_eq {token : Token} (h : b.Holds offset token.toCell.toBytes)
    (hstop : offset + Cell.size ≤ b.structEnd) : b.token offset = .ok token := by
  obtain ⟨cell, hcell, hword⟩ := h.cellAt_eq token.toCell.toNat_lt
  obtain rfl : cell = token.toCell := UInt32.toNat_inj.1 hword
  rw [Blob.token, if_neg (by omega), hcell]
  simp only [bind, Except.bind, Token.ofCell?_toCell]
  rfl

theorem Holds.textAt_eq {text : String} (h : b.Holds offset (Text.terminated text))
    (htext : 0 ∉ Text.encode text) (hstop : offset + (text.utf8ByteSize + 1) ≤ stop) :
    b.textAt offset stop = .ok text := by
  have hlength : offset + (Text.terminated text).length ≤ stop := by simpa using hstop
  obtain ⟨rest, hrest⟩ := h.slice_append hlength
  rw [textAt, if_neg (by omega), hrest, Text.decode?_untilNul?_terminated htext]

theorem Holds.propertyName_eq {name : String}
    (h : b.Holds (b.header.stringsOffset + offset) (Text.terminated name))
    (hname : 0 ∉ Text.encode name)
    (hstop : offset + (name.utf8ByteSize + 1) ≤ b.header.stringsSize) :
    b.propertyName offset = .ok name := by
  have hend : b.header.stringsEnd = b.header.stringsOffset + b.header.stringsSize := rfl
  rw [propertyName, if_neg (by omega)]
  exact h.textAt_eq hname (by omega)

section Node

variable {name : String} (h : b.Holds (offset + Cell.size) (Text.terminated name))
  (hname : 0 ∉ Text.encode name)
  (hstop : offset + Cell.size + (name.utf8ByteSize + 1) ≤ b.structEnd)

include h hname hstop

theorem Holds.nodeName_eq : b.nodeName offset = .ok name :=
  h.textAt_eq hname hstop

theorem Holds.contents_eq :
    b.contents offset = .ok (aligned (offset + Cell.size + name.utf8ByteSize + 1)) := by
  rw [contents, h.nodeName_eq hname hstop]
  rfl

end Node

section Property

variable {nameOffset : Nat} {name : String} {value : List UInt8}
  (h : b.Holds offset (Token.property.toCell.toBytes ++ bigEndian 4 value.length ++
    bigEndian 4 nameOffset ++ value))
  (hvalue : value.length < UInt32.size) (hoffset : nameOffset < UInt32.size)

include h hvalue hoffset

theorem Holds.propertyHeader_eq :
    b.propertyHeader offset = .ok ⟨value.length, nameOffset⟩ := by
  simp only [holds_append_iff, List.length_append, Cell.length_toBytes, length_bigEndian] at h
  obtain ⟨⟨⟨_, hlength⟩, hname⟩, _⟩ := h
  obtain ⟨length, hlength, hlengthNat⟩ := hlength.cellAt_eq hvalue
  obtain ⟨word, hword, hwordNat⟩ := hname.cellAt_eq hoffset
  rw [propertyHeader, hlength, show offset + 2 * Cell.size = offset + (Cell.size + 4) from rfl,
    hword]
  simp only [bind, Except.bind, pure, Except.pure, hlengthNat, hwordNat]

theorem Holds.afterProperty_eq
    (hstop : aligned (offset + 3 * Cell.size + value.length) ≤ b.structEnd) :
    b.afterProperty offset = .ok (aligned (offset + 3 * Cell.size + value.length)) := by
  rw [afterProperty, h.propertyHeader_eq hvalue hoffset]
  simp only [bind, Except.bind, pure, Except.pure]
  rw [if_neg (by omega)]

theorem Holds.propertyAt_eq (hname : b.propertyName nameOffset = .ok name) :
    b.propertyAt offset = .ok ⟨name, value, offset + 3 * Cell.size⟩ := by
  have hslice := (holds_append_iff.1 h).2.slice_eq
  simp only [List.length_append, Cell.length_toBytes, length_bigEndian] at hslice
  rw [propertyAt, h.propertyHeader_eq hvalue hoffset]
  simp only [bind, Except.bind, pure, Except.pure, hname]
  rw [show offset + 3 * Cell.size = offset + (Cell.size + 4 + 4) from rfl, hslice]

end Property

end Blob

end DeviceTree

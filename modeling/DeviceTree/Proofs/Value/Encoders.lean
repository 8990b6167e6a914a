import Mathlib.Data.Set.List
import DeviceTree.Proofs.Value.Numbers
import DeviceTree.Proofs.Value.Strings
import DeviceTree.Tree.Basic

/-!
# Values that are written and read

A tree in memory gets the value of a property from strings or from cells, and a reader takes such a
value apart. Each undoes the other. What is read as strings throughout was written from these
strings and from no others, and none of them has a NUL; whole cells are all of a value that has
nothing after them.
-/
namespace DeviceTree

/-- The bytes of a number are the ones that spell it. -/
theorem bigEndian_ofBigEndian (bytes : List UInt8) :
    bigEndian bytes.length (ofBigEndian bytes) = bytes := by
  induction bytes using List.reverseRecOn with
  | nil => rfl
  | append_singleton bytes byte ih =>
    have hbyte := byte.toNat_lt
    have hfront : (256 * ofBigEndian bytes + byte.toNat) / 256 = ofBigEndian bytes := by omega
    have hlast : UInt8.ofNat (256 * ofBigEndian bytes + byte.toNat) = byte := by
      apply UInt8.toNat_inj.1
      rw [UInt8.toNat_ofNat']
      omega
    rw [ofBigEndian_append, List.length_append, List.length_singleton, bigEndian, hfront, hlast, ih]

namespace Cell

variable {cells : List Cell} {bytes : List UInt8} {count : Nat}

theorem toBytes_ofNat_ofBigEndian (h : bytes.length = size) :
    toBytes (UInt32.ofNat (ofBigEndian bytes)) = bytes := by
  have hlt := ofBigEndian_lt bytes
  rw [h] at hlt
  rw [toBytes, UInt32.toNat_ofNat_of_lt' hlt]
  have hbytes := bigEndian_ofBigEndian bytes
  rwa [h] at hbytes

theorem length_flatMap_toBytes (cells : List Cell) :
    (cells.flatMap toBytes).length = cells.length * size := by
  induction cells with
  | nil => rfl
  | cons cell cells ih =>
    rw [List.flatMap_cons, List.length_append, length_toBytes, ih, List.length_cons, Nat.succ_mul,
      Nat.add_comm]

theorem ofBytes_flatMap_toBytes (cells : List Cell) : ofBytes (cells.flatMap toBytes) = cells := by
  induction cells with
  | nil => rfl
  | cons cell cells ih =>
    rw [List.flatMap_cons, ofBytes_append (length_toBytes cell), ih]
    congr 1
    exact UInt32.toNat_inj.1 (ofNat_ofBigEndian_bigEndian cell.toNat_lt)

/-- Nothing is lost of bytes that are whole cells. -/
theorem flatMap_toBytes_ofBytes (h : bytes.length = count * size) :
    (ofBytes bytes).flatMap toBytes = bytes := by
  induction count generalizing bytes with
  | zero =>
    obtain rfl := List.eq_nil_of_length_eq_zero (h.trans (Nat.zero_mul _))
    rfl
  | succ count ih =>
    obtain ⟨first, rest, rfl, hfirst, hrest, hcells⟩ := exists_ofBytes_eq_cons h
    rw [hcells, List.flatMap_cons, ih hrest, toBytes_ofNat_ofBigEndian hfirst]

end Cell

theorem Property.asCell_eq_ok_iff {p : Property} {cell : Cell} :
    p.asCell = .ok cell ↔ p.value = cell.toBytes := by
  rw [asCell]
  constructor
  · intro h
    split at h
    case isTrue hlength => rw [← Except.ok.inj h, Cell.toBytes_ofNat_ofBigEndian hlength]
    case isFalse => cases h
  · intro h
    have hlength : cell.toBytes.length = 4 := Cell.length_toBytes cell
    rw [h, if_pos hlength]
    exact congrArg Except.ok (UInt32.toNat_inj.1 (Cell.ofNat_ofBigEndian_bigEndian cell.toNat_lt))

namespace Text

variable {bytes text tail : List UInt8}

private theorem not_mem_of_untilNul? (h : untilNul? bytes = some (text, tail)) : 0 ∉ text := by
  have hcount := count_of_untilNul? h
  rw [eq_of_untilNul? h, List.count_append, List.count_cons_self] at hcount
  exact List.count_eq_zero.1 (by omega)

end Text

namespace Property

/-- A property of a tree in memory, as it is read from a blob with its value at `offset`. -/
def ofTree (p : Tree.Property) (offset : Nat) : Property :=
  ⟨p.name, p.value, offset⟩

variable {offset : Nat} {bytes : List UInt8} {texts : List String}

private theorem stringsIn_flatMap_terminated (h : ∀ text ∈ texts, 0 ∉ Text.encode text) :
    stringsIn offset (texts.flatMap Text.terminated) = texts.map .ok := by
  induction texts generalizing offset with
  | nil => exact stringsIn_nil
  | cons text texts ih =>
    obtain ⟨htext, htexts⟩ := List.forall_mem_cons.1 h
    have hcut : Text.untilNul? ((text :: texts).flatMap Text.terminated) =
        some (Text.encode text, texts.flatMap Text.terminated) := by
      rw [List.flatMap_cons, Text.terminated, List.append_assoc, List.singleton_append,
        Text.untilNul?_append htext]
    rw [stringsIn_of_some hcut, ih htexts, stringOf, Text.decode?_encode]
    rfl

/-- Strings that were all read are the ones that the bytes were written from. -/
theorem of_stringsIn_eq_map_ok (h : stringsIn offset bytes = texts.map .ok) :
    (∀ text ∈ texts, 0 ∉ Text.encode text) ∧ texts.flatMap Text.terminated = bytes := by
  induction texts generalizing offset bytes with
  | nil => exact ⟨by simp, (stringsIn_eq_nil_iff.1 h).symm⟩
  | cons text texts ih =>
    cases hcut : Text.untilNul? bytes with
    | none =>
      by_cases hbytes : bytes = []
      · rw [hbytes, stringsIn_nil] at h
        cases h
      · rw [stringsIn_of_none hcut hbytes] at h
        cases h
    | some cut =>
      obtain ⟨front, tail⟩ := cut
      rw [stringsIn_of_some hcut, List.map_cons, List.cons_eq_cons] at h
      obtain ⟨hfirst, hrest⟩ := h
      have hfront : Text.encode text = front := by
        rw [stringOf] at hfirst
        split at hfirst
        case h_1 found hdecode =>
          obtain rfl := Except.ok.inj hfirst
          exact Text.encode_of_decode? hdecode
        case h_2 => cases hfirst
      obtain ⟨hnul, htail⟩ := ih hrest
      constructor
      · rw [List.forall_mem_cons, hfront]
        exact ⟨Text.not_mem_of_untilNul? hcut, hnul⟩
      · rw [List.flatMap_cons, htail, Text.terminated, hfront, Text.eq_of_untilNul? hcut,
          List.append_assoc, List.singleton_append]

theorem strings_ofTree_eq_map_ok_iff {p : Tree.Property} :
    (ofTree p offset).strings = texts.map .ok ↔
      (∀ text ∈ texts, 0 ∉ Text.encode text) ∧ Tree.Property.ofStrings p.name texts = p := by
  obtain ⟨name, value⟩ := p
  simp only [ofTree, strings, Tree.Property.ofStrings, Tree.Property.mk.injEq, true_and]
  constructor
  · exact of_stringsIn_eq_map_ok
  · rintro ⟨hnul, rfl⟩
    exact stringsIn_flatMap_terminated hnul

end Property

namespace Cursor

variable {p : Tree.Property} {cells : List Cell} {count : Nat} {finish : Cursor}

/-- Cells are read and nothing is left if and only if the value was written from them. -/
theorem readCells_all_iff : readCells count (start p.name p.value) = .ok (cells, finish) ∧
    finish.remaining = [] ↔ Tree.Property.ofCells p.name cells = p ∧ count = cells.length ∧
      (start p.name p.value).Advanced (count * Cell.size) finish := by
  obtain ⟨name, value⟩ := p
  have hleft : (start name value).remaining = value := List.drop_zero
  simp only [reads_readCells _ _ _ _, hleft, true_and, Tree.Property.ofCells,
    Tree.Property.mk.injEq]
  constructor
  · rintro ⟨⟨rfl, hfinish⟩, hend⟩
    have hle := hfinish.le
    rw [hfinish.remaining, hleft, List.drop_eq_nil_iff] at hend
    have hlength : value.length = count * Cell.size := by
      simp only [start] at hle
      omega
    rw [List.take_of_length_le hend]
    exact ⟨Cell.flatMap_toBytes_ofBytes hlength, (Cell.length_ofBytes hlength).symm, hfinish⟩
  · rintro ⟨rfl, rfl, hfinish⟩
    have hlength := Cell.length_flatMap_toBytes cells
    rw [List.take_of_length_le (Nat.le_of_eq hlength), Cell.ofBytes_flatMap_toBytes]
    refine ⟨⟨rfl, hfinish⟩, ?_⟩
    rw [hfinish.remaining, hleft, ← hlength, List.drop_length]

private theorem exists_readCells_all (hcells : Tree.Property.ofCells p.name cells = p)
    (hcount : count = cells.length) : ∃ finish,
      readCells count (start p.name p.value) = .ok (cells, finish) ∧ finish.remaining = [] := by
  have hlength : p.value.length = count * Cell.size := by
    rw [← hcells, hcount]
    exact Cell.length_flatMap_toBytes cells
  have hfits : (start p.name p.value).position + count * Cell.size ≤
      (start p.name p.value).value.length := by simp [start, hlength]
  obtain ⟨finish, hfinish⟩ := exists_advanced hfits
  exact ⟨finish, readCells_all_iff.2 ⟨hcells, hcount, hfinish⟩⟩

end Cursor

/-- Strings without NULs and cells are read as they were written, and bytes that were all read as
strings, or as whole cells, are written again as they were. -/
theorem values_read_back :
    (∀ texts name offset, (∀ text ∈ texts, 0 ∉ Text.encode text) →
      (Property.ofTree (.ofStrings name texts) offset).strings = texts.map .ok) ∧
    (∀ p offset, (∀ item ∈ (Property.ofTree p offset).strings, ∃ text, item = .ok text) →
      ∃ texts, (Property.ofTree p offset).strings = texts.map .ok ∧
        Tree.Property.ofStrings p.name texts = p) ∧
    (∀ cells name, ∃ finish, finish.remaining = [] ∧
      Cursor.readCells cells.length (.start name (Tree.Property.ofCells name cells).value) =
        .ok (cells, finish)) ∧
    ∀ (p : Tree.Property) count, p.value.length = count * Cell.size → ∃ cells finish,
      Cursor.readCells count (.start p.name p.value) = .ok (cells, finish) ∧
        finish.remaining = [] ∧ Tree.Property.ofCells p.name cells = p := by
  refine ⟨fun texts name offset hnul => ?_, fun p offset hread => ?_, fun cells name => ?_,
    fun p count hlength => ?_⟩
  · exact Property.strings_ofTree_eq_map_ok_iff.2 ⟨hnul, rfl⟩
  · obtain ⟨texts, htexts⟩ :
        (Property.ofTree p offset).strings ∈ Set.range (List.map Except.ok) := by
      rw [Set.range_list_map]
      exact fun item hitem => (hread item hitem).imp fun _ => Eq.symm
    exact ⟨texts, htexts.symm, (Property.strings_ofTree_eq_map_ok_iff.1 htexts.symm).2⟩
  · obtain ⟨finish, hread⟩ := Cursor.exists_readCells_all (p := .ofCells name cells) rfl rfl
    exact ⟨finish, hread.2, hread.1⟩
  · have hcells : Tree.Property.ofCells p.name (Cell.ofBytes p.value) = p :=
      congrArg _ (Cell.flatMap_toBytes_ofBytes hlength)
    obtain ⟨finish, hread, hend⟩ :=
      Cursor.exists_readCells_all hcells (Cell.length_ofBytes hlength).symm
    exact ⟨_, finish, hread, hend, hcells⟩

/-- No string at all is not the same as one that is empty, a string may have characters of several
bytes, and a cell may be the largest. -/
theorem values_read_back_mixed :
    (Property.ofTree (.ofStrings "names" []) 0).strings = [] ∧
    (Property.ofTree (.ofStrings "names" ["", "é"]) 0).strings = [.ok "", .ok "é"] ∧
    (∃ texts, (Property.ofTree ⟨"names", [0, 0xc3, 0xa9, 0]⟩ 0).strings = texts.map .ok ∧
      Tree.Property.ofStrings "names" texts = ⟨"names", [0, 0xc3, 0xa9, 0]⟩) ∧
    (∃ finish : Cursor, finish.remaining = [] ∧
      Cursor.readCells 2 (.start "reg" (Tree.Property.ofCells "reg" [1, 0xffffffff]).value) =
        .ok ([1, 0xffffffff], finish)) ∧
    ∃ cells finish,
      Cursor.readCells 2 (.start "reg" [0, 0, 0, 1, 0xff, 0xff, 0xff, 0xff]) =
        .ok (cells, finish) ∧ finish.remaining = [] ∧
      Tree.Property.ofCells "reg" cells = ⟨"reg", [0, 0, 0, 1, 0xff, 0xff, 0xff, 0xff]⟩ := by
  obtain ⟨hnames, hwritten, hcells, hvalue⟩ := values_read_back
  have hread : (Property.ofTree ⟨"names", [0, 0xc3, 0xa9, 0]⟩ 0).strings = [.ok "", .ok "é"] := by
    decide +kernel
  refine ⟨hnames [] _ _ (by simp), hnames _ _ _ (by decide), ?_,
    hcells [1, 0xffffffff] "reg", ?_⟩
  · refine hwritten _ _ ?_
    rw [hread]
    simp
  · exact hvalue ⟨"reg", [0, 0, 0, 1, 0xff, 0xff, 0xff, 0xff]⟩ 2 rfl

end DeviceTree

import DeviceTree.Machine.Strings
import DeviceTree.Proofs.Machine.Basic
import DeviceTree.Proofs.Machine.Tape

/-!
# Strings one after another

A value is cut into strings at its terminators, by the list of its strings as by a cursor that skips
some and reads one. The list has one more item for a tail without a terminator, which no cursor
finds, and a cursor passes strings that are no text. A value that is one string has no other
terminator than its last byte.
-/
namespace DeviceTree

namespace Text

variable {bytes text tail : List UInt8}

theorem count_of_untilNul? (h : untilNul? bytes = some (text, tail)) :
    bytes.count 0 = tail.count 0 + 1 := by
  induction bytes generalizing text with
  | nil => cases h
  | cons byte rest ih =>
    rw [untilNul?] at h
    split at h
    case isTrue hzero =>
      obtain ⟨-, rfl⟩ := Prod.mk.inj (Option.some.inj h)
      rw [hzero, List.count_cons_self]
    case isFalse hbyte =>
      obtain ⟨⟨front, behind⟩, hrest, hsame⟩ := Option.map_eq_some_iff.1 h
      obtain ⟨-, rfl⟩ := Prod.mk.inj hsame
      rw [List.count_cons_of_ne hbyte, ih hrest]

private theorem count_eq_zero_of_untilNul? (h : untilNul? bytes = none) : bytes.count 0 = 0 := by
  rw [untilNul?_eq, Option.map_eq_none_iff, List.findIdx?_eq_none_iff] at h
  refine List.count_eq_zero.2 fun hmem => ?_
  simpa using h 0 hmem

end Text

namespace Property

variable {offset index : Nat} {bytes text tail : List UInt8} {p : Property}

theorem stringsIn_nil : stringsIn offset [] = [] := by
  rw [stringsIn]
  rfl

theorem stringsIn_of_none (h : Text.untilNul? bytes = none) (hbytes : bytes ≠ []) :
    stringsIn offset bytes = [.error ⟨.invalidString, offset⟩] := by
  rw [stringsIn]
  split
  case h_1 => rw [if_neg hbytes]
  case h_2 hcut => simp [h] at hcut

theorem stringsIn_of_some (h : Text.untilNul? bytes = some (text, tail)) :
    stringsIn offset bytes =
      stringOf offset text :: stringsIn (offset + text.length + 1) tail := by
  rw [stringsIn]
  split
  case h_1 hcut => simp [h] at hcut
  case h_2 hcut =>
    obtain ⟨rfl, rfl⟩ := Prod.mk.inj (Option.some.inj (h.symm.trans hcut))
    rfl

/-- The list has an item for each terminator, and one more at most for what is left. -/
theorem length_stringsIn_le (offset : Nat) (bytes : List UInt8) :
    (stringsIn offset bytes).length ≤ bytes.count 0 + 1 := by
  fun_induction stringsIn offset bytes with
  | case1 | case2 => simp
  | case3 offset bytes text tail hcut _ ih =>
    rw [Text.count_of_untilNul? hcut, List.length_cons]
    omega

theorem stringsIn_eq_nil_iff : stringsIn offset bytes = [] ↔ bytes = [] := by
  constructor
  · intro hnil
    by_contra hbytes
    cases hcut : Text.untilNul? bytes with
    | none => simp [stringsIn_of_none hcut hbytes] at hnil
    | some cut => simp [stringsIn_of_some hcut] at hnil
  · rintro rfl
    exact stringsIn_nil

/-- A value is one string if the list of its strings is that string alone. -/
theorem asString_eq_ok_iff {s : String} : p.asString = .ok s ↔ p.strings = [.ok s] := by
  rw [asString, strings]
  cases hcut : Text.untilNul? p.value with
  | none =>
    refine iff_of_false ok_ne_error.symm ?_
    by_cases hbytes : p.value = []
    · simp [hbytes, stringsIn_nil]
    · simp [stringsIn_of_none hcut hbytes]
  | some cut =>
    obtain ⟨text, tail⟩ := cut
    rw [stringsIn_of_some hcut, List.cons_eq_cons, stringsIn_eq_nil_iff]
    cases tail with
    | nil => simp
    | cons byte tail => exact iff_of_false ok_ne_error.symm (by simp)

/-- What a reader makes of the item at `index` of a list, in which `terminated` items have a
terminator. -/
def itemAt (items : Items String) (terminated index : Nat) : Except Error String :=
  match items[index]? with
  | some (.ok text) => .ok text
  | some (.error _) =>
    if index < terminated then .error (.device (.malformedProperty "string")) else .error .notFound
  | none => .error .notFound

end Property

namespace Cursor

open Property (stringsIn stringOf itemAt)

variable {c : Cursor} {bytes text tail : List UInt8}

private theorem exists_takeTerminated (h : Text.untilNul? c.remaining = some (text, tail)) :
    ∃ moved, takeTerminated c = .ok (text, moved) ∧ moved.remaining = tail := by
  rw [Text.untilNul?_eq] at h
  obtain ⟨length, hfound, hsame⟩ := Option.map_eq_some_iff.1 h
  obtain ⟨rfl, rfl⟩ := Prod.mk.inj hsame
  obtain ⟨moved, hmoved, htake⟩ := exists_takeTerminated_eq hfound
  exact ⟨moved, htake, hmoved.remaining⟩

private theorem takeTerminated_of_none (h : Text.untilNul? c.remaining = none) :
    takeTerminated c = .error .notFound := by
  rw [Text.untilNul?_eq, Option.map_eq_none_iff] at h
  exact takeTerminated_eq_error h

private theorem run'_takeTerminated_bind {α : Type} (next : List UInt8 → Reader α) (c : Cursor) :
    (takeTerminated >>= next).run' c =
      takeTerminated c >>= fun first => (next first.1).run' first.2 := by
  simp only [StateT.run', bind_apply, map_bind]

private theorem elementString_succ (index : Nat) :
    elementString (index + 1) = takeTerminated >>= fun _ => elementString index := by
  rw [elementString, skipStrings, bind_assoc]
  rfl

/-- To skip strings and read one is to look up an item of the list. -/
theorem elementString_eq_itemAt (c : Cursor) (offset index : Nat) :
    (elementString index).run' c =
      itemAt (stringsIn offset c.remaining) (c.remaining.count 0) index := by
  induction index generalizing c offset with
  | zero =>
    rw [elementString, skipStrings, pure_bind, readString, run'_takeTerminated_bind]
    cases hcut : Text.untilNul? c.remaining with
    | none =>
      rw [takeTerminated_of_none hcut, error_bind, itemAt, Text.count_eq_zero_of_untilNul? hcut]
      by_cases hbytes : c.remaining = []
      · rw [hbytes, Property.stringsIn_nil]
        rfl
      · rw [Property.stringsIn_of_none hcut hbytes]
        rfl
    | some cut =>
      obtain ⟨text, tail⟩ := cut
      obtain ⟨moved, htake, -⟩ := exists_takeTerminated hcut
      rw [htake, ok_bind, Property.stringsIn_of_some hcut, itemAt, Text.count_of_untilNul? hcut,
        List.getElem?_cons_zero, stringOf]
      cases Text.decode? text <;> rfl
  | succ index ih =>
    rw [elementString_succ, run'_takeTerminated_bind]
    cases hcut : Text.untilNul? c.remaining with
    | none =>
      rw [takeTerminated_of_none hcut, error_bind, itemAt]
      by_cases hbytes : c.remaining = []
      · rw [hbytes, Property.stringsIn_nil]
        rfl
      · rw [Property.stringsIn_of_none hcut hbytes]
        rfl
    | some cut =>
      obtain ⟨text, tail⟩ := cut
      obtain ⟨moved, htake, hmoved⟩ := exists_takeTerminated hcut
      rw [htake, ok_bind, ih moved (offset + text.length + 1), hmoved,
        Property.stringsIn_of_some hcut, Text.count_of_untilNul? hcut]
      simp only [itemAt, List.getElem?_cons_succ, Nat.add_lt_add_iff_right]

end Cursor

namespace Items

variable {α : Type} {accept : α → Bool} {items : Items α} {a : α} {place : Nat}

private theorem position?_cons_eq_zero_iff :
    position? accept (.ok a :: items) = .ok (some 0) ↔ accept a = true := by
  rw [position?]
  cases accept a with
  | true => simp
  | false =>
    cases position? accept items with
    | error e => simp [Except.map]
    | ok found => cases found <;> simp [Except.map]

private theorem position?_cons_eq_succ_iff :
    position? accept (.ok a :: items) = .ok (some (place + 1)) ↔
      accept a = false ∧ position? accept items = .ok (some place) := by
  rw [position?]
  cases accept a with
  | true => simp
  | false =>
    cases position? accept items with
    | error e => simp [Except.map]
    | ok found => cases found <;> simp [Except.map]

/-- The place that is found is the first one that is accepted, and all before it can be read. -/
theorem position?_eq_some_iff : items.position? accept = .ok (some place) ↔
    (∃ a, items[place]? = some (.ok a) ∧ accept a = true) ∧
      ∀ i < place, ∃ a, items[i]? = some (.ok a) ∧ accept a = false := by
  induction items generalizing place with
  | nil => simp [position?]
  | cons item items ih =>
    cases place with
    | zero =>
      cases item with
      | error e => simp [position?]
      | ok a => simp [position?_cons_eq_zero_iff]
    | succ place =>
      rw [Nat.forall_lt_succ_left]
      cases item with
      | error e => simp [position?]
      | ok a =>
        rw [position?_cons_eq_succ_iff, ih]
        simp [and_left_comm]

theorem position?_eq_none_iff : items.position? accept = .ok none ↔
    ∀ item ∈ items, ∃ a, item = .ok a ∧ accept a = false := by
  induction items with
  | nil => simp [position?]
  | cons item items ih =>
    cases item with
    | error e => simp [position?]
    | ok a =>
      rw [position?, List.forall_mem_cons, ← ih]
      cases haccept : accept a with
      | true => simp [haccept]
      | false =>
        cases position? accept items with
        | error e => simp [Except.map]
        | ok found => cases found <;> simp [Except.map, haccept]

end Items

namespace Machine

variable {p : Property} {offset : Nat} {bytes text tail : List UInt8}

/-- A value whose first terminator is its last byte has no other. -/
theorem asString_eq (p : Property) : asString p = returns p.asString := by
  obtain ⟨name, value, valueOffset⟩ := p
  rcases List.eq_nil_or_concat value with rfl | ⟨text, last, rfl⟩
  · rfl
  simp only [asString, Property.asString, List.concat_eq_append, List.getLast?_concat,
    List.dropLast_concat]
  by_cases hend : last = 0 ∧ 0 ∉ text
  · obtain ⟨rfl, htext⟩ := hend
    rw [if_neg (by simpa using htext), Text.untilNul?_append htext []]
  · rw [if_pos (by simpa [imp_iff_not_or] using hend)]
    split
    case h_1 front hcut =>
      obtain ⟨rfl, hlast⟩ := List.append_inj' (Text.eq_of_untilNul? hcut) rfl
      have hcount := Text.count_of_untilNul? hcut
      rw [hlast, List.count_append] at hcount
      refine absurd ⟨List.singleton_inj.1 hlast, List.count_eq_zero.1 ?_⟩ hend
      simpa using hcount
    case h_2 => rfl

private theorem nextString_of_none (h : Text.untilNul? bytes = none) (hbytes : bytes ≠ []) :
    nextString (bytes, offset) = pure (some (.error ⟨.invalidString, offset⟩, [], offset)) := by
  rw [Text.untilNul?_eq, Option.map_eq_none_iff] at h
  rw [nextString, if_neg hbytes, h]

private theorem nextString_of_some (h : Text.untilNul? bytes = some (text, tail))
    (hsize : offset + bytes.length < UInt64.size) : nextString (bytes, offset) =
      pure (some (Property.stringOf offset text, tail, offset + text.length + 1)) := by
  rw [Text.untilNul?_eq] at h
  obtain ⟨length, hfound, hsame⟩ := Option.map_eq_some_iff.1 h
  obtain ⟨rfl, rfl⟩ := Prod.mk.inj hsame
  have hlt : length < bytes.length := (List.findIdx?_eq_some_iff_findIdx_eq.1 hfound).1
  have hbytes : bytes ≠ [] := List.ne_nil_of_length_pos (by omega)
  have hlength : (bytes.take length).length = length := List.length_take_of_le (by omega)
  have hrest : (bytes.drop (length + 1)).take (bytes.length - (length + 1)) =
      bytes.drop (length + 1) := List.take_of_length_le (by simp)
  rw [nextString, if_neg hbytes, hfound]
  dsimp only
  rw [slice_eq (Nat.zero_le _) (Nat.le_of_lt hlt), pure_bind, add_eq (by omega), pure_bind,
    slice_eq hlt (Nat.le_refl _), pure_bind, add_eq (by omega), pure_bind, hrest, hlength,
    Nat.add_assoc, List.drop_zero, Nat.sub_zero]

/-- The list is gone through to its end, and no sum or slice on the way traps. -/
theorem yields_nextString (h : offset + bytes.length < UInt64.size) :
    Iterator.Yields ⟨nextString, some (bytes, offset)⟩
      ((Property.stringsIn offset bytes).map Except.ok) := by
  fun_induction Property.stringsIn offset bytes with
  | case1 => exact Iterator.yields_of_end rfl
  | case2 offset bytes hcut hbytes =>
    exact Iterator.yields_of_item (nextString_of_none hcut hbytes) (Iterator.yields_of_end rfl)
  | case3 offset bytes text tail hcut _ ih =>
    have hlength := congrArg List.length (Text.eq_of_untilNul? hcut)
    rw [List.length_append, List.length_cons] at hlength
    exact Iterator.yields_of_item (nextString_of_some hcut h) (ih (by omega))

theorem yields_strings (h : p.valueOffset + p.value.length < UInt64.size) :
    (strings p).Yields (p.strings.map Except.ok) :=
  yields_nextString h

end Machine

end DeviceTree

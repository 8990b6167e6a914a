import DeviceTree.Failure
import Mathlib.Data.List.Basic
import Mathlib.Logic.Function.Basic

/-!
# Messages

No two errors have the same message: what went wrong, where, and with which numbers can be told from
the text.
-/
namespace DeviceTree

namespace Text

section Digits

variable {b m n : Nat}

private theorem digitChar_inj (hm : m < 16) (hn : n < 16) (h : m.digitChar = n.digitChar) :
    m = n := by
  have hdigits : ∀ m n : Fin 16, m.val.digitChar = n.val.digitChar → m = n := by decide
  exact Fin.mk.inj (hdigits ⟨m, hm⟩ ⟨n, hn⟩ h)

private theorem toDigits_ne_singleton (c d : Char) : Nat.toDigits b n ++ [d] ≠ [c] := by
  intro h
  have hlength := congrArg List.length h
  have hpos := Nat.length_toDigits_pos (b := b) (n := n)
  rw [List.length_append, List.length_singleton, List.length_singleton] at hlength
  omega

/-- Numbers are told apart by their digits, as long as there are characters for these. -/
private theorem toDigits_inj (hb : 1 < b) (hdigits : b ≤ 16)
    (h : Nat.toDigits b m = Nat.toDigits b n) : m = n := by
  induction m using Nat.strongRecOn generalizing n with
  | _ m ih =>
    rw [Nat.toDigits_eq_if hb, @Nat.toDigits_eq_if b n hb] at h
    by_cases hm : m < b <;> by_cases hn : n < b <;> simp only [hm, hn, if_true, if_false] at h
    · exact digitChar_inj (by omega) (by omega) (List.singleton_inj.1 h)
    · exact absurd h.symm (toDigits_ne_singleton _ _)
    · exact absurd h (toDigits_ne_singleton _ _)
    · obtain ⟨hrest, hlast⟩ := List.append_inj' h rfl
      have hlt : m / b < m := Nat.div_lt_self (by omega) hb
      have hmod := digitChar_inj (Nat.lt_of_lt_of_le (Nat.mod_lt _ (by omega)) hdigits)
        (Nat.lt_of_lt_of_le (Nat.mod_lt _ (by omega)) hdigits) (List.singleton_inj.1 hlast)
      rw [← Nat.div_add_mod m b, ← Nat.div_add_mod n b, ih _ hlt hrest, hmod]

private theorem blank_notMem_toDigits (hb : 1 < b) (hdigits : b ≤ 16) (n : Nat) :
    ' ' ∉ Nat.toDigits b n := by
  have hdigit : ∀ d : Fin 16, ' ' ≠ d.val.digitChar := by decide
  induction n using Nat.strongRecOn with
  | _ n ih =>
    rw [Nat.toDigits_eq_if hb]
    split
    next hlt =>
      rw [List.mem_singleton]
      exact hdigit ⟨n, Nat.lt_of_lt_of_le hlt hdigits⟩
    next hle =>
      have hlast := hdigit ⟨n % b, Nat.lt_of_lt_of_le (Nat.mod_lt n (by omega)) hdigits⟩
      rw [List.mem_append, not_or, List.mem_singleton]
      exact ⟨ih _ (Nat.div_lt_self (by omega) hb), hlast⟩

end Digits

theorem hex_inj {m n : Nat} : hex m = hex n ↔ m = n := by
  rw [hex, hex, String.append_right_inj, String.ofList_inj]
  exact ⟨toDigits_inj (by decide) (by decide), congrArg _⟩

theorem blank_notMem_hex (n : Nat) : ' ' ∉ (hex n).toList := by
  simp [hex, blank_notMem_toDigits]

theorem toString_inj {m n : Nat} : toString m = toString n ↔ m = n := by
  rw [Nat.toString_eq_ofList_toDigits, Nat.toString_eq_ofList_toDigits, String.ofList_inj]
  exact ⟨toDigits_inj (by decide) (by decide), congrArg _⟩

theorem blank_notMem_toString (n : Nat) : ' ' ∉ (toString n).toList := by
  rw [Nat.toString_eq_ofList_toDigits, String.toList_ofList]
  exact blank_notMem_toDigits (by decide) (by decide) n

section Blanks

variable {word word' rest rest' : List Char}

/-- A text is cut at its first blank in one way only. -/
private theorem append_blank_inj (hword : ' ' ∉ word) (hword' : ' ' ∉ word')
    (h : word ++ ' ' :: rest = word' ++ ' ' :: rest') : word = word' ∧ rest = rest' := by
  obtain ⟨more, rfl, htail⟩ | ⟨more, rfl, htail⟩ := List.append_eq_append_iff.1 h
  · cases more with
    | nil => exact ⟨(List.append_nil word).symm, (List.cons.inj htail).2⟩
    | cons c more => simp_all
  · cases more with
    | nil => exact ⟨List.append_nil word', (List.cons.inj htail).2.symm⟩
    | cons c more => simp_all

private theorem blank_append_inj (hrest : ' ' ∉ rest) (hrest' : ' ' ∉ rest')
    (h : word ++ ' ' :: rest = word' ++ ' ' :: rest') : word = word' ∧ rest = rest' := by
  have hreverse := congrArg List.reverse h
  simp only [List.reverse_append, List.reverse_cons, List.append_assoc, List.singleton_append]
    at hreverse
  obtain ⟨hr, hw⟩ := append_blank_inj (by simpa using hrest) (by simpa using hrest') hreverse
  exact ⟨List.reverse_inj.1 hw, List.reverse_inj.1 hr⟩

end Blanks

end Text

theorem HeaderFault.message_injective : Function.Injective message := by
  intro a b h
  cases a <;> cases b <;> first | rfl | simp [message] at h

theorem Misuse.message_injective : Function.Injective message := by
  intro a b h
  cases a <;> cases b <;> first | rfl | simp [message] at h

theorem Limitation.message_injective : Function.Injective message := by
  intro a b h
  cases a <;> cases b <;> first | rfl | simp [message] at h

namespace ParseFault

/-- The words with which the message begins, which are those of no other fault. -/
def opening : ParseFault → String
  | invalidMagic => "invalid FDT magic number"
  | unsupportedVersion _ => "the FDT version "
  | invalidLength => "invalid FDT length"
  | invalidHeader _ => "FDT header has failed validation: "
  | badToken _ => "bad FDT token: "
  | invalidOffset => "invalid offset in FDT"
  | invalidString => "invalid string in FDT"
  | invalidPropertyLength => "invalid property length"
  | reservationsNotTerminated => "memory reservation block not terminated with a null entry"
  | invalidReservation =>
    "memory reservation block has an entry that is unaligned or has invalid size"

def detail : ParseFault → String
  | unsupportedVersion version => toString version ++ " is not supported"
  | invalidHeader fault => fault.message
  | badToken word => Text.hex word.toNat
  | _ => ""

theorem message_eq (f : ParseFault) : f.message = f.opening ++ f.detail := by
  cases f with
  | unsupportedVersion version => exact String.append_assoc
  | invalidHeader | badToken => rfl
  | _ => exact String.append_empty.symm

theorem message_injective : Function.Injective message := by
  intro f g h
  rw [message_eq, message_eq] at h
  have hchars := congrArg String.toList h
  rw [String.toList_append, String.toList_append] at hchars
  have hopening : f.opening.toList <+: g.opening.toList ∨ g.opening.toList <+: f.opening.toList :=
    List.prefix_or_prefix_of_prefix (List.prefix_append _ _) ⟨_, hchars.symm⟩
  cases f <;> cases g <;> simp [opening] at hopening
  case unsupportedVersion.unsupportedVersion v w =>
    have hversion := (String.append_left_inj _).1 ((String.append_right_inj _).1 h)
    rw [Text.toString_inj.1 hversion]
  case invalidHeader.invalidHeader f g =>
    rw [HeaderFault.message_injective ((String.append_right_inj _).1 h)]
  case badToken.badToken v w =>
    have hword := Text.hex_inj.1 ((String.append_right_inj _).1 h)
    rw [UInt32.toNat_inj.1 hword]
  all_goals rfl

end ParseFault

theorem ParseError.message_injective : Function.Injective message := by
  intro ⟨f, m⟩ ⟨g, n⟩ h
  have hchars := congrArg String.toList h
  simp only [message, String.toList_append] at hchars
  have hcut : ∀ (words digits : List Char),
      words ++ " at offset ".toList ++ digits =
        (words ++ " at offset".toList) ++ ' ' :: digits := by
    intro words digits
    rw [List.append_assoc, List.append_assoc]
    rfl
  rw [hcut, hcut] at hchars
  obtain ⟨hfault, hoffset⟩ := Text.blank_append_inj (Text.blank_notMem_toString m)
    (Text.blank_notMem_toString n) hchars
  have hf := ParseFault.message_injective (String.toList_inj.1 (List.append_cancel_right hfault))
  have hn := Text.toString_inj.1 (String.toList_inj.1 hoffset)
  rw [hf, hn]

namespace DeviceFault

/-- The words with which the message begins. Only a count of cells begins with a digit. -/
def opening : DeviceFault → String
  | parse error => error.fault.opening
  | tooManyCells cells => toString cells.toNat
  | malformedProperty _ => "malformed `"
  | uncovered _ _ => "address 0x"
  | tooManyHops => "address translation did not terminate"
  | addressOverflow => "address arithmetic overflowed"

theorem opening_prefix (f : DeviceFault) : f.opening.toList <+: f.message.toList := by
  cases f with
  | parse error =>
    refine ⟨(error.fault.detail ++ (" at offset " ++ toString error.offset)).toList, ?_⟩
    change _ = (error.fault.message ++ " at offset " ++ toString error.offset).toList
    rw [error.fault.message_eq, ← String.toList_append]
    simp only [opening, String.append_assoc]
  | tooManyCells cells => exact ⟨_, (String.toList_append).symm⟩
  | malformedProperty name =>
    refine ⟨(name ++ "` property").toList, ?_⟩
    rw [← String.toList_append, ← String.append_assoc]
    rfl
  | uncovered address length =>
    refine ⟨(String.ofList (Nat.toDigits 16 address) ++ (" (length " ++ Text.hex length ++
      ") is not covered by any ranges entry")).toList, ?_⟩
    rw [← String.toList_append]
    simp only [message, Text.hex, String.append_assoc]
    rfl
  | tooManyHops | addressOverflow => exact List.prefix_refl _

theorem message_begins_with_digit (f : DeviceFault) :
    f.message.toList.head?.any Char.isDigit ↔ ∃ cells, f = tooManyCells cells := by
  obtain ⟨rest, hrest⟩ := f.opening_prefix
  rw [← hrest, List.head?_append]
  cases f with
  | parse error =>
    obtain ⟨fault, offset⟩ := error
    cases fault <;> simp [opening, ParseFault.opening]
  | tooManyCells cells =>
    obtain ⟨c, cs, hdigits⟩ :=
      List.exists_cons_of_ne_nil (Nat.toDigits_ne_nil (n := cells.toNat) (b := 10))
    have hc : c.isDigit :=
      Nat.isDigit_of_mem_toDigits (by decide) (by decide) (hdigits ▸ List.mem_cons_self)
    simp [opening, hdigits, hc]
  | malformedProperty | uncovered | tooManyHops | addressOverflow => simp [opening]

private theorem opening_apart (fault : ParseFault) {g : DeviceFault}
    (hparse : ¬∃ error, g = parse error) (hcells : ¬∃ cells, g = tooManyCells cells) :
    ¬(fault.opening.toList <+: g.opening.toList ∨ g.opening.toList <+: fault.opening.toList) := by
  cases g with
  | parse error => exact absurd ⟨error, rfl⟩ hparse
  | tooManyCells cells => exact absurd ⟨cells, rfl⟩ hcells
  | malformedProperty | uncovered | tooManyHops | addressOverflow =>
    cases fault <;> simp [opening, ParseFault.opening]

private theorem uncovered_inj {address length address' length' : Nat}
    (h : (uncovered address length).message = (uncovered address' length').message) :
    address = address' ∧ length = length' := by
  have hchars := congrArg String.toList h
  simp only [message, String.toList_append, List.append_assoc, List.append_cancel_left_eq]
    at hchars
  obtain ⟨haddress, hrest⟩ := Text.append_blank_inj (Text.blank_notMem_hex address)
    (Text.blank_notMem_hex address') hchars
  have hlength := List.append_cancel_right (List.append_cancel_left hrest)
  exact ⟨Text.hex_inj.1 (String.toList_inj.1 haddress),
    Text.hex_inj.1 (String.toList_inj.1 hlength)⟩

theorem message_injective : Function.Injective message := by
  intro f g h
  by_cases hcells : ∃ cells, f = tooManyCells cells
  · obtain ⟨cells, rfl⟩ := hcells
    obtain ⟨cells', rfl⟩ := (message_begins_with_digit g).1
      (h ▸ (message_begins_with_digit _).2 ⟨cells, rfl⟩)
    rw [UInt32.toNat_inj.1 (Text.toString_inj.1 ((String.append_left_inj _).1 h))]
  have hcells' : ¬∃ cells, g = tooManyCells cells := fun hg =>
    hcells ((message_begins_with_digit f).1 (h ▸ (message_begins_with_digit g).2 hg))
  have hopening : f.opening.toList <+: g.opening.toList ∨ g.opening.toList <+: f.opening.toList :=
    List.prefix_or_prefix_of_prefix (h ▸ f.opening_prefix) g.opening_prefix
  by_cases hf : ∃ error, f = parse error <;> by_cases hg : ∃ error, g = parse error
  · obtain ⟨e, rfl⟩ := hf
    obtain ⟨e', rfl⟩ := hg
    rw [ParseError.message_injective h]
  · obtain ⟨e, rfl⟩ := hf
    exact absurd hopening (opening_apart e.fault hg hcells')
  · obtain ⟨e, rfl⟩ := hg
    exact absurd hopening.symm (opening_apart e.fault hf hcells)
  cases f <;> cases g <;> simp [opening] at hopening hf hg hcells hcells'
  case malformedProperty.malformedProperty name name' =>
    rw [(String.append_right_inj _).1 ((String.append_left_inj _).1 h)]
  case uncovered.uncovered address length address' length' =>
    obtain ⟨rfl, rfl⟩ := uncovered_inj h
    rfl
  all_goals rfl

end DeviceFault

namespace Error

def opening : Error → String
  | notFound => "not found"
  | outOfBounds => "property cursor advanced out of bounds"
  | invalidParameter _ => "invalid parameter: "
  | device _ => "device error: "
  | unsupported _ => "unsupported: "
  | timeout => "timed out"
  | outOfResources => "out of resources"
  | trap => "attempt to add with overflow"

theorem opening_prefix (e : Error) : e.opening.toList <+: e.message.toList := by
  cases e with
  | invalidParameter | device | unsupported => exact ⟨_, String.toList_append.symm⟩
  | _ => exact List.prefix_refl _

theorem message_injective : Function.Injective message := by
  intro e f h
  have hopening : e.opening.toList <+: f.opening.toList ∨ f.opening.toList <+: e.opening.toList :=
    List.prefix_or_prefix_of_prefix (h ▸ e.opening_prefix) f.opening_prefix
  cases e <;> cases f <;> simp [opening] at hopening
  case invalidParameter.invalidParameter m n =>
    rw [Misuse.message_injective ((String.append_right_inj _).1 h)]
  case device.device f g =>
    rw [DeviceFault.message_injective ((String.append_right_inj _).1 h)]
  case unsupported.unsupported l m =>
    rw [Limitation.message_injective ((String.append_right_inj _).1 h)]
  all_goals rfl

end Error

end DeviceTree

import DeviceTree.Proofs.Bus.Resolution
import DeviceTree.Proofs.Tree.Layout
import DeviceTree.Proofs.Value.Strings

/-!
# One list of strings in several views

The list of the strings of a value is the measure of all views. What is read at an index is the item
of the list there, a search finds the first place that has the string it looks for, and a value is
one string if its list has nothing else. The views look at different bytes before they fail: a
string that is no text fails where it is read and ends a search, but does not keep others from being
read.
-/
namespace DeviceTree

namespace Property

open Cursor (start)

variable {p : Property} {index : Nat}

/-- What a cursor reads that skips `index` strings of the value. -/
def stringAt (p : Property) (index : Nat) : Except Error String :=
  (Cursor.elementString index).run' (start p.name p.value)

/-- The outcome of reading the item of the list at `index`. An item has a terminator if there are
more terminators in the value than items before it. -/
structure ReadsItem (p : Property) (index : Nat) (outcome : Except Error String) : Prop where
  ok_iff : ∀ text, outcome = .ok text ↔ p.strings[index]? = some (.ok text)
  malformed_iff : outcome = .error (.device (.malformedProperty "string")) ↔
    (∃ e, p.strings[index]? = some (.error e)) ∧ index < p.value.count 0
  notFound_iff : outcome = .error .notFound ↔
    (∃ e, p.strings[index]? = some (.error e)) ∧ index = p.value.count 0 ∨
      p.strings[index]? = none

/-- The outcome of searching the list for `value`. -/
structure Finds (p : Property) (value : String) (outcome : Except Error Nat) : Prop where
  ok_iff : ∀ place, outcome = .ok place ↔ p.strings[place]? = some (.ok value) ∧
    ∀ i < place, ∃ other, p.strings[i]? = some (.ok other) ∧ other ≠ value
  notFound_iff : outcome = .error .notFound ↔
    ∀ item ∈ p.strings, ∃ other, item = .ok other ∧ other ≠ value

private theorem readsItem_itemAt (p : Property) (index : Nat) :
    ReadsItem p index (itemAt p.strings (p.value.count 0) index) := by
  have hlength : p.strings.length ≤ p.value.count 0 + 1 := length_stringsIn_le _ _
  rw [itemAt]
  cases hitem : p.strings[index]? with
  | none => constructor <;> simp only [hitem] <;> simp
  | some item =>
    cases item with
    | ok text => constructor <;> simp only [hitem] <;> simp
    | error e =>
      have hlt := (List.getElem?_eq_some_iff.1 hitem).1
      by_cases hterminated : index < p.value.count 0
      · have hne : index ≠ p.value.count 0 := Nat.ne_of_lt hterminated
        constructor <;> simp only [hitem] <;> simp [hterminated, hne]
      · have heq : index = p.value.count 0 := by omega
        constructor <;> simp only [hitem] <;> simp [heq]

theorem readsItem_stringAt (p : Property) (index : Nat) : ReadsItem p index (p.stringAt index) := by
  rw [stringAt, Cursor.elementString_eq_itemAt _ p.valueOffset]
  exact readsItem_itemAt p index

theorem finds_stringIndex {b : Blob} {n : Node} {name : String}
    (hp : b.property n name = .ok (some p)) (value : String) :
    Finds p value (b.stringIndex n name value) := by
  have hplace : b.stringIndex n name value =
      (liftM (p.strings.position? (· = value)) : Except Error (Option Nat)) >>= fun found =>
        found.elim (.error .notFound) .ok := by
    rw [Blob.stringIndex, hp, liftM_ok, ok_bind]
    dsimp only
    refine bind_congr fun found => ?_
    cases found <;> rfl
  have hok (place : Nat) : b.stringIndex n name value = .ok place ↔
      p.strings.position? (· = value) = .ok (some place) := by
    rw [hplace]
    cases p.strings.position? (· = value) with
    | error e => simp [liftM_error, error_bind]
    | ok found => cases found <;> simp [liftM_ok, ok_bind]
  have hnone : b.stringIndex n name value = .error .notFound ↔
      p.strings.position? (· = value) = .ok none := by
    rw [hplace]
    cases p.strings.position? (· = value) with
    | error e => simp [liftM_error, error_bind, Error.ofParse]
    | ok found => cases found <;> simp [liftM_ok, ok_bind]
  constructor
  · intro place
    rw [hok, Items.position?_eq_some_iff]
    simp
  · rw [hnone, Items.position?_eq_none_iff]
    simp

/-- The answer to whether a string is in a list, beside that to where it is. -/
inductive Decides : Except Error Bool → Except Error Nat → Prop
  | found (place : Nat) : Decides (.ok true) (.ok place)
  | missing : Decides (.ok false) (.error .notFound)
  | failed {e : Error} (other : e ≠ .notFound) : Decides (.error e) (.error e)

theorem decides_isCompatible (b : Blob) (n : Node) (value : String) :
    Decides (liftM (b.isCompatible n value)) (b.stringIndex n "compatible" value) := by
  have hfault (fault : ParseError) : Error.ofParse fault ≠ .notFound := by simp [Error.ofParse]
  rw [Blob.isCompatible, Blob.compatible, Blob.stringIndex]
  cases b.property n "compatible" with
  | error fault => exact .failed (hfault fault)
  | ok found =>
    cases found with
    | none => exact .missing
    | some p =>
      simp only [liftM_ok, ok_bind, Option.map_some, pure, Except.pure]
      cases p.strings.position? (· = value) with
      | error fault => exact .failed (hfault fault)
      | ok found =>
        cases found with
        | none => exact .missing
        | some place => exact .found place

/-- How the views of a value go together. The list of its strings is the measure of all. -/
structure ViewsAgree (p : Property) : Prop where
  readsItem : ∀ index, ReadsItem p index (p.stringAt index)
  decode_eq : ∀ index cells, (Cursor.decode .string index cells).run' (start p.name p.value) =
    (p.stringAt index).map Element.string
  finds : ∀ (b : Blob) n name value, b.property n name = .ok (some p) →
    Finds p value (b.stringIndex n name value)
  lookUp_eq : ∀ {ι : Type} (r : Registry ι) h device name, r.device? h = some device →
    r.blob.property device.node name = .ok (some p) →
    (∀ index, r.string h name index = p.stringAt index) ∧
      ∀ value, Finds p value (r.stringIndex h name value)
  asString_iff : ∀ text, p.asString = .ok text ↔ p.strings = [.ok text]
  /-- On a machine a cursor that skips strings and reads one, -/
  ends : ∀ {σ : Type} (rest : σ) cells index, p.value.length < UInt64.size → ∃ last,
    (TapeM.decode .string index cells).Ends (rest, (start p.name p.value).tape)
      ((p.stringAt index).map Element.string) last
  /-- an iterator that goes from terminator to terminator, -/
  yields : p.valueOffset + p.value.length < UInt64.size →
    (Machine.strings p).Yields (p.strings.map .ok)
  /-- and a look at the last byte find the same. -/
  asString_eq : Machine.asString p = Machine.returns p.asString

theorem viewsAgree (p : Property) : p.ViewsAgree where
  readsItem := p.readsItem_stringAt
  decode_eq index cells := by
    simp only [Cursor.decode, stringAt, StateT.run', Cursor.bind_apply]
    cases Cursor.elementString index (start p.name p.value) <;> rfl
  finds b n name value hp := finds_stringIndex hp value
  lookUp_eq r h device name hdevice hp := by
    have hlive := Registry.device_eq_ok_iff.2 hdevice
    constructor
    · intro index
      rw [Registry.string, Registry.readProperty, Registry.property, hlive, ok_bind, hp]
      rfl
    · intro value
      rw [Registry.stringIndex, hlive, ok_bind]
      exact finds_stringIndex hp value
  asString_iff text := asString_eq_ok_iff
  ends rest cells index hvalue := by
    have hends := (TapeM.attempts_decode .string index cells rest (start p.name p.value) hvalue).2
    have houtcome : ((start p.name p.value).attempt (Cursor.decode .string index cells)).1 =
        (p.stringAt index).map Element.string := by
      simp only [Cursor.attempt, Cursor.decode, stringAt, StateT.run', Cursor.bind_apply]
      cases Cursor.elementString index (start p.name p.value) <;> rfl
    rw [houtcome] at hends
    exact ⟨_, hends⟩
  yields := Machine.yields_strings
  asString_eq := Machine.asString_eq p

end Property

/-- All views of the strings of a value agree, and a node is compatible with what is found in its
list, is not with what is not found there, and fails to say so where the search fails. -/
theorem strings_agree {ι : Type} : (∀ p : Property, p.ViewsAgree) ∧
    (∀ (b : Blob) n value,
      Property.Decides (liftM (b.isCompatible n value)) (b.stringIndex n "compatible" value)) ∧
    ∀ (r : Registry ι) h value,
      Property.Decides (r.isCompatible h value) (r.stringIndex h "compatible" value) := by
  refine ⟨Property.viewsAgree, Property.decides_isCompatible, fun r h value => ?_⟩
  rw [Registry.isCompatible, Registry.stringIndex]
  cases hdevice : r.device h with
  | error e =>
    have hne : r.device h ≠ .error .notFound := Registry.device_ne_error (by simp)
    refine .failed fun heq => hne ?_
    rw [hdevice, heq]
  | ok device => exact Property.decides_isCompatible r.blob device.node value

/-- The root has a list of an empty string, bytes that are no text, a string and a tail without a
terminator. -/
def Tree.mixedNames : Tree where
  root := { name := "", properties := [⟨"compatible", [0, 0xff, 0, 97, 0, 98]⟩] }

/-- Each string can be read, and none after the bytes that are no text can be found. -/
theorem strings_agree_mixedNames : ∃ r : Registry Unit,
    Registry.ofBlob Tree.mixedNames.blob = .ok r ∧
      r.string Registry.rootHandle "compatible" 0 = .ok "" ∧
      r.string Registry.rootHandle "compatible" 1 =
        .error (.device (.malformedProperty "string")) ∧
      r.string Registry.rootHandle "compatible" 2 = .ok "a" ∧
      (∀ index, 3 ≤ index →
        r.string Registry.rootHandle "compatible" index = .error .notFound) ∧
      r.stringIndex Registry.rootHandle "compatible" "" = .ok 0 ∧
      r.isCompatible Registry.rootHandle "" = .ok true ∧
      ∃ e, e ≠ .notFound ∧ r.stringIndex Registry.rootHandle "compatible" "a" = .error e ∧
        r.isCompatible Registry.rootHandle "a" = .error e := by
  obtain ⟨r, hr, hknown⟩ := exists_of_any (x := Registry.ofBlob (ι := Unit) Tree.mixedNames.blob)
    (p := fun r => (r.device? Registry.rootHandle).any fun device =>
      (r.blob.property device.node "compatible").toOption.any
        (· = some ⟨"compatible", [0, 0xff, 0, 97, 0, 98], 76⟩)) (by decide +kernel)
  obtain ⟨device, hdevice, hread⟩ := (Option.any_eq_true _ _).1 hknown
  generalize hp : (⟨"compatible", [0, 0xff, 0, 97, 0, 98], 76⟩ : Property) = p at hread
  have hitems : p.strings = [.ok "", .error ⟨.invalidString, 77⟩, .ok "a",
      .error ⟨.invalidString, 81⟩] := by
    rw [← hp]
    decide +kernel
  have hcount : p.value.count 0 = 3 := by
    rw [← hp]
    decide
  obtain ⟨hviews, -, hcompatible⟩ := @strings_agree Unit
  obtain ⟨hstring, hfinds⟩ :=
    (hviews p).lookUp_eq r _ device "compatible" hdevice (eq_ok_of_any hread)
  have hitem (index : Nat) := hstring index ▸ (hviews p).readsItem index
  have hfirst : r.stringIndex Registry.rootHandle "compatible" "" = .ok 0 := by
    rw [(hfinds "").ok_iff, hitems]
    simp
  refine ⟨r, hr, ?_, ?_, ?_, fun index hindex => ?_, hfirst, ?_, ?_⟩
  · rw [(hitem 0).ok_iff, hitems]
    rfl
  · rw [(hitem 1).malformed_iff, hitems, hcount]
    exact ⟨⟨_, rfl⟩, by decide⟩
  · rw [(hitem 2).ok_iff, hitems]
    rfl
  · rw [(hitem index).notFound_iff, hitems, hcount]
    obtain rfl | hindex := hindex.eq_or_lt
    · exact .inl ⟨⟨_, rfl⟩, rfl⟩
    · exact .inr (List.getElem?_eq_none hindex)
  · have hdecides := hcompatible r Registry.rootHandle ""
    generalize r.isCompatible Registry.rootHandle "" = answer at hdecides
    rw [hfirst] at hdecides
    cases hdecides
    rfl
  · have hdecides := hcompatible r Registry.rootHandle "a"
    generalize r.isCompatible Registry.rootHandle "a" = answer at hdecides
    cases hplace : r.stringIndex Registry.rootHandle "compatible" "a" with
    | ok place =>
      obtain ⟨hthere, hbefore⟩ := ((hfinds "a").ok_iff place).1 hplace
      rw [hitems] at hthere hbefore
      by_cases hfar : 1 < place
      · simpa using hbefore 1 hfar
      · obtain rfl | rfl : place = 0 ∨ place = 1 := by omega
        · simp at hthere
        · simp at hthere
    | error e =>
      rw [hplace] at hdecides
      cases hdecides with
      | missing =>
        have hall := (hfinds "a").notFound_iff.1 hplace
        simp [hitems] at hall
      | failed hother => exact ⟨e, hother, rfl, rfl⟩

end DeviceTree

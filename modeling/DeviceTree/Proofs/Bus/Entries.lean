import DeviceTree.Bus.Entry
import DeviceTree.Proofs.Value.Cursor

/-!
# Where entries and their kinds stand

An entry can be read if the cursor stands between entries, the entry lies in the value as a whole,
and its counts are ones that are decoded. It is then told by its place alone, counted from the start
of the property, and so is the kind of memory that the node gives to it: the triple at this place,
if the property holds whole triples, its type is known and all bits of its attributes are.
-/
namespace DeviceTree

variable {cells : Cells} {c moved : Cursor} {index width place : Nat}

/-- What is read of an entry: its place, the stretch to be resolved, what is answered if that leads
to a location, and how far on the cursor is left. -/
structure Entry (α : Type) where
  place : Nat
  address : Nat
  length : Nat
  value : Location → α
  count : Nat

namespace RangeEntry

/-- The entry that stands at the front of `bytes`: a child address, a parent address and a size. -/
def ofBytes (cells : Cells) (bytes : List UInt8) : RangeEntry :=
  let parentSide := bytes.drop (cells.childAddress.toNat * Cell.size)
  { childBase := Cell.number cells.childAddress.toNat bytes
    parentBase := Cell.number cells.address.toNat parentSide
    size := Cell.number cells.childSize.toNat (parentSide.drop (cells.address.toNat * Cell.size)) }

end RangeEntry

namespace Entry

def ofReg (cells : Cells) (index place base length : Nat) : Entry Window where
  place
  address := base
  length
  value := fun l => { base, length, resolvedBase := l.address, bus := l.bus }
  count := index * cells.regWidth * Cell.size + cells.regWidth * Cell.size

def ofRanges (cells : Cells) (index place : Nat) (entry : RangeEntry) : Entry AddressRange where
  place
  address := entry.parentBase
  length := entry.size
  value := fun l => { childBase := entry.childBase, parentBase := entry.parentBase
                      length := entry.size, resolvedParentBase := l.address, bus := l.bus }
  count := index * cells.rangeWidth * Cell.size + cells.rangeWidth * Cell.size

end Entry

theorem Cell.toNat_pos {cell : Cell} (h : cell ≠ 0) : 0 < cell.toNat :=
  Nat.pos_of_ne_zero fun hzero => h (UInt32.toNat_inj.1 hzero)

namespace Cursor

/-- The cursor stands between entries of `width` cells, and the `index`-th one from there lies in
the value. -/
structure HasEntry (c : Cursor) (width index : Nat) : Prop where
  aligned : c.position % (width * Cell.size) = 0
  le : c.position + (index * width * Cell.size + width * Cell.size) ≤ c.value.length

instance : Decidable (c.HasEntry width index) :=
  decidable_of_iff (_ ∧ _) ⟨fun h => ⟨h.1, h.2⟩, fun h => ⟨h.1, h.2⟩⟩

def placeOf (c : Cursor) (width index : Nat) : Nat :=
  c.position / (width * Cell.size) + index

def fromEntry (c : Cursor) (width index : Nat) : List UInt8 :=
  c.remaining.drop (index * width * Cell.size)

/-- The counts of `reg` entries are decoded, and addresses have cells. -/
def DecodesReg (cells : Cells) : Prop :=
  cells.address ≠ 0 ∧ cells.address.toNat ≤ maximumCells ∧ cells.size.toNat ≤ maximumCells

instance : Decidable (DecodesReg cells) :=
  inferInstanceAs (Decidable (_ ∧ _))

/-- The `index`-th `reg` entry from the cursor on. -/
def regAt? (cells : Cells) (c : Cursor) (index : Nat) : Option (Entry Window) :=
  if DecodesReg cells ∧ c.HasEntry cells.regWidth index then
    let bytes := c.fromEntry cells.regWidth index
    some (.ofReg cells index (c.placeOf cells.regWidth index)
      (Cell.number cells.address.toNat bytes)
      (Cell.number cells.size.toNat (bytes.drop (cells.address.toNat * Cell.size))))
  else none

/-- The counts of `ranges` entries are decoded, and addresses on both sides have cells. -/
def DecodesRanges (cells : Cells) : Prop :=
  (cells.childAddress ≠ 0 ∧ cells.address ≠ 0) ∧ cells.childAddress.toNat ≤ maximumCells ∧
    cells.address.toNat ≤ maximumCells ∧ cells.childSize.toNat ≤ maximumCells

instance : Decidable (DecodesRanges cells) :=
  inferInstanceAs (Decidable (_ ∧ _))

/-- The `index`-th `ranges` entry from the cursor on. -/
def rangesAt? (cells : Cells) (c : Cursor) (index : Nat) : Option (Entry AddressRange) :=
  if DecodesRanges cells ∧ c.HasEntry cells.rangeWidth index then
    some (.ofRanges cells index (c.placeOf cells.rangeWidth index)
      (.ofBytes cells (c.fromEntry cells.rangeWidth index)))
  else none

theorem seekEntry_eq {width : Nat} (hwidth : width ≠ 0) : seekEntry index width c =
    if c.position % (width * Cell.size) ≠ 0 then .error (.invalidParameter .offEntryBoundary)
    else (do
      let (_, moved) ← skipElements index width c
      return (moved.position / (width * Cell.size), moved)) := by
  rw [seekEntry, if_neg hwidth]
  simp only [bind, StateT.bind, get, getThe, MonadStateOf.get, StateT.get, pure, Except.pure,
    Except.bind]
  split
  · rfl
  · rfl

theorem seekEntry_eq_ok_iff (hwidth : width ≠ 0) : seekEntry index width c = .ok (place, moved) ↔
    c.position % (width * Cell.size) = 0 ∧ place = c.placeOf width index ∧
      c.Advanced (index * width * Cell.size) moved := by
  have hpos : 0 < width * Cell.size := Nat.mul_pos (Nat.pos_of_ne_zero hwidth) (by decide)
  have hplace : c.Advanced (index * width * Cell.size) moved →
      moved.position / (width * Cell.size) = c.placeOf width index := by
    intro hmoved
    rw [hmoved.position, placeOf, Nat.mul_assoc, Nat.add_mul_div_right _ _ hpos]
  have hskips := reads_skipElements index width c ()
  simp only [true_and] at hskips
  rw [seekEntry_eq hwidth]
  split
  case isTrue hoff => exact ⟨nofun, fun h => absurd h.1 hoff⟩
  case isFalse haligned =>
    rw [bind_eq_ok_iff]
    constructor
    · rintro ⟨⟨_, skipped⟩, hskip, h⟩
      obtain ⟨rfl, rfl⟩ := Prod.mk.inj (Except.ok.inj h)
      have hmoved := (hskips _).1 hskip
      exact ⟨Decidable.not_not.1 haligned, hplace hmoved, hmoved⟩
    · rintro ⟨-, rfl, hmoved⟩
      refine ⟨((), moved), (hskips _).2 hmoved, ?_⟩
      rw [← hplace hmoved]
      rfl

theorem seekEntry_bind_eq_ok_iff {α : Type} {next : Nat → Reader α} {allowed : Prop}
    {value : Nat → List UInt8 → α} {a : α}
    (hnext : ∀ place, Reads (next place) allowed (value place) (width * Cell.size))
    (hwidth : allowed → width ≠ 0) :
    (seekEntry index width >>= next) c = .ok (a, moved) ↔
      (allowed ∧ c.HasEntry width index) ∧
      a = value (c.placeOf width index) (c.fromEntry width index) ∧
      c.Advanced (index * width * Cell.size + width * Cell.size) moved := by
  constructor
  · intro h
    obtain ⟨⟨place, first⟩, hseek, h⟩ := bind_eq_ok_iff.1 h
    obtain ⟨hallowed, rfl, hlast⟩ := (hnext _ _ _ _).1 h
    obtain ⟨haligned, rfl, hfirst⟩ := (seekEntry_eq_ok_iff (hwidth hallowed)).1 hseek
    have hmoved := hfirst.trans hlast
    rw [hfirst.remaining]
    exact ⟨⟨hallowed, haligned, hmoved.le⟩, rfl, hmoved⟩
  · rintro ⟨⟨hallowed, haligned, -⟩, rfl, hmoved⟩
    obtain ⟨first, hfirst, hlast⟩ := advanced_add_iff.1 hmoved
    have hseek := (seekEntry_eq_ok_iff (hwidth hallowed)).2 ⟨haligned, rfl, hfirst⟩
    refine bind_eq_ok_iff.2 ⟨_, hseek, (hnext _ _ _ _).2 ⟨hallowed, ?_, hlast⟩⟩
    rw [hfirst.remaining]
    rfl

theorem DecodesReg.regWidth_ne_zero (h : DecodesReg cells) : cells.regWidth ≠ 0 := by
  have hpos := Cell.toNat_pos h.1
  simp only [Cells.regWidth]
  omega

theorem reads_reg (cells : Cells) (place : Nat) :
    Reads (do
        let base ← readAddress 0 cells.address
        let length ← readElement 0 cells.size.toNat
        return (place, base, length))
      (DecodesReg cells)
      (fun bytes => (place, Cell.number cells.address.toNat bytes,
        Cell.number cells.size.toNat (bytes.drop (cells.address.toNat * Cell.size))))
      (cells.regWidth * Cell.size) := by
  refine ((reads_readAddress cells.address).bind fun base =>
    (reads_readElement cells.size.toNat).map fun length => (place, base, length)).congr
      and_assoc (fun _ => rfl) fun h => ?_
  rw [Cells.regWidth, Nat.add_mul]

theorem readRegEntry_eq_ok_iff {base length : Nat} :
    readRegEntry index cells c = .ok ((place, base, length), moved) ↔
      c.Advanced (index * cells.regWidth * Cell.size + cells.regWidth * Cell.size) moved ∧
      regAt? cells c index = some (.ofReg cells index place base length) := by
  rw [readRegEntry, seekEntry_bind_eq_ok_iff (reads_reg cells) DecodesReg.regWidth_ne_zero]
  constructor
  · rintro ⟨hcond, hread, hmoved⟩
    cases hread
    exact ⟨hmoved, if_pos hcond⟩
  · rintro ⟨hmoved, h⟩
    rw [regAt?] at h
    split at h
    case isTrue hcond =>
      cases h
      exact ⟨hcond, rfl, hmoved⟩
    case isFalse => cases h

theorem regAt?_eq_none {e : Error} (hread : readRegEntry index cells c = .error e) :
    regAt? cells c index = none := by
  rw [regAt?, if_neg]
  intro hcond
  obtain ⟨moved, hmoved⟩ := exists_advanced hcond.2.le
  have hentry : regAt? cells c index = some _ := if_pos hcond
  simp [readRegEntry_eq_ok_iff.2 ⟨hmoved, hentry⟩] at hread

theorem DecodesRanges.rangeWidth_ne_zero (h : DecodesRanges cells) : cells.rangeWidth ≠ 0 := by
  have hpos := Cell.toNat_pos h.1.1
  simp only [Cells.rangeWidth]
  omega

theorem reads_ranges (cells : Cells) (place : Nat) :
    Reads (do
        let childBase ← readAddress 0 cells.childAddress
        let parentBase ← readAddress 0 cells.address
        let size ← readElement 0 cells.childSize.toNat
        return (place, ({ childBase, parentBase, size } : RangeEntry)))
      (DecodesRanges cells) (fun bytes => (place, .ofBytes cells bytes))
      (cells.rangeWidth * Cell.size) := by
  refine ((reads_readAddress cells.childAddress).bind fun childBase =>
    (reads_readAddress cells.address).bind fun parentBase =>
      (reads_readElement cells.childSize.toNat).map fun size =>
        (place, ({ childBase, parentBase, size } : RangeEntry))).congr ?_ (fun _ => rfl) fun h => ?_
  · simp only [DecodesRanges, and_assoc, and_left_comm]
  · rw [Cells.rangeWidth, Nat.add_mul, Nat.add_mul, Nat.add_assoc]

theorem readRangesEntry_eq_ok_iff {entry : RangeEntry} :
    readRangesEntry index cells c = .ok ((place, entry), moved) ↔
      c.Advanced (index * cells.rangeWidth * Cell.size + cells.rangeWidth * Cell.size) moved ∧
      entry = .ofBytes cells (c.fromEntry cells.rangeWidth index) ∧
      rangesAt? cells c index = some (.ofRanges cells index place entry) := by
  rw [readRangesEntry,
    seekEntry_bind_eq_ok_iff (reads_ranges cells) DecodesRanges.rangeWidth_ne_zero]
  constructor
  · rintro ⟨hcond, hread, hmoved⟩
    cases hread
    exact ⟨hmoved, rfl, if_pos hcond⟩
  · rintro ⟨hmoved, rfl, h⟩
    rw [rangesAt?] at h
    split at h
    case isTrue hcond =>
      cases h
      exact ⟨hcond, rfl, hmoved⟩
    case isFalse => cases h

theorem rangesAt?_eq_none {e : Error} (hread : readRangesEntry index cells c = .error e) :
    rangesAt? cells c index = none := by
  rw [rangesAt?, if_neg]
  intro hcond
  obtain ⟨moved, hmoved⟩ := exists_advanced hcond.2.le
  have hentry : rangesAt? cells c index = some _ := if_pos hcond
  simp [readRangesEntry_eq_ok_iff.2 ⟨hmoved, rfl, hentry⟩] at hread

end Cursor

/-- What the node says of the kind of its entry at `place`: nothing, and then it is uncached device
memory, or a triple of known meaning in a property of whole triples. -/
inductive Blob.HasKind (b : Blob) (n : Node) (name : String) (place : Nat) :
    MemoryType → MemoryAttributes → Prop
  | absent (missing : b.property n name = .ok none) :
    HasKind b n name place .memoryMappedIO .uncached
  | triple {p : Property} {type : MemoryType} {attributes : MemoryAttributes}
    (found : b.property n name = .ok (some p))
    (whole : p.value.length % (kindWidth * Cell.size) = 0)
    (inside : place * kindWidth * Cell.size + kindWidth * Cell.size ≤ p.value.length)
    (tag : type.tag =
      UInt32.ofNat (Cell.number 1 (p.value.drop (place * kindWidth * Cell.size))))
    (bits : attributes.bits =
      UInt64.ofNat (Cell.number 2 (p.value.drop (place * kindWidth * Cell.size + Cell.size))))
    (known : attributes.bits &&& MemoryAttributes.knownBits = attributes.bits) :
    HasKind b n name place type attributes

theorem MemoryType.ofTag_eq_ok_iff {tag : UInt32} {type : MemoryType} :
    ofTag tag = .ok type ↔ type.tag = tag := by
  constructor
  · intro h
    rw [ofTag] at h
    split at h
    case h_1 found hfound =>
      obtain rfl := Except.ok.inj h
      simpa using List.find?_some hfound
    case h_2 => cases h
  · rintro rfl
    cases type <;> rfl

theorem MemoryAttributes.ofBits?_eq_some_iff {bits : UInt64} {attributes : MemoryAttributes} :
    ofBits? bits = some attributes ↔
      attributes.bits = bits ∧ attributes.bits &&& knownBits = attributes.bits := by
  obtain ⟨mine⟩ := attributes
  rw [ofBits?]
  constructor
  · intro h
    split at h
    · obtain rfl := (MemoryAttributes.mk.inj (Option.some.inj h))
      exact ⟨rfl, by assumption⟩
    · cases h
  · rintro ⟨rfl, hknown⟩
    exact if_pos hknown

private theorem reads_readKind (place : Nat) :
    Cursor.Reads (readKind place) True
      (fun bytes => (UInt32.ofNat (Cell.number 1 (bytes.drop (place * kindWidth * Cell.size))),
        UInt64.ofNat (Cell.number 2 (bytes.drop (place * kindWidth * Cell.size + Cell.size)))))
      (place * kindWidth * Cell.size + kindWidth * Cell.size) :=
  ((Cursor.reads_skipElements place kindWidth).bind fun _ => Cursor.reads_readU32.bind fun tag =>
    Cursor.reads_readU64.map fun bits => (tag, bits)).congr (by simp only [true_and])
      (fun bytes => by rw [List.drop_drop]) fun _ => rfl

theorem Blob.memoryKind_eq_ok_iff {b : Blob} {n : Node} {name : String} {type : MemoryType}
    {attributes : MemoryAttributes} :
    b.memoryKind n name place = .ok (type, attributes) ↔
      b.HasKind n name place type attributes := by
  rw [memoryKind, bind_eq_ok_iff]
  constructor
  · rintro ⟨found, hfound, h⟩
    rw [liftM_eq_ok_iff] at hfound
    cases found with
    | none =>
      cases h
      exact .absent hfound
    | some p =>
      dsimp only at h
      split at h
      case isTrue => cases h
      case isFalse hwhole =>
        split at h
        case h_1 => cases h
        case h_2 tag bits hread =>
          obtain ⟨moved, hread⟩ := Cursor.run'_eq_ok_iff.1 hread
          obtain ⟨-, hread, hmoved⟩ := (reads_readKind place _ _ _).1 hread
          obtain ⟨htag, hbits⟩ := Prod.mk.inj hread
          obtain ⟨found, htype, h⟩ := bind_eq_ok_iff.1 h
          split at h
          case h_1 attributes hattributes =>
            cases h
            obtain ⟨rfl, hknown⟩ := MemoryAttributes.ofBits?_eq_some_iff.1 hattributes
            refine .triple hfound (Decidable.not_not.1 hwhole) ?_
              ((MemoryType.ofTag_eq_ok_iff.1 htype).trans htag) hbits hknown
            simpa [Cursor.start] using hmoved.le
          case h_2 => cases h
  · intro h
    cases h with
    | absent missing => exact ⟨none, liftM_eq_ok_iff.2 missing, rfl⟩
    | @triple p type attributes found whole inside tag bits known =>
      refine ⟨some p, liftM_eq_ok_iff.2 found, ?_⟩
      dsimp only
      have hle : (Cursor.start name p.value).position +
          (place * kindWidth * Cell.size + kindWidth * Cell.size) ≤
            (Cursor.start name p.value).value.length := by
        simpa [Cursor.start] using inside
      obtain ⟨moved, hmoved⟩ := Cursor.exists_advanced hle
      have hkind := (reads_readKind place (.start name p.value) (type.tag, attributes.bits) moved).2
        ⟨trivial, Prod.ext tag bits, hmoved⟩
      have hread := Cursor.run'_eq_ok_iff.2 ⟨moved, hkind⟩
      have hattributes := MemoryAttributes.ofBits?_eq_some_iff.2 ⟨rfl, known⟩
      rw [if_neg (Decidable.not_not.2 whole), hread]
      simp only [MemoryType.ofTag_eq_ok_iff.2 rfl, ok_bind, hattributes]
      rfl

end DeviceTree

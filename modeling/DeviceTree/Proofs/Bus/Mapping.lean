import DeviceTree.Machine.Mapping
import DeviceTree.Proofs.Bus.Ranges
import DeviceTree.Proofs.Machine.Tape

/-!
# Mapping by the first entry that covers a stretch

All entries of `ranges` are read, and the first one that covers the stretch maps it. This is said of
natural numbers: an entry may end beyond the last address. A machine reads no entry after that one,
and cannot compare the ends of stretches; what it compares are offsets, which are never larger than
the numbers it has read.
-/
namespace DeviceTree

variable {σ ι α : Type} {cells : Cells} {c moved : Cursor} {entry : RangeEntry}
  {entries : List RangeEntry} {value : List UInt8} {address length mapped count : Nat}

/-- The address that a stretch is mapped to, if the stretch fits there. -/
def landing (cells : Cells) (length mapped : Nat) : Except Error Nat := do
  if addressLimit ≤ mapped then throw (.device .addressOverflow)
  checkEnd mapped length cells.address
  return mapped

/-- What a map does once its entries are known. -/
def mapAmong (cells : Cells) (address length : Nat) (entries : List RangeEntry) :
    Except Error Nat :=
  match entries.find? (·.covers address length) with
  | some entry => landing cells length (entry.map address)
  | none => throw (.device (.uncovered address length))

theorem mapThrough_eq_bind : mapThrough cells value address length =
    rangeEntries cells value >>= mapAmong cells address length :=
  rfl

private theorem exists_readRangeEntries_eq (hcells : cells.Decodable)
    (hfits : c.position + count * (cells.rangeWidth * Cell.size) ≤ c.value.length) :
    ∃ entries moved, readRangeEntries cells count c = .ok (entries, moved) := by
  induction count generalizing c with
  | zero => exact ⟨[], c, rfl⟩
  | succ count ih =>
    rw [Nat.succ_mul] at hfits
    obtain ⟨moved, hmoved⟩ := Cursor.exists_advanced
      (show c.position + cells.rangeWidth * Cell.size ≤ c.value.length by omega)
    have hread := (reads_readRangeEntry cells c _ moved).2
      ⟨⟨hcells.childAddress, hcells.address, hcells.childSize⟩, rfl, hmoved⟩
    obtain ⟨entries, last, hrest⟩ := ih (c := moved) (by
      rw [hmoved.position, hmoved.value]
      omega)
    exact ⟨_, last, bind_eq_ok_iff.2 ⟨_, hread, bind_eq_ok_iff.2 ⟨_, hrest, rfl⟩⟩⟩

/-- The value holds whole entries with addresses on both sides. -/
structure WholeRanges (cells : Cells) (value : List UInt8) : Prop where
  childAddress : cells.childAddress ≠ 0
  address : cells.address ≠ 0
  length_mod : value.length % (cells.rangeWidth * Cell.size) = 0

theorem wholeRanges_iff : WholeRanges cells value ↔ ¬(cells.childAddress = 0 ∨
    cells.address = 0 ∨ value.length % (cells.rangeWidth * Cell.size) ≠ 0) := by
  simp only [not_or, not_not]
  exact ⟨fun h => ⟨h.1, h.2, h.3⟩, fun h => ⟨h.1, h.2.1, h.2.2⟩⟩

def entriesOf (cells : Cells) (value : List UInt8) : List RangeEntry :=
  (List.range (value.length / (cells.rangeWidth * Cell.size))).map (.nth cells value)

theorem rangeEntries_eq_of_whole (hcells : cells.Decodable) (hwhole : WholeRanges cells value) :
    rangeEntries cells value = .ok (entriesOf cells value) := by
  have hfits : (Cursor.start "" value).position + value.length / (cells.rangeWidth * Cell.size) *
      (cells.rangeWidth * Cell.size) ≤ (Cursor.start "" value).value.length := by
    simpa [Cursor.start] using Nat.div_mul_le_self _ _
  obtain ⟨entries, moved, hread⟩ := exists_readRangeEntries_eq hcells hfits
  have hentries : rangeEntries cells value = .ok entries := by
    rw [rangeEntries, if_neg (wholeRanges_iff.1 hwhole)]
    exact Cursor.run'_eq_ok_iff.2 ⟨moved, hread⟩
  rw [hentries, rangeEntries_eq_ok hentries, entriesOf]

theorem rangeEntries_eq_of_not_whole (hwhole : ¬WholeRanges cells value) :
    rangeEntries cells value = .error (.device (.malformedProperty "ranges")) := by
  rw [rangeEntries]
  dsimp only
  rw [if_pos (not_not.1 (mt wholeRanges_iff.2 hwhole))]
  rfl

/-- The first entry of `value`, in order, that covers a stretch. -/
structure RangeEntry.FirstCovering (cells : Cells) (value : List UInt8) (address length index : Nat)
    (entry : RangeEntry) : Prop where
  lt : index < value.length / (cells.rangeWidth * Cell.size)
  eq_nth : entry = .nth cells value index
  lower : entry.childBase ≤ address
  upper : address + length ≤ entry.childBase + entry.size
  before : ∀ i < index, ¬(nth cells value i).covers address length

/-- How a stretch is mapped through `value`. -/
inductive Maps (cells : Cells) (value : List UInt8) (address length : Nat) :
    Except Error Nat → Prop
  | malformed (broken : ¬WholeRanges cells value) :
    Maps cells value address length (.error (.device (.malformedProperty "ranges")))
  | mapped {index : Nat} {entry : RangeEntry} (whole : WholeRanges cells value)
    (first : entry.FirstCovering cells value address length index)
    (fits : entry.parentBase + (address - entry.childBase) + (max length 1 - 1) <
      2 ^ (32 * cells.address.toNat)) :
    Maps cells value address length (.ok (entry.parentBase + (address - entry.childBase)))
  | overflow {index : Nat} {entry : RangeEntry} (whole : WholeRanges cells value)
    (first : entry.FirstCovering cells value address length index)
    (long : 2 ^ (32 * cells.address.toNat) ≤
      entry.parentBase + (address - entry.childBase) + (max length 1 - 1)) :
    Maps cells value address length (.error (.device .addressOverflow))
  | uncovered (whole : WholeRanges cells value)
    (none : ∀ entry ∈ entriesOf cells value, ¬entry.covers address length) :
    Maps cells value address length (.error (.device (.uncovered address length)))

theorem find?_entriesOf_eq_some_iff :
    (entriesOf cells value).find? (·.covers address length) = some entry ↔
      ∃ index, entry.FirstCovering cells value address length index := by
  rw [List.find?_eq_some_iff_getElem]
  constructor
  · rintro ⟨hcovers, index, hlt, rfl, hbefore⟩
    obtain ⟨hlower, hupper⟩ := RangeEntry.covers_iff.1 hcovers
    refine ⟨index, by simpa [entriesOf] using hlt, by simp [entriesOf], hlower, hupper,
      fun i hi => ?_⟩
    simpa [entriesOf] using hbefore i hi
  · rintro ⟨index, hfirst⟩
    refine ⟨RangeEntry.covers_iff.2 ⟨hfirst.lower, hfirst.upper⟩, index,
      by simpa [entriesOf] using hfirst.lt, by simp [entriesOf, hfirst.eq_nth], fun i hi => ?_⟩
    simpa [entriesOf] using hfirst.before i hi

/-- The cap on decoded cells does not matter for counts that can be decoded. -/
theorem Registry.ends_iff {count : UInt32} (hcount : count.toNat ≤ Cursor.maximumCells) :
    Registry.Ends mapped length count ↔ mapped + (max length 1 - 1) < 2 ^ (32 * count.toNat) := by
  rw [Ends, Nat.min_eq_left hcount, Cell.limit_eq_two_pow,
    show max length 1 - 1 = length - 1 by omega]

/-- The two checks of a mapped address are one. -/
theorem landing_eq (hparent : cells.address.toNat ≤ Cursor.maximumCells) :
    landing cells length mapped =
      if mapped + (max length 1 - 1) < 2 ^ (32 * cells.address.toNat) then .ok mapped
      else .error (.device .addressOverflow) := by
  rw [landing]
  by_cases hends : Registry.Ends mapped length cells.address
  · have hlast := hends.le_addressLimit
    rw [if_neg (by omega), Registry.checkEnd_eq_ok_iff.2 hends,
      if_pos ((Registry.ends_iff hparent).1 hends)]
    rfl
  · rw [if_neg (mt (Registry.ends_iff hparent).2 hends), Registry.checkEnd_eq_error_iff.2 hends]
    split <;> rfl

theorem mapThrough_eq_of_first {index : Nat} (hcells : cells.Decodable)
    (hwhole : WholeRanges cells value)
    (hfirst : entry.FirstCovering cells value address length index) :
    mapThrough cells value address length =
      if entry.map address + (max length 1 - 1) < 2 ^ (32 * cells.address.toNat) then
        .ok (entry.map address)
      else .error (.device .addressOverflow) := by
  rw [mapThrough_eq_bind, rangeEntries_eq_of_whole hcells hwhole, ok_bind, mapAmong,
    find?_entriesOf_eq_some_iff.2 ⟨index, hfirst⟩]
  exact landing_eq hcells.address

theorem mapThrough_eq_iff (hcells : cells.Decodable) {outcome : Except Error Nat} :
    mapThrough cells value address length = outcome ↔ Maps cells value address length outcome := by
  constructor
  · rintro rfl
    by_cases hwhole : WholeRanges cells value
    · cases hfound : (entriesOf cells value).find? (·.covers address length) with
      | none =>
        rw [mapThrough_eq_bind, rangeEntries_eq_of_whole hcells hwhole, ok_bind, mapAmong, hfound]
        exact .uncovered hwhole fun entry hentry => by
          simpa using List.find?_eq_none.1 hfound entry hentry
      | some entry =>
        obtain ⟨index, hfirst⟩ := find?_entriesOf_eq_some_iff.1 hfound
        rw [mapThrough_eq_of_first hcells hwhole hfirst]
        split
        case isTrue hfits => exact .mapped hwhole hfirst hfits
        case isFalse hlong => exact .overflow hwhole hfirst (Nat.not_lt.1 hlong)
    · rw [mapThrough_eq_bind, rangeEntries_eq_of_not_whole hwhole]
      exact .malformed hwhole
  · intro h
    cases h with
    | malformed broken => rw [mapThrough_eq_bind, rangeEntries_eq_of_not_whole broken, error_bind]
    | mapped whole first fits =>
      exact (mapThrough_eq_of_first hcells whole first).trans (if_pos fits)
    | overflow whole first long =>
      exact (mapThrough_eq_of_first hcells whole first).trans (if_neg (Nat.not_lt.2 long))
    | uncovered whole none =>
      rw [mapThrough_eq_bind, rangeEntries_eq_of_whole hcells whole, ok_bind, mapAmong,
        List.find?_eq_none.2 none]
      rfl

namespace Machine

variable {m n : Nat}

theorem mul_eq (h : m * n < UInt64.size) : mul m n = pure (m * n) := by
  rw [mul, product?_eq_some h]

private theorem fitsInCells_eq (value cells : Nat) :
    fitsInCells value cells = true ↔ Cursor.maximumCells ≤ cells ∨ value < 2 ^ (32 * cells) := by
  simp [fitsInCells, Nat.shiftRight_eq_div_pow, Nat.div_eq_zero_iff]

/-- A sum that is not a word of 128 bits does not fit any number of cells. -/
theorem checkEnd_eq (address length : Nat) (count : UInt32) :
    checkEnd address length count = DeviceTree.checkEnd address length count := by
  have hle : Cell.limit (min count.toNat Cursor.maximumCells) ≤ addressLimit :=
    Cell.limit_le (Nat.min_le_right _ _)
  rw [checkEnd, DeviceTree.checkEnd]
  by_cases hsum : address + (length - 1) < addressLimit
  · have hfits : fitsInCells (address + (length - 1)) count.toNat = true ↔
        address + (length - 1) < Cell.limit (min count.toNat Cursor.maximumCells) := by
      rw [fitsInCells_eq]
      by_cases hwide : Cursor.maximumCells ≤ count.toNat
      · rw [Nat.min_eq_right hwide]
        exact iff_of_true (.inl hwide) hsum
      · rw [Nat.min_eq_left (Nat.le_of_not_le hwide), Cell.limit_eq_two_pow]
        exact or_iff_right hwide
    simp only [sum?, if_pos hsum, hfits]
  · rw [sum?, if_neg hsum, if_neg]
    exact fun hfits => hsum (hfits.trans_le hle)

end Machine

namespace TapeM

variable {s t u : σ × Tape} {turn : TapeM σ (Option α)} {outcome : Except Error α} {a : α}
  {e : Error}

private theorem ends_loop_again (hturn : Ends turn s (.ok none) t)
    (h : Ends (loop turn) t outcome u) :
    Ends (loop turn) s outcome u := by
  refine (PFun.fix_fwd_eq ?_).trans h
  rw [hturn, Part.map_some]
  exact Part.mem_some _

private theorem ends_loop_done (hturn : Ends turn s (.ok (some a)) t) :
    Ends (loop turn) s (.ok a) t := by
  refine Part.eq_some_iff.2 (PFun.fix_stop ?_)
  rw [hturn, Part.map_some]
  exact Part.mem_some _

private theorem ends_loop_error (hturn : Ends turn s (.error e) t) :
    Ends (loop turn) s (.error e) t := by
  refine Part.eq_some_iff.2 (PFun.fix_stop ?_)
  rw [hturn, Part.map_some]
  exact Part.mem_some _

theorem follows_readRangeEntry (cells : Cells) :
    Follows (readRangeEntry cells : TapeM σ RangeEntry) (DeviceTree.readRangeEntry cells) :=
  (attempts_readUint _).follows.bind fun _ => (attempts_readUint _).follows.bind fun _ =>
    (attempts_readUint _).follows.map _

private theorem ends_liftExcept (x : Except Error α) : Ends (liftM x : TapeM σ α) s x s := by
  cases x <;> rfl

private theorem ends_mapBy_of_covers (hcovers : entry.covers address length = true) :
    Ends (mapBy entry cells address length) s
      ((landing cells length (entry.map address)).map some) s := by
  obtain ⟨hlower, hupper⟩ := RangeEntry.covers_iff.1 hcovers
  rw [mapBy, Machine.difference?, if_pos hlower]
  change Ends (if entry.size < address - entry.childBase then _ else _) _ _ _
  rw [if_neg (by omega)]
  refine (ends_lift (Machine.sub_eq (by omega))).bind ?_
  rw [if_neg (by omega), landing, RangeEntry.map, Machine.sum?]
  by_cases hlimit : addressLimit ≤ entry.parentBase + (address - entry.childBase)
  · rw [if_neg (Nat.not_lt.2 hlimit), if_pos hlimit]
    exact ends_throw
  · rw [if_pos (Nat.not_le.1 hlimit), if_neg hlimit]
    dsimp only
    rw [Machine.checkEnd_eq]
    cases checkEnd (entry.parentBase + (address - entry.childBase)) length cells.address with
    | ok _ => exact (ends_liftExcept (.ok ())).bind ends_pure
    | error e => exact (ends_liftExcept (.error e)).bind_error

private theorem ends_mapBy_of_not_covers (hcovers : ¬entry.covers address length) :
    Ends (mapBy entry cells address length) s (.ok none) s := by
  rw [RangeEntry.covers_iff] at hcovers
  rw [mapBy]
  cases hoffset : Machine.difference? address entry.childBase with
  | none => exact ends_pure
  | some offset =>
    obtain ⟨hlower, rfl⟩ : entry.childBase ≤ address ∧ address - entry.childBase = offset := by
      simpa [Machine.difference?] using hoffset
    dsimp only
    split
    case isTrue => exact ends_pure
    case isFalse hinside =>
      refine (ends_lift (Machine.sub_eq (Nat.not_lt.1 hinside))).bind ?_
      rw [if_pos (by omega)]
      exact ends_pure

/-- The turns go through the entries that are left, until one of them covers the stretch. -/
theorem ends_mapTurns (hcells : cells.Decodable) (hwidth : cells.rangeWidth ≠ 0) (rest : σ)
    (hc : c.Countable)
    (hleft : c.value.length = c.position + count * (cells.rangeWidth * Cell.size)) :
    ∃ last, Ends (loop (mapTurn cells address length)) (rest, c.tape)
      (mapAmong cells address length ((List.range count).map (.nth cells c.remaining))) last := by
  induction count generalizing c with
  | zero =>
    refine ⟨(rest, c.tape), ends_loop_error (ends_remainingCells.bind ?_)⟩
    rw [Cursor.remainingCells, if_pos]
    · exact ends_throw.bind_error
    · rw [hleft, Nat.zero_mul, Nat.add_zero, Nat.sub_self, Nat.zero_div]
  | succ count ih =>
    rw [Nat.succ_mul] at hleft
    have hstride : Cell.size ≤ cells.rangeWidth * Cell.size :=
      Nat.le_mul_of_pos_left _ (Nat.pos_of_ne_zero hwidth)
    obtain ⟨moved, hmoved⟩ := Cursor.exists_advanced
      (show c.position + cells.rangeWidth * Cell.size ≤ c.value.length by omega)
    have hread := (reads_readRangeEntry cells c _ moved).2
      ⟨⟨hcells.childAddress, hcells.address, hcells.childSize⟩, rfl, hmoved⟩
    obtain ⟨-, hentry⟩ := (follows_readRangeEntry cells rest c hc).1 _ moved hread
    rw [RangeEntry.map_nth_succ, mapAmong, List.find?_cons]
    have hturn {outcome : Except Error (Option Nat)} {t : σ × Tape}
        (hmap : Ends (mapBy (.ofBytes cells c.remaining) cells address length) (rest, moved.tape)
          outcome t) : Ends (mapTurn cells address length) (rest, c.tape) outcome t := by
      refine ends_remainingCells.bind ?_
      rw [Cursor.remainingCells, if_neg]
      · exact hentry.bind hmap
      · rw [Nat.div_eq_zero_iff]
        have := hmoved.le
        simp only [Cell.size] at *
        omega
    by_cases hcovers : (RangeEntry.ofBytes cells c.remaining).covers address length = true
    · rw [hcovers]
      have hmap := hturn (ends_mapBy_of_covers hcovers)
      dsimp only
      cases hland : landing cells length ((RangeEntry.ofBytes cells c.remaining).map address) with
      | ok mapped =>
        rw [hland] at hmap
        exact ⟨_, ends_loop_done hmap⟩
      | error e =>
        rw [hland] at hmap
        exact ⟨_, ends_loop_error hmap⟩
    · have hmap := hturn (ends_mapBy_of_not_covers hcovers)
      rw [Bool.not_eq_true] at hcovers
      rw [hcovers]
      obtain ⟨last, hlast⟩ := ih (c := moved) (hmoved.ahead.countable hc) (by
        rw [hmoved.value, hmoved.position]
        omega)
      rw [← hmoved.remaining]
      exact ⟨last, ends_loop_again hmap hlast⟩

theorem ends_mapThrough (hcells : cells.Decodable) (rest : σ) (name : String)
    (hvalue : value.length < UInt64.size) :
    ∃ last, Ends (mapThrough cells address length) (rest, (Cursor.start name value).tape)
      (DeviceTree.mapThrough cells value address length) last := by
  have hwidth : cells.rangeWidth =
      cells.childAddress.toNat + cells.address.toNat + cells.childSize.toNat := rfl
  have haddress := hcells.address
  have hchildAddress := hcells.childAddress
  have hchildSize := hcells.childSize
  simp only [Cursor.maximumCells] at haddress hchildAddress hchildSize
  have hsides : Machine.add cells.childAddress.toNat cells.address.toNat = pure _ :=
    Machine.add_eq (by simp only [UInt64.size]; omega)
  have hcount : Machine.add (cells.childAddress.toNat + cells.address.toNat)
      cells.childSize.toNat = pure cells.rangeWidth := by
    rw [hwidth]
    exact Machine.add_eq (by simp only [UInt64.size]; omega)
  have hbytes : Machine.mul cells.rangeWidth Cell.size = pure (cells.rangeWidth * Cell.size) :=
    Machine.mul_eq (by simp only [UInt64.size, Cell.size]; omega)
  by_cases hwhole : WholeRanges cells value
  · have hpos := Cell.toNat_pos hwhole.address
    have hcountable : (Cursor.start name value).Countable := hvalue
    have hleft : (Cursor.start name value).value.length = (Cursor.start name value).position +
        value.length / (cells.rangeWidth * Cell.size) * (cells.rangeWidth * Cell.size) := by
      rw [Nat.div_mul_cancel (Nat.dvd_of_mod_eq_zero hwhole.length_mod)]
      exact (Nat.zero_add _).symm
    obtain ⟨last, hlast⟩ :=
      ends_mapTurns hcells (show cells.rangeWidth ≠ 0 by omega) rest hcountable hleft
    refine ⟨last, (ends_lift hsides).bind ((ends_lift hcount).bind ((ends_lift hbytes).bind
      (ends_tape.bind ?_)))⟩
    rw [if_neg, mapThrough_eq_bind, rangeEntries_eq_of_whole hcells hwhole]
    · exact hlast
    · exact wholeRanges_iff.1 hwhole
  · refine ⟨(rest, (Cursor.start name value).tape), (ends_lift hsides).bind ((ends_lift hcount).bind
      ((ends_lift hbytes).bind (ends_tape.bind ?_)))⟩
    rw [if_pos, mapThrough_eq_bind, rangeEntries_eq_of_not_whole hwhole]
    · exact ends_throw.bind_error
    · exact not_not.1 (mt wholeRanges_iff.2 hwhole)

end TapeM

/-- A stretch is mapped by the first entry that it lies in. It lands where it lies in the entry, if
its last byte has an address of the parent there, and otherwise no later entry is tried. A value
without whole entries and a stretch that no entry covers are the only other failures. A machine that
reads entry after entry does the same, and so does a hop that goes through the value. -/
theorem maps_by_first (hcells : cells.Decodable) (hvalue : value.length < UInt64.size)
    (address length : Nat) :
    (∀ outcome, mapThrough cells value address length = outcome ↔
      Maps cells value address length outcome) ∧
    (∀ (rest : σ) name, ∃ last, (TapeM.mapThrough cells address length).Ends
      (rest, (Cursor.start name value).tape) (mapThrough cells value address length) last) ∧
    ∀ (r : Registry ι) route h parent, r.signpost route h = .ok (.through parent cells value) →
      r.hop route length h address =
        (mapThrough cells value address length).map (.onward parent) := by
  refine ⟨fun outcome => mapThrough_eq_iff hcells,
    fun rest name => TapeM.ends_mapThrough hcells rest name hvalue,
    fun r route h parent hpost => ?_⟩
  rw [Registry.hop_eq, hpost, ok_bind, Registry.Signpost.follow]
  cases mapThrough cells value address length <;> rfl

/-- Two entries that follow each other, the second of which leads past the last address of one
cell. -/
def twoEntries : List UInt8 :=
  [0, 0, 0, 0x10, 0, 0, 1, 0, 0, 0, 0, 0x10, 0, 0, 0, 0x20, 0xff, 0xff, 0xff, 0xf0, 0, 0, 0, 0x20]

/-- A stretch up to the end of the first entry is mapped, one that goes on is not, and one in the
second entry does not fit the parent. -/
theorem maps_by_first_twoEntries :
    Maps ⟨1, 1, 1, 1⟩ twoEntries 0x18 8 (.ok 0x108) ∧
    Maps ⟨1, 1, 1, 1⟩ twoEntries 0x18 9 (.error (.device (.uncovered 0x18 9))) ∧
    Maps ⟨1, 1, 1, 1⟩ twoEntries 0x20 0x20 (.error (.device .addressOverflow)) := by
  have hcells : Cells.Decodable ⟨1, 1, 1, 1⟩ := ⟨by decide, by decide, by decide, by decide⟩
  have hvalue : twoEntries.length < UInt64.size := by decide
  have hmaps (address length : Nat) (outcome : Except Error Nat) :=
    (maps_by_first (σ := Unit) (ι := Unit) hcells hvalue address length).1 outcome
  exact ⟨(hmaps _ _ _).1 (by decide), (hmaps _ _ _).1 (by decide), (hmaps _ _ _).1 (by decide)⟩

end DeviceTree

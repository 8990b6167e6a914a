import DeviceTree.Proofs.Bus.Numbers
import DeviceTree.Proofs.Machine.Runs

/-!
# Entries counted from a cursor and from the front

A parse counts elements from its cursor, a look-up counts them from the front of the property.
Between two elements the counts differ by the ones that the cursor has passed, and both then find
the same one, be it there or not; and an entry is claimed as the same memory. Where no entry starts
nothing is found at all.
-/
namespace DeviceTree

/-- A memory of two banks, each of its own kind, behind a bus that maps them in two pieces, and a
loader that refers to the memory and to the bus. -/
def Tree.banks : Tree where
  root :=
    { name := ""
      properties := []
      children :=
        [{ name := "soc"
           properties :=
            [.ofCells "#address-cells" [1], .ofCells "phandle" [2],
              .ofCells "ranges" [0, 0, 0x8000, 0x1000, 0x1000, 1, 0, 0x1000]]
           children :=
            [{ name := "memory"
               properties :=
                [.ofCells "phandle" [1], .ofCells "reg" [0x10, 0x10, 0x1000, 0x20],
                  .ofCells "uefi,reg-attributes" [2, 0, 8, 3, 0, 1]] }] },
          { name := "loader", properties := [.ofCells "memory-region" [1, 2]] }] }

namespace Cursor

variable {cells : Cells} {start c : Cursor} {type : ElementType} {width place index : Nat}

theorem skipElements_add (place index width : Nat) :
    (do skipElements place width; skipElements index width) =
      skipElements (place + index) width := by
  have hboth : Reads (do skipElements place width; skipElements index width) True (fun _ => ())
      ((place + index) * width * Cell.size) :=
    ((reads_skipElements place width).bind fun _ => reads_skipElements index width).congr
      (and_self_iff) (fun _ => rfl) fun _ => by rw [Nat.add_mul, Nat.add_mul]
  have hskips (index : Nat) (e : Error) (he : .notFound ≠ e) :
      Avoids e (skipElements index width) := .skipElements he index width
  exact hboth.eq_of_avoids (reads_skipElements _ _)
    (fun e he => (hskips _ e he).bind fun _ => hskips _ e he) (hskips _)

theorem skipElements_of_advanced (hc : start.Advanced (4 * width * place) c) (index : Nat) :
    skipElements index width c = skipElements (place + index) width start := by
  have hpassed : place * width * Cell.size = 4 * width * place := by
    rw [Cell.size, Nat.mul_comm place, Nat.mul_comm, Nat.mul_assoc]
  have hskip : skipElements place width start = .ok ((), c) :=
    (reads_skipElements place width start () c).2 ⟨trivial, rfl, by rwa [hpassed]⟩
  rw [← skipElements_add, bind_apply, hskip, ok_bind]

/-- The place of an entry does not depend on where the count started. -/
theorem seekEntry_of_advanced (hwidth : width ≠ 0) (hc : start.Advanced (4 * width * place) c)
    (index : Nat) : seekEntry index width c = seekEntry (place + index) width start := by
  have haligned : c.position % (width * Cell.size) = start.position % (width * Cell.size) := by
    rw [hc.position, Cell.size, Nat.mul_comm width, Nat.add_mul_mod_self_left]
  rw [seekEntry_eq hwidth, seekEntry_eq hwidth, haligned, skipElements_of_advanced hc]

theorem readRegEntry_of_advanced (hwidth : cells.regWidth ≠ 0)
    (hc : start.Advanced (4 * cells.regWidth * place) c) (index : Nat) :
    readRegEntry index cells c = readRegEntry (place + index) cells start := by
  rw [readRegEntry, bind_apply, seekEntry_of_advanced hwidth hc, readRegEntry, bind_apply]

theorem readRangesEntry_of_advanced (hwidth : cells.rangeWidth ≠ 0)
    (hc : start.Advanced (4 * cells.rangeWidth * place) c) (index : Nat) :
    readRangesEntry index cells c = readRangesEntry (place + index) cells start := by
  rw [readRangesEntry, bind_apply, seekEntry_of_advanced hwidth hc, readRangesEntry, bind_apply]

private theorem seekEntry_of_off (hoff : c.position % (4 * width) ≠ 0) (hwidth : width ≠ 0)
    (index : Nat) :
    seekEntry index width c = .error (.invalidParameter .offEntryBoundary) := by
  rw [seekEntry_eq hwidth, if_pos]
  rwa [Cell.size, Nat.mul_comm]

end Cursor

namespace Registry

variable {ι : Type} {r : Registry ι} {h : Handle} {device : Device ι} {start c : Cursor}
  {place : Nat}

theorem readReg_of_advanced (hdevice : r.device? h = some device)
    (hwidth : device.cells.regWidth ≠ 0)
    (hc : start.Advanced (4 * device.cells.regWidth * place) c) (index : Nat) :
    r.readReg h c index = r.readReg h start (place + index) := by
  simp only [readReg, device_eq_ok_iff.2 hdevice, ok_bind,
    Cursor.readRegEntry_of_advanced hwidth hc]

theorem readRange_of_advanced (hdevice : r.device? h = some device)
    (hwidth : device.cells.rangeWidth ≠ 0)
    (hc : start.Advanced (4 * device.cells.rangeWidth * place) c) (index : Nat) :
    r.readRange h c index = r.readRange h start (place + index) := by
  simp only [readRange, device_eq_ok_iff.2 hdevice, ok_bind, hc.name,
    Cursor.readRangesEntry_of_advanced hwidth hc]

theorem readReg_of_off (hdevice : r.device? h = some device)
    (hwidth : device.cells.regWidth ≠ 0)
    (hoff : c.position % (4 * device.cells.regWidth) ≠ 0) (index : Nat) :
    r.readReg h c index = .error (.invalidParameter .offEntryBoundary) := by
  rw [readReg, device_eq_ok_iff.2 hdevice, ok_bind, Cursor.readRegEntry, Cursor.bind_apply,
    Cursor.seekEntry_of_off hoff hwidth]
  rfl

theorem readRange_of_off (hdevice : r.device? h = some device)
    (hwidth : device.cells.rangeWidth ≠ 0)
    (hoff : c.position % (4 * device.cells.rangeWidth) ≠ 0) (index : Nat) :
    r.readRange h c index = .error (.invalidParameter .offEntryBoundary) := by
  rw [readRange, device_eq_ok_iff.2 hdevice, ok_bind, Cursor.readRangesEntry, Cursor.bind_apply,
    Cursor.seekEntry_of_off hoff hwidth]
  rfl

end Registry

namespace Bus

def banksReg : Cursor :=
  .start "reg" [0, 0, 0, 0x10, 0, 0, 0, 0x10, 0, 0, 0x10, 0, 0, 0, 0, 0x20]

def secondBank : Cursor :=
  { banksReg with position := 8, position_le := by decide }

def piecesRanges : Cursor :=
  .start "ranges" [0, 0, 0, 0, 0, 0, 0, 0, 0, 0, 0x80, 0, 0, 0, 0x10, 0,
    0, 0, 0x10, 0, 0, 0, 0, 1, 0, 0, 0, 0, 0, 0, 0x10, 0]

def secondPiece : Cursor :=
  { piecesRanges with position := 16, position_le := by decide }

/-- What a run over the banks shows: entries of both properties can be parsed, and the second bank
is claimed as what its node says of the second. -/
theorem exists_banks : ∃ (bus : Bus (Recorded Simulated FileNumber) FileNumber)
    (memory soc : Device FileNumber), Reachable Tree.banks.blob bus ∧
      bus.registry.device? ⟨2⟩ = some memory ∧
      memory.cells = { address := 1, size := 1, childAddress := 2, childSize := 1 } ∧
      bus.registry.property ⟨2⟩ "reg" = .ok banksReg ∧
      bus.registry.device? ⟨1⟩ = some soc ∧
      soc.cells = { address := 2, size := 1, childAddress := 1, childSize := 1 } ∧
      bus.registry.property ⟨1⟩ Route.ranges.propertyName = .ok piecesRanges ∧
      ((Operation.reg ⟨2⟩ 1).after bus).platform.log.map Event.call = [.claim
        { base := 0x100000000, length := 0x20, type := .memoryMappedIO,
          attributes := .uncached }] := by
  obtain ⟨bus, hbus, hrun⟩ : ∃ bus : Bus (Recorded Simulated FileNumber) FileNumber,
      Reachable Tree.banks.blob bus ∧
        (((bus.registry.device? ⟨2⟩).any fun device => device.cells =
          { address := 1, size := 1, childAddress := 2, childSize := 1 }) &&
        (bus.registry.property ⟨2⟩ "reg").toOption.any (· = banksReg) &&
        ((bus.registry.device? ⟨1⟩).any fun device => device.cells =
          { address := 2, size := 1, childAddress := 1, childSize := 1 }) &&
        (bus.registry.property ⟨1⟩ Route.ranges.propertyName).toOption.any (· = piecesRanges) &&
        decide (((Operation.reg ⟨2⟩ 1).after bus).platform.log.map Event.call = [.claim
          { base := 0x100000000, length := 0x20, type := .memoryMappedIO,
            attributes := .uncached }])) = true :=
    exists_reachable { inner := { cpu := { label := "" } } }
      [.findDevice "/soc/memory"] (by decide +kernel)
  simp only [Bool.and_eq_true] at hrun
  obtain ⟨⟨⟨⟨hmemory, hreg⟩, hsoc⟩, hranges⟩, hlog⟩ := hrun
  obtain ⟨memory, hmemory, hbanks⟩ := Option.any_eq_true _ _ |>.1 hmemory
  obtain ⟨soc, hsoc, hpieces⟩ := Option.any_eq_true _ _ |>.1 hsoc
  exact ⟨bus, memory, soc, hbus, hmemory, of_decide_eq_true hbanks, eq_ok_of_any hreg, hsoc,
    of_decide_eq_true hpieces, eq_ok_of_any hranges, of_decide_eq_true hlog⟩

variable {σ ι α : Type} [Platform σ ι] {b : Blob} {bus : Bus σ ι} {h : Handle} {device : Device ι}
  {start : Cursor} {width : Nat}

/-- How `parse`, which counts entries of `width` cells from a cursor, and `lookUp`, which counts
them from `start`, the front of the property, go together. Both find what `read` finds on the bus,
and `steps` is `parse` on a machine. -/
structure CountsAlike (bus : Bus σ ι) (start : Cursor) (width : Nat)
    (read : Registry ι → Cursor → Nat → Except Error (EntryRead α))
    (parse : Cursor → Nat → BusM σ ι (α × Cursor)) (steps : Nat → TapeM (Bus σ ι) α)
    (lookUp : Nat → BusM σ ι α) : Prop where
  /-- The same entry is found, the same cursor behind it and the same claim to make, or it is missed
  for the same reason. -/
  read_eq : ∀ place index c, start.Advanced (4 * width * place) c →
    read bus.registry c index = read bus.registry start (place + index)
  run_eq : ∀ place index c, start.Advanced (4 * width * place) c →
    (do return (← parse c index).1) bus = lookUp (place + index) bus
  off : ∀ index (c : Cursor), c.position % (4 * width) ≠ 0 →
    parse c index bus = .error (.invalidParameter .offEntryBoundary) bus
  stays : ∀ index (c : Cursor), c.position % (4 * width) ≠ 0 → c.Countable →
    (steps index).Ends (bus, c.tape) (.error (.invalidParameter .offEntryBoundary)) (bus, c.tape)

section CountsAlike

variable {read : Registry ι → Cursor → Nat → Except Error (EntryRead α)}
  {parse : Cursor → Nat → BusM σ ι (α × Cursor)} {steps : Nat → TapeM (Bus σ ι) α}
  {lookUp : Nat → BusM σ ι α}

/-- It is enough that both find the same: what is done then is the same claim. -/
theorem countsAlike_of_read (hparse : ∀ c index, parse c index = do settle (← ask (read · c index)))
    (hlookUp : ∀ index, lookUp index bus = (do return (← parse start index).1) bus)
    (hsteps : ∀ index, TapeM.AttemptsOn bus (steps index) (InPlace.taking (parse · index)))
    (hread : ∀ place index c, start.Advanced (4 * width * place) c →
      read bus.registry c index = read bus.registry start (place + index))
    (hoff : ∀ index (c : Cursor), c.position % (4 * width) ≠ 0 →
      read bus.registry c index = .error (.invalidParameter .offEntryBoundary)) :
    CountsAlike bus start width read parse steps lookUp := by
  have hfails (index : Nat) (c : Cursor) (h : c.position % (4 * width) ≠ 0) :
      parse c index bus = .error (.invalidParameter .offEntryBoundary) bus := by
    simp only [hparse, bind, EStateM.bind, InPlace.ask_apply, hoff index c h]
  refine ⟨hread, fun place index c hc => ?_, hfails, fun index c h hcount => ?_⟩
  · simp only [hlookUp, hparse, bind, EStateM.bind, InPlace.ask_apply, hread place index c hc]
  · refine ((hsteps index c hcount).2 _ bus c ?_).2
    simp only [InPlace.taking, hfails index c h]

end CountsAlike

/-- An entry of a live device is told by its place: a parse from between two entries finds and
claims what the look-up of that entry does, or fails as it does, whatever entry is asked for. From
anywhere else it is refused, and neither the bus nor the cursor changes. -/
theorem Reachable.countsAlike (hbus : Reachable b bus)
    (hdevice : bus.registry.device? h = some device) :
    (∀ start, bus.registry.property h "reg" = .ok start → device.cells.regWidth ≠ 0 →
      CountsAlike bus start device.cells.regWidth (·.readReg h) (parseReg h) (TapeM.parseReg h)
        (reg h)) ∧
    ∀ (route : Route) start, bus.registry.property h route.propertyName = .ok start →
      device.cells.rangeWidth ≠ 0 →
      CountsAlike bus start device.cells.rangeWidth (·.readRange h) (parseRange h)
        (TapeM.parseRange h) (range route h) := by
  constructor
  · intro start hstart hwidth
    refine countsAlike_of_read (fun _ _ => rfl) (fun index => ?_) (fun index => ?_)
      (fun place index c hc => Registry.readReg_of_advanced hdevice hwidth hc index)
      fun index c hoff => Registry.readReg_of_off hdevice hwidth hoff index
    · simp only [reg, bind, EStateM.bind, InPlace.ask_apply, hstart]
    · rw [← InPlace.parseReg_eq]
      exact TapeM.attemptsOn_parseReg hbus.truthful h index
  · intro route start hstart hwidth
    refine countsAlike_of_read (fun _ _ => rfl) (fun index => ?_) (fun index => ?_)
      (fun place index c hc => Registry.readRange_of_advanced hdevice hwidth hc index)
      fun index c hoff => Registry.readRange_of_off hdevice hwidth hoff index
    · simp only [range, bind, EStateM.bind, InPlace.ask_apply, hstart]
    · rw [← InPlace.parseRange_eq]
      exact TapeM.attemptsOn_parseRange hbus.truthful h index

/-- The next bank after the first is the second one, the next piece after the first is the second
one, and nothing starts in the middle of the first. -/
theorem countsAlike_banks : ∃ (bus : Bus (Recorded Simulated FileNumber) FileNumber)
    (memory soc : Device FileNumber),
    (Reachable Tree.banks.blob bus ∧ bus.registry.device? ⟨2⟩ = some memory ∧
      bus.registry.property ⟨2⟩ "reg" = .ok banksReg ∧ memory.cells.regWidth ≠ 0 ∧
      bus.registry.device? ⟨1⟩ = some soc ∧
      bus.registry.property ⟨1⟩ Route.ranges.propertyName = .ok piecesRanges ∧
      soc.cells.rangeWidth ≠ 0) ∧
    (do return (← parseReg ⟨2⟩ secondBank 0).1) bus = reg ⟨2⟩ 1 bus ∧
    ((Operation.reg ⟨2⟩ 1).after bus).platform.log.map Event.call = [.claim
      { base := 0x100000000, length := 0x20, type := .memoryMappedIO, attributes := .uncached }] ∧
    (do return (← parseRange ⟨1⟩ secondPiece 0).1) bus = range .ranges ⟨1⟩ 1 bus ∧
    parseReg ⟨2⟩ { banksReg with position := 4, position_le := by decide } 1 bus =
      .error (.invalidParameter .offEntryBoundary) bus := by
  obtain ⟨bus, memory, soc, hbus, hmemory, hbanks, hreg, hsoc, hpieces, hranges, hlog⟩ :=
    exists_banks
  have hcounts := (hbus.countsAlike hmemory).1 banksReg hreg (by rw [hbanks]; decide)
  have hcounts' := (hbus.countsAlike hsoc).2 .ranges piecesRanges hranges (by rw [hpieces]; decide)
  rw [hbanks] at hcounts
  rw [hpieces] at hcounts'
  refine ⟨bus, memory, soc, ⟨hbus, hmemory, hreg, by rw [hbanks]; decide, hsoc, hranges,
    by rw [hpieces]; decide⟩, ?_, hlog, ?_, ?_⟩
  · exact hcounts.run_eq 1 0 secondBank ⟨rfl, rfl, rfl⟩
  · exact hcounts'.run_eq 1 0 secondPiece ⟨rfl, rfl, rfl⟩
  · exact hcounts.off 1 _ (by decide)

end Bus

end DeviceTree

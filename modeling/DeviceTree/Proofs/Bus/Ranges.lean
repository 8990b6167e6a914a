import DeviceTree.Proofs.Bus.Entries
import DeviceTree.Proofs.Bus.Passing

/-!
# Entries of `ranges` and the windows below them

The entries of `ranges` are decoded twice: one by one for those who ask for an entry, and all
together where an address is mapped. Both find the same entry at the same place. So a window below a
bus lies inside the entry of its `ranges` that the window is mapped by, also after both were
resolved, although the window starts one device further down and is shorter than the entry.
-/
namespace DeviceTree

open Cursor (Advanced)

variable {cells : Cells} {c moved : Cursor} {count index place : Nat} {entry : RangeEntry}
  {entries : List RangeEntry} {value : List UInt8} {name : String}

namespace RangeEntry

def nth (cells : Cells) (value : List UInt8) (index : Nat) : RangeEntry :=
  ofBytes cells (value.drop (index * cells.rangeWidth * Cell.size))

theorem map_nth_succ (cells : Cells) (value : List UInt8) (count : Nat) :
    (List.range (count + 1)).map (nth cells value) = ofBytes cells value ::
      (List.range count).map (nth cells (value.drop (cells.rangeWidth * Cell.size))) := by
  rw [List.range_succ_eq_map, List.map_cons, List.map_map]
  congr 1
  · simp [nth]
  · apply List.map_congr_left
    intro i _
    simp only [nth, List.drop_drop, Function.comp_apply, Nat.succ_mul, Nat.add_mul]
    rw [Nat.add_comm]

/-- `entry` is at `index`, and the first of `entries` that a stretch lies in. -/
structure First (entries : List RangeEntry) (start length index : Nat) (entry : RangeEntry) :
    Prop where
  getElem? : entries[index]? = some entry
  holds : stretch start length ⊆ entry.childStretch
  before : ∀ i < index, ∀ earlier, entries[i]? = some earlier →
    ¬stretch start length ⊆ earlier.childStretch

private theorem First.find?_eq {start length : Nat} (h : First entries start length index entry)
    (hlength : 0 < length) : entries.find? (·.covers start length) = some entry := by
  obtain ⟨hlt, hget⟩ := List.getElem?_eq_some_iff.1 h.getElem?
  refine List.find?_eq_some_iff_getElem.2 ⟨(covers_iff_subset hlength).2 h.holds, index, hlt, hget,
    fun i hi => ?_⟩
  have hnot := h.before i hi entries[i] (List.getElem?_eq_getElem _)
  rw [← covers_iff_subset hlength] at hnot
  simpa using hnot

end RangeEntry

theorem reads_readRangeEntry (cells : Cells) :
    Cursor.Reads (readRangeEntry cells)
      (cells.childAddress.toNat ≤ Cursor.maximumCells ∧
        cells.address.toNat ≤ Cursor.maximumCells ∧ cells.childSize.toNat ≤ Cursor.maximumCells)
      (.ofBytes cells) (cells.rangeWidth * Cell.size) := by
  refine ((Cursor.reads_readUint cells.childAddress.toNat).bind fun childBase =>
    (Cursor.reads_readUint cells.address.toNat).bind fun parentBase =>
      (Cursor.reads_readUint cells.childSize.toNat).map fun size =>
        ({ childBase, parentBase, size } : RangeEntry)).congr Iff.rfl (fun _ => rfl) fun h => ?_
  rw [Cells.rangeWidth, Nat.add_mul, Nat.add_mul, Nat.add_assoc]

theorem readRangeEntries_eq_ok
    (hread : readRangeEntries cells count c = .ok (entries, moved)) :
    entries = (List.range count).map (.nth cells c.remaining) := by
  induction count generalizing c entries moved with
  | zero =>
    obtain ⟨rfl, -⟩ := Prod.mk.inj (Except.ok.inj hread)
    rfl
  | succ count ih =>
    obtain ⟨⟨entry, next⟩, hentry, hread⟩ := bind_eq_ok_iff.1 hread
    obtain ⟨⟨rest, last⟩, hrest, hread⟩ := bind_eq_ok_iff.1 hread
    obtain ⟨rfl, rfl⟩ := Prod.mk.inj (Except.ok.inj hread)
    obtain ⟨-, rfl, hadvanced⟩ := (reads_readRangeEntry cells _ _ _).1 hentry
    rw [ih hrest, hadvanced.remaining, RangeEntry.map_nth_succ]

theorem rangeEntries_eq_ok (hread : rangeEntries cells value = .ok entries) :
    entries = (List.range (value.length / (cells.rangeWidth * Cell.size))).map
      (.nth cells value) := by
  rw [rangeEntries] at hread
  split at hread
  · cases hread
  · obtain ⟨⟨found, last⟩, hfound, hread⟩ := bind_eq_ok_iff.1 hread
    obtain rfl := Except.ok.inj hread
    exact readRangeEntries_eq_ok hfound

namespace Cursor

theorem readRangesEntry_eq_ok
    (h : readRangesEntry index cells (.start name value) = .ok ((place, entry), moved)) :
    entry = .nth cells value index ∧ 0 < cells.rangeWidth ∧
      (index + 1) * (cells.rangeWidth * Cell.size) ≤ value.length := by
  obtain ⟨hmoved, rfl, hentry⟩ := readRangesEntry_eq_ok_iff.1 h
  rw [rangesAt?] at hentry
  split at hentry
  case isFalse => cases hentry
  case isTrue hcond =>
    have hend := hmoved.le
    simp only [start, Nat.zero_add] at hend
    refine ⟨rfl, Nat.pos_of_ne_zero hcond.1.rangeWidth_ne_zero, ?_⟩
    rwa [Nat.succ_mul, ← Nat.mul_assoc]

end Cursor

/-- An entry that is read on its own is the one among all entries. -/
theorem getElem?_rangeEntries (hentries : rangeEntries cells value = .ok entries)
    (hread : Cursor.readRangesEntry index cells (.start name value) =
      .ok ((place, entry), moved)) : entries[index]? = some entry := by
  obtain ⟨rfl, hcells, hle⟩ := Cursor.readRangesEntry_eq_ok hread
  have hwidth : 0 < cells.rangeWidth * Cell.size := Nat.mul_pos hcells (by decide)
  have hlt : index < value.length / (cells.rangeWidth * Cell.size) :=
    (Nat.le_div_iff_mul_le hwidth).2 hle
  rw [rangeEntries_eq_ok hentries, List.getElem?_map, List.getElem?_range hlt]
  rfl

namespace Registry

variable {ι : Type} {r : Registry ι} {h parent : Handle} {device : Device ι} {cursor : Cursor}
  {property : Property} {location : Location} {route : Route}
  {address length limit : Nat}

theorem property_eq_ok (hread : r.property h name = .ok cursor) :
    ∃ device property, r.device? h = some device ∧
      r.blob.property device.node name = .ok (some property) ∧
      cursor = .start name property.value := by
  obtain ⟨device, hdevice, hread⟩ := bind_eq_ok_iff.1 hread
  obtain ⟨found, hfound, hread⟩ := bind_eq_ok_iff.1 hread
  rw [liftM_eq_ok_iff] at hfound
  cases found with
  | none => cases hread
  | some property =>
    obtain rfl := Except.ok.inj hread
    obtain ⟨-, hname⟩ := Items.mem_of_first? hfound
    have hname : property.name = name := by simpa [pure, Except.pure] using hname
    exact ⟨device, property, device_eq_ok_iff.1 hdevice, hfound, by rw [hname]⟩

theorem readReg_eq_ok {read : EntryRead Window} (hread : r.readReg h cursor index = .ok read) :
    ∃ device place, r.device? h = some device ∧
      Cursor.readRegEntry index device.cells cursor =
        .ok ((place, read.value.base, read.value.length), read.cursor) ∧
      r.resolve .ranges (device.parent.getD h) read.value.base read.value.length =
        .ok { address := read.value.resolvedBase, bus := read.value.bus } := by
  obtain ⟨device, hdevice, hread⟩ := bind_eq_ok_iff.1 hread
  obtain ⟨⟨⟨place, base, length⟩, rest⟩, hentry, hread⟩ := bind_eq_ok_iff.1 hread
  obtain ⟨location, hresolve, hread⟩ := bind_eq_ok_iff.1 hread
  obtain ⟨claim?, -, hread⟩ := bind_eq_ok_iff.1 hread
  obtain rfl := Except.ok.inj hread
  exact ⟨device, place, device_eq_ok_iff.1 hdevice, hentry, hresolve⟩

theorem readRange_eq_ok {read : EntryRead AddressRange}
    (hread : r.readRange h cursor index = .ok read) :
    ∃ device place entry, r.device? h = some device ∧
      Cursor.readRangesEntry index device.cells cursor = .ok ((place, entry), read.cursor) ∧
      read.value.childBase = entry.childBase ∧ read.value.length = entry.size ∧
      r.resolve (.ofPropertyName cursor.name) (device.parent.getD h) entry.parentBase entry.size =
        .ok { address := read.value.resolvedParentBase, bus := read.value.bus } := by
  obtain ⟨device, hdevice, hread⟩ := bind_eq_ok_iff.1 hread
  obtain ⟨⟨⟨place, entry⟩, rest⟩, hentry, hread⟩ := bind_eq_ok_iff.1 hread
  obtain ⟨location, hresolve, hread⟩ := bind_eq_ok_iff.1 hread
  refine ⟨device, place, entry, device_eq_ok_iff.1 hdevice, ?_⟩
  cases hroute : Route.ofPropertyName cursor.name <;>
  · rw [hroute] at hresolve hread
    obtain ⟨claim?, -, hread⟩ := bind_eq_ok_iff.1 hread
    obtain rfl := Except.ok.inj hread
    exact ⟨hentry, rfl, rfl, hresolve⟩

theorem signpost_eq_through (hdevice : r.device? h = some device) (hio : device.io = none)
    (hparent : device.parent = some parent)
    (hproperty : r.blob.property device.node route.propertyName = .ok (some property))
    (hvalue : property.value ≠ []) :
    r.signpost route h = .ok (.through parent device.cells property.value) := by
  have hopen : ¬(route = .ranges ∧ device.io.isSome) := by simp [hio]
  rw [signpost, device_eq_ok_iff.2 hdevice, ok_bind, if_neg hopen]
  simp only [hparent, hproperty, liftM_ok, ok_bind]
  rw [if_neg hvalue]
  rfl

theorem resolveWithin_add (more : Nat)
    (hresolve : r.resolveWithin route length limit h address = .ok location) :
    r.resolveWithin route length (limit + more) h address = .ok location := by
  induction limit generalizing h address with
  | zero => cases hresolve
  | succ limit ih =>
    rw [Nat.add_right_comm, resolveWithin_succ]
    rw [resolveWithin_succ] at hresolve
    cases hhop : r.hop route length h address with
    | error e => simp [hhop] at hresolve
    | ok result =>
      cases result with
      | arrived found => simpa [hhop] using hresolve
      | onward parent onward => exact ih (by simpa [hhop] using hresolve)

end Registry

namespace Bus

variable {σ ι α : Type} [Platform σ ι] {b : Blob} {bus next : Bus σ ι} {h : Handle}
  {window : Window} {found : AddressRange} {route : Route}

private theorem settle_ensures {read : EntryRead α} : Ensures (settle read) bus
    (fun answer _ => answer = (read.value, read.cursor)) fun _ => True := by
  rw [settle]
  cases read.claim? with
  | none => exact rfl
  | some c =>
    rw [ensures_bind, claim, ensures_bind, ensures_call, ensures_lift]
    exact ⟨fun _ _ => rfl, fun _ _ => trivial⟩

private theorem reg_resolves : Ensures (reg h index) bus
    (fun window _ => ∃ device, bus.registry.device? h = some device ∧
      bus.registry.resolve .ranges (device.parent.getD h) window.base window.length =
        .ok { address := window.resolvedBase, bus := window.bus }) fun _ => True := by
  rw [reg, ensures_bind, ensures_ask]
  refine ⟨fun cursor _ => ?_, fun _ _ => trivial⟩
  rw [ensures_bind, parseReg, ensures_bind, ensures_ask]
  refine ⟨fun read hread => ?_, fun _ _ => trivial⟩
  refine settle_ensures.imp ?_ fun _ _ => trivial
  rintro _ _ rfl
  obtain ⟨device, _, hdevice, -, hresolve⟩ := Registry.readReg_eq_ok hread
  exact ⟨device, hdevice, hresolve⟩

private theorem range_resolves : Ensures (range route h index) bus
    (fun found _ => ∃ device property place entry rest, bus.registry.device? h = some device ∧
      bus.registry.blob.property device.node route.propertyName = .ok (some property) ∧
      Cursor.readRangesEntry index device.cells (.start route.propertyName property.value) =
        .ok ((place, entry), rest) ∧
      found.childBase = entry.childBase ∧ found.length = entry.size ∧
      bus.registry.resolve route (device.parent.getD h) entry.parentBase entry.size =
        .ok { address := found.resolvedParentBase, bus := found.bus }) fun _ => True := by
  rw [Bus.range, ensures_bind, ensures_ask]
  refine ⟨fun cursor hcursor => ?_, fun _ _ => trivial⟩
  obtain ⟨device, property, hdevice, hproperty, rfl⟩ := Registry.property_eq_ok hcursor
  rw [ensures_bind, parseRange, ensures_bind, ensures_ask]
  refine ⟨fun read hread => ?_, fun _ _ => trivial⟩
  refine settle_ensures.imp ?_ fun _ _ => trivial
  rintro _ _ rfl
  obtain ⟨same, place, entry, hsame, hentry, hbase, hlength, hresolve⟩ :=
    Registry.readRange_eq_ok hread
  obtain rfl : same = device := by simpa [hsame] using hdevice
  have hroute : Route.ofPropertyName route.propertyName = route := by cases route <;> decide
  rw [Cursor.start, hroute] at hresolve
  exact ⟨same, property, place, entry, _, hsame, hproperty, hentry, hbase, hlength, hresolve⟩

/-- Let the entry at `index` be the first of the `ranges` of `d` that a window of a child of `d`
lies in, and let the entries that addresses go through above `d` share no address of the children.
Then the resolved window lies in the resolved entry where the window lies in the entry. -/
theorem Reachable.reg_eq_range {later next last : Bus σ ι} {d c : Handle} {device : Device ι}
    {property : Property} (hbus : Reachable b bus) (hd : bus.registry.device? d = some device)
    (hroot : d ≠ Registry.rootHandle) (hio : device.io = none)
    (hproperty : b.property device.node Route.ranges.propertyName = .ok (some property))
    (hvalue : property.value ≠ []) (hc : bus.registry.HasParent c d)
    (hrange : Bus.range .ranges d index bus = .ok found next)
    (hreg : Bus.reg c place later = .ok window last) (hsame : later.registry = bus.registry)
    (hlength : 0 < window.length)
    (hentries : rangeEntries device.cells property.value = .ok entries)
    (hfirst : RangeEntry.First entries window.base window.length index entry)
    (habove : ∀ parent, device.parent = some parent →
      ∀ above ∈ bus.registry.maps .ranges Registry.maximumHops parent,
        above.Pairwise RangeEntry.ChildDisjoint) :
    window.resolvedBase = found.resolvedParentBase + (window.base - found.childBase) ∧
      window.bus = found.bus ∧
      stretch window.resolvedBase window.length ⊆
        stretch found.resolvedParentBase found.length := by
  obtain ⟨hblob, hsound⟩ := hbus.sound
  obtain ⟨parent, _, hparent, -⟩ := hsound.parent d device hd hroot
  -- The entry as it is read on its own, resolved from the parent of `d`.
  obtain ⟨_, _, _, read, _, hd', hproperty', hread, hbase, hsize, hentry⟩ :=
    range_resolves.of_ok hrange
  obtain rfl := Option.some.inj (hd'.symm.trans hd)
  rw [hblob] at hproperty'
  obtain rfl := Option.some.inj (Except.ok.inj (hproperty'.symm.trans hproperty))
  obtain rfl : read = entry := by
    simpa [getElem?_rangeEntries hentries hread] using hfirst.getElem?
  rw [hparent, Option.getD_some] at hentry
  -- The window, which is mapped by the same entry and resolved from there.
  obtain ⟨child, hchild, hwindow⟩ := reg_resolves.of_ok hreg
  obtain ⟨same, hsame', hunder⟩ := hc
  rw [hsame] at hchild hwindow
  obtain rfl := Option.some.inj (hchild.symm.trans hsame')
  have hpost := Registry.signpost_eq_through hd hio hparent (hblob ▸ hproperty) hvalue
  rw [hunder, Option.getD_some, Registry.resolve,
    show Registry.maximumHops = 31 + 1 from rfl, Registry.resolveWithin_through hpost] at hwindow
  obtain ⟨mapped, hmap, hwindow⟩ := bind_eq_ok_iff.1 hwindow
  obtain ⟨_, mapping, hentries', hfound, rfl, -⟩ := mapThrough_eq_ok_iff.1 hmap
  obtain rfl := Except.ok.inj (hentries'.symm.trans hentries)
  obtain rfl : mapping = read := Option.some.inj (hfound.symm.trans (hfirst.find?_eq hlength))
  replace hwindow := Registry.resolveWithin_add 1 hwindow
  -- The window starts inside the entry, and so it does after both were resolved.
  obtain ⟨hle, hend⟩ := RangeEntry.covers_iff.1 (RangeEntry.covers_of_find? hfound)
  have hinside : window.base - mapping.childBase + window.length ≤ mapping.size := by omega
  have hpart := Registry.resolveWithin_part (habove parent hparent) hlength hinside hentry
  obtain ⟨haddress, hmediator⟩ := Location.mk.inj (Except.ok.inj (hwindow.symm.trans hpart))
  replace haddress : window.resolvedBase =
      found.resolvedParentBase + (window.base - mapping.childBase) := haddress
  rw [hbase, hsize]
  refine ⟨haddress, hmediator, ?_⟩
  rw [stretch_subset_iff hlength, haddress]
  omega

/-- The clock of the nested buses lies in the first entry of the bus above it. -/
theorem reg_eq_range_nested : ∃ bus next last : Bus (Recorded Simulated FileNumber) FileNumber,
    (Reachable Tree.nested.blob bus ∧ Bus.range .ranges ⟨2⟩ 0 bus = .ok nestedRange next ∧
      Bus.reg ⟨3⟩ 0 bus = .ok nestedWindow last ∧
      RangeEntry.First nestedEntries nestedWindow.base nestedWindow.length 0
        { childBase := 0x100, parentBase := 0x2000, size := 0x100 }) ∧
      nestedWindow.resolvedBase =
        nestedRange.resolvedParentBase + (nestedWindow.base - nestedRange.childBase) ∧
      stretch nestedWindow.resolvedBase nestedWindow.length ⊆
        stretch nestedRange.resolvedParentBase nestedRange.length := by
  obtain ⟨bus, hbus, hmaps, -, -, ⟨next, hrange⟩, ⟨last, hreg⟩, hbelow, device, property, hdevice,
    hio, hparent, hproperty, hvalue, hentries⟩ := exists_nested
  have hfirst : RangeEntry.First nestedEntries nestedWindow.base nestedWindow.length 0
      { childBase := 0x100, parentBase := 0x2000, size := 0x100 } :=
    ⟨rfl, (stretch_subset_iff (by decide)).2 (by decide), fun i hi => absurd hi (Nat.not_lt_zero i)⟩
  have habove : ∀ parent, device.parent = some parent →
      ∀ above ∈ bus.registry.maps .ranges Registry.maximumHops parent,
        above.Pairwise RangeEntry.ChildDisjoint := by
    intro parent h above habove
    obtain rfl : ⟨1⟩ = parent := Option.some.inj (hparent.symm.trans h)
    exact (hmaps ⟨1⟩ (by simp) above habove).1
  rw [hbus.sound.1] at hproperty
  obtain ⟨haddress, -, hinside⟩ := hbus.reg_eq_range hdevice (by decide) hio hproperty hvalue hbelow
    hrange hreg rfl (by decide) hentries hfirst habove
  exact ⟨bus, next, last, ⟨hbus, hrange, hreg, hfirst⟩, haddress, hinside⟩

end Bus

end DeviceTree

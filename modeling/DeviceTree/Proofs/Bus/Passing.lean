import Mathlib.Data.List.Pairwise
import Mathlib.Order.CompletePartialOrder
import Mathlib.Order.Interval.Set.Disjoint
import DeviceTree.Proofs.Bus.Windows

/-!
# What becomes of stretches of addresses on their way

Which devices an address goes through does not hang on the address, so neither do the entries that
it can be mapped by. If those of one property share no address on the side of the children, a part
of a stretch is mapped by the entry that maps the whole, and ends where it lies in the whole. If
they share none on the side of the parent, stretches that do not meet never will.
-/
namespace DeviceTree

/-- A clock on a bus below a chip. The addresses of the bus have two cells, and it maps them to
those of the chip, which have one; the chip maps these to addresses of two cells. -/
def Tree.nested : Tree where
  root :=
    { name := ""
      properties := []
      children :=
        [{ name := "chip"
           properties :=
            [.ofCells "#address-cells" [1], .ofCells "ranges" [0, 1, 0x40000000, 0x10000000]]
           children :=
            [{ name := "bus"
               properties :=
                [.ofCells "ranges" [0, 0x100, 0x2000, 0x100, 0, 0x200, 0x2100, 0x100]]
               children :=
                [{ name := "rtc", properties := [.ofCells "reg" [0, 0x110, 0x10]] }] }] }] }

/-- The addresses of `length` bytes from `start` on. -/
def stretch (start length : Nat) : Set Nat :=
  Set.Ico start (start + length)

variable {start length start' length' address address' offset piece mapped mapped' : Nat}

theorem disjoint_stretch_iff : Disjoint (stretch start length) (stretch start' length') ↔
    min (start + length) (start' + length') ≤ max start start' :=
  Set.Ico_disjoint_Ico

theorem stretch_subset_iff (hlength : 0 < length) :
    stretch start length ⊆ stretch start' length' ↔
      start' ≤ start ∧ start + length ≤ start' + length' :=
  Set.Ico_subset_Ico_iff (Nat.lt_add_of_pos_right hlength)

namespace RangeEntry

variable {entry other : RangeEntry} {entries : List RangeEntry}

def childStretch (entry : RangeEntry) : Set Nat :=
  stretch entry.childBase entry.size

def parentStretch (entry : RangeEntry) : Set Nat :=
  stretch entry.parentBase entry.size

/-- No address of the children is in both entries. -/
def ChildDisjoint (entry other : RangeEntry) : Prop :=
  Disjoint entry.childStretch other.childStretch

/-- No address of the parent is in both entries. -/
def ParentDisjoint (entry other : RangeEntry) : Prop :=
  Disjoint entry.parentStretch other.parentStretch

instance : DecidableRel ChildDisjoint :=
  fun _ _ => decidable_of_iff _ disjoint_stretch_iff.symm

instance : DecidableRel ParentDisjoint :=
  fun _ _ => decidable_of_iff _ disjoint_stretch_iff.symm

instance : Std.Symm ParentDisjoint :=
  ⟨fun _ _ h => Disjoint.symm h⟩

theorem covers_iff : entry.covers address length = true ↔
    entry.childBase ≤ address ∧ address + length ≤ entry.childBase + entry.size := by
  simp [covers]

theorem covers_iff_subset (hlength : 0 < length) :
    entry.covers address length = true ↔ stretch address length ⊆ entry.childStretch := by
  rw [covers_iff, childStretch, stretch_subset_iff hlength]

/-- An entry that covers a stretch covers all parts of it. -/
theorem covers_part (hinside : offset + piece ≤ length)
    (hcovers : entry.covers address length = true) :
    entry.covers (address + offset) piece = true := by
  rw [covers_iff] at *
  omega

/-- Entries that cover a common stretch share its addresses. -/
theorem not_childDisjoint_of_covers (hlength : 0 < length)
    (hcovers : entry.covers address length = true) (hother : other.covers address length = true) :
    ¬entry.ChildDisjoint other := by
  rw [ChildDisjoint, childStretch, childStretch, disjoint_stretch_iff]
  rw [covers_iff] at hcovers hother
  omega

private theorem map_add (hcovers : entry.covers address length = true) :
    entry.map (address + offset) = entry.map address + offset := by
  rw [covers_iff] at hcovers
  simp only [map]
  omega

/-- What an entry maps lies inside its stretch of the parent. -/
theorem map_subset (hlength : 0 < length) (hcovers : entry.covers address length = true) :
    stretch (entry.map address) length ⊆ entry.parentStretch := by
  rw [covers_iff] at hcovers
  rw [parentStretch, stretch_subset_iff hlength]
  simp only [map]
  omega

theorem map_disjoint (hcovers : entry.covers address length = true)
    (hcovers' : entry.covers address' length' = true)
    (hdisjoint : Disjoint (stretch address length) (stretch address' length')) :
    Disjoint (stretch (entry.map address) length) (stretch (entry.map address') length') := by
  rw [covers_iff] at hcovers hcovers'
  rw [disjoint_stretch_iff] at *
  simp only [map]
  omega

theorem covers_of_find? (hfound : entries.find? (·.covers address length) = some entry) :
    entry.covers address length = true := by
  simpa using List.find?_some hfound

/-- Entries that share no address of the children are found by any part of what they cover. -/
theorem find?_part (hdisjoint : entries.Pairwise ChildDisjoint) (hpiece : 0 < piece)
    (hinside : offset + piece ≤ length)
    (hfound : entries.find? (·.covers address length) = some entry) :
    entries.find? (·.covers (address + offset) piece) = some entry := by
  induction entries with
  | nil => simp at hfound
  | cons first entries ih =>
    obtain ⟨hfirst, hrest⟩ := List.pairwise_cons.1 hdisjoint
    by_cases hcovers : first.covers address length = true
    · have hpart := covers_part hinside hcovers
      simpa only [List.find?_cons, hcovers, hpart] using hfound
    · rw [Bool.not_eq_true] at hcovers
      simp only [List.find?_cons, hcovers] at hfound
      have hentry : entry.covers (address + offset) piece = true :=
        covers_part hinside (covers_of_find? hfound)
      have hnot : first.covers (address + offset) piece = false := by
        rw [← Bool.not_eq_true]
        intro hboth
        exact not_childDisjoint_of_covers hpiece hboth hentry
          (hfirst entry (List.mem_of_find?_eq_some hfound))
      simp only [List.find?_cons, hnot, ih hrest hfound]

end RangeEntry

section Map

variable {cells : Cells} {count : UInt32} {value : List UInt8} {entries : List RangeEntry}
  {entry : RangeEntry}

open RangeEntry
open Registry (Ends checkEnd_eq_ok_iff)

theorem mapThrough_eq_ok_iff : mapThrough cells value address length = .ok mapped ↔
    ∃ entries entry, rangeEntries cells value = .ok entries ∧
      entries.find? (·.covers address length) = some entry ∧ mapped = entry.map address ∧
        mapped < addressLimit ∧ Ends mapped length cells.address := by
  rw [mapThrough, bind_eq_ok_iff]
  constructor
  · rintro ⟨entries, hentries, hmapped⟩
    split at hmapped
    case h_1 entry hfound =>
      dsimp only at hmapped
      split at hmapped
      · cases hmapped
      · obtain ⟨_, hend, hmapped⟩ := bind_eq_ok_iff.1 hmapped
        obtain rfl := Except.ok.inj hmapped
        exact ⟨entries, entry, hentries, hfound, rfl, by omega, checkEnd_eq_ok_iff.1 hend⟩
    case h_2 => cases hmapped
  · rintro ⟨entries, entry, hentries, hfound, rfl, hlimit, hend⟩
    refine ⟨entries, hentries, ?_⟩
    simp only [hfound, if_neg (Nat.not_le.2 hlimit), checkEnd_eq_ok_iff.2 hend, ok_bind]
    rfl

theorem Registry.Ends.part (hpiece : 0 < piece) (hinside : offset + piece ≤ length)
    (hends : Ends address length count) : Ends (address + offset) piece count := by
  rw [Ends] at *
  omega

private theorem mapThrough_part (hentries : rangeEntries cells value = .ok entries)
    (hdisjoint : entries.Pairwise ChildDisjoint) (hpiece : 0 < piece)
    (hinside : offset + piece ≤ length)
    (hmap : mapThrough cells value address length = .ok mapped) :
    mapThrough cells value (address + offset) piece = .ok (mapped + offset) := by
  obtain ⟨_, entry, hread, hfound, rfl, hlimit, hends⟩ := mapThrough_eq_ok_iff.1 hmap
  obtain rfl : entries = _ := Except.ok.inj (hentries.symm.trans hread)
  have hshift : entry.map (address + offset) = entry.map address + offset :=
    map_add (covers_of_find? hfound)
  have hlast := (hends.part hpiece hinside).le_addressLimit
  refine mapThrough_eq_ok_iff.2 ⟨entries, entry, hentries,
    find?_part hdisjoint hpiece hinside hfound, hshift.symm, by omega, hends.part hpiece hinside⟩

private theorem mapThrough_disjoint (hentries : rangeEntries cells value = .ok entries)
    (hparent : entries.Pairwise ParentDisjoint) (hlength : 0 < length) (hlength' : 0 < length')
    (hdisjoint : Disjoint (stretch address length) (stretch address' length'))
    (hmap : mapThrough cells value address length = .ok mapped)
    (hmap' : mapThrough cells value address' length' = .ok mapped') :
    Disjoint (stretch mapped length) (stretch mapped' length') := by
  obtain ⟨_, entry, hread, hfound, rfl, -⟩ := mapThrough_eq_ok_iff.1 hmap
  obtain rfl : entries = _ := Except.ok.inj (hentries.symm.trans hread)
  obtain ⟨_, entry', hread, hfound', rfl, -⟩ := mapThrough_eq_ok_iff.1 hmap'
  obtain rfl : entries = _ := Except.ok.inj (hentries.symm.trans hread)
  have hcovers := covers_of_find? hfound
  have hcovers' := covers_of_find? hfound'
  by_cases heq : entry = entry'
  · subst heq
    exact map_disjoint hcovers hcovers' hdisjoint
  · have hentry : entry.ParentDisjoint entry' := hparent.forall
      (List.mem_of_find?_eq_some hfound) (List.mem_of_find?_eq_some hfound') heq
    exact Set.disjoint_of_subset (map_subset hlength hcovers) (map_subset hlength' hcovers') hentry

end Map

namespace Registry

/-- What a device does with all addresses in the space of its children. -/
inductive Signpost
  /-- They have `cells` cells, and their way ends, at the register I/O of `bus` if that is set. -/
  | stop (cells : UInt32) (bus : Option Handle)
  /-- They go on as they are. -/
  | direct (parent : Handle)
  /-- They go on where the entries of `value` map them. -/
  | through (parent : Handle) (cells : Cells) (value : List UInt8)

variable {ι : Type} {r : Registry ι} {route : Route} {h parent : Handle} {hops : Nat}
  {cells : Cells} {count : UInt32} {bus : Option Handle} {value : List UInt8}
  {location location' : Location}

open RangeEntry (ChildDisjoint ParentDisjoint)

def signpost (r : Registry ι) (route : Route) (h : Handle) : Except Error Signpost := do
  let device ← r.device h
  if route = .ranges ∧ device.io.isSome then return .stop device.cells.childAddress (some h)
  else
    match device.parent with
    | none => return .stop device.cells.childAddress none
    | some parent =>
      match ← r.blob.property device.node route.propertyName with
      | none => return .stop device.cells.childAddress none
      | some property =>
        if property.value = [] then return .direct parent
        return .through parent device.cells property.value

def Signpost.follow (address length : Nat) : Signpost → Except Error Hop
  | stop cells bus => do
    checkEnd address length cells
    return .arrived { address, bus }
  | direct parent => return .onward parent address
  | through parent cells value => return .onward parent (← mapThrough cells value address length)

/-- An address chooses where a map leads it, and not the way. -/
theorem hop_eq : r.hop route length h address =
    r.signpost route h >>= Signpost.follow address length := by
  rw [hop, signpost]
  cases r.device h with
  | error e => rfl
  | ok device =>
    simp only [ok_bind]
    split
    · rfl
    cases device.parent with
    | none => rfl
    | some parent =>
      cases r.blob.property device.node route.propertyName with
      | error e => rfl
      | ok found =>
        cases found with
        | none => rfl
        | some property =>
          simp only [liftM_ok, ok_bind]
          split <;> rfl

private theorem resolveWithin_stop (hpost : r.signpost route h = .ok (.stop count bus)) :
    r.resolveWithin route length (hops + 1) h address =
      (do checkEnd address length count; return { address, bus }) := by
  rw [resolveWithin_succ, hop_eq, hpost, ok_bind, Signpost.follow]
  cases checkEnd address length count <;> rfl

private theorem resolveWithin_direct (hpost : r.signpost route h = .ok (.direct parent)) :
    r.resolveWithin route length (hops + 1) h address =
      r.resolveWithin route length hops parent address := by
  rw [resolveWithin_succ, hop_eq, hpost]
  rfl

theorem resolveWithin_through (hpost : r.signpost route h = .ok (.through parent cells value)) :
    r.resolveWithin route length (hops + 1) h address =
      (do r.resolveWithin route length hops parent (← mapThrough cells value address length)) := by
  rw [resolveWithin_succ, hop_eq, hpost, ok_bind, Signpost.follow]
  cases mapThrough cells value address length <;> rfl

/-- The entries of each property that addresses in the space of the children of `h` are mapped by
within `hops` devices, the nearest first. -/
def maps (r : Registry ι) (route : Route) : Nat → Handle → List (List RangeEntry)
  | 0, _ => []
  | hops + 1, h =>
    match r.signpost route h with
    | .ok (.direct parent) => r.maps route hops parent
    | .ok (.through parent cells value) =>
      match rangeEntries cells value with
      | .ok entries => entries :: r.maps route hops parent
      | .error _ => []
    | _ => []

private theorem maps_direct (hpost : r.signpost route h = .ok (.direct parent)) :
    r.maps route (hops + 1) h = r.maps route hops parent := by
  rw [maps, hpost]

private theorem maps_through {entries : List RangeEntry}
    (hpost : r.signpost route h = .ok (.through parent cells value))
    (hentries : rangeEntries cells value = .ok entries) :
    r.maps route (hops + 1) h = entries :: r.maps route hops parent := by
  rw [maps, hpost]
  simp only [hentries]

/-- A part of a stretch goes where it lies in the whole. -/
theorem resolveWithin_part (hmaps : ∀ entries ∈ r.maps route hops h, entries.Pairwise ChildDisjoint)
    (hpiece : 0 < piece) (hinside : offset + piece ≤ length)
    (hresolve : r.resolveWithin route length hops h address = .ok location) :
    r.resolveWithin route piece hops h (address + offset) =
      .ok { location with address := location.address + offset } := by
  induction hops generalizing h address with
  | zero => cases hresolve
  | succ hops ih =>
    cases hpost : r.signpost route h with
    | error e =>
      rw [resolveWithin_succ, hop_eq, hpost] at hresolve
      cases hresolve
    | ok post =>
      cases post with
      | stop count bus =>
        rw [resolveWithin_stop hpost] at hresolve ⊢
        obtain ⟨_, hend, hlocation⟩ := bind_eq_ok_iff.1 hresolve
        obtain rfl := Except.ok.inj hlocation
        have hends := (checkEnd_eq_ok_iff.1 hend).part hpiece hinside
        rw [checkEnd_eq_ok_iff.2 hends]
        rfl
      | direct parent =>
        rw [resolveWithin_direct hpost] at hresolve ⊢
        rw [maps_direct hpost] at hmaps
        exact ih hmaps hresolve
      | through parent cells value =>
        rw [resolveWithin_through hpost] at hresolve ⊢
        obtain ⟨mapped, hmap, hresolve⟩ := bind_eq_ok_iff.1 hresolve
        obtain ⟨entries, _, hentries, -⟩ := mapThrough_eq_ok_iff.1 hmap
        rw [maps_through hpost hentries] at hmaps
        obtain ⟨hfirst, hrest⟩ := List.forall_mem_cons.1 hmaps
        rw [mapThrough_part hentries hfirst hpiece hinside hmap]
        exact ih hrest hresolve

/-- Stretches that do not meet end in the same place and do not meet there. -/
theorem resolveWithin_disjoint
    (hmaps : ∀ entries ∈ r.maps route hops h, entries.Pairwise ParentDisjoint)
    (hlength : 0 < length) (hlength' : 0 < length')
    (hdisjoint : Disjoint (stretch address length) (stretch address' length'))
    (hresolve : r.resolveWithin route length hops h address = .ok location)
    (hresolve' : r.resolveWithin route length' hops h address' = .ok location') :
    location.bus = location'.bus ∧
      Disjoint (stretch location.address length) (stretch location'.address length') := by
  induction hops generalizing h address address' with
  | zero => cases hresolve
  | succ hops ih =>
    cases hpost : r.signpost route h with
    | error e =>
      rw [resolveWithin_succ, hop_eq, hpost] at hresolve
      cases hresolve
    | ok post =>
      cases post with
      | stop count bus =>
        rw [resolveWithin_stop hpost] at hresolve hresolve'
        obtain ⟨_, -, hlocation⟩ := bind_eq_ok_iff.1 hresolve
        obtain ⟨_, -, hlocation'⟩ := bind_eq_ok_iff.1 hresolve'
        obtain rfl := Except.ok.inj hlocation
        obtain rfl := Except.ok.inj hlocation'
        exact ⟨rfl, hdisjoint⟩
      | direct parent =>
        rw [resolveWithin_direct hpost] at hresolve hresolve'
        rw [maps_direct hpost] at hmaps
        exact ih hmaps hdisjoint hresolve hresolve'
      | through parent cells value =>
        rw [resolveWithin_through hpost] at hresolve hresolve'
        obtain ⟨mapped, hmap, hresolve⟩ := bind_eq_ok_iff.1 hresolve
        obtain ⟨mapped', hmap', hresolve'⟩ := bind_eq_ok_iff.1 hresolve'
        obtain ⟨entries, _, hentries, -⟩ := mapThrough_eq_ok_iff.1 hmap
        rw [maps_through hpost hentries] at hmaps
        obtain ⟨hfirst, hrest⟩ := List.forall_mem_cons.1 hmaps
        have hmapped := mapThrough_disjoint hentries hfirst hlength hlength' hdisjoint hmap hmap'
        exact ih hrest hmapped hresolve hresolve'

end Registry

namespace Bus

def nestedWindow : Window :=
  { base := 0x110, length := 0x10, resolvedBase := 0x140002010, bus := none }

def nestedRange : AddressRange :=
  { childBase := 0x100, parentBase := 0x2000, length := 0x100, resolvedParentBase := 0x140002000,
    bus := none }

def answers {σ ι α : Type} [DecidableEq α] (x : BusM σ ι α) (a : α) (bus : Bus σ ι) : Bool :=
  match x bus with
  | .ok found _ => found = a
  | .error _ _ => false

theorem exists_of_answers {σ ι α : Type} [DecidableEq α] {x : BusM σ ι α} {a : α} {bus : Bus σ ι}
    (h : answers x a bus = true) : ∃ next, x bus = .ok a next := by
  rw [answers] at h
  cases hend : x bus with
  | ok found next => exact ⟨next, by simpa [hend] using h⟩
  | error e next => simp [hend] at h

def nestedEntries : List RangeEntry :=
  [{ childBase := 0x100, parentBase := 0x2000, size := 0x100 },
    { childBase := 0x200, parentBase := 0x2100, size := 0x100 }]

/-- What a run over the nested buses shows: the entries on the way from the lower bus share no
addresses, its `ranges` map two stretches, and an entry of them and the clock are read. -/
theorem exists_nested : ∃ bus : Bus (Recorded Simulated FileNumber) FileNumber,
    Reachable Tree.nested.blob bus ∧
      (∀ h ∈ [(⟨1⟩ : Handle), ⟨2⟩], ∀ entries ∈ bus.registry.maps .ranges Registry.maximumHops h,
        entries.Pairwise RangeEntry.ChildDisjoint ∧ entries.Pairwise RangeEntry.ParentDisjoint) ∧
      bus.registry.resolve .ranges ⟨2⟩ 0x100 0x100 =
        .ok { address := 0x140002000, bus := none } ∧
      bus.registry.resolve .ranges ⟨2⟩ 0x210 0x80 =
        .ok { address := 0x140002110, bus := none } ∧
      (∃ next, range .ranges ⟨2⟩ 0 bus = .ok nestedRange next) ∧
      (∃ next, reg ⟨3⟩ 0 bus = .ok nestedWindow next) ∧
      bus.registry.HasParent ⟨3⟩ ⟨2⟩ ∧
      ∃ device property, bus.registry.device? ⟨2⟩ = some device ∧ device.io = none ∧
        device.parent = some ⟨1⟩ ∧
        bus.registry.blob.property device.node "ranges" = .ok (some property) ∧
        property.value ≠ [] ∧ rangeEntries device.cells property.value = .ok nestedEntries := by
  obtain ⟨bus, hbus, hrun⟩ : ∃ bus : Bus (Recorded Simulated FileNumber) FileNumber,
      Reachable Tree.nested.blob bus ∧
        (decide (∀ h ∈ [(⟨1⟩ : Handle), ⟨2⟩],
          ∀ entries ∈ bus.registry.maps .ranges Registry.maximumHops h,
            entries.Pairwise RangeEntry.ChildDisjoint ∧
              entries.Pairwise RangeEntry.ParentDisjoint) &&
        (bus.registry.resolve .ranges ⟨2⟩ 0x100 0x100).toOption.any
          (· = { address := 0x140002000, bus := none }) &&
        (bus.registry.resolve .ranges ⟨2⟩ 0x210 0x80).toOption.any
          (· = { address := 0x140002110, bus := none }) &&
        answers (range .ranges ⟨2⟩ 0) nestedRange bus && answers (reg ⟨3⟩ 0) nestedWindow bus &&
        ((bus.registry.device? ⟨3⟩).any fun device => device.parent = some ⟨2⟩) &&
        (bus.registry.device? ⟨2⟩).any fun device =>
          decide (device.io = none ∧ device.parent = some ⟨1⟩) &&
          (bus.registry.blob.property device.node "ranges").toOption.any fun found =>
            found.any fun property => decide (property.value ≠ []) &&
              (rangeEntries device.cells property.value).toOption.any (· = nestedEntries)) = true :=
    exists_reachable { inner := { cpu := { label := "" } } }
      [.findDevice "/chip/bus/rtc"] (by decide +kernel)
  simp only [Bool.and_eq_true, decide_eq_true_eq] at hrun
  obtain ⟨⟨⟨⟨⟨⟨hmaps, hfirst⟩, hsecond⟩, hrange⟩, hreg⟩, hbelow⟩, habove⟩ := hrun
  obtain ⟨child, hchild, hunder⟩ := Option.any_eq_true _ _ |>.1 hbelow
  obtain ⟨device, hdevice, hdevice'⟩ := Option.any_eq_true _ _ |>.1 habove
  simp only [Bool.and_eq_true, decide_eq_true_eq] at hunder hdevice'
  obtain ⟨⟨hio, hparent⟩, hproperty⟩ := hdevice'
  obtain ⟨found, hread, hfound⟩ := exists_of_any hproperty
  obtain ⟨property, rfl, hvalue⟩ := Option.any_eq_true _ _ |>.1 hfound
  simp only [Bool.and_eq_true, decide_eq_true_eq] at hvalue
  obtain ⟨hvalue, hentries⟩ := hvalue
  exact ⟨bus, hbus, hmaps, eq_ok_of_any hfirst, eq_ok_of_any hsecond, exists_of_answers hrange,
    exists_of_answers hreg, ⟨child, hchild, hunder⟩, device, property, hdevice, hio, hparent, hread,
    hvalue, eq_ok_of_any hentries⟩

end Bus

namespace Registry

variable {ι : Type} {r : Registry ι} {route : Route} {h : Handle} {location location' : Location}

open RangeEntry (ChildDisjoint ParentDisjoint)

/-- A part of a stretch ends where it lies in the whole, at the same bus, if the entries of each
property on the way share no address of the children. -/
theorem resolve_part
    (hmaps : ∀ entries ∈ r.maps route maximumHops h, entries.Pairwise ChildDisjoint)
    (hpiece : 0 < piece) (hinside : offset + piece ≤ length)
    (hresolve : r.resolve route h address length = .ok location) :
    r.resolve route h (address + offset) piece =
      .ok { address := location.address + offset, bus := location.bus } :=
  resolveWithin_part hmaps hpiece hinside hresolve

theorem resolve_part_nested : ∃ bus : Bus (Recorded Simulated FileNumber) FileNumber,
    (Bus.Reachable Tree.nested.blob bus ∧
      (∀ entries ∈ bus.registry.maps .ranges maximumHops ⟨2⟩, entries.Pairwise ChildDisjoint) ∧
      bus.registry.resolve .ranges ⟨2⟩ 0x100 0x100 =
        .ok { address := 0x140002000, bus := none }) ∧
      bus.registry.resolve .ranges ⟨2⟩ 0x1f0 0x10 =
        .ok { address := 0x1400020f0, bus := none } := by
  obtain ⟨bus, hbus, hmaps, hresolve, -⟩ := Bus.exists_nested
  have hchild : ∀ entries ∈ bus.registry.maps .ranges maximumHops ⟨2⟩,
      entries.Pairwise ChildDisjoint :=
    fun entries hentries => (hmaps ⟨2⟩ (by simp) entries hentries).1
  have hinside : 0xf0 + 0x10 ≤ 0x100 := by decide
  exact ⟨bus, ⟨hbus, hchild, hresolve⟩, resolve_part hchild (by decide) hinside hresolve⟩

/-- Stretches that do not meet end at the same bus and do not meet there, if the entries of each
property on the way share no address of the parent. -/
theorem resolve_disjoint
    (hmaps : ∀ entries ∈ r.maps route maximumHops h, entries.Pairwise ParentDisjoint)
    (hlength : 0 < length) (hlength' : 0 < length')
    (hdisjoint : Disjoint (stretch address length) (stretch address' length'))
    (hresolve : r.resolve route h address length = .ok location)
    (hresolve' : r.resolve route h address' length' = .ok location') :
    location.bus = location'.bus ∧
      Disjoint (stretch location.address length) (stretch location'.address length') :=
  resolveWithin_disjoint hmaps hlength hlength' hdisjoint hresolve hresolve'

theorem resolve_disjoint_nested : ∃ bus : Bus (Recorded Simulated FileNumber) FileNumber,
    (Bus.Reachable Tree.nested.blob bus ∧
      (∀ entries ∈ bus.registry.maps .ranges maximumHops ⟨2⟩, entries.Pairwise ParentDisjoint) ∧
      bus.registry.resolve .ranges ⟨2⟩ 0x100 0x100 =
        .ok { address := 0x140002000, bus := none } ∧
      bus.registry.resolve .ranges ⟨2⟩ 0x210 0x80 =
        .ok { address := 0x140002110, bus := none }) ∧
      Disjoint (stretch 0x140002000 0x100) (stretch 0x140002110 0x80) := by
  obtain ⟨bus, hbus, hmaps, hresolve, hresolve', -⟩ := Bus.exists_nested
  have hparent : ∀ entries ∈ bus.registry.maps .ranges maximumHops ⟨2⟩,
      entries.Pairwise ParentDisjoint :=
    fun entries hentries => (hmaps ⟨2⟩ (by simp) entries hentries).2
  have hdisjoint : Disjoint (stretch 0x100 0x100) (stretch 0x210 0x80) :=
    disjoint_stretch_iff.2 (by decide)
  obtain ⟨-, hends⟩ := resolve_disjoint hparent (by decide) (by decide) hdisjoint hresolve hresolve'
  exact ⟨bus, ⟨hbus, hparent, hresolve, hresolve'⟩, hends⟩

end Registry

end DeviceTree

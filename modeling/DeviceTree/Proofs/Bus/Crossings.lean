import DeviceTree.Proofs.Bus.Descriptions
import DeviceTree.Proofs.Bus.Mapping
import DeviceTree.Proofs.Bus.Windows

/-!
# Windows and the address spaces that they cross

A hop that maps a window checks that the parent has addresses for all of it, and so does the end of
a way. A hop through an empty property checks nothing: the device that it leads to looks at the
window when the way ends there, but hands it on otherwise, however few cells its addresses have. So
a window can pass a bus that has no addresses for it, if the end of its way has them. It fits all
spaces on its way if it fits the first and no such hop leads into fewer cells.
-/
namespace DeviceTree

/-- A bus with addresses of two cells below one with addresses of a single cell. Both hand addresses
on as they are, up to the root, where addresses have two cells again. -/
def Tree.squeezed : Tree where
  root :=
    { name := ""
      children :=
        [{ name := "outer"
           properties := [.ofCells "#address-cells" [1], .ofCells "ranges" []]
           children := [{ name := "inner", properties := [.ofCells "ranges" []] }] }] }

/-- A map overflows if the first entry that covers a stretch leads it beyond the addresses of the
parent. -/
theorem mapThrough_eq_overflow_iff {cells : Cells} {value : List UInt8} {address length : Nat}
    (hcells : cells.Decodable) :
    mapThrough cells value address length = .error (.device .addressOverflow) ↔
      WholeRanges cells value ∧ ∃ index entry,
        RangeEntry.FirstCovering cells value address length index entry ∧
          ¬Registry.Ends (entry.map address) length cells.address := by
  constructor
  · intro h
    cases (mapThrough_eq_iff hcells).1 h with
    | overflow hwhole hfirst hlong =>
      refine ⟨hwhole, _, _, hfirst, ?_⟩
      rw [Registry.ends_iff hcells.address]
      exact Nat.not_lt.2 hlong
  · rintro ⟨hwhole, index, entry, hfirst, hlong⟩
    rw [mapThrough_eq_of_first hcells hwhole hfirst, if_neg]
    rwa [Registry.ends_iff hcells.address] at hlong

namespace Registry

variable {ι : Type} {r : Registry ι} {route : Route} {length address : Nat} {h parent : Handle}
  {start here there place : Handle × Nat} {device above : Device ι} {post : Signpost}
  {location : Location} {e : Error}

deriving instance DecidableEq for Hop

/-- After the hop from `here` to `there`, the space that the device at `here` lies in has an address
for the last byte of the window. -/
def Fits (r : Registry ι) (length : Nat) (here there : Handle × Nat) : Prop :=
  ∃ device, r.device? here.1 = some device ∧ Ends there.2 length device.cells.address

/-- The children of the device at `place` have an address for the last byte of the window. -/
def Holds (r : Registry ι) (length : Nat) (place : Handle × Nat) : Prop :=
  ∃ device, r.device? place.1 = some device ∧ Ends place.2 length device.cells.childAddress

def Straight (r : Registry ι) (route : Route) (place : Handle × Nat) : Prop :=
  ∃ parent, r.signpost route place.1 = .ok (.direct parent)

def Signpost.Of (device : Device ι) : Signpost → Prop
  | stop cells _ => cells = device.cells.childAddress
  | direct parent => device.parent = some parent
  | through parent cells _ => device.parent = some parent ∧ cells = device.cells

theorem signpost_of (hpost : r.signpost route h = .ok post) :
    ∃ device, r.device? h = some device ∧ post.Of device := by
  obtain ⟨device, hdevice, hpost⟩ := bind_eq_ok_iff.1 hpost
  refine ⟨device, device_eq_ok_iff.1 hdevice, ?_⟩
  split at hpost
  · obtain rfl := Except.ok.inj hpost
    rfl
  cases hparent : device.parent with
  | none =>
    rw [hparent] at hpost
    obtain rfl := Except.ok.inj hpost
    rfl
  | some parent =>
    rw [hparent] at hpost
    obtain ⟨found, -, hpost⟩ := bind_eq_ok_iff.1 hpost
    cases found with
    | none =>
      obtain rfl := Except.ok.inj hpost
      rfl
    | some property =>
      dsimp only at hpost
      split at hpost
      · obtain rfl := Except.ok.inj hpost
        exact hparent
      · obtain rfl := Except.ok.inj hpost
        exact ⟨hparent, rfl⟩

private theorem onward_iff : r.Onward route length here there ↔
    r.signpost route here.1 = .ok (.direct there.1) ∧ there.2 = here.2 ∨
      ∃ cells value, r.signpost route here.1 = .ok (.through there.1 cells value) ∧
        mapThrough cells value here.2 length = .ok there.2 := by
  rw [Onward, hop_eq, bind_eq_ok_iff]
  constructor
  · rintro ⟨post, hpost, hfollow⟩
    cases post with
    | stop count bus =>
      obtain ⟨_, -, hfollow⟩ := bind_eq_ok_iff.1 hfollow
      cases hfollow
    | direct parent =>
      obtain ⟨rfl, hsame⟩ := Hop.onward.inj (Except.ok.inj hfollow)
      exact .inl ⟨hpost, hsame.symm⟩
    | through parent cells value =>
      obtain ⟨mapped, hmap, hfollow⟩ := bind_eq_ok_iff.1 hfollow
      obtain ⟨rfl, rfl⟩ := Hop.onward.inj (Except.ok.inj hfollow)
      exact .inr ⟨cells, value, hpost, hmap⟩
  · rintro (⟨hpost, hsame⟩ | ⟨cells, value, hpost, hmap⟩)
    · exact ⟨_, hpost, by rw [hsame]; rfl⟩
    · exact ⟨_, hpost, bind_eq_ok_iff.2 ⟨_, hmap, rfl⟩⟩

/-- A map checks what it hands on. -/
theorem Onward.fits_or_straight (h : r.Onward route length here there) :
    r.Fits length here there ∨ r.Straight route here ∧ there.2 = here.2 := by
  obtain ⟨hpost, hsame⟩ | ⟨cells, value, hpost, hmap⟩ := onward_iff.1 h
  · exact .inr ⟨⟨_, hpost⟩, hsame⟩
  · obtain ⟨device, hdevice, -, rfl⟩ := signpost_of hpost
    obtain ⟨_, _, -, -, -, -, hends⟩ := mapThrough_eq_ok_iff.1 hmap
    exact .inl ⟨device, hdevice, hends⟩

/-- The addresses that a device lies among are those of the children of its parent. -/
theorem Truthful.childAddress_eq (htrue : r.Truthful) (hsound : r.Sound)
    (hd : r.device? h = some device) (hparent : device.parent = some parent)
    (habove : r.device? parent = some above) : above.cells.childAddress = device.cells.address := by
  obtain ⟨same, hsame, -, hblob⟩ := hsound.parent_live hd hparent
  obtain rfl : same = above := by simpa [hsame] using habove
  obtain ⟨found, hfound, hcells⟩ := (htrue h device hd).cells
  obtain rfl : found = some same.node := by simpa [hblob] using hfound.symm
  obtain ⟨_, -, hcells'⟩ := (htrue parent same hsame).cells
  obtain ⟨hchild, -⟩ := Blob.cells_eq_ok hcells'
  obtain ⟨-, -, haddress, -⟩ := Blob.cells_eq_ok hcells
  exact Except.ok.inj (hchild.symm.trans haddress)

theorem Onward.holds_iff_fits (honward : r.Onward route length here there) (htrue : r.Truthful)
    (hsound : r.Sound) : r.Holds length there ↔ r.Fits length here there := by
  obtain ⟨device, hd, hparent⟩ := hop_eq_onward honward
  obtain ⟨above, habove, -⟩ := hsound.parent_live hd hparent
  have hcells : above.cells.childAddress = device.cells.address :=
    htrue.childAddress_eq hsound hd hparent habove
  simp only [Holds, Fits, hd, habove, Option.some.injEq, exists_eq_left', hcells]

private theorem holds_of_arrived
    (hhop : r.hop route length place.1 place.2 = .ok (.arrived location)) :
    r.Holds length place := by
  obtain ⟨device, hd, ⟨_, -, hends, -⟩ | ⟨_, _, heq, -⟩⟩ := hop_eq_ok hhop
  · exact ⟨device, hd, hends⟩
  · cases heq

theorem Onward.fits (honward : r.Onward route length here there) (hholds : r.Holds length here)
    (hwide : r.Straight route here → ∀ device, r.device? here.1 = some device →
      device.cells.childAddress ≤ device.cells.address) : r.Fits length here there := by
  obtain hfits | ⟨hstraight, hsame⟩ := honward.fits_or_straight
  · exact hfits
  · obtain ⟨device, hd, hends⟩ := hholds
    have hcells := UInt32.le_iff_toNat_le.1 (hwide hstraight device hd)
    refine ⟨device, hd, ?_⟩
    rw [Ends, hsame]
    exact Nat.lt_of_lt_of_le hends (Cell.limit_le (by omega))

/-- Where the signpost leads it, the window has no address for its last byte, and this is found. -/
def Signpost.Overrun (address length : Nat) : Signpost → Prop
  | stop cells _ => ¬Ends address length cells
  | direct _ => False
  | through _ cells value => WholeRanges cells value ∧ ∃ index entry,
      RangeEntry.FirstCovering cells value address length index entry ∧
        ¬Ends (entry.map address) length cells.address

/-- The device at `place` ends the way of a window that it does not hold, or maps one to where it
does not fit. -/
def Overruns (r : Registry ι) (route : Route) (length : Nat) (place : Handle × Nat) : Prop :=
  ∃ post, r.signpost route place.1 = .ok post ∧ post.Overrun place.2 length

theorem signpost_ne_error (hstale : .invalidParameter .staleHandle ≠ e)
    (hparse : ∀ fault, .ofParse fault ≠ e) : r.signpost route h ≠ .error e := by
  refine bind_ne_error (device_ne_error hstale) fun device => ?_
  split
  · exact ok_ne_error
  split
  · exact ok_ne_error
  refine bind_ne_error (liftM_ne_error hparse _) fun found => ?_
  split
  · exact ok_ne_error
  split
  · exact ok_ne_error
  · exact ok_ne_error

private theorem follow_eq_overflow_iff (hof : post.Of device) (hcells : device.cells.Decodable) :
    post.follow address length = .error (.device .addressOverflow) ↔
      post.Overrun address length := by
  cases post with
  | stop count bus =>
    rw [Signpost.Overrun, ← checkEnd_eq_error_iff, Signpost.follow]
    cases checkEnd address length count <;> simp
  | direct parent => exact iff_of_false ok_ne_error id
  | through parent cells value =>
    obtain ⟨-, rfl⟩ := hof
    rw [Signpost.Overrun, ← mapThrough_eq_overflow_iff hcells, Signpost.follow]
    cases mapThrough device.cells value address length <;> simp

theorem Truthful.hop_eq_overflow_iff (htrue : r.Truthful) :
    r.hop route length place.1 place.2 = .error (.device .addressOverflow) ↔
      r.Overruns route length place := by
  rw [hop_eq, Overruns]
  cases hpost : r.signpost route place.1 with
  | error e =>
    have hne : r.signpost route place.1 ≠ .error (.device .addressOverflow) :=
      signpost_ne_error (by simp) (by simp [Error.ofParse])
    simpa [hpost, error_bind] using hne
  | ok post =>
    obtain ⟨device, hd, hof⟩ := signpost_of hpost
    have hcells : device.cells.Decodable := (htrue place.1 device hd).decodable
    rw [ok_bind, follow_eq_overflow_iff hof hcells]
    simp

/-- Hops lead from one place to another. -/
abbrev Way (r : Registry ι) (route : Route) (length : Nat) : Handle × Nat → Handle × Nat → Prop :=
  Relation.ReflTransGen (r.Onward route length)

/-- If no straight hop leads into fewer cells, what the first device holds is held all the way. -/
theorem Truthful.holds_of_way (htrue : r.Truthful) (hsound : r.Sound)
    (hstart : r.Holds length start)
    (hwide : ∀ place, r.Way route length start place → r.Straight route place →
      ∀ device, r.device? place.1 = some device →
        device.cells.childAddress ≤ device.cells.address)
    (hway : r.Way route length start place) : r.Holds length place := by
  induction hway with
  | refl => exact hstart
  | @tail here there hbefore honward ih =>
    exact (honward.holds_iff_fits htrue hsound).2 (honward.fits ih (hwide here hbefore))

namespace Sound

variable (hsound : r.Sound)

/-- An address ends where all places on its way do. -/
theorem resolve_of_way (hway : r.Way route length start place) :
    hsound.resolve route length start.1 start.2 = hsound.resolve route length place.1 place.2 := by
  induction hway with
  | refl => rfl
  | tail _ honward ih => exact ih.trans (hsound.resolve_onward honward)

private theorem resolve_eq_error_iff : hsound.resolve route length h address = .error e ↔
    ∃ place, r.Way route length (h, address) place ∧
      r.hop route length place.1 place.2 = .error e := by
  constructor
  · intro hresolve
    fun_induction resolve hsound route length h address with
    | case1 h address fault hhop =>
      obtain rfl := Except.error.inj hresolve
      exact ⟨(h, address), .refl, hhop⟩
    | case2 => cases hresolve
    | case3 h address parent onward hhop _ ih =>
      obtain ⟨place, hway, hfails⟩ := ih hresolve
      have hfirst : r.Onward route length (h, address) (parent, onward) := hhop
      exact ⟨place, .head hfirst hway, hfails⟩
  · rintro ⟨place, hway, hhop⟩
    exact (hsound.resolve_of_way hway).trans (hsound.resolve_error hhop)

/-- If the way of a window ends well, a hop that the window does not fit is straight and not the
last one. -/
theorem fits_or_straight (htrue : r.Truthful)
    (hresolve : hsound.resolve route length start.1 start.2 = .ok location)
    (hway : r.Way route length start here) (honward : r.Onward route length here there) :
    r.Fits length here there ∨
      r.Straight route here ∧ ∃ next, r.Onward route length there next := by
  obtain hfits | ⟨hstraight, -⟩ := honward.fits_or_straight
  · exact .inl hfits
  have hthere : hsound.resolve route length there.1 there.2 = .ok location := by
    rw [← hsound.resolve_of_way (hway.tail honward), hresolve]
  cases hhop : r.hop route length there.1 there.2 with
  | error e =>
    rw [hsound.resolve_error hhop] at hthere
    cases hthere
  | ok result =>
    cases result with
    | arrived found => exact .inl ((honward.holds_iff_fits htrue hsound).1 (holds_of_arrived hhop))
    | onward parent address => exact .inr ⟨hstraight, (parent, address), hhop⟩

end Sound

end Registry

namespace Bus

variable {σ ι : Type} [Platform σ ι] {b : Blob} {bus : Bus σ ι}

/-- What a run over the squeezed buses shows: an address of two cells passes the outer one. -/
theorem exists_squeezed : ∃ bus : Bus (Recorded Simulated FileNumber) FileNumber,
    Reachable Tree.squeezed.blob bus ∧
      bus.registry.resolve .ranges ⟨2⟩ 0x100000000 0x10 =
        .ok { address := 0x100000000, bus := none } ∧
      bus.registry.Onward .ranges 0x10 (⟨2⟩, 0x100000000) (⟨1⟩, 0x100000000) ∧
      ¬bus.registry.Fits 0x10 (⟨2⟩, 0x100000000) (⟨1⟩, 0x100000000) := by
  obtain ⟨bus, hbus, hrun⟩ : ∃ bus : Bus (Recorded Simulated FileNumber) FileNumber,
      Reachable Tree.squeezed.blob bus ∧
        ((bus.registry.resolve .ranges ⟨2⟩ 0x100000000 0x10).toOption.any
          (· = { address := 0x100000000, bus := none }) &&
        (bus.registry.hop .ranges 0x10 ⟨2⟩ 0x100000000).toOption.any
          (· = .onward ⟨1⟩ 0x100000000) &&
        (bus.registry.device? ⟨2⟩).any fun device => device.cells.address = 1) = true :=
    exists_reachable { inner := { cpu := { label := "" } } }
      [.findDevice "/outer/inner"] (by decide +kernel)
  simp only [Bool.and_eq_true] at hrun
  obtain ⟨⟨hresolve, hhop⟩, hcells⟩ := hrun
  refine ⟨bus, hbus, eq_ok_of_any hresolve, eq_ok_of_any hhop, ?_⟩
  rintro ⟨device, hdevice, hends⟩
  obtain ⟨same, hsame, hone⟩ := Option.any_eq_true _ _ |>.1 hcells
  obtain rfl : same = device := by simpa [hsame] using hdevice
  rw [Registry.Ends, of_decide_eq_true hone] at hends
  exact absurd hends (by decide)

/-- When an address is resolved on a reachable bus, every hop leads to where the window fits, unless
it is straight and another one follows. All hops do if the first device holds the window and no
straight one leads into fewer cells. An overflow is reported if, and only if, the way is not too
long and leads to a device that finds one. -/
theorem Reachable.crossings (hbus : Reachable b bus) (route : Route) (h : Handle)
    (address length : Nat) :
    (∀ location, bus.registry.resolve route h address length = .ok location →
      ∀ here there, bus.registry.Way route length (h, address) here →
        bus.registry.Onward route length here there →
          bus.registry.Fits length here there ∨ bus.registry.Straight route here ∧
            ∃ next, bus.registry.Onward route length there next) ∧
    (bus.registry.Holds length (h, address) →
      (∀ place, bus.registry.Way route length (h, address) place →
        bus.registry.Straight route place → ∀ device,
          bus.registry.device? place.1 = some device →
            device.cells.childAddress ≤ device.cells.address) →
      ∀ here there, bus.registry.Way route length (h, address) here →
        bus.registry.Onward route length here there → bus.registry.Fits length here there) ∧
    (bus.registry.resolve route h address length = .error (.device .addressOverflow) ↔
      hbus.registry_sound.hops route length h address ≤ Registry.maximumHops ∧
        ∃ place, bus.registry.Way route length (h, address) place ∧
          bus.registry.Overruns route length place) := by
  have hsound := hbus.registry_sound
  have hloop : bus.registry.resolve route h address length =
      if hsound.hops route length h address ≤ Registry.maximumHops then
        hsound.resolve route length h address
      else .error (.device .tooManyHops) := hsound.resolveWithin_eq
  refine ⟨?_, ?_, ?_⟩
  · intro location hresolve here there hway honward
    rw [hloop] at hresolve
    split at hresolve
    · exact hsound.fits_or_straight hbus.truthful hresolve hway honward
    · cases hresolve
  · intro hholds hwide here there hway honward
    exact honward.fits (hbus.truthful.holds_of_way hsound hholds hwide hway) (hwide here hway)
  · rw [hloop]
    split
    case isTrue hshort =>
      simp only [hsound.resolve_eq_error_iff, hbus.truthful.hop_eq_overflow_iff, hshort, true_and]
    case isFalse hlong => simp [hlong]

/-- The hop out of the inner bus is one that the window does not fit, so it is straight and another
one follows. -/
theorem crossings_squeezed : ∃ bus : Bus (Recorded Simulated FileNumber) FileNumber,
    (Reachable Tree.squeezed.blob bus ∧
      bus.registry.resolve .ranges ⟨2⟩ 0x100000000 0x10 =
        .ok { address := 0x100000000, bus := none } ∧
      bus.registry.Onward .ranges 0x10 (⟨2⟩, 0x100000000) (⟨1⟩, 0x100000000)) ∧
      bus.registry.Straight .ranges (⟨2⟩, 0x100000000) ∧
      ∃ next, bus.registry.Onward .ranges 0x10 (⟨1⟩, 0x100000000) next := by
  obtain ⟨bus, hbus, hresolve, honward, hfits⟩ := exists_squeezed
  obtain ⟨hhops, -⟩ := hbus.crossings .ranges ⟨2⟩ 0x100000000 0x10
  have hpassed := (hhops _ hresolve _ _ .refl honward).resolve_left hfits
  exact ⟨bus, ⟨hbus, hresolve, honward⟩, hpassed⟩

/-- A window that is resolved may have crossed a space that has no address for its last byte. -/
theorem exists_not_fits : ¬∀ (b : Blob) (bus : Bus (Recorded Simulated FileNumber) FileNumber),
    Reachable b bus → ∀ h address length location,
      bus.registry.resolve .ranges h address length = .ok location →
        ∀ here there, bus.registry.Way .ranges length (h, address) here →
          bus.registry.Onward .ranges length here there →
            bus.registry.Fits length here there := by
  intro hall
  obtain ⟨bus, hbus, hresolve, honward, hfits⟩ := exists_squeezed
  exact hfits (hall _ bus hbus _ _ _ _ hresolve _ _ .refl honward)

end Bus

end DeviceTree

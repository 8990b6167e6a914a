import DeviceTree.Proofs.Bus.Crossings
import DeviceTree.Proofs.Bus.Places
import DeviceTree.Proofs.Bus.Replies
import DeviceTree.Proofs.Bus.Widths

/-!
# Where the entries of a property end

An entry is not found if its address has no cells or if it does not lie in the property as a whole,
and for no other reason: neither the way of its address nor the kind of its memory is ever reported
so. So those who ask for one entry after another until none is found have come past all of them.
-/
namespace DeviceTree

abbrev notFound {α : Type} : Except Error α :=
  .error .notFound

/-- What fails for want of something alone is missed exactly where that is not there. -/
theorem eq_notFound_iff {α : Type} {x : Except Error α} {there : Prop}
    (hthere : (∃ a, x = .ok a) ↔ there) (hfails : ∀ e, .notFound ≠ e → x ≠ .error e) :
    x = notFound ↔ ¬there := by
  rw [← hthere]
  cases x with
  | ok a => simp
  | error e =>
    by_cases he : .notFound = e
    · simp [← he]
    · exact absurd rfl (hfails e he)

namespace Cursor

variable {cells : Cells} {c : Cursor} {name : String} {value : List UInt8} {width index : Nat}
  {e : Error}

private theorem hasEntry_start_iff (hwidth : width ≠ 0) :
    (start name value).HasEntry width index ↔ index < value.length / (4 * width) := by
  have hpos : 0 < 4 * width := by omega
  rw [Nat.lt_iff_add_one_le, Nat.le_div_iff_mul_le hpos, Nat.mul_comm, ← stride_eq]
  refine ⟨fun h => ?_, fun h => ⟨Nat.zero_mod _, ?_⟩⟩
  · simpa [start] using h.le
  · simpa [start] using h

private theorem seekEntry_start_ne_error (hfound : .notFound ≠ e) :
    seekEntry index width (start name value) ≠ .error e := by
  by_cases hwidth : width = 0
  · rw [seekEntry, if_pos hwidth]
    exact ok_ne_error
  · rw [seekEntry_eq hwidth, if_neg (by simp [start])]
    exact bind_ne_error (Avoids.skipElements hfound index width _) fun _ => ok_ne_error

/-- An entry is missed if it may not be read at all or there are too few whole ones. -/
theorem seekEntry_bind_eq_notFound_iff {α : Type} {next : Nat → Reader α} {allowed : Prop}
    {result : Nat → List UInt8 → α}
    (hnext : ∀ place, Reads (next place) allowed (result place) (width * Cell.size))
    (hwidth : allowed → width ≠ 0) (hfails : ∀ e, .notFound ≠ e → ∀ place, Avoids e (next place)) :
    (seekEntry index width >>= next) (start name value) = notFound ↔
      ¬allowed ∨ value.length / (4 * width) < index + 1 := by
  have hthere : (∃ read, (seekEntry index width >>= next) (start name value) = .ok read) ↔
      allowed ∧ (start name value).HasEntry width index := by
    simp only [Prod.exists, seekEntry_bind_eq_ok_iff hnext hwidth]
    constructor
    · rintro ⟨_, _, hcond, -, -⟩
      exact hcond
    · intro hcond
      obtain ⟨moved, hmoved⟩ := exists_advanced hcond.2.le
      exact ⟨_, moved, hcond, rfl, hmoved⟩
  have hother : ∀ e, .notFound ≠ e →
      (seekEntry index width >>= next) (start name value) ≠ .error e := fun e hfound =>
    bind_ne_error (seekEntry_start_ne_error hfound) fun first => hfails e hfound first.1 first.2
  rw [eq_notFound_iff hthere hother, not_and_or]
  by_cases hallowed : allowed
  · rw [hasEntry_start_iff (hwidth hallowed), Nat.not_lt, Nat.lt_add_one_iff]
  · exact iff_of_true (.inl hallowed) (.inl hallowed)

theorem readRegEntry_eq_notFound_iff (hcells : cells.Decodable) :
    readRegEntry index cells (start name value) = notFound ↔
      cells.address = 0 ∨ value.length / (4 * cells.regWidth) < index + 1 := by
  have hdecodes : ¬DecodesReg cells ↔ cells.address = 0 := by
    simp [DecodesReg, hcells.address, hcells.size]
  rw [← hdecodes]
  exact seekEntry_bind_eq_notFound_iff (reads_reg cells) DecodesReg.regWidth_ne_zero
    fun e hfound _ => (Avoids.readAddress hfound fun _ => hcells.address).bind fun _ =>
      (Avoids.readElement hfound fun _ => hcells.size).bind fun _ => .pure _

theorem readRangesEntry_eq_notFound_iff (hcells : cells.Decodable) :
    readRangesEntry index cells (start name value) = notFound ↔
      (cells.childAddress = 0 ∨ cells.address = 0) ∨
        value.length / (4 * cells.rangeWidth) < index + 1 := by
  have hdecodes : ¬DecodesRanges cells ↔ cells.childAddress = 0 ∨ cells.address = 0 := by
    simp [DecodesRanges, hcells.address, hcells.childAddress, hcells.childSize, imp_iff_not_or]
  rw [← hdecodes]
  exact seekEntry_bind_eq_notFound_iff (reads_ranges cells) DecodesRanges.rangeWidth_ne_zero
    fun e hfound _ => (Avoids.readAddress hfound fun _ => hcells.childAddress).bind fun _ =>
      (Avoids.readAddress hfound fun _ => hcells.address).bind fun _ =>
        (Avoids.readElement hfound fun _ => hcells.childSize).bind fun _ => .pure _

end Cursor

theorem mapThrough_ne_notFound {cells : Cells} (hcells : cells.Decodable) (value : List UInt8)
    (address length : Nat) : mapThrough cells value address length ≠ notFound := by
  intro hmap
  cases (mapThrough_eq_iff hcells).1 hmap

theorem ofParse_ne_notFound (fault : ParseError) : .ofParse fault ≠ Error.notFound := by
  simp [Error.ofParse]

theorem Blob.memoryKind_ne_notFound {b : Blob} {n : Node} {name : String} {place : Nat} :
    b.memoryKind n name place ≠ notFound :=
  memoryKind_ne_error ofParse_ne_notFound (by simp) (by simp) (by simp)

namespace Registry

variable {ι : Type} {r : Registry ι} {route : Route} {h : Handle} {device : Device ι}
  {name : String} {value : List UInt8} {address length index : Nat}

theorem checkEnd_ne_notFound (count : UInt32) : checkEnd address length count ≠ notFound := by
  rw [checkEnd]
  split
  · exact ok_ne_error
  · exact error_ne_error (by simp)

namespace Truthful

variable (htrue : r.Truthful)

include htrue

theorem hop_ne_notFound : r.hop route length h address ≠ notFound := by
  rw [hop_eq]
  cases hpost : r.signpost route h with
  | error e =>
    have hne : r.signpost route h ≠ notFound := signpost_ne_error (by simp) ofParse_ne_notFound
    simpa [hpost, error_bind] using hne
  | ok post =>
    obtain ⟨device, hd, hof⟩ := signpost_of hpost
    rw [ok_bind]
    cases post with
    | stop count bus => exact bind_ne_error (checkEnd_ne_notFound count) fun _ => ok_ne_error
    | direct parent => exact ok_ne_error
    | through parent cells value =>
      obtain ⟨-, rfl⟩ := hof
      have hcells := (htrue h device hd).decodable
      exact bind_ne_error (mapThrough_ne_notFound hcells value address length) fun _ => ok_ne_error

theorem resolve_ne_notFound : r.resolve route h address length ≠ notFound :=
  resolve_ne_error (fun _ _ => htrue.hop_ne_notFound) (by simp) h address

variable (hdevice : r.device? h = some device)

include hdevice

/-- A `reg` entry is missed where it is not there, whatever its address and its kind are. -/
theorem readReg_eq_notFound_iff : r.readReg h (.start name value) index = notFound ↔
    device.cells.address = 0 ∨ value.length / (4 * device.cells.regWidth) < index + 1 := by
  rw [readReg, device_eq_ok_iff.2 hdevice, ok_bind, bind_eq_error_iff,
    Cursor.readRegEntry_eq_notFound_iff (htrue h device hdevice).decodable]
  exact fun _ => bind_ne_error htrue.resolve_ne_notFound fun _ =>
    bind_ne_error (claimFor_ne_error Blob.memoryKind_ne_notFound) fun _ => ok_ne_error

theorem readRange_eq_notFound_iff : r.readRange h (.start name value) index = notFound ↔
    (device.cells.childAddress = 0 ∨ device.cells.address = 0) ∨
      value.length / (4 * device.cells.rangeWidth) < index + 1 := by
  rw [readRange, device_eq_ok_iff.2 hdevice, ok_bind, bind_eq_error_iff,
    Cursor.readRangesEntry_eq_notFound_iff (htrue h device hdevice).decodable]
  refine fun _ => bind_ne_error htrue.resolve_ne_notFound fun _ => ?_
  split
  · exact bind_ne_error (claimFor_ne_error Blob.memoryKind_ne_notFound) fun _ => ok_ne_error
  · exact ok_ne_error

end Truthful

end Registry

namespace Bus

open Platform (Obeys)

variable {σ ι α : Type} [Platform σ ι] {b : Blob} {bus next later : Bus σ ι} {h : Handle}
  {device : Device ι}

def claimed (question : Registry ι → Except Error (EntryRead α)) : BusM σ ι α := do
  return (← settle (← ask question)).1

section Claimed

variable {question : Registry ι → Except Error (EntryRead α)}

private theorem steady_claimed :
    Ensures (claimed question) bus (fun _ => Steady bus) (Steady bus) := by
  rw [claimed, ensures_bind, ensures_ask]
  refine ⟨fun read _ => ?_, fun _ _ => .refl bus⟩
  rw [ensures_bind]
  exact (steady_settle read).imp (fun _ _ hend => hend.2) fun _ => id

theorem claimed_eq_notFound_iff (hclaims : Obeys Event.ClaimFound bus.platform) :
    claimed question bus = .error .notFound later ↔
      later = bus ∧ question bus.registry = notFound := by
  simp only [claimed, bind, EStateM.bind, InPlace.ask_apply]
  cases question bus.registry with
  | error e => simp [eq_comm, and_comm]
  | ok read =>
    refine iff_of_false (fun hend => ?_) (by simp)
    cases hsettle : settle read bus with
    | ok answer end_ => simp [hsettle, pure, EStateM.pure] at hend
    | error e end_ =>
      obtain ⟨c, -, hreply⟩ := settle_eq_error hsettle
      simp only [hsettle, EStateM.Result.error.injEq] at hend
      exact hclaims.reply (.claim c) (hend.1 ▸ hreply)

end Claimed

private theorem reg_eq_claimed {cursor : Cursor}
    (hcursor : bus.registry.property h "reg" = .ok cursor)
    (index : Nat) : reg h index bus = claimed (·.readReg h cursor index) bus := by
  simp only [reg, parseReg, claimed, bind_assoc]
  simp only [bind, EStateM.bind, InPlace.ask_apply, hcursor]

private theorem range_eq_claimed {route : Route} {cursor : Cursor}
    (hcursor : bus.registry.property h route.propertyName = .ok cursor) (index : Nat) :
    range route h index bus = claimed (·.readRange h cursor index) bus := by
  simp only [range, parseRange, claimed, bind_assoc]
  simp only [bind, EStateM.bind, InPlace.ask_apply, hcursor]

/-- One entry after another is asked for, from `index` on and whatever comes of each, until one is
not found. What came of the others is `outcomes`, and `later` is the bus that is left. -/
inductive Enumerates (get : Nat → BusM σ ι α) :
    Nat → Bus σ ι → List (Except Error α) → Bus σ ι → Prop
  | done {index : Nat} {bus later : Bus σ ι} (missing : get index bus = .error .notFound later) :
    Enumerates get index bus [] later
  | found {index : Nat} {bus next later : Bus σ ι} {a : α} {outcomes : List (Except Error α)}
    (found : get index bus = .ok a next) (rest : Enumerates get (index + 1) next outcomes later) :
    Enumerates get index bus (.ok a :: outcomes) later
  | failed {index : Nat} {bus next later : Bus σ ι} {e : Error} {outcomes : List (Except Error α)}
    (failed : get index bus = .error e next) (other : e ≠ .notFound)
    (rest : Enumerates get (index + 1) next outcomes later) :
    Enumerates get index bus (.error e :: outcomes) later

/-- The entries before `count`, and no others, are found or fail in another way, now and after any
of them was asked for. -/
structure Counted (bus : Bus σ ι) (get : Nat → BusM σ ι α) (count : Nat) : Prop where
  missing_iff : ∀ next, Steady bus next → ∀ index later,
    get index next = .error .notFound later ↔ later = next ∧ count ≤ index
  steady : ∀ next, Steady bus next → ∀ index,
    Ensures (get index) next (fun _ => Steady next) (Steady next)

section Counted

variable {get : Nat → BusM σ ι α} {count index : Nat} {outcomes : List (Except Error α)}

theorem Counted.onward (h : Counted bus get count) (hnext : Steady bus next) :
    Counted next get count :=
  ⟨fun last hlast => h.missing_iff last (hnext.trans hlast),
    fun last hlast => h.steady last (hnext.trans hlast)⟩

theorem Counted.of_ok {a : α} (h : Counted bus get count) (hget : get index bus = .ok a next) :
    Counted next get count :=
  h.onward ((h.steady bus (.refl bus) index).of_ok hget)

private theorem Counted.of_error {e : Error} (h : Counted bus get count)
    (hget : get index bus = .error e next) : Counted next get count := by
  have hsteady := h.steady bus (.refl bus) index
  rw [Ensures, hget] at hsteady
  exact h.onward hsteady

theorem Counted.lt_iff (h : Counted bus get count) :
    index < count ↔ ∀ later, get index bus ≠ .error .notFound later := by
  constructor
  · intro hlt later hget
    exact Nat.not_le.2 hlt ((h.missing_iff bus (.refl bus) index later).1 hget).2
  · intro hget
    by_contra hle
    exact hget bus ((h.missing_iff bus (.refl bus) index bus).2 ⟨rfl, Nat.not_lt.1 hle⟩)

/-- The entries come to an end. -/
theorem Counted.exists_enumerates (h : Counted bus get count) (left : Nat)
    (hleft : index + left = count) : ∃ outcomes later, Enumerates get index bus outcomes later := by
  induction left generalizing bus index with
  | zero =>
    exact ⟨[], bus, .done ((h.missing_iff bus (.refl bus) index bus).2 ⟨rfl, by omega⟩)⟩
  | succ left ih =>
    have honward : index + 1 + left = count := by omega
    cases hget : get index bus with
    | ok a next =>
      obtain ⟨outcomes, later, hrest⟩ := ih (h.of_ok hget) honward
      exact ⟨_, later, .found hget hrest⟩
    | error e next =>
      obtain ⟨outcomes, later, hrest⟩ := ih (h.of_error hget) honward
      have hother : e ≠ .notFound := by
        rintro rfl
        exact h.lt_iff.1 (by omega) next hget
      exact ⟨_, later, .failed hget hother hrest⟩

theorem Counted.length_eq (h : Counted bus get count)
    (hrun : Enumerates get index bus outcomes later) (hindex : index ≤ count) :
    index + outcomes.length = count := by
  induction hrun with
  | @done index bus later hget =>
    have hend := ((h.missing_iff bus (.refl bus) index later).1 hget).2
    exact Nat.le_antisymm hindex hend
  | @found index bus next later a outcomes hget hrest ih =>
    have hlt : index < count := h.lt_iff.2 (by simp [hget])
    have hrest := ih (h.of_ok hget) hlt
    rw [List.length_cons]
    omega
  | @failed index bus next later e outcomes hget hother hrest ih =>
    have hlt : index < count := h.lt_iff.2 (by simp [hget, hother])
    have hrest := ih (h.of_error hget) hlt
    rw [List.length_cons]
    omega

end Counted

/-- Where the entries end that `get` looks up, of which the property holds `whole` ones: none of
them is there if they are `addressless`, and otherwise each of them is, though it may fail to be
resolved or claimed. -/
structure EndsAt (bus : Bus σ ι) (get : Nat → BusM σ ι α) (addressless : Prop) (whole : Nat) :
    Prop where
  missing_iff : ∀ index, (∃ later, get index bus = .error .notFound later) ↔
    addressless ∨ whole < index + 1
  stays : ∀ index later, get index bus = .error .notFound later → later = bus
  /-- Those who ask for one after another come to an end. -/
  ends : ∃ outcomes later, Enumerates get 0 bus outcomes later
  visits : ∀ outcomes later, Enumerates get 0 bus outcomes later →
    (addressless → outcomes = []) ∧ (¬addressless → outcomes.length = whole)

/-- It is enough that an entry is read wherever it is there. -/
theorem endsAt_of_read {get : Nat → BusM σ ι α} {addressless : Prop} {whole : Nat}
    (read : Nat → Registry ι → Except Error (EntryRead α))
    (hclaims : Obeys Event.ClaimFound bus.platform)
    (hget : ∀ next, Steady bus next → ∀ index, get index next = claimed (read index) next)
    (hread : ∀ index, read index bus.registry = notFound ↔ addressless ∨ whole < index + 1) :
    EndsAt bus get addressless whole := by
  have hmissing (next : Bus σ ι) (hnext : Steady bus next) (index : Nat) (later : Bus σ ι) :
      get index next = .error .notFound later ↔
        later = next ∧ (addressless ∨ whole < index + 1) := by
    rw [hget next hnext, claimed_eq_notFound_iff (hnext.obeys _ hclaims), hnext.registry, hread]
  have hcounted (count : Nat) (hcount : ∀ index, addressless ∨ whole < index + 1 ↔ count ≤ index) :
      Counted bus get count := by
    refine ⟨fun next hnext index later => ?_, fun next hnext index => ?_⟩
    · rw [hmissing next hnext, hcount]
    · rw [Ensures, hget next hnext]
      exact steady_claimed
  have hstays (index : Nat) (later : Bus σ ι) (h : get index bus = .error .notFound later) :
      later = bus := ((hmissing bus (.refl bus) index later).1 h).1
  have hiff (index : Nat) : (∃ later, get index bus = .error .notFound later) ↔
      addressless ∨ whole < index + 1 := by
    simp only [hmissing bus (.refl bus), exists_eq_left]
  by_cases hnone : addressless
  · have hcounted := hcounted 0 fun index => iff_of_true (.inl hnone) (Nat.zero_le index)
    refine ⟨hiff, hstays, hcounted.exists_enumerates 0 rfl, fun outcomes later hrun => ?_⟩
    have hlength := hcounted.length_eq hrun (Nat.le_refl 0)
    exact ⟨fun _ => List.eq_nil_of_length_eq_zero (by omega), fun h => absurd hnone h⟩
  · have hcounted := hcounted whole fun index => by rw [or_iff_right hnone, Nat.lt_add_one_iff]
    refine ⟨hiff, hstays, hcounted.exists_enumerates whole (Nat.zero_add whole),
      fun outcomes later hrun => ?_⟩
    have hlength := hcounted.length_eq hrun (Nat.zero_le whole)
    exact ⟨fun h => absurd h hnone, fun _ => by omega⟩

/-- An entry of a live device is not found exactly if its addresses have no cells or the property
holds too few whole entries, on a platform that does not answer so to a claim. So an enumeration up
to there meets each whole entry once, and no failure to resolve an address, to know a kind or to
read the tree ends it. -/
theorem Reachable.endsAt (hbus : Reachable b bus) (hdevice : bus.registry.device? h = some device)
    (hclaims : Obeys Event.ClaimFound bus.platform) :
    (∀ p, b.property device.node "reg" = .ok (some p) →
      EndsAt bus (reg h) (device.cells.address = 0)
        (p.value.length / (4 * device.cells.regWidth))) ∧
    (∀ (route : Route) p, b.property device.node route.propertyName = .ok (some p) →
      EndsAt bus (range route h) (device.cells.childAddress = 0 ∨ device.cells.address = 0)
        (p.value.length / (4 * device.cells.rangeWidth))) ∧
    (∀ route place address length,
      bus.registry.resolve route place address length ≠ notFound) ∧
    (∀ name place, b.memoryKind device.node name place ≠ notFound) ∧
    ∀ fault : ParseError, .ofParse fault ≠ Error.notFound := by
  obtain ⟨rfl, -⟩ := hbus.sound
  have htrue := hbus.truthful
  have hcursor {name : String} {p : Property}
      (hp : bus.registry.blob.property device.node name = .ok (some p)) :
      bus.registry.property h name = .ok (.start p.name p.value) := by
    simp only [Registry.property, Registry.device_eq_ok_iff.2 hdevice, hp, ok_bind, liftM_ok]
    rfl
  refine ⟨fun p hp => ?_, fun route p hp => ?_, fun _ _ _ _ => htrue.resolve_ne_notFound,
    fun _ _ => Blob.memoryKind_ne_notFound, ofParse_ne_notFound⟩
  · refine endsAt_of_read (fun index r => r.readReg h (.start p.name p.value) index) hclaims
      (fun next hnext index => reg_eq_claimed ?_ index)
      fun index => htrue.readReg_eq_notFound_iff hdevice
    rw [hnext.registry, hcursor hp]
  · refine endsAt_of_read (fun index r => r.readRange h (.start p.name p.value) index) hclaims
      (fun next hnext index => range_eq_claimed ?_ index)
      fun index => htrue.readRange_eq_notFound_iff hdevice
    rw [hnext.registry, hcursor hp]

/-- Both banks of the memory and both pieces of the bus are visited, and then none is found. -/
theorem endsAt_banks : ∃ (bus : Bus (Recorded Simulated FileNumber) FileNumber)
    (memory soc : Device FileNumber) (regs ranges : Property),
    (Reachable Tree.banks.blob bus ∧ Obeys Event.ClaimFound bus.platform ∧
      bus.registry.device? ⟨2⟩ = some memory ∧
      Tree.banks.blob.property memory.node "reg" = .ok (some regs) ∧
      bus.registry.device? ⟨1⟩ = some soc ∧
      Tree.banks.blob.property soc.node Route.ranges.propertyName = .ok (some ranges)) ∧
    (∃ outcomes later, Enumerates (reg ⟨2⟩) 0 bus outcomes later ∧ outcomes.length = 2) ∧
    (∃ outcomes later, Enumerates (range .ranges ⟨1⟩) 0 bus outcomes later ∧
      outcomes.length = 2) ∧
    ∃ later, reg ⟨2⟩ 2 bus = .error .notFound later := by
  obtain ⟨bus, memory, soc, hbus, hmemory, hbanks, hreg, hsoc, hpieces, hranges, -⟩ := exists_banks
  have hclaims : Obeys Event.ClaimFound bus.platform :=
    (Simulated.obeys_claimFound bus.platform.inner).recorded bus.platform.log
  obtain ⟨_, regs, hmemory', hregs, hbanksReg⟩ := Registry.property_eq_ok hreg
  obtain ⟨_, ranges, hsoc', hranges, hpiecesRanges⟩ := Registry.property_eq_ok hranges
  obtain rfl := Option.some.inj (hmemory.symm.trans hmemory')
  obtain rfl := Option.some.inj (hsoc.symm.trans hsoc')
  rw [hbus.sound.1] at hregs hranges
  have hend := (hbus.endsAt hmemory hclaims).1 regs hregs
  have hend' := (hbus.endsAt hsoc hclaims).2.1 .ranges ranges hranges
  have hregs' : regs.value = banksReg.value := congrArg Cursor.value hbanksReg.symm
  have hranges' : ranges.value = piecesRanges.value := congrArg Cursor.value hpiecesRanges.symm
  rw [hbanks, hregs'] at hend
  rw [hpieces, hranges'] at hend'
  obtain ⟨outcomes, later, hrun⟩ := hend.ends
  obtain ⟨outcomes', later', hrun'⟩ := hend'.ends
  refine ⟨bus, memory, soc, regs, ranges, ⟨hbus, hclaims, hmemory, hregs, hsoc, hranges⟩,
    ⟨outcomes, later, hrun, ?_⟩, ⟨outcomes', later', hrun', ?_⟩, ?_⟩
  · exact (hend.visits outcomes later hrun).2 (by decide)
  · exact (hend'.visits outcomes' later' hrun').2 (by decide)
  · exact (hend.missing_iff 2).2 (.inr (by decide))

end Bus

end DeviceTree

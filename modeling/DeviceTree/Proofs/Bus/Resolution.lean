import DeviceTree.Bus.Resolution
import DeviceTree.Proofs.Bus.Reachable
import DeviceTree.Proofs.Value.Cursor

/-!
# Resolving an address is a recursion over the ancestors

A device either ends the way of an address or hands it on to its parent. In a sound registry parents
are older than their children, so the way ends, and where it ends is a recursive function of the
device. The bounded loop computes that function as long as the way is short enough; a way is never
longer than the line of ancestors.
-/
namespace DeviceTree

namespace Registry

variable {ι : Type} {r : Registry ι} {route : Route} {h parent : Handle} {device : Device ι}
  {address onward length limit : Nat} {location : Location}

/-- What a device does with an address in the space of its children: the way ends here, or it goes
on at the parent. -/
inductive Hop
  | arrived (location : Location)
  | onward (parent : Handle) (address : Nat)

/-- The end of a way is checked against the width of the addresses there. -/
def arrive (device : Device ι) (address length : Nat) (bus : Option Handle) : Except Error Hop := do
  checkEnd address length device.cells.childAddress
  return .arrived { address, bus }

/-- A device with register I/O of its own ends the way, since it mediates all accesses below it; so
do the root and a device without the property of the route. An empty property hands the address on
as it is, any other maps it. -/
def hop (r : Registry ι) (route : Route) (length : Nat) (h : Handle) (address : Nat) :
    Except Error Hop := do
  let device ← r.device h
  if route = .ranges ∧ device.io.isSome then arrive device address length (some h)
  else
    match device.parent with
    | none => arrive device address length none
    | some parent =>
      match ← r.blob.property device.node route.propertyName with
      | none => arrive device address length none
      | some property =>
        if property.value = [] then return .onward parent address
        return .onward parent (← mapThrough device.cells property.value address length)

theorem resolveWithin_succ : r.resolveWithin route length (limit + 1) h address =
    match r.hop route length h address with
    | .error e => .error e
    | .ok (.arrived location) => .ok location
    | .ok (.onward parent address) => r.resolveWithin route length limit parent address := by
  rw [resolveWithin, hop]
  cases r.device h with
  | error e => rfl
  | ok device =>
    simp only [ok_bind, arrive]
    split
    · cases checkEnd address length device.cells.childAddress <;> rfl
    cases device.parent with
    | none => cases checkEnd address length device.cells.childAddress <;> rfl
    | some parent =>
      cases r.blob.property device.node route.propertyName with
      | error e => rfl
      | ok property =>
        rcases property with _ | ⟨name, _ | ⟨byte, value⟩, start⟩
        · cases checkEnd address length device.cells.childAddress <;> rfl
        · rfl
        · simp only [liftM_ok, ok_bind]
          cases mapThrough device.cells (byte :: value) address length <;> rfl

/-- The last byte of the stretch, or its address if it is empty, has an address of `cells` cells. -/
def Ends (address length : Nat) (cells : UInt32) : Prop :=
  address + (length - 1) < Cell.limit (min cells.toNat Cursor.maximumCells)

theorem checkEnd_eq_ok_iff {cells : UInt32} :
    checkEnd address length cells = .ok () ↔ Ends address length cells := by
  rw [checkEnd, Ends]
  split <;> simp_all

theorem checkEnd_eq_error_iff {cells : UInt32} :
    checkEnd address length cells = .error (.device .addressOverflow) ↔
      ¬Ends address length cells := by
  rw [checkEnd, Ends]
  split <;> simp_all

theorem arrive_eq_ok {result : Hop} {bus : Option Handle}
    (h : arrive device address length bus = .ok result) :
    result = .arrived { address, bus } ∧ Ends address length device.cells.childAddress := by
  obtain ⟨_, hcheck, hresult⟩ := bind_eq_ok_iff.1 h
  exact ⟨(Except.ok.inj hresult).symm, checkEnd_eq_ok_iff.1 hcheck⟩

/-- All ways in which a hop succeeds. -/
theorem hop_eq_ok {result : Hop} (hhop : r.hop route length h address = .ok result) :
    ∃ device, r.device? h = some device ∧
      ((∃ bus, result = .arrived { address, bus } ∧
          Ends address length device.cells.childAddress ∧
          (bus = some h ∧ route = .ranges ∧ device.io.isSome ∨
            bus = none ∧ ¬(route = .ranges ∧ device.io.isSome))) ∨
        ∃ parent onward, result = .onward parent onward ∧ device.parent = some parent ∧
          ¬(route = .ranges ∧ device.io.isSome) ∧ ∃ property,
            r.blob.property device.node route.propertyName = .ok (some property) ∧
              (property.value = [] ∧ onward = address ∨
                mapThrough device.cells property.value address length = .ok onward)) := by
  obtain ⟨device, hdevice, hhop⟩ := bind_eq_ok_iff.1 hhop
  refine ⟨device, device_eq_ok_iff.1 hdevice, ?_⟩
  split at hhop
  case isTrue hmediated =>
    obtain ⟨rfl, hends⟩ := arrive_eq_ok hhop
    exact .inl ⟨_, rfl, hends, .inl ⟨rfl, hmediated⟩⟩
  case isFalse hmediated =>
  cases hparent : device.parent with
  | none =>
    rw [hparent] at hhop
    obtain ⟨rfl, hends⟩ := arrive_eq_ok hhop
    exact .inl ⟨_, rfl, hends, .inr ⟨rfl, hmediated⟩⟩
  | some parent =>
    rw [hparent] at hhop
    obtain ⟨found, hfound, hhop⟩ := bind_eq_ok_iff.1 hhop
    rw [liftM_eq_ok_iff] at hfound
    cases found with
    | none =>
      obtain ⟨rfl, hends⟩ := arrive_eq_ok hhop
      exact .inl ⟨_, rfl, hends, .inr ⟨rfl, hmediated⟩⟩
    | some property =>
      by_cases hempty : property.value = []
      · simp only [if_pos hempty] at hhop
        exact .inr ⟨parent, address, (Except.ok.inj hhop).symm, rfl, hmediated, property, hfound,
          .inl ⟨hempty, rfl⟩⟩
      · simp only [if_neg hempty] at hhop
        obtain ⟨onward, hmap, hhop⟩ := bind_eq_ok_iff.1 hhop
        exact .inr ⟨parent, onward, (Except.ok.inj hhop).symm, rfl, hmediated, property, hfound,
          .inr hmap⟩

theorem hop_eq_onward (hhop : r.hop route length h address = .ok (.onward parent onward)) :
    ∃ device, r.device? h = some device ∧ device.parent = some parent := by
  obtain ⟨device, hd, ⟨_, harrived, -⟩ | ⟨p, a, honward, hparent, -⟩⟩ := hop_eq_ok hhop
  · cases harrived
  · obtain ⟨rfl, rfl⟩ := Hop.onward.inj honward
    exact ⟨device, hd, hparent⟩

/-- Failures in which the mapping of an address never ends: that of a way that is too long, and, if
the counts are decoded, that of a number that is too wide. -/
inductive Unmapped (cells : Cells) : Error → Prop
  | tooLong : Unmapped cells (.device .tooManyHops)
  | tooWide (decodable : cells.Decodable) : Unmapped cells (.invalidParameter .tooManyCells)

section Unmapped

variable {cells : Cells} {e : Error}

private theorem checkEnd_ne_error (h : Unmapped cells e) (address length : Nat) (count : UInt32) :
    checkEnd address length count ≠ .error e := by
  rw [checkEnd]
  split
  · exact ok_ne_error
  · exact error_ne_error (by cases h <;> simp)

theorem readRangeEntries_avoids (h : Unmapped cells e) (count : Nat) :
    Cursor.Avoids e (readRangeEntries cells count) := by
  have hread : ∀ {width : Nat}, (cells.Decodable → width ≤ Cursor.maximumCells) →
      Cursor.Avoids e (Cursor.readUint width) := by
    intro width hwidth
    cases h with
    | tooLong => exact .readUint (by simp) (by simp)
    | tooWide decodable => exact .readUint (by simp) fun _ => hwidth decodable
  induction count with
  | zero => exact .pure []
  | succ count ih =>
    refine .bind ?_ fun _ => ih.bind fun _ => .pure _
    exact (hread (·.childAddress)).bind fun _ => (hread (·.address)).bind fun _ =>
      (hread (·.childSize)).bind fun _ => .pure _

private theorem rangeEntries_ne_error (h : Unmapped cells e) (value : List UInt8) :
    rangeEntries cells value ≠ .error e := by
  rw [rangeEntries]
  split
  · exact error_ne_error (by cases h <;> simp)
  · exact (readRangeEntries_avoids h _).run' _

theorem mapThrough_ne_error (h : Unmapped cells e) (value : List UInt8) (address length : Nat) :
    mapThrough cells value address length ≠ .error e := by
  refine bind_ne_error (rangeEntries_ne_error h value) fun entries => ?_
  split
  · dsimp only
    split
    · exact error_ne_error (by cases h <;> simp)
    · exact bind_ne_error (checkEnd_ne_error h _ _ _) fun _ => ok_ne_error
  · exact error_ne_error (by cases h <;> simp)

theorem device_ne_error (hstale : .invalidParameter .staleHandle ≠ e) :
    r.device h ≠ .error e := by
  rw [Registry.device]
  split
  · exact ok_ne_error
  · exact error_ne_error hstale

theorem hop_ne_error (he : ∀ device, r.device h = .ok device → Unmapped device.cells e)
    (hstale : .invalidParameter .staleHandle ≠ e) : r.hop route length h address ≠ .error e := by
  have hdevice : r.device h ≠ .error e := device_ne_error hstale
  rw [hop]
  cases hd : r.device h with
  | error other => simpa [hd, error_bind] using hdevice
  | ok device =>
    have h := he device hd
    have harrive : ∀ bus, arrive device address length bus ≠ .error e :=
      fun bus => bind_ne_error (checkEnd_ne_error h _ _ _) fun _ => ok_ne_error
    rw [ok_bind]
    split
    · exact harrive _
    split
    · exact harrive _
    apply bind_ne_error
    · exact liftM_ne_error (fun fault => by cases h <;> simp [Error.ofParse]) _
    intro found
    split
    · exact harrive _
    split
    · exact ok_ne_error
    · exact bind_ne_error (mapThrough_ne_error h _ _ _) fun _ => ok_ne_error

end Unmapped

/-- An address is resolved without a failure that no hop ends in, unless it is that of a way that is
too long. -/
theorem resolve_ne_error {e : Error}
    (hhop : ∀ h address, r.hop route length h address ≠ .error e)
    (hlong : .device .tooManyHops ≠ e) (h : Handle) (address : Nat) :
    r.resolve route h address length ≠ .error e := by
  suffices hwithin : ∀ limit h address,
      r.resolveWithin route length limit h address ≠ .error e from hwithin _ h address
  intro limit
  induction limit with
  | zero => exact fun _ _ => error_ne_error hlong
  | succ limit ih =>
    intro h address
    have hne := hhop h address
    rw [resolveWithin_succ]
    cases hend : r.hop route length h address with
    | error e' => simpa [hend] using hne
    | ok result =>
      cases result with
      | arrived location => exact ok_ne_error
      | onward parent onward => exact ih parent onward

abbrev tooLong {α : Type} : Except Error α :=
  .error (.device .tooManyHops)

private theorem hop_ne_tooLong : r.hop route length h address ≠ tooLong :=
  hop_ne_error (fun _ _ => .tooLong) (by simp)

namespace Sound

theorem index_lt_of_hop (hsound : r.Sound)
    (hhop : r.hop route length h address = .ok (.onward parent onward)) :
    parent.index < h.index := by
  obtain ⟨device, hd, hparent⟩ := hop_eq_onward hhop
  obtain ⟨_, -, hlt, -⟩ := hsound.parent_live hd hparent
  exact hlt

/-- Where an address leads, however long the way is. -/
def resolve (hsound : r.Sound) (route : Route) (length : Nat) (h : Handle) (address : Nat) :
    Except Error Location :=
  match hhop : r.hop route length h address with
  | .error e => .error e
  | .ok (.arrived location) => .ok location
  | .ok (.onward parent onward) =>
    have := hsound.index_lt_of_hop hhop
    hsound.resolve route length parent onward
termination_by h.index

/-- The number of devices that an address goes through until its way ends, be it with an error. -/
def hops (hsound : r.Sound) (route : Route) (length : Nat) (h : Handle) (address : Nat) : Nat :=
  match hhop : r.hop route length h address with
  | .ok (.onward parent onward) =>
    have := hsound.index_lt_of_hop hhop
    hsound.hops route length parent onward + 1
  | _ => 1
termination_by h.index

def depth (hsound : r.Sound) (h : Handle) : Nat :=
  match hd : r.device? h with
  | none => 0
  | some device =>
    match hparent : device.parent with
    | none => 0
    | some parent =>
      have : parent.index < h.index := by
        obtain ⟨_, -, hlt, -⟩ := hsound.parent_live hd hparent
        exact hlt
      hsound.depth parent + 1
termination_by h.index

variable (hsound : r.Sound)

theorem resolve_onward (hhop : r.hop route length h address = .ok (.onward parent onward)) :
    hsound.resolve route length h address = hsound.resolve route length parent onward := by
  rw [resolve]
  split <;> simp_all

private theorem hops_onward (hhop : r.hop route length h address = .ok (.onward parent onward)) :
    hsound.hops route length h address = hsound.hops route length parent onward + 1 := by
  rw [hops]
  split <;> simp_all

private theorem depth_parent (hd : r.device? h = some device)
    (hparent : device.parent = some parent) :
    hsound.depth h = hsound.depth parent + 1 := by
  rw [depth]
  split <;> simp_all
  split <;> simp_all

theorem depth_le_index : hsound.depth h ≤ h.index := by
  fun_induction depth hsound h with
  | case1 | case2 => omega
  | case3 h device hd parent hparent hlt ih => omega

theorem exists_met (hd : r.device? h = some device) :
    ∃ line, r.blob.Met device.node line ∧ line.length = hsound.depth h := by
  fun_induction depth hsound h generalizing device with
  | case1 h hnone => simp [hnone] at hd
  | case2 h below hbelow hnone =>
    obtain rfl : below = device := by simpa [hbelow] using hd
    by_cases hroot : h = rootHandle
    · subst hroot
      obtain ⟨root, hroot, -, -, htop⟩ := hsound.root
      obtain rfl : root = below := by simpa [hroot] using hbelow
      obtain ⟨line, hmet, hhead⟩ := Blob.parent_eq_ok_iff.1 htop
      exact ⟨line, hmet, by simpa using hhead⟩
    · obtain ⟨_, _, hparent, -⟩ := hsound.parent h below hbelow hroot
      simp [hnone] at hparent
  | case3 h below hbelow parent hparent hlt ih =>
    obtain rfl : below = device := by simpa [hbelow] using hd
    obtain ⟨above, habove, -, hblob⟩ := hsound.parent_live hbelow hparent
    obtain ⟨line, hmet, hhead⟩ := Blob.parent_eq_ok_iff.1 hblob
    obtain ⟨rest, rfl⟩ := List.head?_eq_some_iff.1 hhead
    obtain ⟨other, hother, hlength⟩ := ih habove
    exact ⟨_, hmet, by rw [List.length_cons, hmet.parent.unique hother, hlength]⟩

theorem resolve_arrived (hhop : r.hop route length h address = .ok (.arrived location)) :
    hsound.resolve route length h address = .ok location := by
  rw [resolve]
  split <;> simp_all

theorem resolve_error {e : Error} (hhop : r.hop route length h address = .error e) :
    hsound.resolve route length h address = .error e := by
  rw [resolve]
  split <;> simp_all

theorem hops_pos : 0 < hsound.hops route length h address := by
  rw [hops]
  split
  · exact Nat.succ_pos _
  · exact Nat.one_pos

theorem hops_eq_one (hends : ∀ parent onward,
    r.hop route length h address ≠ .ok (.onward parent onward)) :
    hsound.hops route length h address = 1 := by
  rw [hops]
  split
  case h_1 hhop => exact absurd hhop (hends _ _)
  case h_2 => rfl

/-- An address goes through its device and the ancestors of that, at most. -/
theorem hops_le : hsound.hops route length h address ≤ hsound.depth h + 1 := by
  fun_induction hops hsound route length h address with
  | case1 h address parent onward hhop _ ih =>
    obtain ⟨device, hd, hparent⟩ := hop_eq_onward hhop
    rw [hsound.depth_parent hd hparent]
    omega
  | case2 => omega

/-- The loop ends as the recursion does if it may hop often enough, and only then. -/
theorem resolveWithin_eq : r.resolveWithin route length limit h address =
    if hsound.hops route length h address ≤ limit then hsound.resolve route length h address
    else .error (.device .tooManyHops) := by
  induction limit generalizing h address with
  | zero =>
    have hpos : 0 < hsound.hops route length h address := hsound.hops_pos
    rw [if_neg (Nat.not_le.2 hpos)]
    rfl
  | succ limit ih =>
    rw [resolveWithin_succ]
    cases hhop : r.hop route length h address with
    | error e =>
      rw [hsound.hops_eq_one (by simp [hhop]), hsound.resolve_error hhop,
        if_pos (Nat.le_add_left ..)]
    | ok result =>
      cases result with
      | arrived location =>
        rw [hsound.hops_eq_one (by simp [hhop]), hsound.resolve_arrived hhop,
          if_pos (Nat.le_add_left ..)]
      | onward parent onward =>
        simp only [hsound.hops_onward hhop, hsound.resolve_onward hhop, ih,
          Nat.add_le_add_iff_right]

private theorem resolve_ne_tooLong : hsound.resolve route length h address ≠ tooLong := by
  fun_induction resolve hsound route length h address with
  | case1 h address e hhop =>
    have hne : r.hop route length h address ≠ tooLong := hop_ne_tooLong
    simpa [hhop] using hne
  | case2 => simp
  | case3 h address parent onward hhop _ ih => exact ih

end Sound

end Registry

namespace Bus

variable {σ ι : Type} [Platform σ ι] {b : Blob} {bus : Bus σ ι}

/-- On a reachable bus the loop gives what the recursion gives if that ends within the hops that the
loop may do, and fails otherwise; for a device with fewer ancestors than that it does not. -/
theorem Reachable.resolve_eq (hbus : Reachable b bus) (route : Route) (h : Handle)
    (address length : Nat) :
    (hbus.registry_sound.depth h < Registry.maximumHops →
      bus.registry.resolve route h address length =
          hbus.registry_sound.resolve route length h address ∧
        bus.registry.resolve route h address length ≠ .error (.device .tooManyHops)) ∧
      bus.registry.resolve route h address length =
        if hbus.registry_sound.hops route length h address ≤ Registry.maximumHops then
          hbus.registry_sound.resolve route length h address
        else .error (.device .tooManyHops) := by
  have hsound := hbus.registry_sound
  have hloop : bus.registry.resolve route h address length =
      if hsound.hops route length h address ≤ Registry.maximumHops then
        hsound.resolve route length h address
      else .error (.device .tooManyHops) := hsound.resolveWithin_eq
  refine ⟨fun hdepth => ?_, hloop⟩
  have hle : hsound.hops route length h address ≤ hsound.depth h + 1 := hsound.hops_le
  rw [if_pos (by omega)] at hloop
  rw [hloop]
  exact ⟨rfl, hsound.resolve_ne_tooLong⟩

theorem resolve_eq_bridge : ∃ (bus : Bus (Recorded Simulated FileNumber) FileNumber)
    (hbus : Reachable Tree.bridge.blob bus), hbus.registry_sound.depth ⟨1⟩ < Registry.maximumHops ∧
      hbus.registry_sound.resolve .ranges 0x10 ⟨1⟩ 0x20 =
        .ok { address := 0x8020, bus := none } := by
  obtain ⟨bus, hbus, -, hresolve, -⟩ := exists_bridge
  have hdepth : hbus.registry_sound.depth ⟨1⟩ < Registry.maximumHops :=
    Nat.lt_of_le_of_lt hbus.registry_sound.depth_le_index (by decide)
  obtain ⟨heq, -⟩ := (hbus.resolve_eq .ranges ⟨1⟩ 0x20 0x10).1 hdepth
  exact ⟨bus, hbus, hdepth, by rw [← heq, hresolve]⟩

end Bus

end DeviceTree

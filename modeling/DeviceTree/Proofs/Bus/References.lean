import DeviceTree.Proofs.Blob.Phandles
import DeviceTree.Proofs.Bus.Children
import DeviceTree.Proofs.Bus.Connections
import DeviceTree.Proofs.Bus.Strides
import DeviceTree.Proofs.Machine.Lookups

/-!
# References lead to one device

A phandle that was followed has led to the device of the node that it names, which is connected from
then on. Until the device is destroyed, it is what every way to this node leads to, be it a path, a
phandle or the list of its parent's children; a path or a phandle changes nothing more.
-/
namespace DeviceTree

namespace Registry

variable {ι : Type} {r next : Registry ι} {h k : Handle} {n : Node} {pending : List Handle}

theorem Step.connected (hstep : Step r next) (hsound : r.Sound) (hconnected : r.connected k)
    (hlive : (next.device? k).isSome) : next.connected k := by
  obtain ⟨device, hd⟩ := Option.isSome_iff_exists.1 hlive
  have hsame : ∀ old, r.device? k = some old → old.connected = true := fun old hold => by
    rwa [← connected_of_device? hold]
  rw [connected_of_device? hd]
  cases hstep with
  | create live =>
    rcases exists_of_device?_add live hd with ⟨rfl, -⟩ | ⟨old, hold, rfl⟩
    · simp [Registry.connected, device?_nextHandle] at hconnected
    · exact hsame old hold
  | destroy live under =>
    obtain ⟨above, habove, hlt, -⟩ := hsound.parent_live live under
    obtain ⟨-, old, hold, rfl⟩ := exists_of_device?_remove habove (by rintro rfl; omega) hd
    exact hsame old hold
  | exchangeIO =>
    obtain ⟨old, hold, rfl | rfl⟩ := exists_of_device?_modify hd
    · exact hsame _ hold
    · exact hsame old hold
  | connect =>
    obtain ⟨old, hold, rfl | rfl⟩ := exists_of_device?_modify hd
    · exact hsame _ hold
    · rfl

theorem Steps.connected (hsteps : Steps r next) (hsound : r.Sound) (hconnected : r.connected k)
    (hlive : (next.device? k).isSome) : next.connected k := by
  have hlt : k.index < r.slots.size := by
    obtain ⟨device, hd, -⟩ := (Option.any_eq_true _ _).1 hconnected
    exact index_lt_of_device? hd
  induction hsteps with
  | refl => exact hconnected
  | tail hbefore hstep ih =>
    obtain ⟨device, hd⟩ := Option.isSome_iff_exists.1 hlive
    have hbetween := Steps.sound hbefore hsound
    have hlt' := Nat.lt_of_lt_of_le hlt (Steps.size_le hbefore)
    obtain ⟨old, hold, -⟩ := hstep.device?_eq hbetween hlt' hd
    exact hstep.connected hbetween (ih (Option.isSome_iff_exists.2 ⟨old, hold⟩)) hlive

private theorem connected_or_mem_of_unconnected (hpending : r.unconnected h = .ok pending) :
    r.connected h ∨ h ∈ pending := by
  rw [unconnected] at hpending
  obtain ⟨device, hd, hpending⟩ := bind_eq_ok_iff.1 hpending
  rw [connected_of_device? (device_eq_ok_iff.1 hd)]
  cases hconnected : device.connected with
  | true => exact .inl rfl
  | false =>
    refine .inr ?_
    rw [hconnected, if_neg Bool.false_ne_true] at hpending
    split at hpending
    · cases hpending
      exact List.mem_singleton_self h
    · split at hpending
      · obtain ⟨above, -, hpending⟩ := bind_eq_ok_iff.1 hpending
        cases hpending
        exact List.mem_append_right _ (List.mem_singleton_self h)
      · cases hpending
        exact List.mem_singleton_self h

private theorem unconnected_of_connected (hconnected : r.connected h) :
    r.unconnected h = .ok [] := by
  obtain ⟨device, hd, hconnected⟩ := (Option.any_eq_true _ _).1 hconnected
  rw [unconnected, device_eq_ok_iff.2 hd, ok_bind, if_pos hconnected]
  rfl

end Registry

namespace Bus

open Registry (Steps)

variable {σ ι : Type} [Platform σ ι] {b : Blob} {bus next later : Bus σ ι} {h k t : Handle}
  {n : Node} {p : UInt32} {name : String} {index : Nat} {cursor : Cursor} {pending : List Handle}

private theorem registry_connectDriver : Ensures (connectDriver h) bus
    (fun _ next => (bus.registry.device? h).isSome ∧ next.registry = bus.registry.connect h)
    fun _ => True := by
  rw [connectDriver, ensures_bind, ensures_ask]
  simp only [Registry.device_eq_ok_iff]
  refine ⟨fun device hd => ?_, fun _ _ => trivial⟩
  rw [ensures_bind, ensures_call, ensures_bind, ensures_lift]
  exact ⟨fun _ _ => ⟨Option.isSome_iff_exists.2 ⟨device, hd⟩, rfl⟩, fun _ _ => trivial⟩

private theorem connected_of_forM (hend : pending.forM connectDriver bus = .ok () next)
    (hk : bus.registry.connected k ∨ k ∈ pending) : next.registry.connected k := by
  induction pending generalizing bus with
  | nil =>
    cases hend
    simpa using hk
  | cons h pending ih =>
    change (connectDriver h >>= fun _ => pending.forM connectDriver) bus = _ at hend
    obtain ⟨_, mid, hfirst, hrest⟩ := seq_eq_ok_iff.1 hend
    obtain ⟨hlive, hregistry⟩ := registry_connectDriver.of_ok hfirst
    obtain ⟨device, hd⟩ := Option.isSome_iff_exists.1 hlive
    refine ih hrest ?_
    rw [hregistry, Registry.connected_connect hd, Bool.or_eq_true, decide_eq_true_eq]
    rcases hk with hk | hk
    · exact .inl (.inl hk)
    · rcases List.mem_cons.1 hk with rfl | hk
      · exact .inl (.inr rfl)
      · exact .inr hk

private theorem connected_of_connect (hend : connect h bus = .ok () next) :
    next.registry.connected h := by
  obtain ⟨pending, _, hasked, hend⟩ := seq_eq_ok_iff.1 hend
  obtain ⟨hpending, rfl⟩ := ask_eq_ok_iff.1 hasked
  exact connected_of_forM hend (Registry.connected_or_mem_of_unconnected hpending)

private theorem connect_of_connected (hconnected : bus.registry.connected h) :
    connect h bus = .ok () bus :=
  seq_eq_ok_iff.2
    ⟨[], bus, ask_eq_ok_iff.2 ⟨Registry.unconnected_of_connected hconnected, rfl⟩, rfl⟩

private theorem u32_eq_ok_iff : (Operation.u32 h name index).perform bus = .ok p next ↔
    (∃ cursor moved, bus.registry.property h name = .ok cursor ∧
      Cursor.elementU32 index cursor = .ok (p, moved)) ∧ bus = next := by
  rw [Operation.perform, ask_eq_ok_iff, Registry.u32, Registry.readProperty, bind_eq_ok_iff]
  simp only [Cursor.run'_eq_ok_iff, exists_and_left]

private theorem reference_eq_ok_iff : (Operation.reference h name index).perform bus = .ok t next ↔
    ∃ cursor moved, bus.registry.property h name = .ok cursor ∧
      parseDevice h cursor index bus = .ok (t, moved) next := by
  simp only [Operation.perform, device, seq_eq_ok_iff, ask_eq_ok_iff]
  constructor
  · rintro ⟨cursor, _, ⟨hcursor, rfl⟩, ⟨target, moved⟩, _, hparsed, hend⟩
    cases hend
    exact ⟨cursor, moved, hcursor, hparsed⟩
  · rintro ⟨cursor, moved, hcursor, hparsed⟩
    exact ⟨cursor, bus, ⟨hcursor, rfl⟩, (t, moved), next, hparsed, rfl⟩

/-- Every way to the node `n`, whose phandle is `p`, leads to the device `t`: a path, a phandle that
is followed from wherever it is read, and the list of the children of the device above. The first
two change nothing. -/
structure LeadsTo (b : Blob) (p : UInt32) (n : Node) (t : Handle) (bus : Bus σ ι) : Prop where
  device : bus.registry.IsDeviceOf n t
  path : ∀ path, b.findNode path = .ok (some n) →
    (Operation.findDevice path).perform bus = .ok t bus
  phandle : ∀ h c index moved, (bus.registry.device? h).isSome →
    Cursor.elementU32 index c = .ok (p, moved) →
      (Operation.parseDevice h c index).perform bus = .ok (t, moved) bus ∧
      (Operation.parseElement h c .device index).perform bus = .ok (.device t, moved) bus
  reference : ∀ h name index, (Operation.u32 h name index).perform bus = .ok p bus →
    (Operation.reference h name index).perform bus = .ok t bus
  element : ∀ h name names wanted index,
    (Operation.stringIndex h names wanted).perform bus = .ok index bus →
      (Operation.u32 h name index).perform bus = .ok p bus →
        (Operation.elementByName h name names wanted .device).perform bus = .ok (.device t) bus
  child : ∀ parent handles next, bus.registry.HasParent t parent →
    (Operation.children parent).perform bus = .ok handles next →
      t ∈ handles ∧ ∀ k ∈ handles, next.registry.IsDeviceOf n k → k = t

section Presented

variable (hr : bus.registry.Presents b) (ht : bus.registry.IsDeviceOf n t)

include hr ht

theorem findDevice_of_isDeviceOf {path : String} (hpath : b.findNode path = .ok (some n)) :
    (Operation.findDevice path).perform bus = .ok t bus := by
  have hfound : Registry.findDevice path bus.registry = .ok t bus.registry := by
    rw [Registry.findDevice, get_bind_apply, hr.blob_eq, hpath]
    exact Registry.deviceOf_of_some (hr.sound.handleOf?_eq_some_iff.2 ht)
  exact onRegistry_eq_ok_iff.2 ⟨bus.registry, hfound, rfl⟩

theorem mem_children_of_hasParent {parent : Handle} {handles : List Handle}
    (hparent : bus.registry.HasParent t parent)
    (hend : (Operation.children parent).perform bus = .ok handles next) :
    t ∈ handles ∧ ∀ k ∈ handles, next.registry.IsDeviceOf n k → k = t := by
  obtain ⟨device, hd, hunder⟩ := id hparent
  obtain ⟨above, hlive, -⟩ := hr.sound.parent_live hd hunder
  have hm : bus.registry.IsDeviceOf above.node parent := ⟨above, hlive, rfl⟩
  have hscans := hr.scans_children hm
  rw [perform_children hr hm] at hend
  obtain ⟨registry, hscan, rfl⟩ := onRegistry_eq_ok_iff.1 hend
  rw [hscan] at hscans
  obtain ⟨nodes, hnodes, hgathers⟩ := hscans.of_ok
  have hnext := hr.of_steps hgathers.grows.steps
  have ht' := ht.grows hgathers.grows
  have hm' := hm.grows hgathers.grows
  constructor
  · refine (hnext.hasParent_iff_mem hm' hnodes hgathers.devices).1 ?_
    exact (hnext.hasParent_iff ht' hm').2 ((hr.hasParent_iff ht hm).1 hparent)
  · intro k _ hk
    exact hnext.sound.isDeviceOf_biUnique.2 hk ht'

/-- Once its device is connected, every way to a node leads to it. -/
theorem leadsTo_of_connected (hp : b.nodeByPhandle p = .ok (some n))
    (hconnected : bus.registry.connected t) : LeadsTo b p n t bus := by
  have hparse : ∀ {h c index moved}, (bus.registry.device? h).isSome →
      Cursor.elementU32 index c = .ok (p, moved) →
        parseDevice h c index bus = .ok (t, moved) bus := by
    intro h c index moved hlive hread
    obtain ⟨device, hd⟩ := Option.isSome_iff_exists.1 hlive
    rw [← hr.blob_eq] at hp
    exact parseDevice_eq_ok_iff.2 ⟨device, p, n, bus.registry, hd, hread, hp,
      Registry.deviceOf_of_some (hr.sound.handleOf?_eq_some_iff.2 ht),
      connect_of_connected hconnected⟩
  have hread : ∀ {h name index}, (Operation.u32 h name index).perform bus = .ok p bus →
      ∃ cursor moved, bus.registry.property h name = .ok cursor ∧
        parseDevice h cursor index bus = .ok (t, moved) bus := by
    intro h name index hu32
    obtain ⟨⟨cursor, moved, hcursor, hread⟩, -⟩ := u32_eq_ok_iff.1 hu32
    obtain ⟨device, _, hd, -⟩ := Registry.property_eq_ok hcursor
    exact ⟨cursor, moved, hcursor, hparse (Option.isSome_iff_exists.2 ⟨device, hd⟩) hread⟩
  constructor
  case device => exact ht
  case path => exact fun path => findDevice_of_isDeviceOf hr ht
  case phandle =>
    intro h c index moved hlive hread
    exact ⟨hparse hlive hread, parseElement_eq_ok_iff.2 (.device (hparse hlive hread))⟩
  case reference => exact fun h name index hu32 => reference_eq_ok_iff.2 (hread hu32)
  case element =>
    intro h name names wanted index hindex hu32
    obtain ⟨cursor, moved, hcursor, hparsed⟩ := hread hu32
    have helement := parseElement_eq_ok_iff.2 (.device hparsed)
    refine seq_eq_ok_iff.2 ⟨index, bus, hindex, seq_eq_ok_iff.2 ⟨cursor, bus, ?_, ?_⟩⟩
    · exact ask_eq_ok_iff.2 ⟨hcursor, rfl⟩
    · exact seq_eq_ok_iff.2 ⟨_, bus, helement, rfl⟩
  case child => exact fun parent handles next => mem_children_of_hasParent hr ht

end Presented

/-- A phandle that is not reserved names the first node in the order of the tree that bears it, and
nothing else, whether it is looked up in the bytes of an accepted blob or followed from a device.
Whoever followed it has read it as a number, and as long as the device that it led to is live, every
way to the node leads to this device. -/
theorem phandles_name_one_device {bytes : Array UInt8} (hparse : Blob.parse bytes = .ok b) :
    (∀ p n, p ≠ 0 → p ≠ 0xffffffff →
      Machine.nodeByPhandle bytes.toList p = Machine.returns (b.nodeByPhandle p) ∧
        (b.nodeByPhandle p = .ok (some n) ↔ b.FirstBears n p)) ∧
    ∀ bus : Bus σ ι, Reachable b bus → ∀ h name index t next,
      (Operation.reference h name index).perform bus = .ok t next →
        ∃ p n, p ≠ 0 ∧ p ≠ 0xffffffff ∧ b.FirstBears n p ∧
          (Operation.u32 h name index).perform bus = .ok p bus ∧
          next.registry.IsDeviceOf n t ∧
          ∀ later, Later next later → (later.registry.device? t).isSome →
            LeadsTo b p n t later := by
  have hreserved : ∀ p, Blob.isReservedPhandle p = false ↔ p ≠ 0 ∧ p ≠ 0xffffffff := by
    intro p
    simp [Blob.isReservedPhandle]
  constructor
  · intro p n hzero hones
    obtain ⟨rfl, -, -⟩ := Blob.parse_eq_ok hparse
    exact ⟨Machine.nodeByPhandle_eq hparse p,
      Blob.nodeByPhandle_eq_ok_some_iff ((hreserved p).2 ⟨hzero, hones⟩)⟩
  · intro bus hbus h name index t next hend
    have hr := hbus.presents
    obtain ⟨cursor, moved, hcursor, hparsed⟩ := reference_eq_ok_iff.1 hend
    obtain ⟨_, p, n, registry, -, hread, hp, hdiscovered, hconnected⟩ :=
      parseDevice_eq_ok_iff.1 hparsed
    rw [hr.blob_eq] at hp
    have hplain : Blob.isReservedPhandle p = false := by
      cases hplain : Blob.isReservedPhandle p with
      | false => rfl
      | true => simp [Blob.nodeByPhandle, hplain, pure, Except.pure] at hp
    have ht := isDeviceOf_of_connect hr.sound hdiscovered hconnected
    have hu32 : (Operation.u32 h name index).perform bus = .ok p bus :=
      u32_eq_ok_iff.2 ⟨⟨cursor, moved, hcursor, hread⟩, rfl⟩
    obtain ⟨hzero, hones⟩ := (hreserved p).1 hplain
    refine ⟨p, n, hzero, hones, (Blob.nodeByPhandle_eq_ok_some_iff hplain).1 hp, hu32, ht,
      fun later hlater hlive => ?_⟩
    obtain ⟨hsteps, -⟩ := (permits_keeps.parseDevice bus hr.sound).of_ok hparsed
    have hnext := hr.of_steps hsteps
    have hsteps' := hlater.steps hnext.sound
    exact leadsTo_of_connected (hnext.of_steps hsteps') (ht.of_live hnext.sound hsteps' hlive) hp
      (hsteps'.connected hnext.sound (connected_of_connect hconnected) hlive)

/-- The reference of the serial port leads to the clock, though it bears the same phandle itself. -/
theorem phandles_name_one_device_referring :
    ∃ (bus next : Bus (Recorded Simulated FileNumber) FileNumber) (clock : Node),
      (Blob.parse Tree.referring.flatten.toArray = .ok Tree.referring.blob ∧
        Reachable Tree.referring.blob bus ∧
        (Operation.reference ⟨1⟩ "clocks" 0).perform bus = .ok ⟨3⟩ next) ∧
      Machine.nodeByPhandle Tree.referring.flatten.toArray.toList 1 =
        Machine.returns (.ok (some clock)) ∧
      Tree.referring.blob.FirstBears clock 1 ∧ LeadsTo Tree.referring.blob 1 clock ⟨3⟩ next ∧
      (Operation.findDevice "/soc/clock").perform next = .ok ⟨3⟩ next := by
  obtain ⟨-, bus, -, ⟨-, hbus⟩, -, -, -, -, ⟨next, hend⟩, ⟨_, hone⟩, clock, hpath, hclock⟩ :=
    exists_referring
  have hparse : Blob.parse Tree.referring.flatten.toArray = .ok Tree.referring.blob := by
    apply Tree.parse_flatten
    rw [Tree.length_flatten]
    set_option maxRecDepth 1000 in decide
  obtain ⟨hnames, hleads⟩ :=
    @phandles_name_one_device (Recorded Simulated FileNumber) FileNumber _ _ _ hparse
  obtain ⟨p, n, hzero, hones, hfirst, hu32, ht, hlater⟩ := hleads bus hbus _ _ _ _ _ hend
  obtain ⟨hread, hiff⟩ := hnames p n hzero hones
  obtain rfl : p = 1 := by
    cases hu32.symm.trans hone
    rfl
  obtain rfl : n = clock := by simpa [hclock, eq_comm] using hiff.2 hfirst
  rw [hclock] at hread
  have hall := hlater next .refl ht.live
  exact ⟨bus, next, n, ⟨hparse, hbus, hend⟩, hread, hfirst, hall, hall.path _ hpath⟩

end Bus

end DeviceTree

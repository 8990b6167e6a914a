import Mathlib.Data.List.Nodup
import DeviceTree.Proofs.Blob.Order
import DeviceTree.Proofs.Bus.Passing
import DeviceTree.Proofs.Bus.Rediscovery

/-!
# The children of a device

Whoever lists the children of a device goes through the children of its node in the order of the
tree, takes the devices that are there and creates the others. If no failure is met on the way,
these are all that is live below the device, also where some of them were discovered on other ways
before: the linear search for the parent and the scan of the children agree. If a failure is met,
the devices up to there stay, and who lists the children later comes past them to the same failure.
-/
namespace DeviceTree

/-- A serial port that refers to a clock on a bus, by a phandle that both of them bear. The clock
has it by its older name, and after the clock there is a node that counts too many cells. -/
def Tree.referring : Tree where
  root :=
    { name := ""
      children :=
        [{ name := "soc"
           children :=
            [{ name := "clock", properties := [.ofCells "linux,phandle" [1]] },
              { name := "wide", properties := [.ofCells "#address-cells" [5]] }] },
          { name := "serial"
            properties := [.ofCells "phandle" [1], .ofCells "clocks" [1]] }] }

namespace Registry

variable {ι : Type} {b : Blob} {r mid next later : Registry ι} {h k parent : Handle}
  {device above : Device ι} {n c : Node} {nodes : List Node} {handles : List Handle}
  {items rest : Items Node} {e : Error}

theorem IsDeviceOf.grows (h : r.IsDeviceOf n k) (hgrows : r.Grows next) : next.IsDeviceOf n k := by
  obtain ⟨device, hd, rfl⟩ := h
  exact hgrows.keeps k device hd

theorem Sound.isDeviceOf_biUnique (hsound : r.Sound) : Relator.BiUnique r.IsDeviceOf := by
  constructor
  · intro n k m hn hm
    obtain ⟨device, hd, rfl⟩ := hn
    obtain ⟨same, hsame, rfl⟩ := hm
    rw [Option.some.inj (hd.symm.trans hsame)]
  · intro n h k hh hk
    obtain ⟨device, hd, rfl⟩ := hh
    obtain ⟨other, hother, hnode⟩ := hk
    exact hsound.eq_of_offset_eq hd hother (congrArg Node.offset hnode.symm)

/-- A live device is below another one exactly if its node is below the other's. -/
theorem Presents.hasParent_iff (hr : r.Presents b) (hc : r.IsDeviceOf c k)
    (hn : r.IsDeviceOf n h) : r.HasParent k h ↔ b.parent c = .ok (some n) := by
  obtain ⟨device, hd, rfl⟩ := hc
  obtain ⟨hleft, hright⟩ := hr.sound.isDeviceOf_biUnique
  rcases hr.parent_cases hd with ⟨hnone, htop⟩ | ⟨p, m, hp, hm, hpm⟩
  · simp [HasParent, hd, hnone, htop]
  · simp only [HasParent, hd, Option.some.injEq, exists_eq_left', hp, hm, Except.ok.injEq]
    constructor
    · rintro rfl
      exact hleft hpm hn
    · rintro rfl
      exact hright hpm hn

theorem newDevice_steps (hsteps : Steps r later) (hsound : r.Sound)
    (hlive : (r.device? parent).isSome) (hlater : (later.device? parent).isSome) :
    later.newDevice parent c = r.newDevice parent c := by
  obtain ⟨above, hlive⟩ := Option.isSome_iff_exists.1 hlive
  obtain ⟨same, hsame, heq⟩ := hsteps.device?_of_live hsound hlive hlater
  rw [newDevice, newDevice, device_eq_ok_iff.2 hsame, device_eq_ok_iff.2 hlive, hsteps.blob_eq,
    heq]
  rfl

/-- The devices of `nodes`, one by one, are `handles`. All that was live still is, and nothing else
is new. -/
structure Gathers (r next : Registry ι) (nodes : List Node) (handles : List Handle) : Prop where
  grows : r.Grows next
  devices : List.Forall₂ next.IsDeviceOf nodes handles
  new : ∀ k, (next.device? k).isSome → (r.device? k).isSome ∨ k ∈ handles

namespace Gathers

theorem nil (r : Registry ι) : r.Gathers r [] [] :=
  ⟨.refl r, .nil, fun _ => .inl⟩

theorem cons (hfirst : r.Gathers mid [c] [h]) (hrest : mid.Gathers next nodes handles) :
    r.Gathers next (c :: nodes) (h :: handles) := by
  refine ⟨hfirst.grows.trans hrest.grows, ?_, fun k hk => ?_⟩
  · obtain ⟨hc, -⟩ := List.forall₂_cons.1 hfirst.devices
    exact .cons (hc.grows hrest.grows) hrest.devices
  · rcases hrest.new k hk with hmid | hk
    · exact (hfirst.new k hmid).imp_right fun hk => List.mem_cons.2 (.inl (List.mem_singleton.1 hk))
    · exact .inr (List.mem_cons_of_mem h hk)

theorem reuses (hgathers : r.Gathers next nodes handles) (hsound : r.Sound)
    (hk : r.IsDeviceOf c k) {i : Nat} (hi : nodes[i]? = some c) : handles[i]? = some k := by
  obtain ⟨hlt, rfl⟩ := List.getElem?_eq_some_iff.1 hi
  have hlt' : i < handles.length := hgathers.devices.length_eq ▸ hlt
  have hright := (hgathers.grows.steps.sound hsound).isDeviceOf_biUnique.2
  have hfound : next.IsDeviceOf nodes[i] handles[i] := hgathers.devices.get hlt hlt'
  rw [List.getElem?_eq_getElem hlt', hright hfound (hk.grows hgathers.grows)]

end Gathers

/-- The device of a child is the one that is there, or a new one. -/
theorem gathers_of_childDevice (hsound : r.Sound) (hn : r.IsDeviceOf n parent)
    (hc : r.blob.parent c = .ok (some n)) (hend : childDevice parent c r = .ok h next) :
    r.Gathers next [c] [h] := by
  obtain ⟨above, hlive, rfl⟩ := hn
  obtain ⟨hgrows, hfound⟩ := (childDevice_ensures hsound hlive hc).of_ok hend
  refine ⟨hgrows, .cons hfound .nil, fun k hk => ?_⟩
  rw [childDevice_eq] at hend
  split at hend
  · cases hend
    exact .inl hk
  · split at hend
    · cases hend
      obtain ⟨device, hd⟩ := Option.isSome_iff_exists.1 hk
      rcases exists_of_device?_add hlive hd with ⟨rfl, -⟩ | ⟨old, hold, -⟩
      · exact .inr (List.mem_singleton_self _)
      · exact .inl (Option.isSome_iff_exists.2 ⟨old, hold⟩)
    · cases hend

theorem childDevices_cons (parent : Handle) (c : Node) (rest : Items Node) (r : Registry ι) :
    childDevices parent (.ok c :: rest) r = match childDevice parent c r with
      | .ok h mid => match childDevices parent rest mid with
        | .ok handles next => .ok (h :: handles) next
        | .error e next => .error e next
      | .error e mid => .error e mid := by
  simp only [childDevices, bind, EStateM.bind]
  cases childDevice parent c r with
  | error e mid => rfl
  | ok h mid =>
    dsimp only
    cases childDevices parent rest mid <;> rfl

/-- Nothing more can be found among the children of `parent`, as the next of them fails with `e`: it
could not be read, or it has no device and what describes it could not be read. -/
inductive StopsAt (r : Registry ι) (parent : Handle) : Items Node → Error → Prop
  | unread {fault : ParseError} {rest : Items Node} :
    StopsAt r parent (.error fault :: rest) (.ofParse fault)
  | undescribed {c : Node} {rest : Items Node} {e : Error} (fresh : r.handleOf? c = none)
    (fails : r.newDevice parent c = .error e) : StopsAt r parent (.ok c :: rest) e

private theorem StopsAt.childDevices_eq (hstops : r.StopsAt parent rest e) :
    childDevices parent rest r = .error e r := by
  cases hstops with
  | unread => rfl
  | undescribed fresh fails => rw [childDevices_cons, childDevice_eq, fresh, fails]

/-- How a scan of children ends: it has found the devices of all of them, or it stops after the
devices of some. -/
inductive Scans (r : Registry ι) (parent : Handle) (items : Items Node) :
    EStateM.Result Error (Registry ι) (List Handle) → Prop
  | whole {nodes : List Node} {handles : List Handle} {next : Registry ι}
    (all : items = nodes.map .ok) (gathers : r.Gathers next nodes handles) :
    Scans r parent items (.ok handles next)
  | stopped {nodes : List Node} {rest : Items Node} {handles : List Handle} {e : Error}
    {next : Registry ι} (front : items = nodes.map .ok ++ rest)
    (gathers : r.Gathers next nodes handles) (stops : next.StopsAt parent rest e) :
    Scans r parent items (.error e next)

private theorem StopsAt.scans (hstops : r.StopsAt parent items e) :
    r.Scans parent items (.error e r) :=
  .stopped (by rw [List.map_nil, List.nil_append]) (.nil r) hstops

theorem Scans.of_ok (h : r.Scans parent items (.ok handles next)) :
    ∃ nodes, items = nodes.map .ok ∧ r.Gathers next nodes handles := by
  cases h with
  | whole all gathers => exact ⟨_, all, gathers⟩

theorem scans_childDevices (hsound : r.Sound) (hn : r.IsDeviceOf n parent)
    (hbelow : ∀ c, .ok c ∈ items → r.blob.parent c = .ok (some n)) :
    r.Scans parent items (childDevices parent items r) := by
  induction items generalizing r with
  | nil =>
    have all : ([] : Items Node) = ([] : List Node).map .ok := rfl
    exact .whole all (.nil r)
  | cons item rest ih =>
    cases item with
    | error fault => exact StopsAt.unread.scans
    | ok c =>
      rw [childDevices_cons]
      cases hfirst : childDevice parent c r with
      | error e mid =>
        rw [childDevice_eq] at hfirst
        split at hfirst
        · cases hfirst
        · split at hfirst
          · cases hfirst
          case h_2 fresh _ _ fails =>
            cases hfirst
            exact (StopsAt.undescribed fresh fails).scans
      | ok h mid =>
        have hgathers := gathers_of_childDevice hsound hn (hbelow c List.mem_cons_self) hfirst
        have hrest : mid.Scans parent rest (childDevices parent rest mid) := by
          refine ih (hgathers.grows.steps.sound hsound) (hn.grows hgathers.grows) fun d hd => ?_
          rw [hgathers.grows.steps.blob_eq]
          exact hbelow d (List.mem_cons_of_mem _ hd)
        dsimp only
        generalize childDevices parent rest mid = ends at hrest
        cases hrest with
        | whole all gathers =>
          exact .whole (by rw [all, List.map_cons]) (hgathers.cons gathers)
        | stopped front gathers stops =>
          exact .stopped (by rw [front, List.map_cons, List.cons_append]) (hgathers.cons gathers)
            stops

/-- Where all the nodes have devices, a scan goes past them and leaves everything as it is. -/
theorem childDevices_of_devices (hsound : r.Sound) (parent : Handle)
    (hdevices : List.Forall₂ r.IsDeviceOf nodes handles) (rest : Items Node) :
    childDevices parent (nodes.map .ok ++ rest) r =
      match childDevices parent rest r with
      | .ok others next => .ok (handles ++ others) next
      | .error e next => .error e next := by
  induction hdevices with
  | nil =>
    rw [List.map_nil, List.nil_append]
    cases childDevices parent rest r <;> rfl
  | cons hc _ ih =>
    rw [List.map_cons, List.cons_append, childDevices_cons, childDevice_eq,
      hsound.handleOf?_eq_some_iff.2 hc]
    dsimp only
    rw [ih]
    cases childDevices parent rest r <;> rfl

section Presented

variable (hr : r.Presents b) (hsteps : Steps r later)

include hr hsteps

theorem StopsAt.steps (hstops : r.StopsAt parent rest e) (hlive : (r.device? parent).isSome)
    (hlater : (later.device? parent).isSome) : later.StopsAt parent rest e := by
  cases hstops with
  | unread => exact .unread
  | @undescribed c _ _ fresh fails =>
    rw [← newDevice_steps hsteps hr.sound hlive hlater] at fails
    refine .undescribed (Option.eq_none_iff_forall_ne_some.2 fun k hk => ?_) fails
    have hpresents := hr.of_steps hsteps
    obtain ⟨device, hd, rfl⟩ := hpresents.sound.handleOf?_eq_some_iff.1 hk
    obtain ⟨above, habove⟩ := Option.isSome_iff_exists.1 hlater
    obtain ⟨new, hnew⟩ := exists_newDevice habove (hpresents.truthful k device hd)
    exact ok_ne_error (hnew.symm.trans fails)

/-- A later scan comes past the same nodes to the same failure. -/
theorem exists_gathers_of_steps (hn : r.IsDeviceOf n parent)
    (hdevices : List.Forall₂ r.IsDeviceOf nodes handles)
    (hbelow : ∀ c ∈ nodes, b.parent c = .ok (some n)) (hstops : r.StopsAt parent rest e)
    (hlater : later.IsDeviceOf n parent) : ∃ again last,
      childDevices parent (nodes.map .ok ++ rest) later = .error e last ∧
        later.Gathers last nodes again := by
  induction hdevices generalizing later with
  | nil =>
    have hend := (hstops.steps hr hsteps hn.live hlater.live).childDevices_eq
    exact ⟨[], later, hend, .nil later⟩
  | @cons c k nodes handles hc _ ih =>
    obtain ⟨hfirst, hrest⟩ := List.forall_mem_cons.1 hbelow
    have hpresents := hr.of_steps hsteps
    obtain ⟨device, hd, rfl⟩ := hc
    obtain ⟨above, habove, rfl⟩ := id hlater
    have hdescribes : device.Describes later.blob := hpresents.blob_eq ▸ hr.describes hd
    obtain ⟨h, mid, hend⟩ := exists_childDevice habove hdescribes
    rw [← hpresents.blob_eq] at hfirst
    have hgathers := gathers_of_childDevice hpresents.sound hlater hfirst hend
    obtain ⟨again, last, hlast, hagain⟩ :=
      ih (hsteps.trans hgathers.grows.steps) hrest (hlater.grows hgathers.grows)
    refine ⟨h :: again, last, ?_, hgathers.cons hagain⟩
    rw [List.map_cons, List.cons_append, childDevices_cons, hend]
    dsimp only
    rw [hlast]

end Presented

theorem Presents.parent_of_mem_children (hr : r.Presents b) (hn : r.IsDeviceOf n h)
    (hc : .ok c ∈ b.children n) : b.parent c = .ok (some n) := by
  obtain ⟨device, hd, rfl⟩ := hn
  obtain ⟨above, habove⟩ := hr.sound.exists_parent hd
  rw [hr.blob_eq] at habove
  exact Blob.parent_of_mem_children habove hc

theorem Presents.scans_children (hr : r.Presents b) (hn : r.IsDeviceOf n h) :
    r.Scans h (b.children n) (childDevices h (b.children n) r) := by
  refine scans_childDevices hr.sound hn fun c hc => ?_
  rw [hr.blob_eq]
  exact hr.parent_of_mem_children hn hc

/-- The children that a scan without a failure found are all that is live below the device. -/
theorem Presents.hasParent_iff_mem (hr : r.Presents b) (hn : r.IsDeviceOf n h)
    (hnodes : b.children n = nodes.map .ok) (hdevices : List.Forall₂ r.IsDeviceOf nodes handles) :
    r.HasParent k h ↔ k ∈ handles := by
  have hscan : ∀ e, .error e ∉ b.children n := by simp [hnodes]
  have hmem : ∀ c, c ∈ nodes ↔ .ok c ∈ b.children n := by simp [hnodes]
  constructor
  · intro hk
    obtain ⟨device, hd, -⟩ := id hk
    have hc : r.IsDeviceOf device.node k := ⟨device, hd, rfl⟩
    have hbelow := Blob.mem_children_of_parent ((hr.hasParent_iff hc hn).1 hk) hscan
    exact (List.rel_mem hr.sound.isDeviceOf_biUnique hc hdevices).1 ((hmem _).2 hbelow)
  · intro hk
    obtain ⟨i, hi, rfl⟩ := List.mem_iff_getElem.1 hk
    have hi' : i < nodes.length := hdevices.length_eq.symm ▸ hi
    have hc : r.IsDeviceOf nodes[i] handles[i] := hdevices.get hi' hi
    exact (hr.hasParent_iff hc hn).2
      (hr.parent_of_mem_children hn ((hmem _).1 (List.getElem_mem hi')))

end Registry

theorem Blob.Met.nodup_children {b : Blob} {n : Node} {line nodes : List Node} (h : b.Met n line)
    (hnodes : b.children n = nodes.map .ok) : nodes.Nodup := by
  have hnodup := (Blob.Reached.walk h.mem_walk).fits.children_spaced.nodup (by decide)
  rw [hnodes, Items.values_map_ok] at hnodup
  exact hnodup.of_map Node.offset

namespace Bus

variable {σ ι : Type} [Platform σ ι] {b : Blob} {bus next : Bus σ ι} {h k : Handle}
  {device : Device ι} {n c : Node} {nodes : List Node} {handles : List Handle}

theorem perform_children (hr : bus.registry.Presents b) (hn : bus.registry.IsDeviceOf n h) :
    (Operation.children h).perform bus =
      onRegistry (Registry.childDevices h (b.children n)) bus := by
  obtain ⟨device, hd, rfl⟩ := hn
  have hchildren : Registry.children h bus.registry =
      Registry.childDevices h (bus.registry.blob.children device.node) bus.registry :=
    Registry.get_device_bind_of_live _ hd
  rw [Operation.perform, onRegistry, onRegistry, hchildren, hr.blob_eq]

/-- The call returns the devices `handles` of the children of `h`, which are `nodes` in the tree.
They are all that is live below `h`, and a call after this one returns the same and does nothing
more. -/
structure ListsAll (h : Handle) (nodes : List Node) (bus : Bus σ ι) (handles : List Handle)
    (next : Bus σ ι) : Prop where
  gathers : bus.registry.Gathers next.registry nodes handles
  nodup : handles.Nodup
  parent : ∀ k ∈ handles, next.registry.HasParent k h
  reuses : ∀ (i : Nat) c k, nodes[i]? = some c → bus.registry.IsDeviceOf c k →
    handles[i]? = some k
  listed : ∃ device, next.registry.device? h = some device ∧ device.children.Perm handles
  platform : next.platform = bus.platform
  again : (Operation.children h).perform next = .ok handles next

/-- The call finds the devices `handles` of the first children of `h`, which are `nodes` in the
tree, and stops with `e` in front of `rest`. A call after this one does nothing more, and every
later one, as long as `h` is live, stops with `e` as well, after the devices of the same nodes;
those that are still live are the same. -/
structure ListsSome (h : Handle) (nodes : List Node) (rest : Items Node) (bus : Bus σ ι)
    (handles : List Handle) (e : Error) (next : Bus σ ι) : Prop where
  gathers : bus.registry.Gathers next.registry nodes handles
  stops : next.registry.StopsAt h rest e
  platform : next.platform = bus.platform
  again : (Operation.children h).perform next = .error e next
  reuses : ∀ later, Later next later → (later.registry.device? h).isSome → ∃ found last,
    (Operation.children h).perform later = .error e last ∧
      later.registry.Gathers last.registry nodes found ∧
      ∀ (i : Nat) k, handles[i]? = some k → (later.registry.device? k).isSome →
        found[i]? = some k

section Presented

variable (hr : bus.registry.Presents b) (hn : bus.registry.IsDeviceOf n h)

include hr hn

private theorem listsAll_of_gathers {registry : Registry ι} (hnodes : b.children n = nodes.map .ok)
    (hgathers : bus.registry.Gathers registry nodes handles) :
    ListsAll h nodes bus handles { bus with registry } := by
  have hnext : registry.Presents b := hr.of_steps hgathers.grows.steps
  have hn' : registry.IsDeviceOf n h := hn.grows hgathers.grows
  have hmem : ∀ k, registry.HasParent k h ↔ k ∈ handles :=
    fun k => hnext.hasParent_iff_mem hn' hnodes hgathers.devices
  have hnodup : handles.Nodup := by
    obtain ⟨device, hd, rfl⟩ := hn
    obtain ⟨line, hmet, -⟩ := hr.sound.exists_met hd
    rw [hr.blob_eq] at hmet
    exact (List.rel_nodup hnext.sound.isDeviceOf_biUnique hgathers.devices).1
      (hmet.nodup_children hnodes)
  obtain ⟨device, hd, -⟩ := id hn'
  obtain ⟨hlisted, hchildren⟩ := hnext.sound.children_iff hd
  refine ⟨hgathers, hnodup, fun k => (hmem k).2,
    fun i c k hi hk => hgathers.reuses hr.sound hk hi, ⟨device, hd, ?_⟩, rfl, ?_⟩
  · exact (List.perm_ext_iff_of_nodup hlisted hnodup).2 fun k => (hchildren k).trans (hmem k)
  · have hscan := Registry.childDevices_of_devices hnext.sound h hgathers.devices []
    have hnil : Registry.childDevices h [] registry = .ok [] registry := rfl
    rw [List.append_nil, ← hnodes, hnil] at hscan
    dsimp only at hscan
    rw [perform_children hnext hn', onRegistry, hscan, List.append_nil]

private theorem listsSome_of_gathers {registry : Registry ι} {rest : Items Node} {e : Error}
    (hitems : b.children n = nodes.map .ok ++ rest)
    (hgathers : bus.registry.Gathers registry nodes handles) (hstops : registry.StopsAt h rest e) :
    ListsSome h nodes rest bus handles e { bus with registry } := by
  have hnext : registry.Presents b := hr.of_steps hgathers.grows.steps
  have hn' : registry.IsDeviceOf n h := hn.grows hgathers.grows
  refine ⟨hgathers, hstops, rfl, ?_, fun later hlater hlive => ?_⟩
  · have hscan := Registry.childDevices_of_devices hnext.sound h hgathers.devices rest
    rw [hstops.childDevices_eq, ← hitems] at hscan
    rw [perform_children hnext hn', onRegistry, hscan]
  · have hsteps := hlater.steps hnext.sound
    have hpresents := hnext.of_steps hsteps
    have hbelow : ∀ c ∈ nodes, b.parent c = .ok (some n) := by
      intro c hc
      refine hr.parent_of_mem_children hn ?_
      rw [hitems]
      exact List.mem_append_left _ (List.mem_map_of_mem hc)
    have hn'' := hn'.of_live hnext.sound hsteps hlive
    obtain ⟨found, last, hend, hfound⟩ := Registry.exists_gathers_of_steps hnext hsteps hn'
      hgathers.devices hbelow hstops hn''
    refine ⟨found, { later with registry := last }, ?_, hfound, fun i k hi hk => ?_⟩
    · rw [perform_children hpresents hn'', hitems, onRegistry, hend]
    · obtain ⟨hlt, rfl⟩ := List.getElem?_eq_some_iff.1 hi
      have hlt' : i < nodes.length := hgathers.devices.length_eq.symm ▸ hlt
      have hdevice := (hgathers.devices.get hlt' hlt).of_live hnext.sound hsteps hk
      exact hfound.reuses hpresents.sound hdevice (List.getElem?_eq_getElem hlt')

end Presented

/-- Listing the children of a live device gives one device for each child of its node, in the order
of the tree, and these are all that is live below it; doing so again changes nothing. If a child
fails, the devices of those before it stay, and a later call takes them as they are. -/
theorem Reachable.lists_children (hbus : Reachable b bus)
    (hd : bus.registry.device? h = some device) :
    (∀ handles next, (Operation.children h).perform bus = .ok handles next →
      ∃ nodes, b.children device.node = nodes.map .ok ∧ ListsAll h nodes bus handles next) ∧
    ∀ e next, (Operation.children h).perform bus = .error e next →
      ∃ nodes rest handles, b.children device.node = nodes.map .ok ++ rest ∧
        ListsSome h nodes rest bus handles e next := by
  have hr := hbus.presents
  have hn : bus.registry.IsDeviceOf device.node h := ⟨device, hd, rfl⟩
  have hscans := hr.scans_children hn
  rw [perform_children hr hn, onRegistry]
  generalize Registry.childDevices h (b.children device.node) bus.registry = ends at hscans
  cases hscans with
  | whole all gathers =>
    refine ⟨fun _ _ hend => ?_, fun _ _ hend => by cases hend⟩
    cases hend
    exact ⟨_, all, listsAll_of_gathers hr hn all gathers⟩
  | stopped front gathers stops =>
    refine ⟨fun _ _ hend => (by cases hend), fun _ _ hend => ?_⟩
    cases hend
    exact ⟨_, _, _, front, listsSome_of_gathers hr hn front gathers stops⟩

def fails {σ ι α : Type} (x : BusM σ ι α) (e : Error) (bus : Bus σ ι) : Bool :=
  match x bus with
  | .ok _ _ => false
  | .error found _ => found = e

private theorem exists_of_fails {σ ι α : Type} {x : BusM σ ι α} {e : Error} {bus : Bus σ ι}
    (h : fails x e bus = true) : ∃ next, x bus = .error e next := by
  rw [fails] at h
  cases hend : x bus with
  | ok a next => simp [hend] at h
  | error found next => exact ⟨next, by simpa [hend] using h⟩

/-- What a run shows that finds the serial port before the children of the root are listed: these
are in another order than they were created in, those of the bus cannot be listed, and the serial
port leads to a new device, by the phandle of the clock. -/
theorem exists_referring : ∃ (bus listed : Bus (Recorded Simulated FileNumber) FileNumber)
    (soc : Device FileNumber),
    (Reachable Tree.referring.blob bus ∧ Reachable Tree.referring.blob listed) ∧
      (Operation.children ⟨0⟩).perform bus = .ok [⟨2⟩, ⟨1⟩] listed ∧
      (∃ root, listed.registry.device? ⟨0⟩ = some root ∧ root.children = [⟨1⟩, ⟨2⟩]) ∧
      listed.registry.device? ⟨2⟩ = some soc ∧
      (∃ next, (Operation.children ⟨2⟩).perform listed =
        .error (.device (.tooManyCells 5)) next) ∧
      (∃ next, (Operation.reference ⟨1⟩ "clocks" 0).perform listed = .ok ⟨3⟩ next) ∧
      (∃ next, (Operation.u32 ⟨1⟩ "clocks" 0).perform listed = .ok 1 next) ∧
      ∃ clock, Tree.referring.blob.findNode "/soc/clock" = .ok (some clock) ∧
        Tree.referring.blob.nodeByPhandle 1 = .ok (some clock) := by
  obtain ⟨bus, hbus, hrun⟩ : ∃ bus : Bus (Recorded Simulated FileNumber) FileNumber,
      Reachable Tree.referring.blob bus ∧
        ((match onRegistry (Registry.children ⟨0⟩) bus with
          | .ok handles listed => decide (handles = [⟨2⟩, ⟨1⟩]) &&
              (listed.registry.device? ⟨0⟩).any (fun root => root.children = [⟨1⟩, ⟨2⟩]) &&
              (listed.registry.device? ⟨2⟩).isSome &&
              fails (onRegistry (Registry.children ⟨2⟩)) (.device (.tooManyCells 5)) listed &&
              answers (device ⟨1⟩ "clocks" 0) ⟨3⟩ listed &&
              answers (ask (·.u32 ⟨1⟩ "clocks" 0)) 1 listed
          | .error _ _ => false) &&
        (Tree.referring.blob.findNode "/soc/clock").toOption.any fun found =>
          found.isSome && (Tree.referring.blob.nodeByPhandle 1).toOption.any (· = found)) = true :=
    exists_reachable { inner := { cpu := { label := "" } } } [.findDevice "/serial"]
      (by decide +kernel)
  obtain ⟨hrun, hclock⟩ := (Bool.and_eq_true _ _).mp hrun
  cases hend : onRegistry (Registry.children ⟨0⟩) bus with
  | error e listed => simp [hend] at hrun
  | ok handles listed =>
    simp only [hend, Bool.and_eq_true, decide_eq_true_eq] at hrun
    obtain ⟨⟨⟨⟨⟨rfl, hroot⟩, hsoc⟩, hfailed⟩, hreference⟩, hu32⟩ := hrun
    obtain ⟨root, hroot, hchildren⟩ := (Option.any_eq_true _ _).1 hroot
    obtain ⟨soc, hsoc⟩ := Option.isSome_iff_exists.1 hsoc
    obtain ⟨found, hfound, hclock⟩ := exists_of_any hclock
    obtain ⟨hsome, hnamed⟩ := (Bool.and_eq_true _ _).mp hclock
    obtain ⟨clock, rfl⟩ := Option.isSome_iff_exists.1 hsome
    have hafter : (Operation.children ⟨0⟩).after bus = listed := by
      rw [Operation.after, Operation.perform, hend]
    exact ⟨bus, listed, soc, ⟨hbus, hbus.trans (.single ⟨_, hafter⟩)⟩, hend,
      ⟨root, hroot, of_decide_eq_true hchildren⟩, hsoc, exists_of_fails hfailed,
      exists_of_answers hreference, exists_of_answers hu32, clock, hfound, eq_ok_of_any hnamed⟩

/-- The children of the root are listed in the order of the tree; those of the bus up to the node
that counts too many cells. -/
theorem lists_children_referring :
    ∃ (bus listed : Bus (Recorded Simulated FileNumber) FileNumber) (root soc : Device FileNumber),
    (Reachable Tree.referring.blob bus ∧ bus.registry.device? ⟨0⟩ = some root) ∧
    (Reachable Tree.referring.blob listed ∧ listed.registry.device? ⟨2⟩ = some soc) ∧
    (∃ nodes, Tree.referring.blob.children root.node = nodes.map .ok ∧
      ListsAll ⟨0⟩ nodes bus [⟨2⟩, ⟨1⟩] listed) ∧
    (∃ later, listed.registry.device? ⟨0⟩ = some later ∧ later.children = [⟨1⟩, ⟨2⟩]) ∧
    ∃ nodes rest handles next, Tree.referring.blob.children soc.node = nodes.map .ok ++ rest ∧
      ListsSome ⟨2⟩ nodes rest listed handles (.device (.tooManyCells 5)) next := by
  obtain ⟨bus, listed, soc, ⟨hbus, hlisted⟩, hend, hchildren, hsoc, ⟨next, hfailed⟩, -⟩ :=
    exists_referring
  obtain ⟨root, hroot, -⟩ := hbus.registry_sound.root
  obtain ⟨nodes, hnodes, hall⟩ := (hbus.lists_children hroot).1 _ _ hend
  obtain ⟨front, rest, handles, hfront, hsome⟩ := (hlisted.lists_children hsoc).2 _ _ hfailed
  exact ⟨bus, listed, root, soc, ⟨hbus, hroot⟩, ⟨hlisted, hsoc⟩, ⟨nodes, hnodes, hall⟩, hchildren,
    front, rest, handles, next, hfront, hsome⟩

end Bus

end DeviceTree

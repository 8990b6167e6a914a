import DeviceTree.Proofs.Bus.Claims
import DeviceTree.Proofs.Bus.Reachable

/-!
# Handles

A handle is given out once, the larger the later, and stays with its device for as long as that is
live, whatever operations do in the meantime. A device can be destroyed if it is not the root and
nothing is live below it. Its handle is stale from then on: every operation on it fails before it
does anything, also once there is a new device of the same node.
-/
namespace DeviceTree

namespace Registry

variable {ι : Type} {r early next : Registry ι} {h k : Handle} {device : Device ι}

theorem device_of_none (hnone : r.device? h = none) :
    r.device h = .error (.invalidParameter .staleHandle) := by
  rw [Registry.device, hnone]

section Device

variable {α : Type} (f : Registry ι → Device ι → RegistryM ι α)

private theorem get_device_bind_of_none (hnone : r.device? h = none) :
    (get >>= fun r => liftM (r.device h) >>= f r : RegistryM ι α) r =
      .error (.invalidParameter .staleHandle) r := by
  change (liftM (r.device h) >>= f r : RegistryM ι α) r = _
  rw [device_of_none hnone]
  rfl

theorem get_device_bind_of_live (hd : r.device? h = some device) :
    (get >>= fun r => liftM (r.device h) >>= f r : RegistryM ι α) r = f r device r := by
  change (liftM (r.device h) >>= f r : RegistryM ι α) r = _
  rw [device_eq_ok_iff.2 hd]
  rfl

end Device

theorem Steps.lt_of_created (hsteps : Steps early r) (hsound : early.Sound) (hstep : Step r next)
    (hnone : r.device? h = none) (hd : next.device? h = some device)
    (hk : (early.device? k).isSome) : k.index < h.index := by
  obtain ⟨old, hold⟩ := Option.isSome_iff_exists.1 hk
  rcases hstep.exists_of_device? (hsteps.sound hsound) hd with ⟨_, hlive, -⟩ | ⟨rfl, -⟩
  · simp [hnone] at hlive
  · exact Nat.lt_of_lt_of_le (index_lt_of_device? hold) hsteps.size_le

def Keeps (r next : Registry ι) : Prop :=
  ∀ k, (r.device? k).isSome → (next.device? k).isSome

theorem keeps_modify (h : Handle) (change : Device ι → Device ι) : Keeps r (r.modify h change) := by
  intro k hk
  rw [device?_modify]
  split
  · rwa [Option.isSome_map]
  · exact hk

theorem Grows.keeps_live (hgrows : Grows r next) : Keeps r next := by
  intro k hk
  obtain ⟨device, hd⟩ := Option.isSome_iff_exists.1 hk
  obtain ⟨later, hlater, -⟩ := hgrows.keeps k device hd
  exact Option.isSome_iff_exists.2 ⟨later, hlater⟩

/-- The device is live, it has a parent, and nothing is live below it. -/
structure Barren (r : Registry ι) (h : Handle) : Prop where
  live : (r.device? h).isSome
  ne_rootHandle : h ≠ rootHandle
  childless : ∀ c, ¬r.HasParent c h

/-- The device `h` was taken out of the registry, and out of the list of its parent's children;
nothing else was changed. -/
structure Takes (r : Registry ι) (h : Handle) (next : Registry ι) : Prop where
  blob_eq : next.blob = r.blob
  size_eq : next.slots.size = r.slots.size
  devices : ∃ device parent, r.device? h = some device ∧ device.parent = some parent ∧
    (∀ k, next.device? k = if k = h then none else if k = parent then
      (r.device? k).map fun above => { above with children := above.children.filter (· ≠ h) }
      else r.device? k) ∧
    ∀ n, next.handleOf? n = if n = device.node then none else r.handleOf? n

theorem Takes.device?_eq_none (htakes : r.Takes h next) : next.device? h = none := by
  obtain ⟨-, -, device, parent, -, -, hview, -⟩ := htakes
  rw [hview, if_pos rfl]

theorem Takes.index_lt (htakes : r.Takes h next) : h.index < r.slots.size := by
  obtain ⟨-, -, device, parent, hd, -⟩ := htakes
  exact index_lt_of_device? hd

theorem destroy_eq (r : Registry ι) (h : Handle) : destroy h r = match r.device? h with
    | none => .error (.invalidParameter .staleHandle) r
    | some device => match device.parent with
      | none => .error (.invalidParameter .destroyRoot) r
      | some parent => if device.children = [] then .ok () (r.remove parent h device)
        else .error (.invalidParameter .liveChildren) r := by
  cases hd : r.device? h with
  | none => exact get_device_bind_of_none _ hd
  | some device =>
    rw [destroy, get_device_bind_of_live _ hd]
    dsimp only
    cases device.parent with
    | none => rfl
    | some parent =>
      by_cases hbarren : device.children = []
      · simp only [hbarren, ne_eq, not_true, if_false]
        rfl
      · simp only [hbarren, ne_eq, not_false_iff, if_true]
        rfl

namespace Sound

variable (hsound : r.Sound)

include hsound

theorem children_eq_nil_iff (hd : r.device? h = some device) :
    device.children = [] ↔ ∀ c, ¬r.HasParent c h := by
  rw [List.eq_nil_iff_forall_not_mem]
  exact forall_congr' fun c => not_congr ((hsound.children_iff hd).2 c)

theorem takes_remove {parent : Handle} (hd : r.device? h = some device)
    (hparent : device.parent = some parent) : r.Takes h (r.remove parent h device) := by
  obtain ⟨above, habove, hlt, -⟩ := hsound.parent_live hd hparent
  have hne : parent ≠ h := by
    rintro rfl
    omega
  refine ⟨rfl, by simp [Registry.remove, Registry.modify], device, parent, hd, hparent,
    fun k => ?_, fun n => ?_⟩
  · rw [device?_remove habove hne]
    split
    · rfl
    split
    case isTrue hk => simp [hk, habove]
    case isFalse => rfl
  · have hoffset : device.node.offset = n.offset ↔ n = device.node :=
      ⟨fun h => by cases n; cases hnode : device.node; simp_all, fun h => h ▸ rfl⟩
    simp only [handleOf?, index_remove, hoffset]

/-- Destroying succeeds exactly on what can be destroyed, and takes it out of the registry. -/
theorem destroy_eq_ok_iff :
    destroy h r = .ok () next ↔ r.Barren h ∧ ∃ device parent, r.device? h = some device ∧
      device.parent = some parent ∧ next = r.remove parent h device := by
  rw [destroy_eq]
  constructor
  · intro hend
    cases hd : r.device? h with
    | none => simp [hd] at hend
    | some device =>
      simp only [hd] at hend
      cases hparent : device.parent with
      | none => simp [hparent] at hend
      | some parent =>
        simp only [hparent] at hend
        split at hend
        case isTrue hbarren =>
          cases hend
          exact ⟨⟨by rw [hd]; rfl, hsound.ne_rootHandle hd hparent,
            (hsound.children_eq_nil_iff hd).1 hbarren⟩, device, parent, rfl, hparent, rfl⟩
        case isFalse => cases hend
  · rintro ⟨hbarren, device, parent, hd, hparent, rfl⟩
    rw [hd]
    simp only [hparent, (hsound.children_eq_nil_iff hd).2 hbarren.childless, if_true]

theorem exists_destroy_iff : (∃ next, destroy h r = .ok () next) ↔ r.Barren h := by
  simp only [hsound.destroy_eq_ok_iff, exists_and_left, and_iff_left_iff_imp]
  intro hbarren
  obtain ⟨device, hd⟩ := Option.isSome_iff_exists.1 hbarren.live
  obtain ⟨parent, _, hparent, -⟩ := hsound.parent h device hd hbarren.ne_rootHandle
  exact ⟨_, device, hd, parent, hparent, rfl⟩

theorem destroy_ensures_live (hne : k ≠ h) (hk : (r.device? k).isSome) :
    Ensures (destroy h) r (fun _ next => (next.device? k).isSome) fun next =>
      (next.device? k).isSome := by
  have hends : Ensures (destroy h) r (fun _ next => Steps r next ∧ Calm r next) (· = r) :=
    destroy_ensures hsound
  rw [Ensures] at hends ⊢
  cases hend : destroy h r with
  | ok _ next =>
    obtain ⟨old, hold⟩ := Option.isSome_iff_exists.1 hk
    obtain ⟨-, device, parent, hd, hparent, rfl⟩ := hsound.destroy_eq_ok_iff.1 hend
    obtain ⟨above, habove, hlt, -⟩ := hsound.parent_live hd hparent
    dsimp only
    rw [device?_remove_of_live habove (by rintro rfl; omega) hold hne]
    rfl
  | error e next =>
    rw [hend] at hends
    obtain rfl : next = r := hends
    exact hk

private theorem takes_of_destroy (hend : destroy h r = .ok () next) : r.Takes h next := by
  obtain ⟨-, device, parent, hd, hparent, rfl⟩ := hsound.destroy_eq_ok_iff.1 hend
  exact hsound.takes_remove hd hparent

end Sound

section Stale

variable (hnone : r.device? h = none)

include hnone

theorem device_bind_of_none {α : Type} (f : Device ι → Except Error α) :
    (r.device h >>= f) = .error (.invalidParameter .staleHandle) := by
  rw [device_of_none hnone]
  rfl

private theorem property_of_none (name : String) :
    r.property h name = .error (.invalidParameter .staleHandle) :=
  device_bind_of_none hnone _

private theorem readProperty_of_none {α : Type} (name : String) (read : Reader α) :
    r.readProperty h name read = .error (.invalidParameter .staleHandle) := by
  rw [readProperty, property_of_none hnone]
  rfl

private theorem resolve_of_none (route : Route) (address length : Nat) :
    r.resolve route h address length = .error (.invalidParameter .staleHandle) := by
  rw [resolve, maximumHops, resolveWithin]
  exact device_bind_of_none hnone _

end Stale

end Registry

/-- The device that the operation is asked of. -/
def Operation.subject? {σ ι : Type} : Operation σ ι → Option Handle
  | device h | children h | destroy h | exchangeIO h _ | property h _ | stringIndex h _ _ |
    isCompatible h _ | u32 h _ _ | u64 h _ _ | u128 h _ _ | string h _ _ | resolve h _ _ |
    parseElement h _ _ _ | parseDevice h _ _ | parseReg h _ _ | parseRange h _ _ |
    elementByName h _ _ _ _ | reg h _ | regByName h _ | range _ h _ | reference h _ _ => some h
  | findDevice _ | readRegister .. | writeRegister .. | pollRegister .. | copyRegisters .. |
    claimReservations | changePlatform _ => none

namespace Bus

open Registry (Steps)

variable {σ ι α β : Type} {bus later : Bus σ ι} {e : Error} {h : Handle}

theorem ask_of_error {question : Registry ι → Except Error α}
    (hquestion : question bus.registry = .error e) :
    (ask question : BusM σ ι α) bus = .error e bus := by
  rw [InPlace.ask_apply, hquestion]

theorem bind_of_error {x : BusM σ ι α} (hx : x bus = .error e later) (f : α → BusM σ ι β) :
    (x >>= f) bus = .error e later := by
  simp only [bind, EStateM.bind, hx]

private theorem onRegistry_of_error {operation : RegistryM ι α}
    (hoperation : operation bus.registry = .error e bus.registry) :
    (onRegistry operation : BusM σ ι α) bus = .error e bus := by
  rw [onRegistry, hoperation]

variable [Platform σ ι]

/-- Without a live device nothing is done, whatever is asked of it. -/
theorem perform_of_none (hnone : bus.registry.device? h = none) (op : Operation σ ι)
    (hop : op.subject? = some h) :
    op.perform bus = .error (.invalidParameter .staleHandle) bus := by
  have hdevice : (ask (·.device h) : BusM σ ι (Device ι)) bus =
      .error (.invalidParameter .staleHandle) bus :=
    ask_of_error (Registry.device_of_none hnone)
  have hask : ∀ {α : Type} (f : Registry ι → Device ι → Except Error α),
      (ask fun r => r.device h >>= f r : BusM σ ι α) bus =
        .error (.invalidParameter .staleHandle) bus :=
    fun f => ask_of_error (Registry.device_bind_of_none hnone (f bus.registry))
  have hproperty : ∀ name, (ask (·.property h name) : BusM σ ι Cursor) bus =
      .error (.invalidParameter .staleHandle) bus :=
    fun name => ask_of_error (Registry.property_of_none hnone name)
  have hread : ∀ {α : Type} (name : String) (read : Reader α),
      (ask (·.readProperty h name read) : BusM σ ι α) bus =
        .error (.invalidParameter .staleHandle) bus :=
    fun name read => ask_of_error (Registry.readProperty_of_none hnone name read)
  have hresolve : ∀ address length, (ask (·.resolve .ranges h address length) : BusM σ ι Location)
      bus = .error (.invalidParameter .staleHandle) bus :=
    fun address length => ask_of_error (Registry.resolve_of_none hnone .ranges address length)
  have hregistry : ∀ {α : Type} (f : Registry ι → Device ι → RegistryM ι α),
      (onRegistry (get >>= fun r => liftM (r.device h) >>= f r) : BusM σ ι α) bus =
        .error (.invalidParameter .staleHandle) bus :=
    fun f => onRegistry_of_error (Registry.get_device_bind_of_none f hnone)
  have hparse : ∀ cursor index, (parseDevice h cursor index : BusM σ ι (Handle × Cursor)) bus =
      .error (.invalidParameter .staleHandle) bus :=
    fun _ _ => bind_of_error hdevice _
  cases op <;> cases hop
  case device => exact hdevice
  case children | destroy | exchangeIO => exact hregistry _
  case property => exact hproperty _
  case stringIndex name value =>
    exact hask fun r device => r.blob.stringIndex device.node name value
  case isCompatible value => exact hask fun r device => r.blob.isCompatible device.node value
  case u32 | u64 | u128 | string => exact hread _ _
  case resolve => exact hresolve _ _
  case parseElement cursor type index =>
    cases type
    case device => exact bind_of_error (hparse cursor index) _
    case reg | range => exact bind_of_error (bind_of_error (hask _) _) _
    all_goals exact bind_of_error hdevice _
  case parseDevice => exact hparse _ _
  case parseReg | parseRange => exact bind_of_error (hask _) _
  case elementByName | regByName => exact bind_of_error (hask _) _
  case reg | range | reference => exact bind_of_error (hproperty _) _

omit [Platform σ ι] in
theorem carries_keeps : Carries (fun bus : Bus σ ι => bus.registry.Sound)
    fun bus later => Steps bus.registry later.registry ∧
      Registry.Keeps bus.registry later.registry where
  refl bus _ := ⟨.refl bus.registry, fun _ => id⟩
  trans _ _ _ hfirst hlast := ⟨hfirst.1.trans hlast.1, fun k hk => hlast.2 k (hfirst.2 k hk)⟩
  keeps _ _ hsound hnext := hnext.1.sound hsound

/-- All that is live stays live unless something is destroyed. -/
theorem permits_keeps : Permits (fun bus : Bus σ ι => bus.registry.Sound)
    fun bus later => Steps bus.registry later.registry ∧
      Registry.Keeps bus.registry later.registry where
  toCarries := carries_keeps
  sound _ hsound := hsound
  grows _ _ _ hgrows := ⟨hgrows.steps, hgrows.keeps_live⟩
  call bus _ _ _ := ⟨.refl bus.registry, fun _ => id⟩
  connect _ := carries_keeps.connect (fun bus _ _ => ⟨.refl bus.registry, fun _ => id⟩)
    fun bus h _ => ⟨.single (.connect bus.registry h), Registry.keeps_modify h _⟩

/-- A device stays live whatever is done but for destroying it. -/
theorem live_after (hsound : bus.registry.Sound) (hd : (bus.registry.device? h).isSome)
    {op : Operation σ ι} (hop : op ≠ .destroy h) : ((op.after bus).registry.device? h).isSome := by
  have hothers : ∀ other : Operation σ ι, other.TakesNothing → Ensures other.perform bus
      (fun _ later => (later.registry.device? h).isSome)
      fun later => (later.registry.device? h).isSome :=
    fun other hother => (permits_keeps.perform other hother bus hsound).imp
      (fun _ _ hlater => hlater.2 h hd) fun _ hlater => hlater.2 h hd
  refine Operation.after_of_ensures (Q := fun later => (later.registry.device? h).isSome) ?_
  cases op with
  | destroy k =>
    have hne : h ≠ k := by
      rintro rfl
      exact hop rfl
    rw [Operation.perform, ensures_onRegistry]
    exact hsound.destroy_ensures_live hne hd
  | changePlatform change => exact hd
  | _ => exact hothers _ trivial

/-- Nothing that was destroyed is live again, and its handle is of no more use. -/
theorem Later.device?_eq_none (hlater : Later bus later) (hsound : bus.registry.Sound)
    (hissued : h.index < bus.registry.slots.size) (hnone : bus.registry.device? h = none) :
    later.registry.device? h = none := by
  cases hlive : later.registry.device? h with
  | none => rfl
  | some device =>
    obtain ⟨old, hold, -⟩ := (hlater.steps hsound).device?_eq hsound hissued hlive
    simp [hnone] at hold

variable {b : Blob} {gone : Bus (Recorded σ ι) ι}

/-- Handles are given out in increasing order and never twice. A live device stays what it is, but
for what is connected, what is below it and its register I/O, until it is destroyed; and then
nothing can be done with its handle any more. Exactly the devices other than the root that have
nothing live below them can be destroyed, and that takes away nothing else. -/
theorem Reachable.stable_handles {bus : Bus (Recorded σ ι) ι} (hbus : Reachable b bus) :
    (∀ op : Operation (Recorded σ ι) ι, Steps bus.registry (op.after bus).registry) ∧
    (∀ early r next h k, Steps bus.registry early → Steps early r → Registry.Step r next →
      r.device? h = none → (next.device? h).isSome → (early.device? k).isSome →
        k.index < h.index) ∧
    (∀ later h device live, Later bus later → bus.registry.device? h = some device →
      later.registry.device? h = some live → live = { device with
        connected := live.connected, children := live.children, io := live.io }) ∧
    (∀ (op : Operation (Recorded σ ι) ι) h, (bus.registry.device? h).isSome → op ≠ .destroy h →
      ((op.after bus).registry.device? h).isSome) ∧
    (∀ h gone later (op : Operation (Recorded σ ι) ι),
      (Operation.destroy h).perform bus = .ok () gone → Later gone later → op.subject? = some h →
        op.perform later = .error (.invalidParameter .staleHandle) later) ∧
    (∀ h, (∃ gone, (Operation.destroy h).perform bus = .ok () gone) ↔ bus.registry.Barren h) ∧
    ∀ h gone, (Operation.destroy h).perform bus = .ok () gone →
      bus.registry.Takes h gone.registry ∧ gone.platform = bus.platform := by
  have hsound := hbus.registry_sound
  have hdestroy : ∀ {h gone}, (Operation.destroy h).perform bus = .ok () gone →
      Registry.destroy h bus.registry = .ok () gone.registry ∧ gone.platform = bus.platform := by
    intro h gone hend
    rw [Operation.perform, onRegistry] at hend
    split at hend
    case h_1 registry hdone =>
      cases hend
      exact ⟨hdone, rfl⟩
    case h_2 => cases hend
  refine ⟨fun op => ?_, fun early r next h k hearly hsteps hstep hnone hh hk => ?_,
    fun later h device live hlater hd hlive => ?_, fun op h hd hop => live_after hsound hd hop,
    fun h gone later op hend hlater hop => ?_, fun h => ?_, fun h gone hend => ?_⟩
  · exact Operation.after_of_ensures (Q := fun later => Steps bus.registry later.registry)
      (perform_advances op bus hsound)
  · obtain ⟨device, hd⟩ := Option.isSome_iff_exists.1 hh
    exact hsteps.lt_of_created (hearly.sound hsound) hstep hnone hd hk
  · have hlt := Registry.index_lt_of_device? hd
    obtain ⟨old, hold, heq⟩ := (hlater.steps hsound).device?_eq hsound hlt hlive
    obtain rfl : old = device := by simpa [hold] using hd
    exact heq
  · obtain ⟨hdone, -⟩ := hdestroy hend
    have htakes := hsound.takes_of_destroy hdone
    have hgone : gone.registry.Sound := by
      have hends : Ensures (Registry.destroy h) bus.registry
        (fun _ next => Steps bus.registry next ∧ _) _ := Registry.destroy_ensures hsound
      exact (hends.of_ok hdone).1.sound hsound
    have hissued : h.index < gone.registry.slots.size := by
      rw [htakes.size_eq]
      exact htakes.index_lt
    exact perform_of_none (hlater.device?_eq_none hgone hissued htakes.device?_eq_none) op hop
  · rw [← hsound.exists_destroy_iff]
    constructor
    · rintro ⟨gone, hend⟩
      exact ⟨_, (hdestroy hend).1⟩
    · rintro ⟨next, hend⟩
      exact ⟨{ bus with registry := next }, by rw [Operation.perform, onRegistry, hend]⟩
  · exact ⟨hsound.takes_of_destroy (hdestroy hend).1, (hdestroy hend).2⟩

/-- The serial port is destroyed and found again under another handle; the old one is stale. -/
theorem stable_handles_bridge : ∃ bus gone later : Bus (Recorded Simulated FileNumber) FileNumber,
    Reachable Tree.bridge.blob bus ∧ (Operation.destroy ⟨2⟩).perform bus = .ok () gone ∧
      Later gone later ∧ bus.registry.IsDeviceOf ⟨164⟩ ⟨2⟩ ∧ later.registry.IsDeviceOf ⟨164⟩ ⟨3⟩ ∧
      ∀ op : Operation (Recorded Simulated FileNumber) FileNumber, op.subject? = some ⟨2⟩ →
        op.perform later = .error (.invalidParameter .staleHandle) later := by
  obtain ⟨bus, hbus, hrun⟩ : ∃ bus : Bus (Recorded Simulated FileNumber) FileNumber,
      Reachable Tree.bridge.blob bus ∧
        ((bus.registry.device? ⟨2⟩).any (·.node = ⟨164⟩) &&
          match (Operation.destroy ⟨2⟩).perform bus with
          | .ok _ gone => ((afterAll [.findDevice "/bridge/uart@10"] gone).registry.device? ⟨3⟩).any
            (·.node = ⟨164⟩)
          | .error _ _ => false) = true :=
    exists_reachable { inner := { cpu := { label := "" } } } [.findDevice "/bridge/uart@10"]
      (by decide +kernel)
  obtain ⟨hfirst, hrun⟩ := (Bool.and_eq_true _ _).mp hrun
  obtain ⟨device, hd, hnode⟩ := (Option.any_eq_true _ _).1 hfirst
  cases hend : (Operation.destroy ⟨2⟩).perform bus with
  | error e next => simp [hend] at hrun
  | ok _ gone =>
    rw [hend] at hrun
    obtain ⟨again, hagain, hsame⟩ := (Option.any_eq_true _ _).1 hrun
    have hlater := later_afterAll [.findDevice "/bridge/uart@10"] gone
    obtain ⟨-, -, -, -, hstale, -⟩ := hbus.stable_handles
    exact ⟨bus, gone, _, hbus, hend, hlater, ⟨device, hd, of_decide_eq_true hnode⟩,
      ⟨again, hagain, of_decide_eq_true hsame⟩, fun op => hstale ⟨2⟩ gone _ op hend hlater⟩

end Bus

end DeviceTree

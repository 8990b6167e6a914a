import DeviceTree.Bus.Operation
import DeviceTree.Platform.Simulated
import DeviceTree.Proofs.Bus.Discovery
import DeviceTree.Proofs.Tree.Layout

/-!
# Every reachable registry is sound

Each operation of a bus takes its registry on by steps, one after another, whatever it asks, calls
or creates before it fails. A step keeps a registry sound, and the registry that knows the root
alone is sound; so all that operations lead to is sound, and is a registry of the same blob.
-/
namespace DeviceTree

/-- A serial port behind a bridge, whose addresses begin at `0x8000` on the other side. -/
def Tree.bridge : Tree where
  root :=
    { name := ""
      properties := [.ofCells "#address-cells" [1], .ofCells "#size-cells" [1]]
      children :=
        [{ name := "bridge"
           properties :=
            [.ofCells "#address-cells" [1], .ofCells "#size-cells" [1],
              .ofCells "ranges" [0, 0x8000, 0x100]]
           children := [{ name := "uart@10", properties := [.ofCells "reg" [0x10, 0x10]] }] }] }

def Call.driver? {ι : Type} : Call ι → Option Handle
  | .connect h .. => some h
  | _ => none

/-- The operation takes away neither a device nor the platform. -/
def Operation.TakesNothing {σ ι : Type} : Operation σ ι → Prop
  | .destroy _ | .changePlatform _ => False
  | _ => True

theorem Operation.after_of_ensures {σ ι : Type} [Platform σ ι] {op : Operation σ ι}
    {bus : Bus σ ι} {Q : Bus σ ι → Prop} (h : Ensures op.perform bus (fun _ later => Q later) Q) :
    Q (op.after bus) := by
  rw [Operation.after]
  cases hend : op.perform bus <;> simpa [Ensures, hend] using h

namespace Bus

open Registry (Steps)

variable {σ ι α β : Type} {b : Blob} {bus later : Bus σ ι} {x : BusM σ ι α} {f : α → BusM σ ι β}

/-- Whether it succeeds or fails, the computation leads along `R` from every bus with `P`. -/
def Leads (P : Bus σ ι → Prop) (R : Bus σ ι → Bus σ ι → Prop) (x : BusM σ ι α) : Prop :=
  ∀ bus, P bus → Ensures x bus (fun _ later => R bus later) (R bus)

/-- Whatever leads along `R` may be done one after another, as `P` holds all the way. -/
structure Carries (P : Bus σ ι → Prop) (R : Bus σ ι → Bus σ ι → Prop) : Prop where
  refl : ∀ bus, P bus → R bus bus
  trans : ∀ bus next later, R bus next → R next later → R bus later
  keeps : ∀ bus next, P bus → R bus next → P next

namespace Carries

variable {P : Bus σ ι → Prop} {R : Bus σ ι → Bus σ ι → Prop}

section Computations

variable (hR : Carries P R)

include hR

theorem pure (a : α) : Leads P R (pure a : BusM σ ι α) :=
  hR.refl

theorem throw (e : Error) : Leads P R (throw e : BusM σ ι α) :=
  hR.refl

theorem bind (hx : Leads P R x) (hf : ∀ a, Leads P R (f a)) : Leads P R (x >>= f) := by
  intro bus hbus
  rw [ensures_bind]
  apply (hx bus hbus).imp
  · intro a between hbetween
    exact (hf a between (hR.keeps _ _ hbus hbetween)).imp (fun _ _ => hR.trans _ _ _ hbetween)
      fun _ => hR.trans _ _ _ hbetween
  · intro _ hlater
    exact hlater

theorem ask (question : Registry ι → Except Error α) :
    Leads P R (Bus.ask question : BusM σ ι α) := by
  intro bus hbus
  rw [ensures_ask]
  exact ⟨fun _ _ => hR.refl bus hbus, fun _ _ => hR.refl bus hbus⟩

theorem lift (outcome : Except Error α) : Leads P R (liftM outcome : BusM σ ι α) := by
  intro bus hbus
  rw [ensures_lift]
  exact ⟨fun _ _ => hR.refl bus hbus, fun _ _ => hR.refl bus hbus⟩

theorem forM {step : α → BusM σ ι PUnit} (h : ∀ a, Leads P R (step a)) (l : List α) :
    Leads P R (l.forM step) := by
  induction l with
  | nil => exact hR.pure _
  | cons a l ih => exact hR.bind (h a) fun _ => ih

end Computations

end Carries

/-- Whether it succeeds or fails, the computation takes a sound registry on by steps. -/
def Advances (x : BusM σ ι α) : Prop :=
  ∀ bus : Bus σ ι, bus.registry.Sound →
    Ensures x bus (fun _ later => Steps bus.registry later.registry)
      fun later => Steps bus.registry later.registry

theorem carries_steps : Carries (fun bus : Bus σ ι => bus.registry.Sound)
    fun bus later => Steps bus.registry later.registry where
  refl bus _ := .refl bus.registry
  trans _ _ _ := .trans
  keeps _ _ hsound hsteps := hsteps.sound hsound

variable [Platform σ ι] {h : Handle} {cursor : Cursor} {w : Window} {width : Width}
  {index offset : Nat} {address : Except Error Nat} {value : UInt64}

/-- What an operation other than `destroy` does leads along `R`: discovery, calls that do not
connect a driver, and connecting a device. -/
structure Permits (P : Bus σ ι → Prop) (R : Bus σ ι → Bus σ ι → Prop) : Prop
    extends Carries P R where
  sound : ∀ bus, P bus → bus.registry.Sound
  grows : ∀ (bus : Bus σ ι) registry, P bus → bus.registry.Grows registry →
    R bus { bus with registry }
  call : ∀ (bus : Bus σ ι) (request : Call ι), P bus → request.driver? = none →
    R bus { bus with platform := (Platform.respond request bus.platform).2 }
  connect : ∀ h, Leads P R (Bus.connect h)

namespace Permits

variable {P : Bus σ ι → Prop} {R : Bus σ ι → Bus σ ι → Prop} (hR : Permits P R)

include hR

theorem onRegistry {operation : RegistryM ι α} (h : ∀ r : Registry ι, r.Sound →
    Ensures operation r (fun _ next => r.Grows next) r.Grows) :
    Leads P R (Bus.onRegistry operation : BusM σ ι α) := by
  intro bus hbus
  rw [ensures_onRegistry]
  exact (h bus.registry (hR.sound bus hbus)).imp (fun _ next => hR.grows bus next hbus)
    fun next => hR.grows bus next hbus

/-- A call that does not connect a driver, and what is made of its reply. -/
theorem ofCall {request : Call ι} {f : request.Reply → BusM σ ι α}
    (hrequest : request.driver? = none) (hf : ∀ reply, Leads P R (f reply)) :
    Leads P R (Bus.call request >>= f) :=
  hR.bind (fun bus hbus => hR.call bus request hbus hrequest) hf

theorem claim (c : Claim) : Leads P R (Bus.claim c) :=
  hR.ofCall rfl hR.lift

theorem claimAll (items : Items Reservation) : Leads P R (Bus.claimAll items) := by
  induction items with
  | nil => exact hR.pure _
  | cons item rest ih =>
    cases item with
    | error e => exact hR.throw _
    | ok r => exact hR.bind (hR.claim _) fun _ => hR.bind ih fun _ => hR.pure _

theorem settle (read : EntryRead α) : Leads P R (Bus.settle read) := by
  rw [Bus.settle]
  cases read.claim? with
  | none => exact hR.pure _
  | some c => exact hR.bind (hR.claim c) fun _ => hR.pure _

theorem parseReg : Leads P R (Bus.parseReg h cursor index) :=
  hR.bind (hR.ask _) hR.settle

theorem parseRange : Leads P R (Bus.parseRange h cursor index) :=
  hR.bind (hR.ask _) hR.settle

theorem reg : Leads P R (Bus.reg h index) :=
  hR.bind (hR.ask _) fun _ => hR.bind hR.parseReg fun _ => hR.pure _

theorem follow (phandle : UInt32) : Leads P R (Bus.follow phandle) := by
  refine hR.bind (hR.ask _) ?_
  intro target
  cases target with
  | none => exact hR.throw _
  | some n =>
    refine hR.bind (hR.onRegistry fun r hsound => ?_) fun target =>
      hR.bind (hR.connect target) fun _ => hR.pure _
    exact (Registry.deviceOf_ensures hsound).imp (fun _ _ h => h.1) fun _ h => h

theorem parseDevice : Leads P R (Bus.parseDevice h cursor index) :=
  hR.bind (hR.ask _) fun _ => hR.bind (hR.lift _) fun read =>
    hR.bind (hR.follow read.1) fun _ => hR.pure _

theorem parseElement {type : ElementType} : Leads P R (Bus.parseElement h cursor type index) := by
  cases type
  case device => exact hR.bind hR.parseDevice fun _ => hR.pure _
  case reg => exact hR.bind hR.parseReg fun _ => hR.pure _
  case range => exact hR.bind hR.parseRange fun _ => hR.pure _
  all_goals exact hR.bind (hR.ask _) fun _ => hR.lift _

theorem readAt : Leads P R (Bus.readAt w width address) :=
  hR.bind (hR.ask _) fun _ => hR.bind (hR.lift address) fun _ => hR.ofCall rfl hR.lift

theorem writeAt : Leads P R (Bus.writeAt w width address value) :=
  hR.bind (hR.ask _) fun _ => hR.bind (hR.lift address) fun _ => hR.ofCall rfl hR.lift

theorem readRegister : Leads P R (Bus.readRegister w offset width) :=
  hR.bind (hR.lift _) fun _ => hR.readAt

theorem writeRegister : Leads P R (Bus.writeRegister w offset width value) := by
  rw [Bus.writeRegister]
  split
  · exact hR.bind (hR.throw _) fun _ => hR.bind (hR.lift _) fun _ => hR.writeAt
  · exact hR.bind (hR.lift _) fun _ => hR.writeAt

theorem pollRegister {mask expected : UInt64} {timeout : Nat} :
    Leads P R (Bus.pollRegister w offset width mask expected timeout) := by
  induction timeout using Nat.strongRecOn with
  | _ timeout ih =>
    rw [Bus.pollRegister]
    refine hR.bind hR.readRegister fun value => ?_
    split
    · exact hR.pure _
    split
    · exact hR.throw _
    · have hlt : timeout - pollInterval < timeout := by
        simp only [pollInterval]
        omega
      exact hR.ofCall rfl fun _ => ih _ hlt

theorem copyRun {dst src : Window} {dstStart srcStart count left : Nat} {backwards : Bool} :
    Leads P R (Bus.copyRun dst src dstStart srcStart width backwards count left) := by
  induction left with
  | zero => exact hR.pure _
  | succ left ih => exact hR.bind hR.readAt fun _ => hR.bind hR.writeAt fun _ => ih

theorem perform (op : Operation σ ι) (hop : op.TakesNothing) : Leads P R op.perform := by
  cases op with
  | children h => exact hR.onRegistry fun r hsound => Registry.children_ensures hsound
  | findDevice path => exact hR.onRegistry fun r hsound => Registry.findDevice_ensures hsound path
  | destroy h => exact hop.elim
  | exchangeIO h io => exact hR.onRegistry fun _ _ => Registry.exchangeIO_ensures io
  | parseElement h cursor type index => exact hR.parseElement
  | parseDevice h cursor index => exact hR.parseDevice
  | parseReg h cursor index => exact hR.parseReg
  | parseRange h cursor index => exact hR.parseRange
  | elementByName h name names wanted type =>
    exact hR.bind (hR.ask _) fun _ => hR.bind (hR.ask _) fun _ =>
      hR.bind hR.parseElement fun _ => hR.pure _
  | reg h index => exact hR.reg
  | regByName h name => exact hR.bind (hR.ask _) fun _ => hR.reg
  | range route h index =>
    exact hR.bind (hR.ask _) fun _ => hR.bind hR.parseRange fun _ => hR.pure _
  | reference h name index =>
    exact hR.bind (hR.ask _) fun _ => hR.bind hR.parseDevice fun _ => hR.pure _
  | readRegister w offset width => exact hR.readRegister
  | writeRegister w offset width value => exact hR.writeRegister
  | pollRegister w offset width mask expected timeout => exact hR.pollRegister
  | copyRegisters dst dstOffset src srcOffset width count =>
    exact hR.bind (hR.lift _) fun _ => hR.bind (hR.lift _) fun _ => hR.copyRun
  | claimReservations =>
    intro bus hbus
    exact hR.claimAll _ bus hbus
  | changePlatform change => exact hop.elim
  | _ =>
    rw [Operation.perform]
    exact hR.ask _

end Permits

section Connecting

variable {P : Bus σ ι → Prop} {R : Bus σ ι → Bus σ ι → Prop} (hR : Carries P R)
  (hcall : ∀ (bus : Bus σ ι) (request : Call ι), P bus →
    R bus { bus with platform := (Platform.respond request bus.platform).2 })
  (hconnect : ∀ (bus : Bus σ ι) h, P bus → R bus { bus with
    registry := bus.registry.modify h fun device => { device with connected := true } })

include hR hcall hconnect

/-- Connecting drivers leads along what all calls and connected devices lead along. -/
theorem Carries.connectDriver : Leads P R (Bus.connectDriver h) := by
  refine hR.bind (hR.ask _) fun device => hR.bind (fun bus => hcall bus _) fun reply => ?_
  exact hR.bind (hR.lift reply) fun _ bus => hconnect bus h

theorem Carries.connect : Leads P R (Bus.connect h) :=
  hR.bind (hR.ask _) (hR.forM fun _ => hR.connectDriver hcall hconnect)

end Connecting

theorem permits_steps : Permits (fun bus : Bus σ ι => bus.registry.Sound)
    fun bus later => Steps bus.registry later.registry where
  toCarries := carries_steps
  sound _ hsound := hsound
  grows _ _ _ hgrows := hgrows.steps
  call bus _ _ _ := .refl bus.registry
  connect _ := carries_steps.connect (fun bus _ _ => .refl bus.registry)
    fun bus h _ => .single (.connect bus.registry h)

theorem perform_advances (op : Operation σ ι) : Advances op.perform := by
  cases op with
  | destroy h =>
    intro bus hsound
    rw [Operation.perform, ensures_onRegistry]
    apply (Registry.destroy_ensures hsound).imp
    · exact fun _ _ hend => hend.1
    · rintro _ rfl
      exact .refl _
  | changePlatform change =>
    intro bus _
    exact .refl _
  | _ => exact permits_steps.perform _ trivial

theorem Later.steps (h : Later bus later) (hsound : bus.registry.Sound) :
    Steps bus.registry later.registry := by
  induction h with
  | refl => exact .refl _
  | @tail between next hbefore hop ih =>
    obtain ⟨op, rfl⟩ := hop
    exact ih.trans (Operation.after_of_ensures (perform_advances op between (ih.sound hsound)))

theorem later_afterAll (ops : List (Operation σ ι)) (bus : Bus σ ι) :
    Later bus (afterAll ops bus) := by
  induction ops generalizing bus with
  | nil => exact .refl
  | cons op ops ih => exact .head ⟨op, rfl⟩ (ih _)

theorem Reachable.sound (h : Reachable b bus) : bus.registry.blob = b ∧ bus.registry.Sound := by
  obtain ⟨platform, start, hstart, hlater⟩ := h
  obtain ⟨r, hr, hbus⟩ := bind_eq_ok_iff.1 hstart
  obtain rfl : _ = start := Except.ok.inj hbus
  obtain ⟨hblob, hsound⟩ := Registry.sound_ofBlob hr
  have hsteps := hlater.steps hsound
  exact ⟨hsteps.blob_eq.trans hblob, hsteps.sound hsound⟩

theorem Reachable.registry_sound (h : Reachable b bus) : bus.registry.Sound :=
  h.sound.2

/-- What a run of operations ends with is reachable. -/
theorem exists_reachable (platform : σ) (ops : List (Operation σ ι)) {p : Bus σ ι → Bool}
    (h : (ofBlob b platform).toOption.any (fun start => p (afterAll ops start)) = true) :
    ∃ bus, Reachable b bus ∧ p bus = true := by
  obtain ⟨start, hstart, hp⟩ := exists_of_any h
  exact ⟨_, ⟨platform, start, hstart, later_afterAll ops start⟩, hp⟩

def bridgeWindow : Window :=
  { base := 0x10, length := 0x10, resolvedBase := 0x10, bus := some ⟨1⟩ }

/-- What a run over the bridge shows: both devices are known after the bridge could not be
destroyed, its `ranges` map an address, and once it has register I/O it mediates the window of the
serial port, also for reads after the port was destroyed. -/
theorem exists_bridge : ∃ bus : Bus (Recorded Simulated FileNumber) FileNumber,
    Reachable Tree.bridge.blob bus ∧ bus.registry.slots.size = 3 ∧
      bus.registry.resolve .ranges ⟨1⟩ 0x20 0x10 = .ok { address := 0x8020, bus := none } ∧
      ∃ next, reg ⟨2⟩ 0 ((Operation.exchangeIO ⟨1⟩ (some ⟨0⟩)).after bus) =
          .ok bridgeWindow next ∧
        (afterAll [.destroy ⟨2⟩, .readRegister bridgeWindow 4 .w32] next).platform.log.map
          Event.call = [.read (.attached ⟨0⟩) .w32 0x14] := by
  obtain ⟨bus, hbus, hrun⟩ : ∃ bus : Bus (Recorded Simulated FileNumber) FileNumber,
      Reachable Tree.bridge.blob bus ∧ (decide (bus.registry.slots.size = 3) &&
        (bus.registry.resolve .ranges ⟨1⟩ 0x20 0x10).toOption.any
          (· = { address := 0x8020, bus := none }) &&
        match reg ⟨2⟩ 0 ((Operation.exchangeIO ⟨1⟩ (some ⟨0⟩)).after bus) with
        | .ok w next => decide (w = bridgeWindow) &&
          decide ((afterAll [.destroy ⟨2⟩, .readRegister bridgeWindow 4 .w32] next).platform.log.map
            Event.call = [.read (.attached ⟨0⟩) .w32 0x14])
        | .error _ _ => false) = true :=
    exists_reachable { inner := { cpu := { label := "" } } }
      [.findDevice "/bridge/uart@10", .destroy ⟨1⟩] (by decide +kernel)
  simp only [Bool.and_eq_true, decide_eq_true_eq] at hrun
  obtain ⟨⟨hsize, hresolve⟩, hreg⟩ := hrun
  obtain ⟨location, hresolve, hlocation⟩ := exists_of_any hresolve
  rw [of_decide_eq_true hlocation] at hresolve
  refine ⟨bus, hbus, hsize, hresolve, ?_⟩
  cases hend : reg ⟨2⟩ 0 ((Operation.exchangeIO ⟨1⟩ (some ⟨0⟩)).after bus) with
  | error e next => simp [hend] at hreg
  | ok w next =>
    simp only [hend, Bool.and_eq_true, decide_eq_true_eq] at hreg
    obtain ⟨rfl, hlog⟩ := hreg
    exact ⟨next, rfl, hlog⟩

/-- A reachable registry is one of the blob that the bus started with. Its slots, its index and its
lists of children describe one tree of devices, with one device at most for a node, and from every
device the parents lead up to the root. -/
theorem Reachable.arena (hbus : Reachable b bus) :
    bus.registry.blob = b ∧ bus.registry.Sound ∧
      (∀ h k device other, bus.registry.device? h = some device →
        bus.registry.device? k = some other → device.node = other.node → h = k) ∧
      ∀ h device, bus.registry.device? h = some device →
        Relation.ReflTransGen bus.registry.HasParent h Registry.rootHandle := by
  obtain ⟨hblob, hsound⟩ := hbus.sound
  refine ⟨hblob, hsound, ?_, ?_⟩
  · intro h k device other hd hk hnode
    exact hsound.eq_of_offset_eq hd hk (congrArg Node.offset hnode)
  · intro h device hd
    exact hsound.reaches_root hd

theorem arena_bridge : ∃ bus : Bus (Recorded Simulated FileNumber) FileNumber,
    (Reachable Tree.bridge.blob bus ∧ bus.registry.slots.size = 3) ∧
      bus.registry.blob = Tree.bridge.blob ∧ bus.registry.Sound := by
  obtain ⟨bus, hbus, hsize, -⟩ := exists_bridge
  obtain ⟨hblob, hsound, -⟩ := hbus.arena
  exact ⟨bus, ⟨hbus, hsize⟩, hblob, hsound⟩

end Bus

end DeviceTree

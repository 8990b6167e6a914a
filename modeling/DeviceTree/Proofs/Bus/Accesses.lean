import DeviceTree.Proofs.Bus.Windows

/-!
# Accesses stay inside their windows

A recorded platform shows what an access calls. Every register access is to bytes of the window that
it is made through, in the address space that the window belongs to at that time; a copy writes what
it has read and nothing else.
-/
namespace DeviceTree

section Events

variable {ι : Type} {r : Registry ι} {source target : Option Window} {w : Window} {width : Width}
  {space there : AddressSpace ι} {address : Nat} {value : UInt64} {events more : List (Event ι)}

/-- Accesses to `w` go to `space`: the CPU's, or that of the register I/O which the device that
mediates the window has in `r`. -/
def Window.GoesTo (w : Window) (r : Registry ι) : AddressSpace ι → Prop
  | .cpu => w.bus = none
  | .attached io => ∃ h device, w.bus = some h ∧ r.device? h = some device ∧ device.io = some io

theorem Registry.goesTo_of_spaceOf (h : r.spaceOf w = .ok space) : w.GoesTo r space := by
  rw [Registry.spaceOf] at h
  cases hbus : w.bus with
  | none =>
    obtain rfl : .cpu = space := by simpa [hbus, pure, Except.pure] using h
    exact hbus
  | some k =>
    rw [hbus] at h
    obtain ⟨device, hdevice, hspace⟩ := bind_eq_ok_iff.1 h
    cases hio : device.io with
    | none => simp [hio, throw, throwThe, MonadExceptOf.throw] at hspace
    | some io =>
      obtain rfl : .attached io = space := by simpa [hio, pure, Except.pure] using hspace
      exact ⟨k, device, hbus, Registry.device_eq_ok_iff.1 hdevice, hio⟩

/-- Reads are of registers of `source`, writes of registers of `target`, and nothing else is called
but for stalling. -/
def Allowed (source target : Option Window) (r : Registry ι) : Call ι → Prop
  | .read space width address =>
    ∃ w, source = some w ∧ w.GoesTo r space ∧ w.Covers width address
  | .write space width address _ =>
    ∃ w, target = some w ∧ w.GoesTo r space ∧ w.Covers width address
  | .stall _ => True
  | .claim _ | .connect .. => False

/-- A value that was read is no wider than the access. -/
def Event.ReadFits : Event ι → Prop
  | ⟨.read _ width _, reply⟩ => ∀ value, reply = .ok value → value ≤ width.maxValue
  | _ => True

/-- A value that was to be written is no wider than the access. -/
def Event.WriteFits : Event ι → Prop
  | ⟨.write _ width _ value, _⟩ => value ≤ width.maxValue
  | _ => True

/-- What an access from `source` to `target` may call, one after another. -/
structure Faithful (source target : Option Window) (r : Registry ι) (events : List (Event ι)) :
    Prop where
  allowed : ∀ e ∈ events, Allowed source target r e.call
  fits : (∀ e ∈ events, e.ReadFits) → ∀ e ∈ events, e.WriteFits

namespace Faithful

theorem nil : Faithful source target r [] := by
  constructor <;> simp

theorem append (hmore : Faithful source target r more) (hevents : Faithful source target r events) :
    Faithful source target r (more ++ events) := by
  constructor
  · intro e he
    rcases List.mem_append.1 he with he | he
    · exact hmore.allowed e he
    · exact hevents.allowed e he
  · intro hfits e he
    rw [List.forall_mem_append] at hfits
    rcases List.mem_append.1 he with he | he
    · exact hmore.fits hfits.1 e he
    · exact hevents.fits hfits.2 e he

theorem read (hspace : w.GoesTo r space) (hcovers : w.Covers width address)
    (reply : Except Error UInt64) :
    Faithful (some w) target r [⟨.read space width address, reply⟩] := by
  constructor
  · intro e he
    obtain rfl := List.mem_singleton.1 he
    exact ⟨w, rfl, hspace, hcovers⟩
  · intro _ e he
    obtain rfl := List.mem_singleton.1 he
    trivial

theorem write (hspace : w.GoesTo r space) (hcovers : w.Covers width address)
    (hvalue : value ≤ width.maxValue) (reply : Except Error Unit) :
    Faithful source (some w) r [⟨.write space width address value, reply⟩] := by
  constructor
  · intro e he
    obtain rfl := List.mem_singleton.1 he
    exact ⟨w, rfl, hspace, hcovers⟩
  · intro _ e he
    obtain rfl := List.mem_singleton.1 he
    exact hvalue

theorem stall (microseconds : Nat) : Faithful source target r [⟨.stall microseconds, ()⟩] := by
  constructor
  · intro e he
    obtain rfl := List.mem_singleton.1 he
    trivial
  · intro _ e he
    obtain rfl := List.mem_singleton.1 he
    trivial

/-- What is copied is what was read. -/
theorem copy {dst src : Window} {dstAddress srcAddress : Nat} (hspace : src.GoesTo r space)
    (hsrc : src.Covers width srcAddress) (hthere : dst.GoesTo r there)
    (hdst : dst.Covers width dstAddress) (reply : Except Error Unit) :
    Faithful (some src) (some dst) r [⟨.write there width dstAddress value, reply⟩,
      ⟨.read space width srcAddress, .ok value⟩] := by
  constructor
  · simp only [List.forall_mem_cons, List.not_mem_nil, false_implies, implies_true, and_true]
    exact ⟨⟨dst, rfl, hthere, hdst⟩, ⟨src, rfl, hspace, hsrc⟩⟩
  · simp only [List.forall_mem_cons, List.not_mem_nil, false_implies, implies_true, and_true]
    exact fun hfits => ⟨hfits.2 value rfl, trivial⟩

end Faithful

end Events

namespace Bus

variable {σ ι : Type} {bus next later : Bus (Recorded σ ι) ι} {source target : Option Window}
  {w dst src : Window} {width : Width} {offset address count left dstStart srcStart : Nat}
  {value : UInt64}

/-- One call was made between the two buses, and no device changed. -/
def Called (bus later : Bus (Recorded σ ι) ι) (request : Call ι) (reply : request.Reply) : Prop :=
  later.registry = bus.registry ∧ later.platform.log = ⟨request, reply⟩ :: bus.platform.log

/-- What was called between the two buses is what an access may call, and no device changed. -/
def Accesses (source target : Option Window) (bus later : Bus (Recorded σ ι) ι) : Prop :=
  later.registry = bus.registry ∧ ∃ events, later.platform.log = events ++ bus.platform.log ∧
    Faithful source target bus.registry events

theorem Accesses.refl (bus : Bus (Recorded σ ι) ι) : Accesses source target bus bus :=
  ⟨rfl, [], rfl, .nil⟩

theorem Accesses.trans (hfirst : Accesses source target bus next)
    (hlast : Accesses source target next later) : Accesses source target bus later := by
  obtain ⟨hregistry, events, hlog, hevents⟩ := hfirst
  obtain ⟨hregistry', more, hlog', hmore⟩ := hlast
  refine ⟨hregistry'.trans hregistry, more ++ events, ?_, ?_⟩
  · rw [hlog', hlog, List.append_assoc]
  · rw [hregistry] at hmore
    exact hmore.append hevents

theorem Accesses.read {space : AddressSpace ι} {reply : Except Error UInt64}
    (hspace : w.GoesTo bus.registry space) (hcovers : w.Covers width address)
    (hcalled : Called bus later (.read space width address) reply) :
    Accesses (some w) target bus later :=
  ⟨hcalled.1, [_], hcalled.2, .read hspace hcovers reply⟩

theorem Accesses.write {space : AddressSpace ι} {reply : Except Error Unit}
    (hspace : w.GoesTo bus.registry space) (hcovers : w.Covers width address)
    (hvalue : value ≤ width.maxValue)
    (hcalled : Called bus later (.write space width address value) reply) :
    Accesses source (some w) bus later :=
  ⟨hcalled.1, [_], hcalled.2, .write hspace hcovers hvalue reply⟩

theorem Accesses.copy {space there : AddressSpace ι} {reply : Except Error Unit}
    {dstAddress srcAddress : Nat} (hspace : src.GoesTo bus.registry space)
    (hsrc : src.Covers width srcAddress)
    (hread : Called bus next (.read space width srcAddress) (.ok value))
    (hthere : dst.GoesTo next.registry there) (hdst : dst.Covers width dstAddress)
    (hwritten : Called next later (.write there width dstAddress value) reply) :
    Accesses (some src) (some dst) bus later := by
  obtain ⟨hregistry, hlog⟩ := hread
  obtain ⟨hregistry', hlog'⟩ := hwritten
  rw [hregistry] at hthere
  refine ⟨hregistry'.trans hregistry, [⟨.write there width dstAddress value, reply⟩,
    ⟨.read space width srcAddress, .ok value⟩], ?_, .copy hspace hsrc hthere hdst reply⟩
  rw [hlog', hlog]
  rfl

variable [Platform σ ι]

theorem readAt_ensures {address : Except Error Nat} : Ensures (readAt w width address) bus
    (fun value later => ∃ space place, address = .ok place ∧ w.GoesTo bus.registry space ∧
      Called bus later (.read space width place) (.ok value))
    (fun later => later = bus ∨ ∃ space place e, address = .ok place ∧
      w.GoesTo bus.registry space ∧ Called bus later (.read space width place) (.error e)) := by
  rw [readAt, ensures_bind, ensures_ask]
  refine ⟨fun space hspace => ?_, fun _ _ => .inl rfl⟩
  have hgoes := Registry.goesTo_of_spaceOf hspace
  rw [ensures_bind, ensures_lift]
  refine ⟨fun place hplace => ?_, fun _ _ => .inl rfl⟩
  rw [ensures_bind, ensures_call, ensures_lift]
  constructor
  · intro value hreply
    exact ⟨space, place, hplace, hgoes, rfl, by rw [← hreply]; rfl⟩
  · intro e hreply
    exact .inr ⟨space, place, e, hplace, hgoes, rfl, by rw [← hreply]; rfl⟩

theorem writeAt_ensures {address : Except Error Nat} : Ensures (writeAt w width address value) bus
    (fun _ later => ∃ space place, address = .ok place ∧ w.GoesTo bus.registry space ∧
      Called bus later (.write space width place value) (.ok ()))
    (fun later => later = bus ∨ ∃ space place e, address = .ok place ∧
      w.GoesTo bus.registry space ∧
        Called bus later (.write space width place value) (.error e)) := by
  rw [writeAt, ensures_bind, ensures_ask]
  refine ⟨fun space hspace => ?_, fun _ _ => .inl rfl⟩
  have hgoes := Registry.goesTo_of_spaceOf hspace
  rw [ensures_bind, ensures_lift]
  refine ⟨fun place hplace => ?_, fun _ _ => .inl rfl⟩
  rw [ensures_bind, ensures_call, ensures_lift]
  constructor
  · intro _ hreply
    exact ⟨space, place, hplace, hgoes, rfl, by rw [← hreply]; rfl⟩
  · intro e hreply
    exact .inr ⟨space, place, e, hplace, hgoes, rfl, by rw [← hreply]; rfl⟩

theorem readRegister_ensures (hfits : w.resolvedBase + max w.length 1 ≤ addressLimit) :
    Ensures (readRegister w offset width) bus (fun _ later => Accesses (some w) target bus later)
      (Accesses (some w) target bus) := by
  rw [readRegister, ensures_bind, ensures_lift]
  refine ⟨fun address haddress => ?_, fun _ _ => .refl bus⟩
  have hcovers := Window.covers_address hfits haddress
  apply readAt_ensures.imp
  · intro value later hend
    obtain ⟨space, _, ⟨⟩, hspace, hcalled⟩ := hend
    exact .read hspace hcovers hcalled
  · intro later hend
    obtain rfl | ⟨space, _, e, ⟨⟩, hspace, hcalled⟩ := hend
    · exact .refl _
    · exact .read hspace hcovers hcalled

theorem writeRegister_ensures (hfits : w.resolvedBase + max w.length 1 ≤ addressLimit) :
    Ensures (writeRegister w offset width value) bus
      (fun _ later => Accesses source (some w) bus later) (Accesses source (some w) bus) := by
  rw [writeRegister]
  split
  · exact .refl bus
  case isFalse hvalue =>
    rw [ensures_bind, ensures_lift]
    refine ⟨fun address haddress => ?_, fun _ _ => .refl bus⟩
    have hcovers := Window.covers_address hfits haddress
    have hle : value ≤ width.maxValue := UInt64.not_lt.1 hvalue
    apply writeAt_ensures.imp
    · intro _ later hend
      obtain ⟨space, _, ⟨⟩, hspace, hcalled⟩ := hend
      exact .write hspace hcovers hle hcalled
    · intro later hend
      obtain rfl | ⟨space, _, e, ⟨⟩, hspace, hcalled⟩ := hend
      · exact .refl _
      · exact .write hspace hcovers hle hcalled

theorem pollRegister_ensures (hfits : w.resolvedBase + max w.length 1 ≤ addressLimit)
    {mask expected : UInt64} {timeout : Nat} :
    Ensures (pollRegister w offset width mask expected timeout) bus
      (fun _ later => Accesses (some w) target bus later) (Accesses (some w) target bus) := by
  induction timeout using Nat.strongRecOn generalizing bus with
  | _ timeout ih =>
    rw [pollRegister, ensures_bind]
    apply (readRegister_ensures hfits).imp
    · intro value next hnext
      split
      · exact hnext
      split
      · exact hnext
      · have hlt : timeout - pollInterval < timeout := by
          simp only [pollInterval]
          omega
        rw [ensures_bind, ensures_call]
        have hstall : Accesses (some w) target next { next with platform :=
            (Platform.respond (.stall (min pollInterval timeout)) next.platform).2 } :=
          ⟨rfl, [_], rfl, .stall _⟩
        exact (ih _ hlt).imp (fun _ _ => (hnext.trans hstall).trans)
          fun _ => (hnext.trans hstall).trans
    · exact fun _ hlater => hlater

theorem copyRun_ensures {backwards : Bool} (hleft : left ≤ count)
    (hdst : ∀ i < count, ∀ place, runAddress dstStart width i = .ok place →
      dst.Covers width place)
    (hsrc : ∀ i < count, ∀ place, runAddress srcStart width i = .ok place →
      src.Covers width place) :
    Ensures (copyRun dst src dstStart srcStart width backwards count left) bus
      (fun _ later => Accesses (some src) (some dst) bus later)
      (Accesses (some src) (some dst) bus) := by
  induction left generalizing bus with
  | zero => exact .refl bus
  | succ left ih =>
    rw [copyRun]
    generalize hindex : (if backwards then left else count - (left + 1)) = index
    have hlt : index < count := by
      split at hindex <;> omega
    rw [ensures_bind]
    apply readAt_ensures.imp
    · intro value next hend
      obtain ⟨space, place, hplace, hspace, hread⟩ := hend
      have hcovers := hsrc index hlt place hplace
      rw [ensures_bind]
      apply writeAt_ensures.imp
      · intro _ later hend
        obtain ⟨there, target, htarget, hthere, hwritten⟩ := hend
        have hcopied : Accesses (some src) (some dst) bus later :=
          .copy hspace hcovers hread hthere (hdst index hlt target htarget) hwritten
        exact (ih (by omega)).imp (fun _ _ => hcopied.trans) fun _ => hcopied.trans
      · intro later hend
        obtain rfl | ⟨there, target, e, htarget, hthere, hwritten⟩ := hend
        · exact .read hspace hcovers hread
        · exact .copy hspace hcovers hread hthere (hdst index hlt target htarget) hwritten
    · intro later hend
      obtain rfl | ⟨space, place, e, hplace, hspace, hcalled⟩ := hend
      · exact .refl _
      · exact .read hspace (hsrc index hlt place hplace) hcalled

theorem copyRegisters_ensures {dstOffset srcOffset : Nat}
    (hdst : dst.resolvedBase + max dst.length 1 ≤ addressLimit)
    (hsrc : src.resolvedBase + max src.length 1 ≤ addressLimit) :
    Ensures (copyRegisters dst dstOffset src srcOffset width count) bus
      (fun _ later => Accesses (some src) (some dst) bus later)
      (Accesses (some src) (some dst) bus) := by
  rw [copyRegisters, ensures_bind, ensures_lift]
  refine ⟨fun dstStart hdstStart => ?_, fun _ _ => .refl bus⟩
  rw [ensures_bind, ensures_lift]
  refine ⟨fun srcStart hsrcStart => ?_, fun _ _ => .refl bus⟩
  apply copyRun_ensures (Nat.le_refl _)
  · intro i hi place hplace
    obtain ⟨hrun, hcovers, -⟩ := Window.covers_runAddress hdst hdstStart hi
    cases hrun.symm.trans hplace
    exact hcovers
  · intro i hi place hplace
    obtain ⟨hrun, hcovers, -⟩ := Window.covers_runAddress hsrc hsrcStart hi
    cases hrun.symm.trans hplace
    exact hcovers

end Bus

namespace Operation

variable {σ ι : Type}

def source? : Operation σ ι → Option Window
  | readRegister w .. | pollRegister w .. => some w
  | copyRegisters _ _ src .. => some src
  | _ => none

def target? : Operation σ ι → Option Window
  | writeRegister w .. => some w
  | copyRegisters dst .. => some dst
  | _ => none

def IsAccess (op : Operation σ ι) : Prop :=
  op.source?.isSome ∨ op.target?.isSome

private theorem accesses_after [Platform σ ι] {op : Operation (Recorded σ ι) ι}
    {bus : Bus (Recorded σ ι) ι} (hop : op.IsAccess)
    (hsource : ∀ w, op.source? = some w → w.resolvedBase + max w.length 1 ≤ addressLimit)
    (htarget : ∀ w, op.target? = some w → w.resolvedBase + max w.length 1 ≤ addressLimit) :
    Bus.Accesses op.source? op.target? bus (op.after bus) := by
  apply after_of_ensures
  cases op with
  | readRegister w offset width => exact Bus.readRegister_ensures (hsource w rfl)
  | writeRegister w offset width value => exact Bus.writeRegister_ensures (htarget w rfl)
  | pollRegister w offset width mask expected timeout =>
    exact Bus.pollRegister_ensures (hsource w rfl)
  | copyRegisters dst dstOffset src srcOffset width count =>
    exact Bus.copyRegisters_ensures (htarget dst rfl) (hsource src rfl)
  | _ => simp [IsAccess, source?, target?] at hop

end Operation

namespace Bus

variable {σ ι : Type} [Platform σ ι] {b : Blob} {origin later : Bus (Recorded σ ι) ι} {h : Handle}
  {w : Window}

/-- A window that a bus gave out ends below the widest address, and its last byte has an address
where its way ended. Addresses in it never overflow, whatever became of the bus; the device that
mediates it is the same or gone. What an access to such windows calls are reads and writes inside
them, of the CPU or of the register I/O that this device has now, and it writes no value wider than
its width unless it read one. -/
theorem Issued.safe (hw : Issued b origin h w later) :
    (origin.registry.Bears h w ∧ w.resolvedBase + max w.length 1 ≤ addressLimit) ∧
    (∀ offset width count, 0 < count →
      w.address offset width count ≠ .error (.device .addressOverflow) ∧
      ∀ start, w.address offset width count = .ok start → ∀ i < count,
        runAddress start width i = .ok (start + i * width.bytes) ∧
          w.Covers width (start + i * width.bytes) ∧
          start + i * width.bytes + width.bytes ≤ addressLimit) ∧
    (∀ mediator device between, w.bus = some mediator → Later origin between →
      Later between later → later.registry.device? mediator = some device →
        ∃ same, between.registry.device? mediator = some same ∧
          device = { same with connected := device.connected, children := device.children,
                               io := device.io }) ∧
    ∀ op : Operation (Recorded σ ι) ι, op.IsAccess →
      (∀ v, op.source? = some v ∨ op.target? = some v →
        ∃ origin k, Issued b origin k v later) →
      Accesses op.source? op.target? later (op.after later) := by
  have hinside : ∀ {origin k v}, Issued b origin k v later →
      v.resolvedBase + max v.length 1 ≤ addressLimit := by
    intro origin k v hissued
    obtain ⟨-, next, hgives, -⟩ := hissued
    exact hgives.bears.le_addressLimit
  refine ⟨⟨?_, hinside hw⟩, ?_, ?_, ?_⟩
  · obtain ⟨-, next, hgives, -⟩ := hw
    exact hgives.bears
  · intro offset width count hcount
    constructor
    · exact Window.address_ne_overflow (hinside hw) hcount
    · intro start hstart i hi
      exact Window.covers_runAddress (hinside hw) hstart hi
  · intro mediator device between hbus hbetween hlater hdevice
    exact hw.device?_eq hbus hbetween hlater hdevice
  · intro op hop hissued
    apply Operation.accesses_after hop
    · intro v hv
      obtain ⟨origin, k, hv⟩ := hissued v (.inl hv)
      exact hinside hv
    · intro v hv
      obtain ⟨origin, k, hv⟩ := hissued v (.inr hv)
      exact hinside hv

/-- The serial port is gone, and its window is still that of the bridge. -/
theorem safe_bridge : ∃ origin later : Bus (Recorded Simulated FileNumber) FileNumber,
    Issued Tree.bridge.blob origin ⟨2⟩ bridgeWindow later ∧
      Accesses (some bridgeWindow) none later
        ((Operation.readRegister bridgeWindow 4 .w32).after later) ∧
      ((Operation.readRegister bridgeWindow 4 .w32).after later).platform.log.map Event.call =
        [.read (.attached ⟨0⟩) .w32 0x14] := by
  obtain ⟨bus, hbus, -, -, next, hreg, hlog⟩ := exists_bridge
  have hissued : Issued Tree.bridge.blob ((Operation.exchangeIO ⟨1⟩ (some ⟨0⟩)).after bus) ⟨2⟩
      bridgeWindow ((Operation.destroy ⟨2⟩).after next) :=
    ⟨hbus.trans (.single ⟨.exchangeIO ⟨1⟩ (some ⟨0⟩), rfl⟩), next, .reg hreg,
      .single ⟨.destroy ⟨2⟩, rfl⟩⟩
  obtain ⟨-, -, -, haccess⟩ := hissued.safe
  refine ⟨_, _, hissued, haccess (.readRegister bridgeWindow 4 .w32) (.inl rfl) ?_, hlog⟩
  intro v hused
  rcases hused with hv | hv
  · obtain rfl := Option.some.inj hv
    exact ⟨_, _, hissued⟩
  · cases hv

end Bus

end DeviceTree

import DeviceTree.Proofs.Bus.Resolution
import DeviceTree.Proofs.Value.Numbers

/-!
# Windows that a bus gives out

The way of a window ends at a device whose addresses are wide enough for its last byte, whichever
of the ends that is. So a window lies below the widest address, and no address inside it overflows,
then or later. The device that mediates a window keeps its handle to itself: if it is destroyed, the
handle leads nowhere.
-/
namespace DeviceTree

namespace Registry

variable {ι : Type} {r : Registry ι} {route : Route} {h : Handle} {w : Window}
  {address length limit index : Nat} {location : Location} {cursor : Cursor}

/-- The last byte of what a way ends with is below the widest address. -/
theorem Ends.le_addressLimit {cells : UInt32} (h : Ends address length cells) :
    address + max length 1 ≤ addressLimit := by
  have hlimit : Cell.limit (min cells.toNat Cursor.maximumCells) ≤ addressLimit :=
    Cell.limit_le (Nat.min_le_right _ _)
  rw [Ends] at h
  omega

def Onward (r : Registry ι) (route : Route) (length : Nat) (here there : Handle × Nat) : Prop :=
  r.hop route length here.1 here.2 = .ok (.onward there.1 there.2)

/-- The loop answers with what some hops lead to. -/
theorem exists_way (hresolve : r.resolveWithin route length limit h address = .ok location) :
    ∃ stop last, Relation.ReflTransGen (r.Onward route length) (h, address) (stop, last) ∧
      r.hop route length stop last = .ok (.arrived location) := by
  induction limit generalizing h address with
  | zero => cases hresolve
  | succ limit ih =>
    rw [resolveWithin_succ] at hresolve
    cases hhop : r.hop route length h address with
    | error e => simp [hhop] at hresolve
    | ok result =>
      cases result with
      | arrived found =>
        obtain rfl : found = location := by simpa [hhop] using hresolve
        exact ⟨h, address, .refl, hhop⟩
      | onward parent onward =>
        obtain ⟨stop, last, hway, harrived⟩ := ih (by simpa [hhop] using hresolve)
        have hfirst : r.Onward route length (h, address) (parent, onward) := hhop
        exact ⟨stop, last, .head hfirst hway, harrived⟩

/-- The addresses of `w`, a window of `h`, lead from the parent of `h` to a device that ends their
way and has an address for the last byte. It mediates the window if it has register I/O. -/
def Bears (r : Registry ι) (h : Handle) (w : Window) : Prop :=
  ∃ device stop last, r.device? h = some device ∧ r.device? stop = some last ∧
    Relation.ReflTransGen (r.Onward .ranges w.length) (device.parent.getD h, w.base)
      (stop, w.resolvedBase) ∧
    Ends w.resolvedBase w.length last.cells.childAddress ∧
    (w.bus = some stop ∧ last.io.isSome ∨ w.bus = none ∧ ¬last.io.isSome)

theorem Bears.le_addressLimit (hw : r.Bears h w) :
    w.resolvedBase + max w.length 1 ≤ addressLimit := by
  obtain ⟨_, _, _, _, _, _, hends, _⟩ := hw
  exact hends.le_addressLimit

private theorem readReg_bears {read : EntryRead Window}
    (hread : r.readReg h cursor index = .ok read) :
    r.Bears h read.value := by
  obtain ⟨device, hdevice, hread⟩ := bind_eq_ok_iff.1 hread
  obtain ⟨⟨⟨place, base, length⟩, rest⟩, -, hread⟩ := bind_eq_ok_iff.1 hread
  obtain ⟨location, hresolve, hread⟩ := bind_eq_ok_iff.1 hread
  obtain ⟨claim?, -, hread⟩ := bind_eq_ok_iff.1 hread
  obtain rfl := Except.ok.inj hread
  obtain ⟨stop, last, hway, harrived⟩ := exists_way hresolve
  obtain ⟨final, hfinal, ⟨bus, heq, hends, hbus⟩ | ⟨_, _, heq, -⟩⟩ := hop_eq_ok harrived
  · obtain rfl := Hop.arrived.inj heq
    refine ⟨device, stop, final, device_eq_ok_iff.1 hdevice, hfinal, hway, hends, ?_⟩
    simpa using hbus
  · cases heq

end Registry

namespace Window

variable {w : Window} {offset count start i address : Nat} {width : Width}

/-- An access of `width` at `address` touches bytes of the window alone. -/
def Covers (w : Window) (width : Width) (address : Nat) : Prop :=
  w.resolvedBase ≤ address ∧ address + width.bytes ≤ w.resolvedBase + w.length

theorem bytes_pos (width : Width) : 0 < width.bytes := by
  cases width <;> decide

theorem address_eq_ok (h : w.address offset width count = .ok start) :
    start = w.resolvedBase + offset ∧ offset + width.bytes * count ≤ w.length := by
  rw [Window.address] at h
  split at h
  · cases h
  split at h
  · cases h
  · exact ⟨(Except.ok.inj h).symm, by omega⟩

variable (hfits : w.resolvedBase + max w.length 1 ≤ addressLimit)

include hfits

theorem address_ne_overflow (hcount : 0 < count) :
    w.address offset width count ≠ .error (.device .addressOverflow) := by
  have hbytes : 0 < width.bytes * count := Nat.mul_pos (bytes_pos width) hcount
  rw [Window.address]
  split
  · simp
  · rw [if_neg (by omega)]
    simp

/-- Each register of a run has an address, and its access is inside the window. -/
theorem covers_runAddress (hstart : w.address offset width count = .ok start) (hi : i < count) :
    Bus.runAddress start width i = .ok (start + i * width.bytes) ∧
      w.Covers width (start + i * width.bytes) ∧
      start + i * width.bytes + width.bytes ≤ addressLimit := by
  obtain ⟨rfl, hinside⟩ := address_eq_ok hstart
  have hrun : (i + 1) * width.bytes ≤ width.bytes * count := by
    rw [Nat.mul_comm width.bytes]
    exact Nat.mul_le_mul_right _ hi
  have hbytes := bytes_pos width
  rw [Nat.add_mul] at hrun
  have hlt : w.resolvedBase + offset + i * width.bytes < addressLimit := by omega
  exact ⟨if_pos hlt, ⟨by omega, by omega⟩, by omega⟩

theorem covers_address (hstart : w.address offset width 1 = .ok start) : w.Covers width start := by
  simpa using (covers_runAddress hfits hstart Nat.one_pos).2.1

end Window

namespace Bus

variable {σ ι : Type} [Platform σ ι] {b : Blob} {origin next later : Bus σ ι} {h : Handle}
  {w : Window} {cursor : Cursor} {index : Nat}

/-- The bus answers a request for a window of `h` with `w`. -/
inductive Gives (bus : Bus σ ι) (h : Handle) (w : Window) (next : Bus σ ι) : Prop
  | parseReg {cursor rest : Cursor} {index : Nat}
      (answer : Bus.parseReg h cursor index bus = .ok (w, rest) next)
  | reg {index : Nat} (answer : Bus.reg h index bus = .ok w next)
  | regByName {name : String} (answer : Bus.regByName h name bus = .ok w next)

/-- A reachable bus gave out `w` as a window of `h`, and operations lead from there to `later`. -/
def Issued (b : Blob) (origin : Bus σ ι) (h : Handle) (w : Window) (later : Bus σ ι) : Prop :=
  Reachable b origin ∧ ∃ next, origin.Gives h w next ∧ Later next later

theorem parseReg_ensures : Ensures (parseReg h cursor index) origin
    (fun answer _ => origin.registry.Bears h answer.1) fun _ => True := by
  rw [parseReg, ensures_bind, ensures_ask]
  refine ⟨fun read hread => ?_, fun _ _ => trivial⟩
  have hbears := Registry.readReg_bears hread
  rw [settle]
  cases read.claim? with
  | none => exact hbears
  | some c =>
    rw [ensures_bind, claim, ensures_bind, ensures_call, ensures_lift]
    exact ⟨fun _ _ => hbears, fun _ _ => trivial⟩

theorem reg_ensures : Ensures (reg h index) origin
    (fun w _ => origin.registry.Bears h w) fun _ => True := by
  rw [reg, ensures_bind, ensures_ask]
  refine ⟨fun cursor _ => ?_, fun _ _ => trivial⟩
  rw [ensures_bind]
  exact parseReg_ensures.imp (fun _ _ hbears => hbears) fun _ _ => trivial

theorem regByName_ensures {name : String} : Ensures (regByName h name) origin
    (fun w _ => origin.registry.Bears h w) fun _ => True := by
  rw [regByName, ensures_bind, ensures_ask]
  exact ⟨fun _ _ => reg_ensures, fun _ _ => trivial⟩

theorem Gives.bears (hw : origin.Gives h w next) : origin.registry.Bears h w := by
  cases hw with
  | parseReg answer => exact parseReg_ensures.of_ok answer
  | reg answer => exact reg_ensures.of_ok answer
  | regByName answer => exact regByName_ensures.of_ok answer

theorem Reachable.trans (hbus : Reachable b origin) (hlater : Later origin later) :
    Reachable b later := by
  obtain ⟨platform, start, hstart, horigin⟩ := hbus
  exact ⟨platform, start, hstart, horigin.trans hlater⟩

/-- The device that mediates a window was live ever since, if it is now, and is the same device. -/
theorem Issued.device?_eq {between : Bus σ ι} {mediator : Handle} {device : Device ι}
    (hw : Issued b origin h w later) (hbus : w.bus = some mediator)
    (hbetween : Later origin between) (hlater : Later between later)
    (hdevice : later.registry.device? mediator = some device) :
    ∃ same, between.registry.device? mediator = some same ∧
      device = { same with connected := device.connected, children := device.children,
                           io := device.io } := by
  obtain ⟨hreachable, next, hgives, -⟩ := hw
  obtain ⟨_, stop, last, -, hstop, -, -, ⟨hmediator, -⟩ | ⟨hnone, -⟩⟩ := hgives.bears
  · obtain rfl : stop = mediator := by simpa [hmediator] using hbus
    have hlt := Registry.index_lt_of_device? hstop
    have hle := (hbetween.steps hreachable.registry_sound).size_le
    have hsound := (hreachable.trans hbetween).registry_sound
    exact (hlater.steps hsound).device?_eq hsound (Nat.lt_of_lt_of_le hlt hle) hdevice
  · simp [hnone] at hbus

end Bus

end DeviceTree

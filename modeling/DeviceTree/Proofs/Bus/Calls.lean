import DeviceTree.Proofs.Bus.Replies

/-!
# Calls one after another

What a platform replies depends on what it was called for before. An access to a window calls once,
if accesses to the window reach an address space, and ends as the reply says.
-/
namespace DeviceTree

variable {σ ι : Type} [Platform σ ι] {bus : Bus σ ι} {w : Window} {offset address count : Nat}
  {width : Width} {space : AddressSpace ι} {value : UInt64} {e : Error}

namespace Platform

theorem afterCalls_append (calls more : List (Call ι)) (s : σ) :
    afterCalls (calls ++ more) s = afterCalls more (afterCalls calls s) :=
  List.foldl_append

theorem log_afterCalls (calls : List (Call ι)) (s : Recorded σ ι) :
    (afterCalls calls s).log.map Event.call = calls.reverse ++ s.log.map Event.call := by
  induction calls generalizing s with
  | nil => rfl
  | cons call calls ih =>
    change (afterCalls calls (respond call s).2).log.map _ = _
    rw [ih, List.reverse_cons, List.append_assoc]
    rfl

end Platform

namespace Bus

def afterCalls (bus : Bus σ ι) (calls : List (Call ι)) : Bus σ ι :=
  { bus with platform := Platform.afterCalls calls bus.platform }

@[simp] theorem registry_afterCalls (calls : List (Call ι)) :
    (bus.afterCalls calls).registry = bus.registry :=
  rfl

theorem afterCalls_append (calls more : List (Call ι)) :
    bus.afterCalls (calls ++ more) = (bus.afterCalls calls).afterCalls more := by
  rw [afterCalls, Platform.afterCalls_append]
  rfl

/-- How an operation ends that ends with a reply. -/
def result {α : Type} (reply : Except Error α) (bus : Bus σ ι) : EStateM.Result Error (Bus σ ι) α :=
  match reply with
  | .ok a => .ok a bus
  | .error e => .error e bus

omit [Platform σ ι] in
theorem lift_eq_result {α : Type} (reply : Except Error α) :
    (liftM reply : BusM σ ι α) bus = result reply bus := by
  cases reply <;> rfl

open InPlace (ask_apply)

theorem readAt_afterCalls (hspace : bus.registry.spaceOf w = .ok space) (calls : List (Call ι)) :
    readAt w width (.ok address) (bus.afterCalls calls) =
      result (Platform.respond (.read space width address) (bus.afterCalls calls).platform).1
        (bus.afterCalls (calls ++ [.read space width address])) := by
  rw [afterCalls_append]
  simp only [readAt, bind, EStateM.bind, ask_apply, registry_afterCalls, hspace]
  exact lift_eq_result _

theorem readAt_of_refused {address : Except Error Nat}
    (hspace : bus.registry.spaceOf w = .error e) :
    readAt w width address bus = .error e bus := by
  simp only [readAt, bind, EStateM.bind, ask_apply, hspace]

theorem readAt_of_error (hspace : bus.registry.spaceOf w = .ok space) :
    readAt w width (.error e) bus = .error e bus := by
  simp only [readAt, bind, EStateM.bind, ask_apply, hspace, lift_eq_result, result]

theorem writeAt_afterCalls (hspace : bus.registry.spaceOf w = .ok space) (calls : List (Call ι)) :
    writeAt w width (.ok address) value (bus.afterCalls calls) =
      result
        (Platform.respond (.write space width address value) (bus.afterCalls calls).platform).1
        (bus.afterCalls (calls ++ [.write space width address value])) := by
  rw [afterCalls_append]
  simp only [writeAt, bind, EStateM.bind, ask_apply, registry_afterCalls, hspace]
  exact lift_eq_result _

theorem writeAt_of_error (hspace : bus.registry.spaceOf w = .ok space) :
    writeAt w width (.error e) value bus = .error e bus := by
  simp only [writeAt, bind, EStateM.bind, ask_apply, hspace, lift_eq_result, result]

theorem readRegister_of_address (haddress : w.address offset width 1 = .ok address) :
    readRegister w offset width bus = readAt w width (.ok address) bus := by
  rw [readRegister, haddress]
  rfl

theorem readRegister_of_outside (haddress : w.address offset width 1 = .error e) :
    readRegister w offset width bus = .error e bus := by
  rw [readRegister, haddress]
  rfl

end Bus

end DeviceTree

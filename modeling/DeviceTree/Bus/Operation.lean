import Mathlib.Logic.Relation
import DeviceTree.Bus.Access
import DeviceTree.Bus.Reference

/-!
# Operations on a bus

All that a bus can be asked for, as data, and what each answers. A bus is reachable if operations
lead to it from the bus that knows the root of a blob alone, whether they succeed or fail. The
platform may change between operations in any way.
-/
namespace DeviceTree

inductive Operation (σ ι : Type)
  | device (h : Handle)
  | children (h : Handle)
  | findDevice (path : String)
  | destroy (h : Handle)
  | exchangeIO (h : Handle) (io : Option ι)
  | property (h : Handle) (name : String)
  | stringIndex (h : Handle) (name value : String)
  | isCompatible (h : Handle) (value : String)
  | u32 (h : Handle) (name : String) (index : Nat)
  | u64 (h : Handle) (name : String) (index : Nat)
  | u128 (h : Handle) (name : String) (index : Nat)
  | string (h : Handle) (name : String) (index : Nat)
  | resolve (h : Handle) (address length : Nat)
  | parseElement (h : Handle) (cursor : Cursor) (type : ElementType) (index : Nat)
  | parseDevice (h : Handle) (cursor : Cursor) (index : Nat)
  | parseReg (h : Handle) (cursor : Cursor) (index : Nat)
  | parseRange (h : Handle) (cursor : Cursor) (index : Nat)
  | elementByName (h : Handle) (name names wanted : String) (type : ElementType)
  | reg (h : Handle) (index : Nat)
  | regByName (h : Handle) (name : String)
  | range (route : Route) (h : Handle) (index : Nat)
  /-- Follows a phandle of a property. -/
  | reference (h : Handle) (name : String) (index : Nat)
  | readRegister (w : Window) (offset : Nat) (width : Width)
  | writeRegister (w : Window) (offset : Nat) (width : Width) (value : UInt64)
  | pollRegister (w : Window) (offset : Nat) (width : Width) (mask expected : UInt64)
      (timeout : Nat)
  | copyRegisters (dst : Window) (dstOffset : Nat) (src : Window) (srcOffset : Nat)
      (width : Width) (count : Nat)
  | claimReservations
  /-- Changes the platform behind the back of the bus. -/
  | changePlatform (change : σ → σ)

namespace Operation

variable {σ ι : Type}

abbrev Answer : Operation σ ι → Type
  | device _ => Device ι
  | children _ => List Handle
  | findDevice _ | reference .. => Handle
  | destroy _ | writeRegister .. | copyRegisters .. | changePlatform _ => Unit
  | exchangeIO .. => Option ι
  | property .. => Cursor
  | stringIndex .. | u128 .. | claimReservations => Nat
  | isCompatible .. => Bool
  | u32 .. => UInt32
  | u64 .. | readRegister .. | pollRegister .. => UInt64
  | string .. => String
  | resolve .. => Location
  | parseElement .. => Element × Cursor
  | parseDevice .. => Handle × Cursor
  | parseReg .. => Window × Cursor
  | parseRange .. => AddressRange × Cursor
  | elementByName .. => Element
  | reg .. | regByName .. => Window
  | range .. => AddressRange

variable [Platform σ ι]

def perform : (op : Operation σ ι) → BusM σ ι op.Answer
  | device h => Bus.ask (·.device h)
  | children h => Bus.onRegistry (Registry.children h)
  | findDevice path => Bus.onRegistry (Registry.findDevice path)
  | destroy h => Bus.onRegistry (Registry.destroy h)
  | exchangeIO h io => Bus.onRegistry (Registry.exchangeIO h io)
  | property h name => Bus.ask (·.property h name)
  | stringIndex h name value => Bus.ask (·.stringIndex h name value)
  | isCompatible h value => Bus.ask (·.isCompatible h value)
  | u32 h name index => Bus.ask (·.u32 h name index)
  | u64 h name index => Bus.ask (·.u64 h name index)
  | u128 h name index => Bus.ask (·.u128 h name index)
  | string h name index => Bus.ask (·.string h name index)
  | resolve h address length => Bus.ask (·.resolve .ranges h address length)
  | parseElement h cursor type index => Bus.parseElement h cursor type index
  | parseDevice h cursor index => Bus.parseDevice h cursor index
  | parseReg h cursor index => Bus.parseReg h cursor index
  | parseRange h cursor index => Bus.parseRange h cursor index
  | elementByName h name names wanted type => Bus.elementByName h name names wanted type
  | reg h index => Bus.reg h index
  | regByName h name => Bus.regByName h name
  | range route h index => Bus.range route h index
  | reference h name index => Bus.device h name index
  | readRegister w offset width => Bus.readRegister w offset width
  | writeRegister w offset width value => Bus.writeRegister w offset width value
  | pollRegister w offset width mask expected timeout =>
    Bus.pollRegister w offset width mask expected timeout
  | copyRegisters dst dstOffset src srcOffset width count =>
    Bus.copyRegisters dst dstOffset src srcOffset width count
  | claimReservations => Bus.claimReservations
  | changePlatform change => modify fun bus => { bus with platform := change bus.platform }

/-- The bus that an operation leaves, whether it succeeds or fails. -/
def after (op : Operation σ ι) (bus : Bus σ ι) : Bus σ ι :=
  match op.perform bus with
  | .ok _ bus => bus
  | .error _ bus => bus

end Operation

namespace Bus

variable {σ ι : Type} [Platform σ ι]

/-- The bus that operations leave, the first of them first. -/
def afterAll (ops : List (Operation σ ι)) (bus : Bus σ ι) : Bus σ ι :=
  ops.foldl (fun bus op => op.after bus) bus

/-- Some operations, one after another, lead from one bus to the other. -/
def Later : Bus σ ι → Bus σ ι → Prop :=
  Relation.ReflTransGen fun bus next => ∃ op : Operation σ ι, op.after bus = next

/-- Some operations lead to the bus from the one that knows the root of `b` alone. -/
def Reachable (b : Blob) (bus : Bus σ ι) : Prop :=
  ∃ platform start, ofBlob b platform = .ok start ∧ Later start bus

end Bus

end DeviceTree

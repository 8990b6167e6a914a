import DeviceTree.Items
import DeviceTree.Reservation

/-!
# Properties and the views of their values

A value is a byte string whose meaning its reader chooses: one cell, two cells, one string or a list
of strings. A value that does not fit the view is an error at the value's offset, and an entry of a
string list that cannot be read is an error in its own place.
-/
namespace DeviceTree

structure Property where
  name : String
  value : List UInt8
  valueOffset : Nat
deriving DecidableEq, Repr

namespace Property

def asCell (p : Property) : Except ParseError Cell :=
  if p.value.length = 4 then .ok (UInt32.ofNat (ofBigEndian p.value))
  else .error ⟨.invalidPropertyLength, p.valueOffset⟩

def asCellPair (p : Property) : Except ParseError UInt64 :=
  if p.value.length = 8 then .ok (UInt64.ofNat (ofBigEndian p.value))
  else .error ⟨.invalidPropertyLength, p.valueOffset⟩

def stringOf (offset : Nat) (bytes : List UInt8) : Except ParseError String :=
  match Text.decode? bytes with
  | some text => .ok text
  | none => .error ⟨.invalidString, offset⟩

/-- The value as one string whose only NUL is its last byte. -/
def asString (p : Property) : Except ParseError String :=
  match Text.untilNul? p.value with
  | some (text, []) => stringOf p.valueOffset text
  | _ => .error ⟨.invalidString, p.valueOffset⟩

/-- The terminated strings of `bytes`, which start at `offset`; a tail without a terminator is one
last error. -/
def stringsIn (offset : Nat) (bytes : List UInt8) : Items String :=
  match cut : Text.untilNul? bytes with
  | none => if bytes = [] then [] else [.error ⟨.invalidString, offset⟩]
  | some (text, rest) =>
    have := Text.length_lt_of_untilNul? cut
    stringOf offset text :: stringsIn (offset + text.length + 1) rest
termination_by bytes.length

def strings (p : Property) : Items String :=
  stringsIn p.valueOffset p.value

end Property

end DeviceTree

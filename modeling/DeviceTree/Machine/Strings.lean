import DeviceTree.Blob.Property
import DeviceTree.Machine.Basic

/-!
# Strings of a property on a machine

The views of a value as one string and as a list of strings once more. Each looks for terminators in
its own way: the first at the last byte and then at all others, the second from one terminator to
the next, with an offset that is added up on the way.
-/
namespace DeviceTree.Machine

def asString (p : Property) : Machine String :=
  match p.value.getLast? with
  | none => throw ⟨.invalidString, p.valueOffset⟩
  | some last =>
    let text := p.value.dropLast
    if last ≠ 0 ∨ 0 ∈ text then throw ⟨.invalidString, p.valueOffset⟩
    else returns (Property.stringOf p.valueOffset text)

/-- The next string of the list, what is left of the list behind it and the offset of that. A string
that cannot be read is an item like others. -/
def nextString : List UInt8 × Nat →
    Machine (Option (Except ParseError String × List UInt8 × Nat))
  | (rest, offset) => do
    if rest = [] then return none
    match rest.findIdx? (· = 0) with
    | none => return some (.error ⟨.invalidString, offset⟩, [], offset)
    | some length =>
      let entry ← slice rest 0 length
      let skipped ← add length 1
      let tail ← slice rest skipped rest.length
      let next ← add offset skipped
      return some (Property.stringOf offset entry, tail, next)

def strings (p : Property) : Iterator (List UInt8 × Nat) (Except ParseError String) where
  step := nextString
  state := some (p.value, p.valueOffset)

end DeviceTree.Machine

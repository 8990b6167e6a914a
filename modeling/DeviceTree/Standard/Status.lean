/-!
# The `status` property

`Status.ofText` is the reading of a value that is a string, and `Status.text` the wording of a
status.
-/
namespace DeviceTree

inductive Status
  | okay
  | disabled
  | reserved
  | fail
  /-- A failure with a device-specific condition. -/
  | failWithCondition
  /-- The value is not a string. -/
  | broken
  /-- The value is a string without a meaning here. -/
  | unknown
deriving DecidableEq, Repr

namespace Status

instance : Inhabited Status := ⟨okay⟩

def text : Status → String
  | okay => "okay"
  | disabled => "disabled"
  | reserved => "reserved"
  | fail => "fail"
  | failWithCondition => "fail-sss"
  | broken => "broken"
  | unknown => "unknown"

def ofText (text : String) : Status :=
  if text = "okay" ∨ text = "ok" then okay
  else if text = "disabled" then disabled
  else if text = "reserved" then reserved
  else if text = "fail" then fail
  else if "fail-".toList <+: text.toList then failWithCondition
  else unknown

def isOkay (status : Status) : Bool :=
  status = okay

end Status

end DeviceTree

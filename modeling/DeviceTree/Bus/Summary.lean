import DeviceTree.Bus.Registry
import DeviceTree.Encoding.Quoted

/-!
# Summaries of devices

The one-line text that shows a device in diagnostics: the fields that say what it is, and two dots
for those left out.
-/
namespace DeviceTree

def recordText (name : String) (fields : List (String × String)) (openEnded : Bool) : String :=
  let shown := fields.map fun (field, value) => field ++ ": " ++ value
  let shown := if openEnded then shown ++ [".."] else shown
  name ++ " \x7b " ++ ", ".intercalate shown ++ " \x7d"

def Handle.summary (h : Handle) : String :=
  "DeviceHandle(" ++ toString h.index ++ ")"

def Status.summary : Status → String
  | okay => "Okay"
  | disabled => "Disabled"
  | reserved => "Reserved"
  | fail => "Fail"
  | failWithCondition => "FailWithCondition"
  | broken => "Broken"
  | unknown => "Unknown"

def Cells.summary (cells : Cells) : String :=
  recordText "DeviceCells"
    [("address_cells", toString cells.address.toNat), ("size_cells", toString cells.size.toNat),
      ("child_address_cells", toString cells.childAddress.toNat),
      ("child_size_cells", toString cells.childSize.toNat)] false

def Device.summary {ι : Type} (device : Device ι) : String :=
  let parent :=
    match device.parent with
    | some h => "Some(" ++ h.summary ++ ")"
    | none => "None"
  recordText "DtDevice"
    [("name", Text.quoted device.name), ("parent", parent), ("status", device.status.summary),
      ("cells", device.cells.summary), ("connected", toString device.connected),
      ("bus_io", toString device.io.isSome)] true

end DeviceTree

import DeviceTree.Machine.Basic
import DeviceTree.Standard.Properties

/-!
# The reader on a machine

The operations of a blob once more, step by step over the bytes alone: the header is read again
wherever it is needed, every sum, difference and slice is one that can trap, the loops over the
tokens are loops, and a list of items is what the calls of an iterator give. Nothing here ends or
stays inside the bytes by the way it is written.
-/
namespace DeviceTree.Machine

section Offsets

def align (offset : Nat) : Machine Nat := do
  if offset % Cell.size = 0 then return offset
  add offset (← sub Cell.size (offset % Cell.size))

variable (data : List UInt8)

/-- The header, for which the bytes have to be enough. -/
def header : Machine Header :=
  match Header.ofBytes? (data.take Header.size) with
  | some header => return header
  | none => trap

def structEnd : Machine Nat := do
  let header ← header data
  add header.structOffset header.structSize

/-- The first `length` of the bytes from `offset` to just before `stop`. -/
def front? (offset stop length : Nat) : Option (List UInt8) :=
  (slice? data offset stop).bind fun bytes => slice? bytes 0 length

def cellAt (offset : Nat) : Machine Cell :=
  match front? data offset data.length Cell.size with
  | some bytes => return UInt32.ofNat (ofBigEndian bytes)
  | none => throw ⟨.invalidOffset, offset⟩

def token (offset : Nat) : Machine Token := do
  if (← structEnd data) < (← add offset Cell.size) then throw ⟨.invalidOffset, offset⟩
  let cell ← cellAt data offset
  match Token.ofCell? cell with
  | some token => return token
  | none => throw ⟨.badToken cell, offset⟩

def textAt (offset stop : Nat) : Machine String :=
  match slice? data offset stop with
  | none => throw ⟨.invalidOffset, offset⟩
  | some bytes =>
    match bytes.findIdx? (· = 0) with
    | none => throw ⟨.invalidString, offset⟩
    | some length => do
      match Text.decode? (← slice bytes 0 length) with
      | some text => return text
      | none => throw ⟨.invalidString, offset⟩

def propertyName (offset : Nat) : Machine String := do
  let header ← header data
  let start ← add header.stringsOffset offset
  let stop ← add header.stringsOffset header.stringsSize
  if stop ≤ start then throw ⟨.invalidOffset, start⟩
  textAt data start stop

def nodeName (offset : Nat) : Machine String := do
  let start ← add offset Cell.size
  textAt data start (← structEnd data)

def contents (offset : Nat) : Machine Nat := do
  let name ← nodeName data offset
  let start ← add offset Cell.size
  align (← add (← add start name.utf8ByteSize) 1)

def propertyHeader (offset : Nat) : Machine PropertyHeader := do
  let length ← cellAt data (← add offset Cell.size)
  let nameOffset ← cellAt data (← add offset (2 * Cell.size))
  return ⟨length.toNat, nameOffset.toNat⟩

def afterProperty (offset : Nat) : Machine Nat := do
  let header ← propertyHeader data offset
  let next ← align (← add (← add offset (3 * Cell.size)) header.length)
  if (← structEnd data) < next then throw ⟨.invalidOffset, offset⟩
  return next

/-- Goes past tokens until the `depth` open nodes are closed. -/
def skip (offset depth : Nat) : Machine Nat :=
  loop (fun (offset, depth) => do
    match ← token data offset with
    | .beginNode =>
      let depth ← add depth 1
      return .again (← contents data offset, depth)
    | .property => return .again (← afterProperty data offset, depth)
    | .nop => return .again (← add offset Cell.size, depth)
    | .endNode =>
      let depth ← sub depth 1
      let offset ← add offset Cell.size
      if depth = 0 then return .done offset else return .again (offset, depth)
    | .finish => throw ⟨.badToken Token.finish.toCell, offset⟩) (offset, depth)

def afterNode (offset : Nat) : Machine Nat := do
  skip data (← contents data offset) 1

end Offsets

section Iterators

variable (data : List UInt8)

/-- The property at `offset`, and where the token after it stands. -/
def propertyAt (offset : Nat) : Machine (Property × Nat) := do
  let header ← propertyHeader data offset
  let start ← add offset (3 * Cell.size)
  let next ← afterProperty data offset
  let name ← propertyName data header.nameOffset
  let value ← slice data start (← add start header.length)
  return ({ name, value, valueOffset := start }, next)

/-- The first property from `offset` on, and where the token after it stands. -/
def propertyFrom (offset : Nat) : Machine (Option (Property × Option Nat)) :=
  loop (fun offset => do
    match ← token data offset with
    | .property =>
      let (property, next) ← propertyAt data offset
      return .done (some (property, some next))
    | .nop => return .again (← add offset Cell.size)
    | _ => return .done none) offset

/-- The first child from `offset` on, and where the token after it stands. -/
def childFrom (offset : Nat) : Machine (Option (Node × Option Nat)) :=
  loop (fun offset => do
    match ← token data offset with
    | .beginNode => return .done (some (⟨offset⟩, some (← afterNode data offset)))
    | .property => return .again (← afterProperty data offset)
    | .nop => return .again (← add offset Cell.size)
    | _ => return .done none) offset

/-- The first node from `offset` on with its depth, and where to go on inside it. Of the nodes
before it, `depth` are still open. -/
def nodeFrom (offset depth : Nat) : Machine (Option ((Node × Nat) × Option Nat × Nat)) :=
  loop (fun (offset, depth) => do
    match ← token data offset with
    | .beginNode =>
      let inner ← add depth 1
      return .done (some ((⟨offset⟩, depth), some (← contents data offset), inner))
    | .property => return .again (← afterProperty data offset, depth)
    | .nop => return .again (← add offset Cell.size, depth)
    | .endNode =>
      let offset ← add offset Cell.size
      let depth ← sub depth 1
      if depth = 0 then return .done none else return .again (offset, depth)
    | .finish => return .done none) (offset, depth)

def rootFrom (offset : Nat) : Machine Node :=
  loop (fun offset => do
    match ← token data offset with
    | .beginNode => return .done ⟨offset⟩
    | .nop => return .again (← add offset Cell.size)
    | _ => throw ⟨.badToken (← cellAt data offset), offset⟩) offset

def root : Machine Node := do
  rootFrom data (← header data).structOffset

/-- The iterator over what is inside `n`, where `next` gives the first item from an offset on. -/
def inside {α : Type} (n : Node) (next : Nat → Machine (Option (α × Option Nat))) :
    Iterator (Option Nat) α where
  step
    | some offset => next offset
    | none => do next (← contents data n.offset)
  state := some none

def properties (n : Node) : Iterator (Option Nat) Property :=
  inside data n (propertyFrom data)

def children (n : Node) : Iterator (Option Nat) Node :=
  inside data n (childFrom data)

/-- Every node with its depth, in the order of the structure block. -/
def walk : Iterator (Option Nat × Nat) (Node × Nat) where
  step
    | (some offset, depth) => nodeFrom data offset depth
    | (none, _) => do
      let root ← root data
      return some ((root, 0), some (← contents data root.offset), 1)
  state := some (none, 0)

/-- The reservation at `offset` of a block that ends at `stop`, unless it is the terminator. -/
def reservationAt (stop offset : Nat) : Machine (Option (Reservation × Nat)) := do
  if offset % 8 ≠ 0 then throw ⟨.invalidReservation, offset⟩
  match front? data offset stop Reservation.entrySize with
  | none => throw ⟨.reservationsNotTerminated, offset⟩
  | some bytes =>
    let entry := Reservation.ofBytes bytes
    if entry = Reservation.terminator then return none
    return some (entry, ← add offset Reservation.entrySize)

def reservations : Machine (Iterator Nat Reservation) := do
  let header ← header data
  return { step := reservationAt data header.structOffset, state := some header.reservationsOffset }

end Iterators

section Lookups

variable (data : List UInt8)

def property (n : Node) (name : String) : Machine (Option Property) :=
  (properties data n).first fun p => return p.name == name

def child (n : Node) (name : String) : Machine (Option Node) :=
  (children data n).first fun c => do
    if (← nodeName data c.offset) = name then return true
    if Text.hasUnit name then return false
    return Text.withoutUnit (← nodeName data c.offset) == name

def descend (n : Node) : List String → Machine (Option Node)
  | [] => return some n
  | name :: names => do
    match ← child data n name with
    | some c => descend c names
    | none => return none

def findNode (path : String) : Machine (Option Node) := do
  if Text.isAbsolute path then descend data (← root data) (Text.components path)
  else return none

def phandleProperty (n : Node) : Machine (Option Property) := do
  match ← property data n "phandle" with
  | some property => return some property
  | none => property data n "linux,phandle"

def phandle (n : Node) : Machine (Option UInt32) := do
  match ← phandleProperty data n with
  | some property => return some (← returns property.asCell)
  | none => return none

def nodeByPhandle (handle : UInt32) : Machine (Option Node) := do
  if Blob.isReservedPhandle handle then return none
  let found ← (walk data).first fun entry => return (← phandle data entry.1) == some handle
  return found.map Prod.fst

def depth (n : Node) : Machine Nat := do
  match ← (walk data).first fun entry => return entry.1 == n with
  | some (_, depth) => return depth
  | none => throw ⟨.invalidOffset, n.offset⟩

/-- Keeps the last node one level above `n`, which is at `depth`, until the walk comes to `n`. -/
def parentTurn (n : Node) (depth : Nat) (above : Option Node) :
    Node × Nat → Machine (ForInStep (Option Node))
  | (candidate, level) => do
    if candidate = n then return .done above
    if level = (← sub depth 1) then return .yield (some candidate)
    return .yield above

def parent (n : Node) : Machine (Option Node) := do
  let depth ← depth data n
  if depth = 0 then return none
  (walk data).each (parentTurn n depth) none

/-- Keeps the names of the open nodes, until the walk comes to `n` and they spell its path: the
root's own left out, each after a slash. -/
def pathTurn (n : Node) (line : List String) :
    Node × Nat → Machine (ForInStep (List String × Option String))
  | (candidate, level) => do
    let line := line.take level ++ [← nodeName data candidate.offset]
    if candidate ≠ n then return .yield (line, none)
    if line.length = 1 then return .done (line, some "/")
    let names ← slice line 1 line.length
    return .done (line, some (String.join (names.map ("/" ++ ·))))

def path (n : Node) : Machine String := do
  let kept ← (walk data).each (fun kept => pathTurn data n kept.1) ([], none)
  match kept.2 with
  | some path => return path
  | none => throw ⟨.invalidOffset, n.offset⟩

end Lookups

end DeviceTree.Machine

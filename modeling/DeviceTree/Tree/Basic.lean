import DeviceTree.Encoding.BigEndian
import DeviceTree.Encoding.Text
import DeviceTree.Reservation

/-!
# Editable trees

A tree in memory, whose properties and children are kept in the order in which they were first
added and are looked up by name. Adding under a name that is present replaces in place; removing
keeps the order of the rest. Two trees are alike if they differ only in these orders.
-/
namespace DeviceTree

namespace Tree

structure Property where
  name : String
  value : List UInt8
deriving DecidableEq, Repr

structure Node where
  name : String
  properties : List Property := []
  children : List Node := []
deriving Repr

/-- Puts `a` in the place of the first element with its key, or at the end. -/
def put {α : Type} (key : α → String) (a : α) : List α → List α
  | [] => [a]
  | b :: rest => if key b = key a then a :: rest else b :: put key a rest

namespace Property

def ofCells (name : String) (cells : List Cell) : Property :=
  ⟨name, cells.flatMap Cell.toBytes⟩

def ofStrings (name : String) (strings : List String) : Property :=
  ⟨name, strings.flatMap Text.terminated⟩

end Property

namespace Node

def property? (n : Node) (name : String) : Option Property :=
  n.properties.find? (·.name = name)

def child? (n : Node) (name : String) : Option Node :=
  n.children.find? (·.name = name)

def addProperty (n : Node) (p : Property) : Node :=
  { n with properties := put Property.name p n.properties }

def addChild (n : Node) (c : Node) : Node :=
  { n with children := put Node.name c n.children }

/-- Replaces the value of a property that is present. -/
def setValue (n : Node) (name : String) (value : List UInt8) : Node :=
  match n.property? name with
  | some p => n.addProperty { p with value }
  | none => n

def removeProperty (n : Node) (name : String) : Node :=
  { n with properties := n.properties.eraseP (·.name = name) }

def removeChild (n : Node) (name : String) : Node :=
  { n with children := n.children.eraseP (·.name = name) }

/-- The node with the given properties and children, added in order. -/
def build (name : String) (properties : List Property) (children : List Node) : Node :=
  children.foldl addChild (properties.foldl addProperty { name })

def descend? (n : Node) : List String → Option Node
  | [] => some n
  | name :: names => (n.child? name).bind fun c => c.descend? names

/-- Changes the node reached by taking the child of each name in turn, if there is one. -/
def modify? (change : Node → Node) (n : Node) : List String → Option Node
  | [] => some (change n)
  | name :: names => do
    let c ← n.child? name
    let changed ← c.modify? change names
    return n.addChild changed

mutual

/-- Whether two nodes are alike but for the order of properties and of children. -/
def alike : Node → Node → Bool
  | ⟨name, properties, children⟩, other =>
    name = other.name && properties.length = other.properties.length &&
      properties.all (fun p => other.property? p.name = some p) &&
      children.length = other.children.length && allAlike children other.children

/-- Whether each of the nodes is like the first one of its name among `others`. -/
def allAlike : List Node → List Node → Bool
  | [], _ => true
  | n :: rest, others =>
    (match others.find? (·.name = n.name) with
      | some other => alike n other
      | none => false) && allAlike rest others

end

end Node

end Tree

structure Tree where
  root : Tree.Node := { name := "" }
  reservations : List Reservation := []

namespace Tree

instance : Inhabited Tree := ⟨{}⟩

/-- The node at a path whose every component is the full name of a child. -/
def node? (t : Tree) (path : String) : Option Node :=
  if Text.isAbsolute path then t.root.descend? (Text.components path) else none

/-- Changes the node at `path`, if there is one. -/
def modify? (t : Tree) (path : String) (change : Node → Node) : Option Tree :=
  if Text.isAbsolute path then
    (t.root.modify? change (Text.components path)).map fun root => { t with root }
  else none

def alike (t other : Tree) : Bool :=
  t.root.alike other.root && t.reservations = other.reservations

end Tree

end DeviceTree

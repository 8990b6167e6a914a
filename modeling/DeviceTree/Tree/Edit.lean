import DeviceTree.Tree.Basic

/-!
# Edits of a tree

All that can be done to a tree, as data. A node is edited where it stands; a node that is added has
been made by edits of its own. An edit of a node that is not there changes nothing.
-/
namespace DeviceTree

namespace Tree

namespace Node

inductive Edit
  | addProperty (p : Property)
  | removeProperty (name : String)
  /-- Adds the node that the edits make of a bare one. -/
  | addChild (name : String) (edits : List Edit)
  | removeChild (name : String)
  /-- Edits the child of that name. -/
  | inChild (name : String) (edit : Edit)

mutual

def Edit.apply : Edit → Node → Node
  | .addProperty p, n => n.addProperty p
  | .removeProperty name, n => n.removeProperty name
  | .addChild name edits, n => n.addChild (applyAll edits { name })
  | .removeChild name, n => n.removeChild name
  | .inChild name edit, n =>
    match n.child? name with
    | some c => n.addChild (edit.apply c)
    | none => n

def applyAll : List Edit → Node → Node
  | [], n => n
  | edit :: edits, n => applyAll edits (edit.apply n)

end

end Node

inductive Edit
  | node (path : String) (edit : Node.Edit)
  | reserve (reservations : List Reservation)

def Edit.apply : Edit → Tree → Tree
  | node path edit, t => (t.modify? path edit.apply).getD t
  | reserve reservations, t => { t with reservations }

/-- The tree that the edits make of a bare one, the first of them first. -/
def ofEdits (edits : List Edit) : Tree :=
  edits.foldl (fun t edit => edit.apply t) {}

end Tree

end DeviceTree

import DeviceTree.Blob.Walk
import DeviceTree.Tree.Basic

/-!
# Reading a tree out of a blob

A node of a blob and all nodes below it, taken from its name, its properties and its children. The
first of them that cannot be read fails the whole.
-/
namespace DeviceTree

namespace Tree

mutual

/-- Every name of a node or of a property in the tree below `n`. -/
def Node.names : Node → List String
  | ⟨name, properties, children⟩ => name :: properties.map Property.name ++ allNames children

def allNames : List Node → List String
  | [] => []
  | n :: rest => n.names ++ allNames rest

end

/-- No name has a NUL, which would end it early in a blob. -/
def Node.NulFree (n : Node) : Prop :=
  ∀ name ∈ n.names, 0 ∉ Text.encode name

instance (n : Node) : Decidable n.NulFree :=
  inferInstanceAs (Decidable (∀ name ∈ n.names, 0 ∉ Text.encode name))

end Tree

namespace Blob

def readNode (b : Blob) (n : Node) : Except ParseError Tree.Node := do
  let name ← b.name n
  let properties ← (b.properties n).mapM id
  let children ← (b.children n).attach.mapM fun
    | ⟨.ok c, mem⟩ =>
      have := bounds_of_mem_children mem
      b.readNode c
    | ⟨.error e, _⟩ => throw e
  return { name, properties := properties.map fun p => ⟨p.name, p.value⟩, children }
termination_by b.structEnd - n.offset

def readTree (b : Blob) : Except ParseError Tree.Node := do
  b.readNode (← b.root)

theorem readNode_eq (b : Blob) (n : Node) :
    b.readNode n = do
      let name ← b.name n
      let properties ← (b.properties n).mapM id
      let children ← (b.children n).mapM (· >>= b.readNode)
      return { name, properties := properties.map fun p => ⟨p.name, p.value⟩, children } := by
  have hchildren : (b.children n).attach.mapM (fun
      | ⟨.ok c, _⟩ => b.readNode c
      | ⟨.error e, _⟩ => throw e) = (b.children n).mapM (· >>= b.readNode) := by
    rw [List.mapM_subtype (g := (· >>= b.readNode)), List.unattach_attach]
    rintro (e | c) _ <;> rfl
  rw [readNode]
  exact bind_congr fun name => bind_congr fun properties => by rw [← hchildren]

end Blob

end DeviceTree

import DeviceTree.Proofs.Encoding
import DeviceTree.Tree.Flatten
import Mathlib.Data.List.Basic

/-!
# The names of properties in a flattened tree

The strings block grows while the nodes are written, by each name that is used for the first time. A
name keeps its place when others are added after it, so what is written is what would have been
written with the names of the whole tree listed in advance.
-/
namespace DeviceTree

namespace Tree

mutual

/-- The names of the properties below `n`, in the order in which they are written. -/
def Node.usedNames : Node → List String
  | ⟨_, properties, children⟩ => properties.map Property.name ++ allUsedNames children

def allUsedNames : List Node → List String
  | [] => []
  | n :: rest => n.usedNames ++ allUsedNames rest

end

def addName (names : List String) (name : String) : List String :=
  if name ∈ names then names else names ++ [name]

/-- The names in the order of first use, each once, after those that are there already. -/
def addNames (names used : List String) : List String :=
  used.foldl addName names

/-- Where `name` starts in the strings block of `names`. -/
def nameOffset : List String → String → Nat
  | [], _ => 0
  | earlier :: rest, name =>
    if earlier = name then 0 else earlier.utf8ByteSize + 1 + nameOffset rest name

def Property.toBytes (names : List String) (p : Property) : List UInt8 :=
  Token.property.toCell.toBytes ++ bigEndian 4 p.value.length ++
    bigEndian 4 (nameOffset names p.name) ++ padded p.value

mutual

def Node.toBytes (names : List String) : Node → List UInt8
  | ⟨name, properties, children⟩ =>
    Token.beginNode.toCell.toBytes ++ padded (Text.terminated name) ++
      properties.flatMap (Property.toBytes names) ++ allToBytes names children ++
      Token.endNode.toCell.toBytes

def allToBytes (names : List String) : List Node → List UInt8
  | [] => []
  | n :: rest => n.toBytes names ++ allToBytes names rest

end

variable {names later used : List String} {name : String}

private theorem le_addName (names : List String) (name : String) :
    names <+: addName names name := by
  unfold addName
  split
  · exact List.prefix_rfl
  · exact List.prefix_append names [name]

private theorem mem_addName (names : List String) (name : String) : name ∈ addName names name := by
  unfold addName
  split
  · assumption
  · simp

theorem le_addNames (names used : List String) : names <+: addNames names used := by
  induction used generalizing names with
  | nil => exact List.prefix_rfl
  | cons name used ih => exact (le_addName names name).trans (ih (addName names name))

theorem mem_addNames (h : name ∈ used) : name ∈ addNames names used := by
  induction used generalizing names with
  | nil => cases h
  | cons first used ih =>
    obtain rfl | h := List.mem_cons.1 h
    · exact (le_addNames _ used).subset (mem_addName names name)
    · exact ih h

private theorem addNames_append (names used more : List String) :
    addNames names (used ++ more) = addNames (addNames names used) more :=
  List.foldl_append

/-- Names that are added do not move those that were there. -/
theorem nameOffset_of_le (h : name ∈ names) (hle : names <+: later) :
    nameOffset later name = nameOffset names name := by
  obtain ⟨more, rfl⟩ := hle
  induction names with
  | nil => cases h
  | cons earlier names ih =>
    simp only [List.cons_append, nameOffset]
    split
    · rfl
    · next hne => rw [ih (List.mem_of_ne_of_mem (Ne.symm hne) h)]

private theorem nameOffset_append_self (h : name ∉ names) :
    nameOffset (names ++ [name]) name = (names.flatMap Text.terminated).length := by
  induction names with
  | nil => simp [nameOffset]
  | cons earlier names ih =>
    rw [List.mem_cons, not_or] at h
    rw [List.cons_append, nameOffset, if_neg (Ne.symm h.1), ih h.2, List.flatMap_cons,
      List.length_append, Text.length_terminated]

namespace StringTable

/-- The table in which just `names` were used. -/
def ofNames (names : List String) : StringTable where
  offsets := names.map fun name => (name, nameOffset names name)
  size := (names.flatMap Text.terminated).length

theorem toBytes_ofNames (names : List String) :
    (ofNames names).toBytes = names.flatMap Text.terminated := by
  simp [toBytes, ofNames, List.flatMap_map]

private theorem ofNames_append (h : name ∉ names) :
    ofNames (names ++ [name]) =
      { offsets := (ofNames names).offsets ++ [(name, (ofNames names).size)]
        size := (ofNames names).size + name.utf8ByteSize + 1 } := by
  have hkept : ∀ earlier ∈ names,
      (earlier, nameOffset (names ++ [name]) earlier) = (earlier, nameOffset names earlier) :=
    fun _ hearlier => by rw [nameOffset_of_le hearlier (List.prefix_append names [name])]
  simp only [ofNames, List.map_append, List.map_congr_left hkept, List.map_singleton,
    nameOffset_append_self h, List.flatMap_append, List.flatMap_singleton, List.length_append,
    Text.length_terminated, Nat.add_assoc]

private theorem lookup_offsets (h : name ∉ names) : (ofNames names).offsets.lookup name = none := by
  rw [List.lookup_eq_none_iff]
  rintro ⟨earlier, offset⟩ hmem
  obtain ⟨_, hearlier, heq⟩ := List.mem_map.1 hmem
  cases heq
  exact bne_iff_ne.2 (ne_of_mem_of_not_mem hearlier h).symm

theorem offset_ofNames (names : List String) (name : String) :
    offset name (ofNames names) =
      (nameOffset (addName names name) name, ofNames (addName names name)) := by
  unfold addName offset
  by_cases h : name ∈ names
  · rw [if_pos h, ofNames, List.lookup_graph _ h]
  · rw [if_neg h, lookup_offsets h, ofNames_append h, nameOffset_append_self h]
    rfl

end StringTable

private theorem stateM_bind {σ α β : Type} (x : StateM σ α) (f : α → StateM σ β) (s : σ) :
    (x >>= f) s = f (x s).1 (x s).2 :=
  rfl

private theorem stateM_pure {σ α : Type} (a : α) (s : σ) : (pure a : StateM σ α) s = (a, s) :=
  rfl

private theorem write_property (p : Property) (h : addName names p.name <+: later) :
    p.write (.ofNames names) = (p.toBytes later, .ofNames (addName names p.name)) := by
  rw [Property.write, stateM_bind, StringTable.offset_ofNames, stateM_pure, Property.toBytes,
    nameOffset_of_le (mem_addName names p.name) h]

private theorem write_properties (properties : List Property)
    (h : addNames names (properties.map Property.name) <+: later) :
    writeProperties properties (.ofNames names) =
      (properties.flatMap (Property.toBytes later),
        .ofNames (addNames names (properties.map Property.name))) := by
  induction properties generalizing names with
  | nil => rfl
  | cons p properties ih =>
    have hp := (le_addNames (addName names p.name) (properties.map Property.name)).trans h
    rw [writeProperties, stateM_bind, write_property p hp, stateM_bind, ih h, stateM_pure]
    rfl

mutual

/-- Nodes are written alike with the names that were used so far and with all of them. -/
theorem Node.write_ofNames : ∀ (n : Node) {names : List String},
    addNames names n.usedNames <+: later →
      n.write (.ofNames names) = (n.toBytes later, .ofNames (addNames names n.usedNames))
  | ⟨name, properties, children⟩, names, h => by
    rw [Node.usedNames, addNames_append] at h ⊢
    have hproperties := (le_addNames _ (allUsedNames children)).trans h
    rw [Node.write, stateM_bind, write_properties properties hproperties, stateM_bind,
      writeAll_ofNames children h, stateM_pure, Node.toBytes]

theorem writeAll_ofNames : ∀ (nodes : List Node) {names : List String},
    addNames names (allUsedNames nodes) <+: later →
      writeAll nodes (.ofNames names) =
        (allToBytes later nodes, .ofNames (addNames names (allUsedNames nodes)))
  | [], _, _ => rfl
  | n :: rest, names, h => by
    rw [allUsedNames, addNames_append] at h ⊢
    have hn := (le_addNames _ (allUsedNames rest)).trans h
    rw [writeAll, stateM_bind, Node.write_ofNames n hn, stateM_bind, writeAll_ofNames rest h,
      stateM_pure, allToBytes]

end

end Tree

end DeviceTree

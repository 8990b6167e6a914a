import Mathlib.Data.List.Forall2
import DeviceTree.Proofs.Tree.Grammar

/-!
# What forms are read as

Every scan goes past a form as past one run of entries. The scan of the properties stops at the
first node or at the end of the node around, with any fillers before it, and the scan of the
children is not disturbed by the properties. A form of a tree is therefore read as this tree,
wherever it is placed.
-/
namespace DeviceTree

open Blob (Entries)

variable {b : Blob} {offset : Nat} {bytes rest : List UInt8}

theorem length_append_mod {front back : List UInt8} (hfront : front.length % Cell.size = 0)
    (hback : back.length % Cell.size = 0) : (front ++ back).length % Cell.size = 0 := by
  rw [List.length_append, Nat.add_mod, hfront, hback, Nat.zero_mod]

namespace Items

variable {α β : Type}

private theorem mapM_bind_eq_ok_iff {f : α → Except ParseError β} {items : Items α}
    {made : List β} :
    items.mapM (· >>= f) = .ok made ↔
      ∃ read : List α, items = read.map .ok ∧ List.Forall₂ (f · = .ok ·) read made := by
  induction items generalizing made with
  | nil =>
    simp only [List.mapM_nil, pure, Except.pure, Except.ok.injEq]
    constructor
    · rintro rfl
      exact ⟨[], rfl, .nil⟩
    · rintro ⟨read, hread, h⟩
      obtain rfl := List.map_eq_nil_iff.1 hread.symm
      exact (List.forall₂_nil_left_iff.1 h).symm
  | cons item items ih =>
    rw [List.mapM_cons, bind_eq_ok_iff]
    constructor
    · rintro ⟨b, hb, h⟩
      obtain ⟨a, rfl, ha⟩ := bind_eq_ok_iff.1 hb
      obtain ⟨later, hlater, h⟩ := bind_eq_ok_iff.1 h
      obtain rfl := Except.ok.inj h
      obtain ⟨read, rfl, hread⟩ := ih.1 hlater
      exact ⟨a :: read, rfl, .cons ha hread⟩
    · rintro ⟨read, hitems, h⟩
      obtain ⟨a, read, rfl⟩ :=
        List.exists_cons_of_ne_nil (l := read) (by rintro rfl; simp at hitems)
      obtain ⟨rfl, rfl⟩ := List.cons.inj hitems
      cases h with
      | cons ha hread =>
        refine ⟨_, ha, ?_⟩
        rw [ih.2 ⟨read, rfl, hread⟩]
        rfl

private theorem mapM_id_eq_ok_iff {items : Items α} {read : List α} :
    items.mapM id = .ok read ↔ items = read.map .ok := by
  have hid : items.mapM id = items.mapM (· >>= .ok) :=
    congrArg items.mapM (funext fun item => by cases item <;> rfl)
  rw [hid, mapM_bind_eq_ok_iff]
  constructor
  · rintro ⟨as, rfl, h⟩
    simp only [Except.ok.injEq, List.forall₂_eq_eq_eq] at h
    rw [h]
  · rintro rfl
    exact ⟨read, rfl, List.forall₂_same.2 fun _ _ => rfl⟩

end Items

def Tree.Property.ofBlob (p : DeviceTree.Property) : Tree.Property :=
  ⟨p.name, p.value⟩

namespace Blob

/-- A node is read as the tree below it if what is in it is read so. -/
theorem readNode_eq_ok_iff {n : Node} {m : Tree.Node} :
    b.readNode n = .ok m ↔
      b.name n = .ok m.name ∧
      (∃ read : List Property, b.properties n = read.map .ok ∧
        read.map Tree.Property.ofBlob = m.properties) ∧
      ∃ nodes : List Node, b.children n = nodes.map .ok ∧
        List.Forall₂ (b.readNode · = .ok ·) nodes m.children := by
  obtain ⟨name, properties, children⟩ := m
  rw [readNode_eq]
  simp only [bind_eq_ok_iff, Items.mapM_id_eq_ok_iff, Items.mapM_bind_eq_ok_iff]
  constructor
  · rintro ⟨_, hname, read, hread, _, hchildren, h⟩
    cases h
    exact ⟨hname, ⟨read, hread, rfl⟩, hchildren⟩
  · rintro ⟨hname, ⟨read, hread, rfl⟩, hchildren⟩
    exact ⟨name, hname, read, hread, children, hchildren, rfl⟩

private theorem propertiesFrom_nop (token : b.token offset = .ok .nop) :
    b.propertiesFrom offset = b.propertiesFrom (offset + Cell.size) := by
  rw [propertiesFrom]
  split <;> simp_all

private theorem rootFrom_nop (token : b.token offset = .ok .nop) :
    b.rootFrom offset = b.rootFrom (offset + Cell.size) := by
  rw [rootFrom]
  split <;> simp_all

end Blob

namespace Tree

variable {properties : List Property} {nodes : List Node}

theorem PropertiesForm.reads (h : PropertiesForm b.stringsBlock properties bytes)
    (hfree : ∀ p ∈ properties, 0 ∉ Text.encode p.name) (hplaced : b.Placed offset bytes) :
    Entries b offset [] (offset + bytes.length) ∧
      ∃ read : List DeviceTree.Property,
        b.propertiesFrom offset =
          read.map .ok ++ b.propertiesFrom (offset + bytes.length) ∧
        read.map Property.ofBlob = properties := by
  induction h generalizing offset with
  | done => exact ⟨.done, [], rfl, rfl⟩
  | nop _ ih =>
    have htoken := hplaced.left.token_eq
    obtain ⟨hentries, hread⟩ := ih hfree (hplaced.right rfl)
    rw [List.length_append, Cell.length_toBytes, ← Nat.add_assoc]
    exact ⟨.nop htoken hentries, Blob.propertiesFrom_nop htoken ▸ hread⟩
  | @property p properties pad bytes length nameOffset counts stands fills rest ih =>
    obtain ⟨hp, hfree⟩ := List.forall_mem_cons.1 hfree
    obtain ⟨htoken, hafter, hread⟩ :=
      hplaced.left.property_eq counts fills (Blob.propertyName_of_stands stands hp)
    have hmod : (Token.property.toCell.toBytes ++ length.toBytes ++ nameOffset.toBytes ++ p.value ++
        pad).length % Cell.size = 0 := by
      simpa using (PropertiesForm.property counts stands fills .done).length_mod
    obtain ⟨hentries, read, hscan, hmap⟩ := ih hfree (hplaced.right hmod)
    rw [List.length_append, ← Nat.add_assoc]
    refine ⟨.property htoken hafter hentries,
      ⟨p.name, p.value, offset + 3 * Cell.size⟩ :: read, ?_, ?_⟩
    · rw [Blob.propertiesFrom_property htoken hafter hread, hscan, List.map_cons, List.cons_append]
    · rw [List.map_cons, hmap]
      rfl

/-- Before the children end, no further property is seen. -/
theorem NodesForm.propertiesFrom_eq_nil {strings : List UInt8} (h : NodesForm strings nodes bytes)
    (hplaced : b.Placed offset (bytes ++ Token.endNode.toCell.toBytes)) :
    b.propertiesFrom offset = [] := by
  induction h generalizing offset with
  | done => exact Blob.propertiesFrom_endNode hplaced.token_eq
  | nop _ ih =>
    rw [List.append_assoc] at hplaced
    rw [Blob.propertiesFrom_nop hplaced.left.token_eq]
    exact ih (hplaced.right rfl)
  | node => exact Blob.propertiesFrom_beginNode hplaced.left.left.left.left.left.left.token_eq

/-- A form is a run of entries, and the nodes among them are read as those it stands for. -/
theorem NodesForm.reads (h : NodesForm b.stringsBlock nodes bytes)
    (hfree : ∀ name ∈ allNames nodes, 0 ∉ Text.encode name) (hplaced : b.Placed offset bytes) :
    ∃ read : List DeviceTree.Node, Entries b offset read (offset + bytes.length) ∧
      List.Forall₂ (b.readNode · = .ok ·) read nodes ∧
      ∀ n, read.head? = some n → b.rootFrom offset = .ok n := by
  induction h generalizing offset with
  | done => exact ⟨[], .done, .nil, by simp⟩
  | nop _ ih =>
    have htoken := hplaced.left.token_eq
    obtain ⟨read, hentries, hread, hroot⟩ := ih hfree (hplaced.right rfl)
    rw [List.length_append, Cell.length_toBytes, ← Nat.add_assoc]
    exact ⟨read, .nop htoken hentries, hread, Blob.rootFrom_nop htoken ▸ hroot⟩
  | @node name properties children nodes pad propertyBytes childBytes bytes fills inside below rest
      ihBelow ihRest =>
    simp only [allNames, Node.names, List.cons_append, List.forall_mem_cons,
      List.forall_mem_append, List.forall_mem_map] at hfree
    obtain ⟨hnul, ⟨hproperties, hchildren⟩, hnodes⟩ := hfree
    -- The pieces one after another: token, name, properties, children, closing token.
    have hopening : (Token.beginNode.toCell.toBytes ++ (Text.terminated name ++ pad)).length %
        Cell.size = 0 := length_append_mod rfl (by rw [fills, aligned_mod])
    have hlisted := length_append_mod hopening inside.length_mod
    have hfilled := length_append_mod hlisted below.length_mod
    have hinner := hplaced.left
    rw [List.append_assoc _ childBytes] at hinner
    obtain ⟨hname, hcontents⟩ := (hinner.left.left.right rfl).nodeName_eq hnul fills
    obtain ⟨hpassed, listed, hscan, hread⟩ :=
      inside.reads hproperties (hinner.left.right hopening)
    obtain ⟨found, hentries, hfound, -⟩ := ihBelow hchildren (hplaced.left.left.right hlisted)
    have hend := (hplaced.left.right hfilled).token_eq
    have hafter := below.propertiesFrom_eq_nil (hinner.right hlisted)
    obtain ⟨later, hlater, hreadLater, -⟩ :=
      ihRest hnodes (hplaced.right (length_append_mod hfilled rfl))
    have htoken := hinner.left.left.left.token_eq
    simp only [List.length_append, Cell.length_toBytes, ← Nat.add_assoc] at *
    have hwhole := hpassed.append hentries
    have hself : b.readNode ⟨offset⟩ = .ok ⟨name, properties, children⟩ := by
      have hproperties : b.properties ⟨offset⟩ = listed.map .ok := by
        simp only [Blob.properties, hcontents, hscan, hafter, List.append_nil]
      exact Blob.readNode_eq_ok_iff.2
        ⟨hname, ⟨listed, hproperties, hread⟩, found, hwhole.children_eq hcontents hend, hfound⟩
    refine ⟨⟨offset⟩ :: later, .node htoken hcontents hwhole hend hlater,
      .cons hself hreadLater, fun n hn => ?_⟩
    obtain rfl := Option.some.inj hn
    exact Blob.rootFrom_beginNode htoken

/-- The structure block is read as the tree it holds a form of, whatever comes after this form. -/
theorem readTree_of_form {t : Node} (hblock : b.structBlock = bytes ++ rest)
    (hform : NodesForm b.stringsBlock [t] bytes) (hfree : t.NulFree) : b.readTree = .ok t := by
  have hnames : ∀ name ∈ allNames [t], 0 ∉ Text.encode name := by
    rw [allNames, allNames, List.append_nil]
    exact hfree
  obtain ⟨read, -, hread, hroot⟩ := hform.reads hnames (Blob.placed_structBlock hblock).left
  cases hread with
  | cons hn hrest =>
    rw [Blob.readTree, Blob.root, hroot _ rfl]
    exact hn

end Tree

end DeviceTree

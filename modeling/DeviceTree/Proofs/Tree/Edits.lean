import DeviceTree.Proofs.Tree.Paths
import DeviceTree.Tree.Edit

/-!
# Trees made by edits

The names of the properties of a node are distinct, and so are those of its children, as long as
edits alone have made it. Then a list is as good as a map from names: what is found under a name is
all that bears it, something new comes last, what is replaced keeps its position, and the rest keeps
its order when something is removed. `Becomes` says so of the edits themselves. The blob of such a
tree gives the same values under the same names.
-/
namespace DeviceTree

namespace Tree

section Lists

variable {α : Type} {key : α → String} {a b : α} {l next : List α} {i : Nat} {name : String}

/-- A list is kept by name, and `a` is stored in it: in the place of the element with its name, or
last if there is none. -/
inductive Stores (key : α → String) (a : α) (l : List α) : List α → Prop
  | replaced {i : Nat} {b : α} (there : l[i]? = some b) (same : key b = key a) :
      Stores key a l (l.set i a)
  | added (absent : ∀ b ∈ l, key b ≠ key a) : Stores key a l (l ++ [a])

private theorem put_set (h : (l.map key).Nodup) (there : l[i]? = some b) (same : key b = key a) :
    put key a l = l.set i a := by
  induction l generalizing i with
  | nil => cases there
  | cons c l ih =>
    obtain ⟨hc, hl⟩ := List.nodup_cons.1 h
    cases i with
    | zero =>
      cases there
      rw [put, if_pos same, List.set_cons_zero]
    | succ i =>
      have hne : key c ≠ key a := fun heq =>
        hc (heq ▸ same ▸ List.mem_map_of_mem (List.mem_of_getElem? there))
      rw [put, if_neg hne, ih hl there, List.set_cons_succ]

private theorem put_append (absent : ∀ b ∈ l, key b ≠ key a) : put key a l = l ++ [a] := by
  induction l with
  | nil => rfl
  | cons b l ih =>
    obtain ⟨hne, absent⟩ := List.forall_mem_cons.1 absent
    rw [put, if_neg hne, ih absent, List.cons_append]

theorem stores_iff (h : (l.map key).Nodup) : Stores key a l next ↔ put key a l = next := by
  constructor
  · intro hstores
    cases hstores with
    | replaced there same => exact put_set h there same
    | added absent => exact put_append absent
  · rintro rfl
    by_cases hpresent : ∃ b ∈ l, key b = key a
    · obtain ⟨b, hb, same⟩ := hpresent
      obtain ⟨i, there⟩ := List.getElem?_of_mem hb
      rw [put_set h there same]
      exact .replaced there same
    · have absent : ∀ b ∈ l, key b ≠ key a := fun b hb same => hpresent ⟨b, hb, same⟩
      rw [put_append absent]
      exact .added absent

private theorem mem_of_mem_put (h : b ∈ put key a l) : b = a ∨ b ∈ l := by
  induction l with
  | nil => exact .inl (List.mem_singleton.1 h)
  | cons c l ih =>
    rw [put] at h
    split at h
    · rcases List.mem_cons.1 h with rfl | h
      · exact .inl rfl
      · exact .inr (List.mem_cons_of_mem _ h)
    · rcases List.mem_cons.1 h with rfl | h
      · exact .inr List.mem_cons_self
      · exact (ih h).imp_right (List.mem_cons_of_mem _)

private theorem nodup_put (a : α) (h : (l.map key).Nodup) : ((put key a l).map key).Nodup := by
  induction l with
  | nil => exact List.nodup_singleton _
  | cons b l ih =>
    obtain ⟨hb, hl⟩ := List.nodup_cons.1 h
    rw [put]
    split
    case isTrue hkey =>
      rw [List.map_cons, ← hkey]
      exact h
    case isFalse hne =>
      refine List.nodup_cons.2 ⟨fun hmem => ?_, ih hl⟩
      obtain ⟨c, hc, hkey⟩ := List.mem_map.1 hmem
      rcases mem_of_mem_put hc with rfl | hc
      · exact hne hkey.symm
      · exact hb (hkey ▸ List.mem_map_of_mem hc)

private theorem nodup_eraseP (p : α → Bool) (h : (l.map key).Nodup) :
    ((l.eraseP p).map key).Nodup :=
  h.sublist (List.eraseP_sublist.map key)

private theorem find?_eq_some_iff_of_nodup (h : (l.map key).Nodup) :
    l.find? (key · = name) = some a ↔ a ∈ l ∧ key a = name := by
  constructor
  · intro hfound
    exact ⟨List.mem_of_find?_eq_some hfound, by simpa using List.find?_some hfound⟩
  · rintro ⟨hmem, rfl⟩
    cases hfound : l.find? (key · = key a) with
    | none => simpa using List.find?_eq_none.1 hfound a hmem
    | some b =>
      have hkey : key b = key a := by simpa using List.find?_some hfound
      rw [List.inj_on_of_nodup_map h (List.mem_of_find?_eq_some hfound) hmem hkey]

private theorem eraseP_eq_filter_of_nodup (h : (l.map key).Nodup) :
    l.eraseP (key · = name) = l.filter (key · ≠ name) := by
  induction l with
  | nil => rfl
  | cons b l ih =>
    obtain ⟨hb, hl⟩ := List.nodup_cons.1 h
    by_cases hkey : key b = name
    · have hrest : l.filter (key · ≠ name) = l := by
        refine List.filter_eq_self.2 fun c hc => decide_eq_true fun heq => hb ?_
        rw [hkey, ← heq]
        exact List.mem_map_of_mem hc
      rw [List.eraseP_cons_of_pos (by simpa using hkey),
        List.filter_cons_of_neg (by simpa using hkey), hrest]
    · rw [List.eraseP_cons_of_neg (by simpa using hkey),
        List.filter_cons_of_pos (by simpa using hkey), ih hl]

end Lists

namespace Node

/-- No two properties of a node have the same name, nor do two of its children, in the whole
tree. -/
def DistinctNames (n : Node) : Prop :=
  ∀ place m, n.at? place = some m →
    (m.properties.map Property.name).Nodup ∧ (m.children.map Node.name).Nodup

/-- The tree with `m` in place of what stands at a place. -/
def replace (n : Node) : List Nat → Node → Node
  | [], m => m
  | i :: place, m => { n with children := n.children.modify i fun c => c.replace place m }

mutual

/-- What an edit of a node comes to. -/
inductive Becomes : Edit → Node → Node → Prop
  | addProperty {n : Node} {p : Property} {properties : List Property}
      (stored : Stores Property.name p n.properties properties) :
      Becomes (.addProperty p) n { n with properties }
  | removeProperty {n : Node} {name : String} :
      Becomes (.removeProperty name) n
        { n with properties := n.properties.filter (·.name ≠ name) }
  | addChild {n c : Node} {name : String} {edits : List Edit} {children : List Node}
      (made : BecomesAll edits { name } c) (stored : Stores Node.name c n.children children) :
      Becomes (.addChild name edits) n { n with children }
  | removeChild {n : Node} {name : String} :
      Becomes (.removeChild name) n { n with children := n.children.filter (·.name ≠ name) }
  | inChild {n c changed : Node} {name : String} {edit : Edit} {i : Nat}
      (there : n.children[i]? = some c) (named : c.name = name) (below : Becomes edit c changed) :
      Becomes (.inChild name edit) n { n with children := n.children.set i changed }
  | noChild {n : Node} {name : String} {edit : Edit} (absent : ∀ c ∈ n.children, c.name ≠ name) :
      Becomes (.inChild name edit) n n

inductive BecomesAll : List Edit → Node → Node → Prop
  | nil {n : Node} : BecomesAll [] n n
  | cons {n m last : Node} {edit : Edit} {edits : List Edit} (first : Becomes edit n m)
      (rest : BecomesAll edits m last) : BecomesAll (edit :: edits) n last

end

/-- Properties and children are stored under their own names, one under each. -/
structure Keyed (n : Node) : Prop where
  properties_nodup : (n.properties.map Property.name).Nodup
  children_nodup : (n.children.map Node.name).Nodup
  property?_eq_some_iff : ∀ name p, n.property? name = some p ↔ p ∈ n.properties ∧ p.name = name
  child?_eq_some_iff : ∀ name c, n.child? name = some c ↔ c ∈ n.children ∧ c.name = name

variable {n c m next : Node} {change : Node → Node} {names : List String} {place : List Nat}
  {name : String}

theorem distinctNames_iff : n.DistinctNames ↔
    (n.properties.map Property.name).Nodup ∧ (n.children.map Node.name).Nodup ∧
      ∀ c ∈ n.children, c.DistinctNames := by
  constructor
  · intro h
    refine ⟨(h [] n rfl).1, (h [] n rfl).2, fun c hc place m hm => ?_⟩
    obtain ⟨i, hi⟩ := List.getElem?_of_mem hc
    exact h (i :: place) m (by rw [at?, hi]; exact hm)
  · rintro ⟨hproperties, hchildren, hbelow⟩ (_ | ⟨i, place⟩) m hm
    · obtain rfl := Option.some.inj hm
      exact ⟨hproperties, hchildren⟩
    · obtain ⟨c, hc, hm⟩ := Option.bind_eq_some_iff.1 hm
      exact hbelow c (List.mem_of_getElem? hc) place m hm

theorem keyed_of_nodup (hproperties : (n.properties.map Property.name).Nodup)
    (hchildren : (n.children.map Node.name).Nodup) : n.Keyed where
  properties_nodup := hproperties
  children_nodup := hchildren
  property?_eq_some_iff _ _ := find?_eq_some_iff_of_nodup hproperties
  child?_eq_some_iff _ _ := find?_eq_some_iff_of_nodup hchildren

theorem DistinctNames.keyed (h : n.DistinctNames) : n.Keyed :=
  keyed_of_nodup (h [] n rfl).1 (h [] n rfl).2

theorem DistinctNames.at (h : n.DistinctNames) (hm : n.at? place = some m) : m.DistinctNames := by
  intro below c hc
  exact h (place ++ below) c (by rw [at?_append, hm]; exact hc)

theorem distinctNames_bare (name : String) : DistinctNames { name } :=
  distinctNames_iff.2 ⟨List.nodup_nil, List.nodup_nil, by simp⟩

namespace DistinctNames

variable (h : n.DistinctNames)

include h

theorem below (hc : c ∈ n.children) : c.DistinctNames :=
  (distinctNames_iff.1 h).2.2 c hc

theorem child (hc : n.child? name = some c) : c.DistinctNames :=
  h.below (List.mem_of_find?_eq_some hc)

theorem addProperty (p : Property) : (n.addProperty p).DistinctNames := by
  obtain ⟨hproperties, hchildren, hbelow⟩ := distinctNames_iff.1 h
  exact distinctNames_iff.2 ⟨nodup_put p hproperties, hchildren, hbelow⟩

theorem removeProperty (name : String) : (n.removeProperty name).DistinctNames := by
  obtain ⟨hproperties, hchildren, hbelow⟩ := distinctNames_iff.1 h
  exact distinctNames_iff.2 ⟨nodup_eraseP _ hproperties, hchildren, hbelow⟩

theorem addChild (hc : c.DistinctNames) : (n.addChild c).DistinctNames := by
  obtain ⟨hproperties, hchildren, hbelow⟩ := distinctNames_iff.1 h
  refine distinctNames_iff.2 ⟨hproperties, nodup_put c hchildren, fun d hd => ?_⟩
  rcases mem_of_mem_put hd with rfl | hd
  · exact hc
  · exact hbelow d hd

theorem removeChild (name : String) : (n.removeChild name).DistinctNames := by
  obtain ⟨hproperties, hchildren, hbelow⟩ := distinctNames_iff.1 h
  exact distinctNames_iff.2 ⟨hproperties, nodup_eraseP _ hchildren,
    fun d hd => hbelow d (List.mem_of_mem_eraseP hd)⟩

/-- A change somewhere in the tree keeps names distinct if it does so of the node that it
changes. -/
theorem modify? (hchange : ∀ m, m.DistinctNames → (change m).DistinctNames)
    (hnext : n.modify? change names = some next) : next.DistinctNames := by
  induction names generalizing n next with
  | nil =>
    obtain rfl := Option.some.inj hnext
    exact hchange n h
  | cons name names ih =>
    obtain ⟨c, hc, hnext⟩ := Option.bind_eq_some_iff.1 hnext
    obtain ⟨changed, hchanged, hnext⟩ := Option.bind_eq_some_iff.1 hnext
    obtain rfl := Option.some.inj hnext
    exact h.addChild (ih (h.child hc) hchanged)

end DistinctNames

mutual

theorem Edit.apply_distinctNames : ∀ (edit : Edit) {n : Node}, n.DistinctNames →
    (edit.apply n).DistinctNames
  | .addProperty p, n, h => by
    rw [Edit.apply]
    exact h.addProperty p
  | .removeProperty name, n, h => by
    rw [Edit.apply]
    exact h.removeProperty name
  | .addChild name edits, n, h => by
    rw [Edit.apply]
    exact h.addChild (applyAll_distinctNames edits (distinctNames_bare name))
  | .removeChild name, n, h => by
    rw [Edit.apply]
    exact h.removeChild name
  | .inChild name edit, n, h => by
    rw [Edit.apply]
    cases hc : n.child? name with
    | none => exact h
    | some c => exact h.addChild (edit.apply_distinctNames (h.child hc))

theorem applyAll_distinctNames : ∀ (edits : List Edit) {n : Node}, n.DistinctNames →
    (applyAll edits n).DistinctNames
  | [], n, h => by
    rw [applyAll]
    exact h
  | edit :: edits, n, h => by
    rw [applyAll]
    exact applyAll_distinctNames edits (edit.apply_distinctNames h)

end

private theorem Edit.name_apply (edit : Edit) (n : Node) : (edit.apply n).name = n.name := by
  cases edit with
  | inChild name edit =>
    rw [Edit.apply]
    cases n.child? name <;> rfl
  | _ => rw [Edit.apply]; rfl

private theorem Edit.apply_inChild (edit : Edit) {i : Nat} (h : n.DistinctNames)
    (there : n.children[i]? = some c) (named : c.name = name) :
    (Edit.inChild name edit).apply n =
      { n with children := n.children.set i (edit.apply c) } := by
  have hchild := (h.keyed.child?_eq_some_iff name c).2 ⟨List.mem_of_getElem? there, named⟩
  have hput := put_set h.keyed.children_nodup there (edit.name_apply c).symm
  rw [Edit.apply, hchild]
  change { n with children := put Node.name (edit.apply c) n.children } = _
  rw [hput]

private theorem Edit.apply_noChild (edit : Edit) (absent : ∀ c ∈ n.children, c.name ≠ name) :
    (Edit.inChild name edit).apply n = n := by
  have hchild : n.child? name = none :=
    List.find?_eq_none.2 fun c hc => by simpa using absent c hc
  rw [Edit.apply, hchild]

mutual

/-- An edit of a node with distinct names comes to just one node. -/
theorem becomes_iff : ∀ (edit : Edit) {n next : Node}, n.DistinctNames →
    (Becomes edit n next ↔ edit.apply n = next)
  | .addProperty p, n, next, h => by
    have hnodup := h.keyed.properties_nodup
    rw [Edit.apply, Node.addProperty]
    constructor
    · rintro ⟨stored⟩
      rw [(stores_iff hnodup).1 stored]
    · rintro rfl
      exact .addProperty ((stores_iff hnodup).2 rfl)
  | .removeProperty name, n, next, h => by
    have herase : n.properties.eraseP (·.name = name) = n.properties.filter (·.name ≠ name) :=
      eraseP_eq_filter_of_nodup h.keyed.properties_nodup
    rw [Edit.apply, Node.removeProperty, herase]
    constructor
    · rintro ⟨⟩
      rfl
    · rintro rfl
      exact .removeProperty
  | .addChild name edits, n, next, h => by
    have hnodup := h.keyed.children_nodup
    have hbare := distinctNames_bare name
    rw [Edit.apply, Node.addChild]
    constructor
    · intro hbecomes
      cases hbecomes with
      | addChild made stored =>
        rw [(becomesAll_iff edits hbare).1 made, (stores_iff hnodup).1 stored]
    · rintro rfl
      exact .addChild ((becomesAll_iff edits hbare).2 rfl) ((stores_iff hnodup).2 rfl)
  | .removeChild name, n, next, h => by
    have herase : n.children.eraseP (·.name = name) = n.children.filter (·.name ≠ name) :=
      eraseP_eq_filter_of_nodup h.keyed.children_nodup
    rw [Edit.apply, Node.removeChild, herase]
    constructor
    · rintro ⟨⟩
      rfl
    · rintro rfl
      exact .removeChild
  | .inChild name edit, n, next, h => by
    constructor
    · intro hbecomes
      cases hbecomes with
      | inChild there named below =>
        have hchild := h.below (List.mem_of_getElem? there)
        rw [edit.apply_inChild h there named, (becomes_iff edit hchild).1 below]
      | noChild absent => exact edit.apply_noChild absent
    · rintro rfl
      by_cases hpresent : ∃ c ∈ n.children, c.name = name
      · obtain ⟨c, hc, named⟩ := hpresent
        obtain ⟨i, there⟩ := List.getElem?_of_mem hc
        rw [edit.apply_inChild h there named]
        exact .inChild there named ((becomes_iff edit (h.below hc)).2 rfl)
      · have absent : ∀ c ∈ n.children, c.name ≠ name := fun c hc named => hpresent ⟨c, hc, named⟩
        rw [edit.apply_noChild absent]
        exact .noChild absent

theorem becomesAll_iff : ∀ (edits : List Edit) {n last : Node}, n.DistinctNames →
    (BecomesAll edits n last ↔ applyAll edits n = last)
  | [], n, last, h => by
    rw [applyAll]
    constructor
    · rintro ⟨⟩
      rfl
    · rintro rfl
      exact .nil
  | edit :: edits, n, last, h => by
    rw [applyAll, ← becomesAll_iff edits (edit.apply_distinctNames h)]
    constructor
    · intro hbecomes
      cases hbecomes with
      | cons first rest => rwa [(becomes_iff edit h).1 first]
    · exact .cons ((becomes_iff edit h).2 rfl)

end

private theorem modify?_eq_none (h : n.descend? names = none) : n.modify? change names = none := by
  induction names generalizing n with
  | nil => cases h
  | cons name names ih =>
    rw [descend?] at h
    rw [Node.modify?]
    cases hc : n.child? name with
    | none => rfl
    | some c =>
      rw [hc] at h
      simp only [bind, Option.bind_some, ih h, Option.bind_none]

theorem name_replace (hm : n.at? place = some m) (hname : next.name = m.name) :
    (n.replace place next).name = n.name := by
  cases place with
  | nil =>
    obtain rfl := Option.some.inj hm
    exact hname
  | cons i place => rfl

/-- A node that keeps its name is changed where it stands, and nothing else is changed or moved. -/
theorem modify?_eq_replace (h : n.DistinctNames) (hplace : n.follow? isNamed names = some place)
    (hm : n.at? place = some m) (hname : (change m).name = m.name) :
    n.modify? change names = some (n.replace place (change m)) := by
  induction names generalizing n place with
  | nil =>
    obtain rfl := Option.some.inj hplace
    obtain rfl := Option.some.inj hm
    rfl
  | cons name names ih =>
    obtain ⟨i, c, below, hi, hc, hbelow, rfl⟩ := follow?_cons_eq_some.1 hplace
    have hchild : n.child? name = some c := by
      rw [child?_eq, hi]
      exact hc
    have hat : c.at? below = some m := by
      rw [at?, hc] at hm
      exact hm
    have hput := put_set h.keyed.children_nodup hc (name_replace hat hname).symm
    rw [Node.modify?, hchild]
    simp only [bind, Option.bind_some, ih (h.child hchild) hbelow hat, pure, addChild, hput,
      replace, List.modify_eq_set_getElem?, hc]
    rfl

end Node

theorem Edit.apply_distinctNames (edit : Edit) {t : Tree} (h : t.root.DistinctNames) :
    (edit.apply t).root.DistinctNames := by
  cases edit with
  | reserve reservations => exact h
  | node path edit =>
    rw [apply, modify?]
    split
    case isFalse => exact h
    case isTrue =>
      cases hroot : t.root.modify? edit.apply (Text.components path) with
      | none => exact h
      | some root => exact h.modify? (fun _ => edit.apply_distinctNames) hroot

theorem ofEdits_distinctNames (edits : List Edit) : (ofEdits edits).root.DistinctNames := by
  suffices h : ∀ t : Tree, t.root.DistinctNames →
      (edits.foldl (fun t edit => edit.apply t) t).root.DistinctNames from
    h {} (Node.distinctNames_bare "")
  induction edits with
  | nil => exact fun _ => id
  | cons edit edits ih => exact fun t h => ih _ (edit.apply_distinctNames h)

theorem node?_eq_some_iff {t : Tree} {path : String} {m : Node} : t.node? path = some m ↔
    Text.isAbsolute path ∧ ∃ place,
      t.root.follow? Node.isNamed (Text.components path) = some place ∧
        t.root.at? place = some m := by
  rw [node?]
  split
  case isTrue habsolute => simp only [habsolute, true_and, Node.descend?_eq_some_iff]
  case isFalse hrelative => simp [hrelative]

/-- An edit changes the node that its path leads to, where it stands. -/
theorem Edit.apply_node {t : Tree} {path : String} {m : Node} (ht : t.root.DistinctNames)
    (h : t.node? path = some m) :
    ∃ place, t.root.follow? Node.isNamed (Text.components path) = some place ∧
      t.root.at? place = some m ∧ ∀ edit : Node.Edit,
        (Edit.node path edit).apply t = { t with root := t.root.replace place (edit.apply m) } := by
  obtain ⟨habsolute, place, hplace, hm⟩ := node?_eq_some_iff.1 h
  refine ⟨place, hplace, hm, fun edit => ?_⟩
  rw [apply, modify?, if_pos habsolute, Node.modify?_eq_replace ht hplace hm (edit.name_apply m)]
  rfl

private theorem Edit.apply_absent {t : Tree} {path : String} (h : t.node? path = none)
    (edit : Node.Edit) : (Edit.node path edit).apply t = t := by
  rw [apply, modify?]
  rw [node?] at h
  split
  case isFalse => rfl
  case isTrue habsolute =>
    rw [if_pos habsolute] at h
    rw [Node.modify?_eq_none h]
    rfl

/-- Whatever edits made a tree, every property and every child in it is stored under its own name,
and a path leads where the full names on it lead. An edit at a path changes the node there and
nothing else, and what it comes to is settled: what replaces another takes its position, what is new
comes last, and what is removed leaves the rest in order. Below 4 GiB and without NULs in its names the blob of the tree gives every value under its
name, and nothing under other names. -/
theorem ofEdits_keyed (edits : List Edit) :
    (∀ place m, (ofEdits edits).root.at? place = some m → m.Keyed) ∧
    (∀ path m, (ofEdits edits).node? path = some m ↔ Text.isAbsolute path ∧
      ∃ place, (ofEdits edits).root.follow? Node.isNamed (Text.components path) = some place ∧
        (ofEdits edits).root.at? place = some m) ∧
    (∀ path m, (ofEdits edits).node? path = some m →
      ∃ place, (ofEdits edits).root.follow? Node.isNamed (Text.components path) = some place ∧
        (ofEdits edits).root.at? place = some m ∧ ∀ edit : Node.Edit,
          ∃ next, (∀ other, Node.Becomes edit m other ↔ next = other) ∧
            (Edit.node path edit).apply (ofEdits edits) =
              { ofEdits edits with root := (ofEdits edits).root.replace place next }) ∧
    (∀ path, (ofEdits edits).node? path = none → ∀ edit : Node.Edit,
      (Edit.node path edit).apply (ofEdits edits) = ofEdits edits) ∧
    ((ofEdits edits).flatten.length < UInt32.size → (ofEdits edits).root.NulFree →
      ∃ b, Blob.parse (ofEdits edits).flatten.toArray = .ok b ∧
        ∃ locate, b.ReadsAs (ofEdits edits).root locate ∧
          ∀ place m name, (ofEdits edits).root.at? place = some m →
            ∃ found, b.property (locate place) name = .ok found ∧
              found.map Property.ofBlob = m.property? name) := by
  have hdistinct := ofEdits_distinctNames edits
  refine ⟨fun place m hm => (hdistinct.at hm).keyed, fun _ _ => node?_eq_some_iff,
    fun path m hm => ?_, fun _ => Edit.apply_absent, fun hsize hfree => ?_⟩
  · obtain ⟨place, hplace, hat, hedit⟩ := Edit.apply_node hdistinct hm
    exact ⟨place, hplace, hat, fun edit =>
      ⟨edit.apply m, fun other => Node.becomes_iff edit (hdistinct.at hat), hedit edit⟩⟩
  · obtain ⟨locate, hreads⟩ := Blob.readsAs_of_readTree (readTree_blob hsize hfree)
    exact ⟨_, parse_flatten hsize, locate, hreads,
      fun place m name hm => (hreads.answers place m hm).property name⟩

/-- A bus whose properties were replaced, removed and added again, and that lost one of its ports;
the first port was edited where it stands. -/
def reworked : List Edit :=
  [.node "/" (.addChild "soc"
      [.addProperty ⟨"ranges", [1]⟩, .addProperty ⟨"model", [0x61, 0]⟩,
        .addChild "uart@1000" [.addProperty ⟨"reg", [0, 0, 16, 0]⟩], .addProperty ⟨"ranges", []⟩]),
    .node "/soc" (.addChild "timer@3000" []),
    .node "/soc" (.addChild "spi@4000" []),
    .node "/soc" (.removeProperty "ranges"),
    .node "/soc" (.addProperty ⟨"model", [0x62, 0]⟩),
    .node "/soc" (.addProperty ⟨"ranges", [2]⟩),
    .node "/soc/uart@1000" (.addProperty ⟨"status", [0x6f, 0x6b, 0]⟩),
    .node "/soc/uart@2000" (.removeProperty "reg"),
    .node "/soc" (.removeChild "timer@3000"),
    .reserve [⟨0x1000, 0x10⟩]]

theorem ofEdits_keyed_reworked :
    ((ofEdits reworked).flatten.length < UInt32.size ∧ (ofEdits reworked).root.NulFree) ∧
      ((ofEdits reworked).node? "/soc").map (fun soc =>
          (soc.properties, soc.children.map Node.name)) =
        some ([⟨"model", [0x62, 0]⟩, ⟨"ranges", [2]⟩], ["uart@1000", "spi@4000"]) ∧
      (∃ soc next, (ofEdits reworked).node? "/soc" = some soc ∧
        Node.Becomes (.removeChild "uart@1000") soc next ∧
        next.children.map Node.name = ["spi@4000"]) ∧
      ∃ b, Blob.parse (ofEdits reworked).flatten.toArray = .ok b ∧
        ∃ locate, b.ReadsAs (ofEdits reworked).root locate ∧
          (∃ found, b.property (locate [0]) "ranges" = .ok found ∧
            found.map Property.ofBlob = some ⟨"ranges", [2]⟩) ∧
          ∃ found, b.property (locate [0, 0]) "status" = .ok found ∧
            found.map Property.ofBlob = some ⟨"status", [0x6f, 0x6b, 0]⟩ := by
  have hsize : (ofEdits reworked).flatten.length < UInt32.size := by
    rw [length_flatten]
    decide +kernel
  have hfree : (ofEdits reworked).root.NulFree := by decide
  have hsoc : ((ofEdits reworked).node? "/soc").map (fun soc =>
      (soc.properties, soc.children.map Node.name)) =
        some ([⟨"model", [0x62, 0]⟩, ⟨"ranges", [2]⟩], ["uart@1000", "spi@4000"]) := rfl
  have hranges : ((ofEdits reworked).root.at? [0]).bind (·.property? "ranges") =
      some ⟨"ranges", [2]⟩ := rfl
  have hstatus : ((ofEdits reworked).root.at? [0, 0]).bind (·.property? "status") =
      some ⟨"status", [0x6f, 0x6b, 0]⟩ := rfl
  obtain ⟨-, -, hedit, -, hblob⟩ := ofEdits_keyed reworked
  obtain ⟨b, hparse, locate, hreads, hproperty⟩ := hblob hsize hfree
  refine ⟨⟨hsize, hfree⟩, hsoc, ?_, b, hparse, locate, hreads, ?_, ?_⟩
  · obtain ⟨soc, hfound, hshown⟩ := Option.map_eq_some_iff.1 hsoc
    obtain ⟨place, -, -, hnext⟩ := hedit "/soc" soc hfound
    obtain ⟨next, hbecomes, -⟩ := hnext (.removeChild "uart@1000")
    have hremoved := (hbecomes next).2 rfl
    refine ⟨soc, next, hfound, hremoved, ?_⟩
    have hchildren : soc.children.map Node.name = ["uart@1000", "spi@4000"] :=
      (Prod.mk.inj hshown).2
    cases hremoved
    change (soc.children.filter ((· ≠ "uart@1000") ∘ Node.name)).map Node.name = _
    rw [← List.filter_map, hchildren]
    decide
  · obtain ⟨soc, hat, hranges⟩ := Option.bind_eq_some_iff.1 hranges
    rw [← hranges]
    exact hproperty _ _ _ hat
  · obtain ⟨uart, hat, hstatus⟩ := Option.bind_eq_some_iff.1 hstatus
    rw [← hstatus]
    exact hproperty _ _ _ hat

end Tree

end DeviceTree

import DeviceTree.Proofs.Blob.Entries
import DeviceTree.Proofs.Outcome

/-!
# The walk goes where the children are

The walk finds a node with the stack of nodes that are open around it, and from there it goes on
inside the node. `Met n line` says that it comes to `n` below `line` without an error. Then it also
comes to every child of `n` that the scan of the children yields, below `n`, and it came to each
node of `line` below the rest. This holds of every blob, also where the tree is broken further on.
-/
namespace DeviceTree

def Outline.ofVisit (v : Visit) : Outline :=
  .node v.node v.ancestors.length

namespace Blob

variable {b : Blob} {offset start stop next : Nat} {n c : Node} {line : List Node} {v : Visit}

theorem outline_eq (b : Blob) (n : Node) (depth : Nat) :
    b.outline n depth = .node n depth :: (b.children n).flatMap fun
      | .ok c => b.outline c (depth + 1)
      | .error e => [.failed e (depth + 1)] := by
  rw [outline]
  refine congrArg _ ?_
  rw [List.flatMap_subtype (g := fun
    | .ok c => b.outline c (depth + 1)
    | .error e => [.failed e (depth + 1)]), List.unattach_attach]
  rintro (e | c) _ <;> rfl

theorem outline_of_children {nodes : List Node} {depth : Nat} (h : b.children n = nodes.map .ok) :
    b.outline n depth = .node n depth :: nodes.flatMap (b.outline · (depth + 1)) := by
  rw [outline_eq, h, List.flatMap_map]

theorem Entries.children_eq {nodes : List Node} (h : Entries b start nodes stop)
    (inside : b.contents n.offset = .ok start) (ends : b.token stop = .ok .endNode) :
    b.children n = nodes.map .ok := by
  rw [children, inside]
  simp only [h.childrenFrom_eq, childrenFrom_endNode ends, List.append_nil]

private theorem walkFrom_nop (token : b.token offset = .ok .nop) :
    b.walkFrom offset line = b.walkFrom (offset + Cell.size) line := by
  rw [walkFrom]
  split <;> simp_all

private theorem walkFrom_property (token : b.token offset = .ok .property)
    (after : b.afterProperty offset = .ok next) :
    b.walkFrom offset line = b.walkFrom next line := by
  rw [walkFrom]
  split <;> simp_all
  split <;> simp_all

theorem walkFrom_beginNode (token : b.token offset = .ok .beginNode)
    (inside : b.contents offset = .ok start) :
    b.walkFrom offset line = .ok ⟨⟨offset⟩, line⟩ :: b.walkFrom start (⟨offset⟩ :: line) := by
  rw [walkFrom]
  split <;> simp_all
  split <;> simp_all

private theorem walkFrom_endNode {outer : Node} (token : b.token offset = .ok .endNode) :
    b.walkFrom offset (n :: outer :: line) = b.walkFrom (offset + Cell.size) (outer :: line) := by
  rw [walkFrom]
  split <;> simp_all

/-- The walk goes past entries and leaves the open nodes as they are; on its way it visits what the
outlines of the nodes show. -/
theorem Entries.walkFrom_eq {nodes : List Node} (h : Entries b offset nodes stop) (n : Node)
    (line : List Node) :
    ∃ visits : List Visit,
      b.walkFrom offset (n :: line) = visits.map .ok ++ b.walkFrom stop (n :: line) ∧
        visits.map Outline.ofVisit = nodes.flatMap (b.outline · (line.length + 1)) ∧
        ∀ v ∈ visits, offset ≤ v.node.offset ∧ v.node.offset < stop := by
  induction h generalizing n line with
  | done => exact ⟨[], rfl, rfl, by simp⟩
  | nop token _ ih =>
    obtain ⟨visits, hwalk, hshown, hbounds⟩ := ih n line
    refine ⟨visits, by rw [walkFrom_nop token, hwalk], hshown, fun v hv => ?_⟩
    have := hbounds v hv
    omega
  | property token after _ ih =>
    obtain ⟨visits, hwalk, hshown, hbounds⟩ := ih n line
    refine ⟨visits, by rw [walkFrom_property token after, hwalk], hshown, fun v hv => ?_⟩
    have := lt_of_afterProperty after
    have := hbounds v hv
    omega
  | @node offset start nodes close _ stop token inside entries ends rest ihBelow ihRest =>
    obtain ⟨below, hbelow, hbelowShown, hbelowBounds⟩ := ihBelow ⟨offset⟩ (n :: line)
    obtain ⟨visits, hrest, hrestShown, hrestBounds⟩ := ihRest n line
    refine ⟨⟨⟨offset⟩, n :: line⟩ :: (below ++ visits), ?_, ?_, ?_⟩
    · rw [walkFrom_beginNode token inside, hbelow, walkFrom_endNode ends, hrest]
      simp
    · have hchildren : b.children ⟨offset⟩ = nodes.map .ok := entries.children_eq inside ends
      rw [List.map_cons, List.map_append, hbelowShown, hrestShown, List.flatMap_cons,
        outline_of_children hchildren]
      rfl
    · have hsize : Cell.size = 4 := rfl
      have hstart := lt_of_contents inside
      have hclose := entries.le
      have hstop := rest.le
      simp only [List.forall_mem_cons, List.forall_mem_append]
      refine ⟨⟨Nat.le_refl _, by omega⟩, fun v hv => ?_, fun v hv => ?_⟩
      · have := hbelowBounds v hv
        omega
      · have := hrestBounds v hv
        omega

/-- Every visit splits the walk: before it come nodes at smaller offsets, and after it the walk
goes on inside the node that was found. -/
theorem exists_append_of_mem_walkFrom (h : .ok v ∈ b.walkFrom offset line) :
    ∃ (before : List Visit) (start : Nat), b.contents v.node.offset = .ok start ∧
      b.walkFrom offset line =
        before.map .ok ++ .ok v :: b.walkFrom start (v.node :: v.ancestors) ∧
      (∀ w ∈ before, w.node.offset < v.node.offset) ∧ offset ≤ v.node.offset := by
  fun_induction walkFrom b offset line with
  | case1 | case2 | case4 | case7 | case9 => simp at h
  | case3 offset line token start inside _ hlt ih =>
    simp only [List.mem_cons, Except.ok.injEq] at h
    rcases h with rfl | h
    · exact ⟨[], start, inside, rfl, by simp, Nat.le_refl _⟩
    · obtain ⟨before, next, hnext, hwalk, hbefore, hle⟩ := ih h
      refine ⟨⟨⟨offset⟩, line⟩ :: before, next, hnext, by rw [hwalk]; rfl, ?_, by omega⟩
      simp only [List.forall_mem_cons]
      exact ⟨by omega, hbefore⟩
  | case5 offset line token next after _ hlt ih =>
    obtain ⟨before, start, hstart, hwalk, hbefore, hle⟩ := ih h
    exact ⟨before, start, hstart, hwalk, hbefore, by omega⟩
  | case6 offset line token _ ih | case8 offset line token _ _ ih =>
    obtain ⟨before, start, hstart, hwalk, hbefore, hle⟩ := ih h
    exact ⟨before, start, hstart, hwalk, hbefore, by omega⟩

/-- The nodes above a visited one are those that were open, or some of them were visited on the
way, each below the rest. -/
theorem ancestors_of_mem_walkFrom (h : .ok v ∈ b.walkFrom offset line) (hline : line ≠ []) :
    v.ancestors ≠ [] ∧
      (v.ancestors <:+ line ∨ ∃ w, .ok w ∈ b.walkFrom offset line ∧
        v.ancestors = w.node :: w.ancestors) := by
  fun_induction walkFrom b offset line with
  | case1 | case2 | case4 | case7 | case9 => simp at h
  | case3 offset line token start inside _ hlt ih =>
    simp only [List.mem_cons, Except.ok.injEq] at h
    rcases h with rfl | h
    · exact ⟨hline, .inl (List.suffix_refl _)⟩
    · obtain ⟨hne, hsuffix | ⟨w, hw, heq⟩⟩ := ih h (List.cons_ne_nil _ _)
      · refine ⟨hne, ?_⟩
        rcases List.suffix_cons_iff.1 hsuffix with heq | hsuffix
        · exact .inr ⟨⟨⟨offset⟩, line⟩, List.mem_cons_self, heq⟩
        · exact .inl hsuffix
      · exact ⟨hne, .inr ⟨w, List.mem_cons_of_mem _ hw, heq⟩⟩
  | case5 offset line token next after _ hlt ih => exact ih h hline
  | case6 offset line token _ ih => exact ih h hline
  | case8 offset line token _ outer ih =>
    have hsuffix := List.tail_suffix line
    obtain ⟨hne, h | hvisited⟩ := ih h outer
    · exact ⟨hne, .inl (h.trans hsuffix)⟩
    · exact ⟨hne, .inr hvisited⟩

/-- The walk comes to `n` below `line`, after nodes at smaller offsets alone, and then enters it. -/
def Met (b : Blob) (n : Node) (line : List Node) : Prop :=
  ∃ (before : List Visit) (start : Nat), b.contents n.offset = .ok start ∧
    b.walk = before.map .ok ++ .ok ⟨n, line⟩ :: b.walkFrom start (n :: line) ∧
    ∀ w ∈ before, w.node.offset < n.offset

theorem walk_eq (hroot : b.root = .ok n) (hstart : b.contents n.offset = .ok start) :
    b.walk = .ok ⟨n, []⟩ :: b.walkFrom start [n] := by
  rw [walk, hroot]
  simp only [hstart]

theorem met_root (hroot : b.root = .ok n) (hstart : b.contents n.offset = .ok start) :
    b.Met n [] :=
  ⟨[], start, hstart, walk_eq hroot hstart, by simp⟩

/-- What the walk yields begins with the root, which it enters. -/
theorem exists_root_of_mem_walk (h : .ok v ∈ b.walk) :
    ∃ root start, b.root = .ok root ∧ b.contents root.offset = .ok start ∧
      (v = ⟨root, []⟩ ∨ .ok v ∈ b.walkFrom start [root]) := by
  cases hroot : b.root with
  | error e => simp [walk, hroot] at h
  | ok root =>
    cases hstart : b.contents root.offset with
    | error e => simp [walk, hroot, hstart] at h
    | ok start =>
      rw [walk_eq hroot hstart] at h
      exact ⟨root, start, rfl, hstart, by simpa using h⟩

theorem met_of_mem_walk (h : .ok v ∈ b.walk) : b.Met v.node v.ancestors := by
  obtain ⟨root, start, hroot, hstart, rfl | hv⟩ := exists_root_of_mem_walk h
  · exact met_root hroot hstart
  · obtain ⟨before, inside, hinside, hwalk, hbefore, hle⟩ := exists_append_of_mem_walkFrom hv
    refine ⟨⟨root, []⟩ :: before, inside, hinside, ?_, ?_⟩
    · rw [walk_eq hroot hstart, hwalk]
      rfl
    · have := lt_of_contents hstart
      simp only [List.forall_mem_cons]
      exact ⟨by omega, hbefore⟩

theorem Met.mem_walk (h : b.Met n line) : .ok ⟨n, line⟩ ∈ b.walk := by
  obtain ⟨before, start, -, hwalk, -⟩ := h
  rw [hwalk]
  exact List.mem_append_right _ List.mem_cons_self

theorem visit_eq_ok_iff : b.visit n = .ok v ↔ v.node = n ∧ b.Met n v.ancestors := by
  rw [visit, bind_eq_ok_iff]
  constructor
  · rintro ⟨_ | found, hfirst, hv⟩
    · simp [throw, throwThe, MonadExceptOf.throw] at hv
    · obtain rfl : found = v := by simpa [pure, Except.pure] using hv
      obtain ⟨hmem, haccept⟩ := Items.mem_of_first? hfirst
      obtain rfl : found.node = n := by simpa [pure, Except.pure] using haccept
      exact ⟨rfl, met_of_mem_walk hmem⟩
  · rintro ⟨rfl, before, start, -, hwalk, hbefore⟩
    refine ⟨some v, ?_, rfl⟩
    have hpassed : ∀ w ∈ before,
        (pure (w.node == v.node) : Except ParseError Bool) = .ok false := by
      intro w hw
      have hlt := hbefore w hw
      have hne : w.node ≠ v.node := fun heq => by rw [heq] at hlt; omega
      simp [pure, Except.pure, hne]
    rw [hwalk, Items.first?_append hpassed, Items.first?_cons_of_accept]
    simp [pure, Except.pure]

theorem Met.visit_eq (h : b.Met n line) : b.visit n = .ok ⟨n, line⟩ :=
  visit_eq_ok_iff.2 ⟨rfl, h⟩

theorem Met.unique {other : List Node} (h : b.Met n line) (hother : b.Met n other) :
    line = other := by
  have := h.visit_eq.symm.trans hother.visit_eq
  simpa using this

theorem parent_eq_ok_iff {above : Option Node} :
    b.parent n = .ok above ↔ ∃ line, b.Met n line ∧ line.head? = above := by
  rw [parent, bind_eq_ok_iff]
  constructor
  · rintro ⟨v, hv, habove⟩
    obtain ⟨rfl, hmet⟩ := visit_eq_ok_iff.1 hv
    exact ⟨v.ancestors, hmet, by simpa [pure, Except.pure] using habove⟩
  · rintro ⟨line, hmet, rfl⟩
    exact ⟨⟨n, line⟩, hmet.visit_eq, rfl⟩

theorem Met.root_eq (h : b.Met n []) : b.root = .ok n := by
  obtain ⟨root, start, hroot, -, heq | hmem⟩ := exists_root_of_mem_walk h.mem_walk
  · obtain rfl : n = root := congrArg Visit.node heq
    exact hroot
  · exact absurd rfl (ancestors_of_mem_walkFrom hmem (List.cons_ne_nil _ _)).1

theorem Met.parent (h : b.Met n (c :: line)) : b.Met c line := by
  obtain ⟨root, start, hroot, hstart, heq | hmem⟩ := exists_root_of_mem_walk h.mem_walk
  · simp at heq
  · obtain ⟨-, hsuffix | ⟨w, hw, heq⟩⟩ :=
      ancestors_of_mem_walkFrom hmem (List.cons_ne_nil _ _)
    · obtain ⟨rfl, rfl⟩ : c = root ∧ line = [] := by
        rcases List.suffix_cons_iff.1 hsuffix with heq | hnil
        · simpa using heq
        · simp at hnil
      exact met_root hroot hstart
    · obtain ⟨rfl, rfl⟩ : c = w.node ∧ line = w.ancestors := by simpa using heq
      refine met_of_mem_walk ?_
      rw [walk_eq hroot hstart]
      exact List.mem_cons_of_mem _ hw

theorem Met.child (h : b.Met n line) (hc : .ok c ∈ b.children n) : b.Met c (n :: line) := by
  obtain ⟨before, start, hstart, hwalk, hbefore⟩ := h
  rw [children, hstart] at hc
  obtain ⟨nodes, inside, hentries, htoken, hinside⟩ := exists_entries_of_mem_childrenFrom hc
  obtain ⟨visits, hvisits, -, hbounds⟩ := hentries.walkFrom_eq n line
  have hlt := lt_of_contents hstart
  have hle := hentries.le
  refine ⟨before ++ ⟨n, line⟩ :: visits, inside, hinside, ?_, ?_⟩
  · rw [hwalk, hvisits, walkFrom_beginNode htoken hinside]
    simp
  · simp only [List.forall_mem_append, List.forall_mem_cons]
    refine ⟨fun w hw => ?_, by omega, fun w hw => (hbounds w hw).2⟩
    have := hbefore w hw
    omega

/-- The names on the way to a node follow from those on the way to the one around it. -/
theorem mapM_name_append {names : List String} {name : String}
    (hline : line.reverse.mapM b.name = .ok names) (hname : b.name n = .ok name) :
    (n :: line).reverse.mapM b.name = .ok (names ++ [name]) := by
  rw [List.reverse_cons, List.mapM_append, hline, List.mapM_cons, hname]
  rfl

/-- The linear search for the parent agrees with the scan of the children. -/
theorem parent_of_mem_children {above : Option Node} (h : b.parent n = .ok above)
    (hc : .ok c ∈ b.children n) : b.parent c = .ok (some n) := by
  obtain ⟨line, hmet, -⟩ := parent_eq_ok_iff.1 h
  exact parent_eq_ok_iff.2 ⟨n :: line, hmet.child hc, rfl⟩

end Blob

end DeviceTree

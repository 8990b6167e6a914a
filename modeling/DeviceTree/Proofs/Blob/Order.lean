import DeviceTree.Proofs.Blob.Preorder

/-!
# The order of the nodes

Going down from the root through the children shows a node, then all that is inside it, and then
what comes after it. `Shown shown line offset` says which part of this stands in front of `offset`,
where the nodes of `line` are still open; so it speaks of blobs that are broken further on, too. The
walk comes to the nodes in this order, and a scan of the children of a node that meets no failure
has found every node whose parent is this one.
-/
namespace DeviceTree

namespace Blob

/-- In front of `offset` the nodes of `line` were opened, the innermost first and the root last, and
going down shows `shown` there: each of the open nodes, and after it the outlines of the whole nodes
in front of the next one or of `offset`. -/
inductive Shown (b : Blob) : List Outline → List Node → Nat → Prop
  | root {root start nodes offset} (first : b.root = .ok root)
      (inside : b.contents root.offset = .ok start) (entries : Entries b start nodes offset) :
      Shown b (.node root 0 :: nodes.flatMap (b.outline · 1)) [root] offset
  | inner {shown n m line start nodes offset} (outer : Shown b shown (m :: line) n.offset)
      (token : b.token n.offset = .ok .beginNode) (inside : b.contents n.offset = .ok start)
      (entries : Entries b start nodes offset) :
      Shown b (shown ++ .node n (line.length + 1) ::
        nodes.flatMap (b.outline · (line.length + 2))) (n :: m :: line) offset

/-- Going down comes to `n`, which can be entered, once it has shown `earlier`. -/
def ComesTo (b : Blob) (n : Node) (earlier : List Outline) : Prop :=
  ∃ line start, b.contents n.offset = .ok start ∧
    b.Shown (earlier ++ [.node n line.length]) (n :: line) start

variable {b : Blob} {n m c : Node} {line nodes : List Node} {offset start stop : Nat}
  {shown earlier : List Outline} {p : UInt32}

namespace Shown

theorem exists_cons (h : b.Shown shown line offset) : ∃ n outer, line = n :: outer := by
  cases h <;> exact ⟨_, _, rfl⟩

private theorem exists_entries (h : b.Shown shown (n :: line) offset) :
    ∃ start nodes, b.contents n.offset = .ok start ∧ Entries b start nodes offset := by
  cases h with
  | root _ inside entries => exact ⟨_, _, inside, entries⟩
  | inner _ _ inside entries => exact ⟨_, _, inside, entries⟩

/-- Around an open node is another one, unless it is the root. -/
theorem exists_outer (h : b.Shown shown (n :: m :: line) offset) :
    ∃ earlier, b.Shown earlier (m :: line) n.offset ∧ b.token n.offset = .ok .beginNode := by
  cases h with
  | inner outer token => exact ⟨_, outer, token⟩

theorem append (h : b.Shown shown line offset) (hentries : Entries b offset nodes stop) :
    b.Shown (shown ++ nodes.flatMap (b.outline · line.length)) line stop := by
  cases h with
  | root first inside entries =>
    have h := Shown.root first inside (entries.append hentries)
    rwa [List.flatMap_append] at h
  | inner outer token inside entries =>
    have h := Shown.inner outer token inside (entries.append hentries)
    rwa [List.flatMap_append, ← List.cons_append, ← List.append_assoc] at h

theorem enter (h : b.Shown shown (m :: line) offset) (token : b.token offset = .ok .beginNode)
    (inside : b.contents offset = .ok start) :
    b.Shown (shown ++ [.node ⟨offset⟩ (line.length + 1)]) (⟨offset⟩ :: m :: line) start :=
  .inner h token inside .done

/-- The innermost node is closed; what it was shown with is its outline. -/
theorem leave (h : b.Shown shown (n :: m :: line) offset) (token : b.token offset = .ok .endNode) :
    b.Shown shown (m :: line) (offset + Cell.size) := by
  cases h with
  | inner outer begins inside entries =>
    have h := outer.append (.node begins inside entries token .done)
    rwa [List.flatMap_cons, List.flatMap_nil, List.append_nil,
      outline_of_children (entries.children_eq inside token)] at h

/-- The walk visits what is shown. -/
theorem exists_visits (h : b.Shown shown line offset) :
    ∃ visits : List Visit, b.walk = visits.map .ok ++ b.walkFrom offset line ∧
      visits.map Outline.ofVisit = shown := by
  induction h with
  | @root root _ _ _ first inside entries =>
    obtain ⟨visits, hwalk, hshown, -⟩ := entries.walkFrom_eq root []
    refine ⟨⟨root, []⟩ :: visits, ?_, ?_⟩
    · rw [walk_eq first inside, hwalk]
      rfl
    · rw [List.map_cons, hshown]
      rfl
  | @inner shown n m line _ _ _ _ token inside entries ih =>
    obtain ⟨before, hbefore, hshown⟩ := ih
    obtain ⟨visits, hvisits, hbelow, -⟩ := entries.walkFrom_eq n (m :: line)
    refine ⟨before ++ ⟨n, m :: line⟩ :: visits, ?_, ?_⟩
    · rw [hbefore, walkFrom_beginNode token inside, hvisits]
      simp
    · rw [List.map_append, List.map_cons, hshown, hbelow]
      rfl

/-- Where the walk visits a node from here on, the node is shown after all that was visited. -/
theorem of_walkFrom {visits : List Visit} {v : Visit} {rest : Items Visit}
    (h : b.Shown shown line offset)
    (hwalk : b.walkFrom offset line = visits.map .ok ++ .ok v :: rest) :
    ∃ start, b.contents v.node.offset = .ok start ∧
      b.Shown (shown ++ visits.map Outline.ofVisit ++ [.ofVisit v]) (v.node :: v.ancestors)
        start := by
  fun_induction walkFrom b offset line generalizing shown visits with
  | case1 | case2 | case4 | case7 | case9 => cases visits <;> simp at hwalk
  | case3 offset line token start inside _ _ ih =>
    obtain ⟨m, outer, rfl⟩ := h.exists_cons
    have hinside := h.enter token inside
    cases visits with
    | nil =>
      obtain ⟨rfl, -⟩ : ⟨⟨offset⟩, m :: outer⟩ = v ∧ _ = rest := by simpa using hwalk
      refine ⟨start, inside, ?_⟩
      rw [List.map_nil, List.append_nil]
      exact hinside
    | cons first visits =>
      obtain ⟨rfl, hrest⟩ : ⟨⟨offset⟩, m :: outer⟩ = first ∧
          b.walkFrom start (⟨offset⟩ :: m :: outer) = visits.map .ok ++ .ok v :: rest := by
        simpa using hwalk
      obtain ⟨inner, hinner, hshown⟩ := ih hinside hrest
      refine ⟨inner, hinner, ?_⟩
      rw [List.map_cons, List.append_cons shown]
      exact hshown
  | case5 offset line token next after _ _ ih =>
    have h := h.append (.property token after .done)
    rw [List.flatMap_nil, List.append_nil] at h
    exact ih h hwalk
  | case6 offset line token _ ih =>
    have h := h.append (.nop token .done)
    rw [List.flatMap_nil, List.append_nil] at h
    exact ih h hwalk
  | case8 offset line token _ htail ih =>
    obtain ⟨n, outer, rfl⟩ := h.exists_cons
    cases outer with
    | nil => exact absurd rfl htail
    | cons m outer => exact ih (h.leave token) hwalk

end Shown

/-- What the walk visits is shown. -/
theorem exists_shown_of_walk {visits : List Visit} {rest : Items Visit}
    (hwalk : b.walk = visits.map .ok ++ .ok ⟨n, line⟩ :: rest) :
    ∃ start, b.contents n.offset = .ok start ∧
      b.Shown (visits.map Outline.ofVisit ++ [.node n line.length]) (n :: line) start := by
  have hmem : .ok ⟨n, line⟩ ∈ b.walk := by simp [hwalk]
  obtain ⟨root, start, hroot, hstart, -⟩ := exists_root_of_mem_walk hmem
  rw [walk_eq hroot hstart] at hwalk
  have htop : b.Shown [.node root 0] [root] start := .root hroot hstart .done
  cases visits with
  | nil =>
    obtain ⟨⟨rfl, rfl⟩, -⟩ : (root = n ∧ [] = line) ∧ _ = rest := by simpa using hwalk
    exact ⟨start, hstart, htop⟩
  | cons first visits =>
    obtain ⟨rfl, hrest⟩ : ⟨root, []⟩ = first ∧
        b.walkFrom start [root] = visits.map .ok ++ .ok ⟨n, line⟩ :: rest := by
      simpa using hwalk
    exact htop.of_walkFrom hrest

/-- Going down and the walk come to the nodes in one order. -/
theorem comesTo_iff : b.ComesTo n earlier ↔ ∃ (visits : List Visit) (line : List Node)
    (rest : Items Visit), b.walk = visits.map .ok ++ .ok ⟨n, line⟩ :: rest ∧
      visits.map Outline.ofVisit = earlier := by
  constructor
  · intro h
    obtain ⟨line, start, -, hshown⟩ := h
    obtain ⟨visits, hwalk, hvisits⟩ := hshown.exists_visits
    obtain ⟨before, last, rfl, rfl, hlast⟩ := List.map_eq_append_iff.1 hvisits
    obtain ⟨v, rfl, hv⟩ := List.map_eq_singleton_iff.1 hlast
    obtain ⟨rfl, -⟩ : v.node = n ∧ v.ancestors.length = line.length := by
      simpa [Outline.ofVisit] using hv
    refine ⟨before, v.ancestors, b.walkFrom start (v.node :: line), ?_, rfl⟩
    rw [hwalk, List.map_append, List.append_assoc]
    rfl
  · intro h
    obtain ⟨visits, line, rest, hwalk, rfl⟩ := h
    exact ⟨line, exists_shown_of_walk hwalk⟩

/-- A scan of the children that meets no failure agrees with the linear search for the parent. -/
theorem mem_children_of_parent (hc : b.parent c = .ok (some n))
    (hscan : ∀ e, .error e ∉ b.children n) : .ok c ∈ b.children n := by
  obtain ⟨line, ⟨visits, _, -, hwalk, -⟩, hhead⟩ := parent_eq_ok_iff.1 hc
  obtain ⟨line, rfl⟩ := List.head?_eq_some_iff.1 hhead
  obtain ⟨_, -, hshown⟩ := exists_shown_of_walk hwalk
  obtain ⟨shown, houter, htoken⟩ := hshown.exists_outer
  obtain ⟨start, nodes, inside, entries⟩ := houter.exists_entries
  rw [children, inside] at hscan ⊢
  simp only [entries.childrenFrom_eq] at hscan ⊢
  refine List.mem_append_right _ ?_
  cases hafter : b.afterNode c.offset with
  | error e =>
    refine absurd ?_ (hscan e)
    rw [childrenFrom_beginNode_error htoken hafter]
    exact List.mem_append_right _ List.mem_cons_self
  | ok next =>
    rw [childrenFrom_beginNode htoken hafter]
    exact List.mem_cons_self

end Blob

end DeviceTree

import DeviceTree.Proofs.Machine.Reader

/-!
# Searches end and do not trap

A search goes through the items of an iterator, which are those of the blob. The parent and the path
of a node are put together on the way of the walk: what the loop keeps is tied to the nodes that are
open, and `LoopEnds` is the rule for such loops.
-/
namespace DeviceTree.Machine

variable {b : Blob} {n : Node} (hb : b.Accepted)

include hb

section Inside

variable (h : n.offset < 2 * UInt32.size)

include h

theorem property_eq (name : String) : property b.data n name = returns (b.property n name) :=
  (properties_yields hb h).first_eq fun _ _ => rfl

theorem child_eq (name : String) : child b.data n name = returns (b.child n name) := by
  refine (children_yields hb h).first_eq fun c hc => ?_
  have hlt := (Blob.bounds_of_mem_children hc).2
  have hname : nodeName b.data c.offset = returns (b.name c) :=
    nodeName_eq hb (lt_of_le_structEnd hb (by omega))
  refine bind_eq_returns hname fun found hfound => ?_
  by_cases hsame : found = name
  · rw [if_pos hsame, if_pos hsame, returns_pure]
  · rw [if_neg hsame, if_neg hsame, hname, Blob.bareName, hfound, returns_ok, pure_bind]
    cases Text.hasUnit name <;> rfl

theorem phandle_eq : phandle b.data n = returns (b.phandle n) := by
  have hproperty : phandleProperty b.data n = returns (b.phandleProperty n) := by
    refine bind_eq_returns (property_eq hb h "phandle") fun found _ => ?_
    cases found with
    | none => exact property_eq hb h "linux,phandle"
    | some property => rfl
  refine bind_eq_returns hproperty fun found _ => ?_
  cases found with
  | none => rfl
  | some property => exact bind_eq_returns rfl fun _ _ => rfl

end Inside

theorem descend_eq (h : n.offset < 2 * UInt32.size) (names : List String) :
    descend b.data n names = returns (b.descend n names) := by
  induction names generalizing n with
  | nil => rfl
  | cons name names ih =>
    refine bind_eq_returns (child_eq hb h name) fun found hchild => ?_
    cases found with
    | none => rfl
    | some c =>
      have hlt := (Blob.bounds_of_mem_children (Items.mem_of_first? hchild).1).2
      exact ih (lt_of_le_structEnd hb (by omega))

theorem findNode_eq (path : String) : findNode b.data path = returns (b.findNode path) := by
  rw [findNode, Blob.findNode]
  cases Text.isAbsolute path with
  | false => rfl
  | true =>
    exact bind_eq_returns (root_eq hb) fun root hroot =>
      descend_eq hb (lt_of_fits hb (Blob.root_fits hroot)) _

private theorem lt_of_mem_walk {v : Visit} (hv : .ok v ∈ b.walk) :
    v.node.offset < 2 * UInt32.size :=
  lt_of_fits hb (Blob.Reached.walk hv).fits

/-- A search on the walk finds a node with its depth where the blob has it with its ancestors. -/
theorem walk_first_eq (accept : Node × Nat → Machine Bool)
    (accepts : Node × Nat → Except ParseError Bool)
    (haccept : ∀ v, .ok v ∈ b.walk → accept (leveled v) = returns (accepts (leveled v))) :
    (walk b.data).first accept =
      returns ((b.walk.first? fun v => accepts (leveled v)).map (Option.map leveled)) := by
  rw [← Items.first?_map]
  refine (walk_yields hb).first_eq fun a ha => ?_
  obtain ⟨item, hitem, ha⟩ := List.mem_map.1 ha
  cases item with
  | error e => contradiction
  | ok v =>
    obtain rfl := Except.ok.inj ha
    exact haccept v hitem

theorem nodeByPhandle_eq (handle : UInt32) :
    nodeByPhandle b.data handle = returns (b.nodeByPhandle handle) := by
  have hfirst := walk_first_eq hb (fun entry => return (← phandle b.data entry.1) == some handle)
    (fun entry => return (← b.phandle entry.1) == some handle) fun v hv =>
      bind_eq_returns (phandle_eq hb (lt_of_mem_walk hb hv)) fun _ _ => rfl
  simp only [leveled] at hfirst
  rw [nodeByPhandle, hfirst, Blob.nodeByPhandle]
  cases Blob.isReservedPhandle handle with
  | true => rfl
  | false =>
    simp only [Bool.false_eq_true, if_false]
    cases b.walk.first? fun v => return (← b.phandle v.node) == some handle with
    | error e => exact throw_bind e _
    | ok found => cases found <;> exact pure_bind _ _

theorem depth_eq : depth b.data n = returns ((b.visit n).map fun v => v.ancestors.length) := by
  have hfirst := walk_first_eq hb (fun entry => return entry.1 == n)
    (fun entry => return entry.1 == n) fun _ _ => rfl
  simp only [leveled] at hfirst
  rw [depth, hfirst, Blob.visit]
  cases b.walk.first? fun v => return v.node == n with
  | error e => exact throw_bind e _
  | ok found => cases found <;> exact pure_bind _ _

section Loop

variable {β : Type} {Keeps : β → List Node → Prop} {body : β → Node × Nat → Machine (ForInStep β)}
  {acc : β} {line : List Node} {items : Items Visit} {offset : Nat}

omit hb

/-- How a loop that looks for `n` ends, if `Keeps` ties what it has kept to the open nodes. -/
inductive LoopEnds (Keeps : β → List Node → Prop) (body : β → Node × Nat → Machine (ForInStep β))
    (outcome : Machine β) : Except ParseError (Option Visit) → Prop
  | failed {e : ParseError} (throws : outcome = throw e) : LoopEnds Keeps body outcome (.error e)
  | missed {acc : β} {line : List Node} (keeps : Keeps acc line) (ends : outcome = pure acc) :
    LoopEnds Keeps body outcome (.ok none)
  | met {acc : β} {v : Visit} (keeps : Keeps acc v.ancestors)
    (ends : ∀ result, body acc (leveled v) = pure (.done result) → outcome = pure result) :
    LoopEnds Keeps body outcome (.ok (some v))

/-- What is kept stays tied to the open nodes, when one of them is closed and when the walk opens
one that is not looked for. -/
structure Follows (b : Blob) (n : Node) (Keeps : β → List Node → Prop)
    (body : β → Node × Nat → Machine (ForInStep β)) : Prop where
  closed : ∀ {acc line}, Keeps acc line → Keeps acc line.tail
  opened : ∀ {acc v start}, Keeps acc v.ancestors → b.contents v.node.offset = .ok start →
    v.node ≠ n → ∃ next, body acc (leveled v) = pure (.yield next) ∧
      Keeps next (v.node :: v.ancestors)

/-- How a loop over the rest of the walk ends that has kept `acc`. -/
abbrev Ends (n : Node) (Keeps : β → List Node → Prop)
    (body : β → Node × Nat → Machine (ForInStep β)) (items : Items Visit) (acc : β) : Prop :=
  LoopEnds Keeps body (Iterator.overItems body (items.map (Except.map leveled)) acc)
    (items.first? fun v => return v.node == n)

theorem Follows.turn {v : Visit} {start : Nat} (hbody : Follows b n Keeps body)
    (hkeeps : Keeps acc v.ancestors) (hinside : b.contents v.node.offset = .ok start)
    (hrest : ∀ {next}, Keeps next (v.node :: v.ancestors) → Ends n Keeps body items next) :
    Ends n Keeps body (.ok v :: items) acc := by
  by_cases hn : v.node = n
  · have hfirst : Items.first? (fun v => return v.node == n) (.ok v :: items) = .ok (some v) :=
      Items.first?_cons_of_accept (by simp [hn, pure, Except.pure]) items
    rw [Ends, hfirst]
    exact .met hkeeps fun result hresult => Iterator.overItems_done hresult
  · obtain ⟨next, hnext, hkept⟩ := hbody.opened hkeeps hinside hn
    have hfirst : Items.first? (fun v => return v.node == n) (.ok v :: items) =
        items.first? fun v => return v.node == n := by
      have hpassed : ∀ w ∈ [v], (pure (w.node == n) : Except ParseError Bool) = .ok false := by
        simp [hn, pure, Except.pure]
      exact Items.first?_append hpassed items
    have hloop : Iterator.overItems body ((.ok v :: items : Items Visit).map (Except.map leveled))
        acc = Iterator.overItems body (items.map (Except.map leveled)) next :=
      Iterator.overItems_yield hnext
    rw [Ends, hfirst, hloop]
    exact hrest hkept

theorem Follows.walkFrom (hbody : Follows b n Keeps body) (hkeeps : Keeps acc line) :
    Ends n Keeps body (b.walkFrom offset line) acc := by
  fun_induction Blob.walkFrom b offset line generalizing acc with
  | case1 | case2 | case4 => exact .failed Iterator.overItems_error
  | case3 offset line token next inside hle hlt ih => exact hbody.turn hkeeps inside ih
  | case5 offset line token next after hle hlt ih => exact ih hkeeps
  | case6 offset line token hle ih => exact ih hkeeps
  | case7 | case9 => exact .missed hkeeps rfl
  | case8 offset line token hle houter ih => exact ih (hbody.closed hkeeps)

theorem Follows.walk (hbody : Follows b n Keeps body) (hkeeps : Keeps acc []) :
    Ends n Keeps body b.walk acc := by
  cases hroot : b.root with
  | error e =>
    rw [Blob.walk, hroot]
    exact .failed Iterator.overItems_error
  | ok root =>
    cases inside : b.contents root.offset with
    | error e =>
      simp only [Blob.walk, hroot, inside]
      exact .failed Iterator.overItems_error
    | ok start =>
      rw [Blob.walk_eq hroot inside]
      exact hbody.turn hkeeps inside hbody.walkFrom

end Loop

omit hb in
/-- The last node of a level that was visited is the one that is open. -/
theorem follows_parentTurn (b : Blob) (n : Node) (level : Nat) :
    Follows b n
      (fun above line => ∀ candidate up, candidate :: up <:+ line → up.length = level →
        above = some candidate)
      (parentTurn n (level + 1)) where
  closed {above line} hkeeps candidate up hsuffix :=
    hkeeps candidate up (hsuffix.trans (List.tail_suffix line))
  opened {above v start} hkeeps _ hn := by
    have hturn : parentTurn n (level + 1) above (leveled v) =
        if v.ancestors.length = level then pure (.yield (some v.node))
        else pure (.yield above) := by
      rw [parentTurn, leveled, if_neg hn, sub_eq (Nat.le_add_left 1 level), pure_bind]
      rfl
    rw [hturn]
    by_cases hlevel : v.ancestors.length = level
    · refine ⟨some v.node, if_pos hlevel, fun candidate up hsuffix hup => ?_⟩
      have hwhole := hsuffix.eq_of_length (by simp [hup, hlevel])
      rw [(List.cons.inj hwhole).1]
    · refine ⟨above, if_neg hlevel, fun candidate up hsuffix hup => ?_⟩
      rcases List.suffix_cons_iff.1 hsuffix with hwhole | hsuffix
      · exact absurd ((List.cons.inj hwhole).2 ▸ hup) hlevel
      · exact hkeeps candidate up hsuffix hup

omit hb in
private theorem first?_of_visit {v : Visit} (h : b.visit n = .ok v) :
    (b.walk.first? fun v => return v.node == n) = .ok (some v) := by
  obtain ⟨_ | found, hfirst, hv⟩ := bind_eq_ok_iff.1 h
  · contradiction
  · obtain rfl := Except.ok.inj hv
    exact hfirst

theorem parent_eq : parent b.data n = returns (b.parent n) := by
  rw [parent, depth_eq hb, Blob.parent]
  cases hvisit : b.visit n with
  | error e => exact throw_bind e _
  | ok v =>
    have hfirst := first?_of_visit hvisit
    obtain ⟨rfl, -⟩ := Blob.visit_eq_ok_iff.1 hvisit
    simp only [Except.map, returns_ok, pure_bind, ok_bind]
    cases hline : v.ancestors with
    | nil => rfl
    | cons above up =>
      have hends : Ends v.node _ _ b.walk none :=
        (follows_parentTurn b v.node up.length).walk (by simp)
      rw [Ends, hfirst] at hends
      rw [(walk_yields hb).each_eq, List.length_cons, if_neg (Nat.succ_ne_zero _)]
      cases hends with
      | met keeps ends =>
        obtain rfl := keeps above up (hline ▸ List.suffix_refl _) rfl
        exact ends _ (if_pos rfl)

private theorem name_of_contents {m : Node} {start : Nat} (h : b.contents m.offset = .ok start) :
    ∃ name, b.name m = .ok name ∧ nodeName b.data m.offset = pure name := by
  obtain ⟨name, hname, -, hle⟩ := Blob.contents_eq_ok h
  refine ⟨name, hname, ?_⟩
  rw [nodeName_eq hb (lt_of_le_structEnd hb (by omega)), hname, returns_ok]

private theorem follows_pathTurn (n : Node) :
    Follows b n
      (fun kept line => kept.2 = none ∧ line.reverse.mapM b.name = .ok (kept.1.take line.length))
      (fun kept => pathTurn b.data n kept.1) where
  closed {kept line} hkeeps := by
    obtain ⟨hfound, hnames⟩ := hkeeps
    refine ⟨hfound, ?_⟩
    cases line with
    | nil => exact hnames
    | cons m line =>
      rw [List.reverse_cons, List.mapM_append] at hnames
      obtain ⟨names, houter, h⟩ := bind_eq_ok_iff.1 hnames
      obtain ⟨last, -, h⟩ := bind_eq_ok_iff.1 h
      have htake : names ++ last = kept.1.take (line.length + 1) := Except.ok.inj h
      have hlength : line.length = names.length := by
        rw [length_eq_of_mapM houter, List.length_reverse]
      have hprefix : kept.1.take line.length = names := by
        rw [← Nat.min_eq_left (Nat.le_succ line.length), ← List.take_take, ← htake, hlength,
          List.take_left]
      rw [List.tail_cons, houter, hprefix]
  opened {kept v start} hkeeps hinside hn := by
    obtain ⟨-, hnames⟩ := hkeeps
    obtain ⟨name, hname, hread⟩ := name_of_contents hb hinside
    have hline := Blob.mapM_name_append hnames hname
    have hlength := length_eq_of_mapM hline
    refine ⟨(kept.1.take v.ancestors.length ++ [name], none), ?_, rfl, ?_⟩
    · simp only [pathTurn, leveled, hread, pure_bind]
      exact if_pos hn
    · rw [List.length_reverse] at hlength
      rw [hline, List.take_of_length_le (Nat.le_of_eq hlength)]

theorem path_eq : path b.data n = returns (b.path n) := by
  have hends : Ends n _ _ b.walk ([], none) := (follows_pathTurn hb n).walk ⟨rfl, rfl⟩
  rw [path, (walk_yields hb).each_eq, Blob.path, Blob.visit]
  cases hfirst : b.walk.first? fun v => return v.node == n with
  | error e =>
    rw [Ends, hfirst] at hends
    cases hends with
    | failed throws =>
      rw [throws]
      exact throw_bind e _
  | ok found =>
    rw [Ends, hfirst] at hends
    cases hends with
    | missed keeps ends =>
      rw [ends]
      simp only [pure_bind, keeps.1]
      rfl
    | @met kept v keeps ends =>
      obtain ⟨hmem, hnode⟩ := Items.mem_of_first? hfirst
      obtain rfl : v.node = n := by simpa [pure, Except.pure] using hnode
      obtain ⟨before, start, hinside, -⟩ := Blob.met_of_mem_walk hmem
      obtain ⟨name, hname, hread⟩ := name_of_contents hb hinside
      have hline := Blob.mapM_name_append keeps.2 hname
      generalize hnames : kept.1.take v.ancestors.length ++ [name] = names at hline
      simp only [pathTurn, leveled, hread, pure_bind, hnames, ne_eq, not_true_eq_false,
        if_false] at ends
      simp only [ok_bind, hline, pure, Except.pure]
      have hpositive : 1 ≤ names.length := by simp [← hnames]
      have hslice : slice names 1 names.length = pure names.tail := by
        rw [slice_eq hpositive (Nat.le_refl _), List.drop_one, List.take_of_length_le (by simp)]
      by_cases hone : names.length = 1
      · rw [ends _ (if_pos hone), if_pos hone]
        exact pure_bind _ _
      · rw [if_neg hone, hslice, pure_bind] at ends
        rw [ends _ rfl, if_neg hone]
        exact pure_bind _ _

end DeviceTree.Machine

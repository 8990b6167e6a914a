import DeviceTree.Proofs.Blob.Order
import DeviceTree.Standard.Properties
import DeviceTree.Tree.Flatten

/-!
# Blobs that end too early

A block may end while nodes are open. If the root alone is open, the walk and the scan of the
children both take the end of the block for the end of the root. If a node below it is open, they
part: going past that node fails, but the walk ends as if every node had been closed. So a walk
without a failure does not tell a tree that was cut short from a whole one, and this is all that it
hides.
-/
namespace DeviceTree

namespace Blob

/-- The nodes of `line` are open at `offset`, the innermost first and the root last: whole entries
stand between the front of each and the next one, and between the front of the innermost one and
`offset`. -/
inductive Open (b : Blob) : List Node → Nat → Prop
  | root {root start nodes offset} (first : b.root = .ok root)
      (inside : b.contents root.offset = .ok start) (entries : Entries b start nodes offset) :
      Open b [root] offset
  | inner {n m line start nodes offset} (outer : Open b (m :: line) n.offset)
      (token : b.token n.offset = .ok .beginNode) (inside : b.contents n.offset = .ok start)
      (entries : Entries b start nodes offset) : Open b (n :: m :: line) offset

variable {b : Blob} {offset start close stop depth : Nat} {n m root : Node}
  {line nodes : List Node}

/-- Nodes are open where going down has shown what stands in front. -/
theorem open_iff : b.Open line offset ↔ ∃ shown, b.Shown shown line offset := by
  constructor
  · intro h
    induction h with
    | root first inside entries => exact ⟨_, .root first inside entries⟩
    | inner _ token inside entries ih =>
      obtain ⟨shown, houter⟩ := ih
      exact ⟨_, .inner houter token inside entries⟩
  · rintro ⟨shown, h⟩
    induction h with
    | root first inside entries => exact .root first inside entries
    | inner _ token inside entries ih => exact .inner ih token inside entries

namespace Open

theorem exists_cons (h : b.Open line offset) : ∃ n outer, line = n :: outer := by
  cases h <;> exact ⟨_, _, rfl⟩

theorem append (h : b.Open line offset) (hentries : Entries b offset nodes stop) :
    b.Open line stop := by
  obtain ⟨shown, h⟩ := open_iff.1 h
  exact open_iff.2 ⟨_, h.append hentries⟩

theorem enter (h : b.Open line offset) (token : b.token offset = .ok .beginNode)
    (inside : b.contents offset = .ok start) : b.Open (⟨offset⟩ :: line) start := by
  obtain ⟨m, outer, rfl⟩ := h.exists_cons
  exact .inner h token inside .done

/-- The innermost node is closed, and is one more entry of the node around it. -/
theorem leave (h : b.Open (n :: m :: line) offset) (token : b.token offset = .ok .endNode) :
    b.Open (m :: line) (offset + Cell.size) := by
  obtain ⟨shown, h⟩ := open_iff.1 h
  exact open_iff.2 ⟨shown, h.leave token⟩

theorem exists_visits (h : b.Open line offset) :
    ∃ visits : List Visit, b.walk = visits.map .ok ++ b.walkFrom offset line := by
  obtain ⟨shown, h⟩ := open_iff.1 h
  obtain ⟨visits, hwalk, -⟩ := h.exists_visits
  exact ⟨visits, hwalk⟩

/-- Below the root one of its children is open, and going past that child comes to `offset`. -/
theorem exists_child (h : b.Open (n :: m :: line) offset) :
    ∃ root c start, b.Open [root] c ∧ b.token c = .ok .beginNode ∧ b.contents c = .ok start ∧
      b.skip start 0 = b.skip offset line.length := by
  induction line generalizing n m offset with
  | nil =>
    cases h with
    | inner outer token inside entries =>
      exact ⟨m, n.offset, _, outer, token, inside, entries.skip_eq 0⟩
  | cons outermost line ih =>
    cases h with
    | inner outer token inside entries =>
      obtain ⟨root, c, start, hroot, hc, hstart, hskip⟩ := ih outer
      refine ⟨root, c, start, hroot, hc, hstart, ?_⟩
      rw [hskip, skip_beginNode token inside, entries.skip_eq, List.length_cons]

/-- A walk that goes on without a failure ends with the block or with the closing token of the
root. -/
theorem exists_end (h : b.Open line offset) (hwalk : ∀ e, .error e ∉ b.walkFrom offset line) :
    ∃ last outer close, b.Open (last :: outer) close ∧
      (b.token close = .ok .finish ∨ outer = [] ∧ b.token close = .ok .endNode) := by
  fun_induction walkFrom b offset line with
  | case1 | case2 | case4 => simp at hwalk
  | case3 offset line token start inside _ _ ih =>
    exact ih (h.enter token inside) fun e he => hwalk e (List.mem_cons_of_mem _ he)
  | case5 offset line token next after _ _ ih =>
    exact ih (h.append (.property token after .done)) hwalk
  | case6 offset line token _ ih => exact ih (h.append (.nop token .done)) hwalk
  | case7 offset line token _ htail =>
    obtain ⟨last, outer, rfl⟩ := h.exists_cons
    exact ⟨last, outer, offset, h, .inr ⟨htail, token⟩⟩
  | case8 offset line token _ htail ih =>
    obtain ⟨n, outer, rfl⟩ := h.exists_cons
    cases outer with
    | nil => exact absurd rfl htail
    | cons m outer => exact ih (h.leave token) hwalk
  | case9 offset line token =>
    obtain ⟨last, outer, rfl⟩ := h.exists_cons
    exact ⟨last, outer, offset, h, .inl token⟩

end Open

private theorem childrenFrom_finish (token : b.token offset = .ok .finish) :
    b.childrenFrom offset = [] := by
  rw [childrenFrom]
  split <;> simp_all

/-- Entries show nodes alone. -/
theorem Entries.isSome_of_mem (h : Entries b offset nodes stop) :
    ∀ shown ∈ nodes.flatMap (b.outline · 1), shown.node?.isSome = true := by
  obtain ⟨visits, -, hshown, -⟩ := h.walkFrom_eq ⟨offset⟩ []
  intro shown hmem
  obtain ⟨v, -, rfl⟩ : ∃ v ∈ visits, Outline.ofVisit v = shown := by
    rw [← List.mem_map, hshown]
    exact hmem
  rfl

/-- A root is whole if nothing but the root is open where it ends. -/
theorem Open.whole (h : b.Open [root] close)
    (hclose : b.token close = .ok .finish ∨ b.token close = .ok .endNode) :
    b.root = .ok root ∧ b.Whole root := by
  cases h with
  | @root _ _ nodes _ first inside entries =>
    have hlast : b.childrenFrom close = [] := by
      rcases hclose with hclose | hclose
      · exact childrenFrom_finish hclose
      · exact childrenFrom_endNode hclose
    have hchildren : b.children root = nodes.map .ok := by
      rw [children, inside]
      simp only [entries.childrenFrom_eq, hlast, List.append_nil]
    refine ⟨first, ?_⟩
    rw [Whole, outline_of_children hchildren]
    exact List.forall_mem_cons.2 ⟨rfl, entries.isSome_of_mem⟩

/-- The block ends at `close` while a node below the root is open. -/
def CutAt (b : Blob) (close : Nat) : Prop :=
  ∃ n m line, b.Open (n :: m :: line) close ∧ b.token close = .ok .finish

/-- The walk takes no notice. -/
theorem CutAt.exists_visits (h : b.CutAt close) :
    ∃ visits : List Visit, b.walk = visits.map .ok := by
  obtain ⟨n, m, line, hopen, htoken⟩ := h
  obtain ⟨visits, hwalk⟩ := hopen.exists_visits
  exact ⟨visits, by rw [hwalk, walkFrom_finish htoken, List.append_nil]⟩

private theorem skip_finish (token : b.token offset = .ok .finish) :
    b.skip offset depth = .error ⟨.badToken Token.finish.toCell, offset⟩ := by
  rw [skip.eq_def]
  split <;> simp_all

/-- The scan of the children of the root fails where the block ends, and whole nodes stand before
that. -/
theorem CutAt.exists_children (h : b.CutAt close) :
    ∃ (root : Node) (nodes : List Node), b.root = .ok root ∧
      b.children root = nodes.map .ok ++ [.error ⟨.badToken Token.finish.toCell, close⟩] ∧
      ∀ shown ∈ nodes.flatMap (b.outline · 1), shown.node?.isSome = true := by
  obtain ⟨n, m, line, hopen, htoken⟩ := h
  obtain ⟨root, c, start, hroot, hc, hstart, hskip⟩ := hopen.exists_child
  have hafter : b.afterNode c = .error ⟨.badToken Token.finish.toCell, close⟩ := by
    rw [afterNode, hstart, ok_bind, hskip, skip_finish htoken]
  cases hroot with
  | @root _ _ nodes _ first inside entries =>
    refine ⟨root, nodes, first, ?_, entries.isSome_of_mem⟩
    rw [children, inside]
    simp only [entries.childrenFrom_eq, childrenFrom_beginNode_error hc hafter]

/-- Going down from the root meets one failure, which is the end of the block. -/
theorem CutAt.exists_failed (h : b.CutAt close) :
    ∃ root, b.root = .ok root ∧ ∀ e depth, .failed e depth ∈ b.outline root 0 ↔
      e = ⟨.badToken Token.finish.toCell, close⟩ ∧ depth = 1 := by
  obtain ⟨root, nodes, hroot, hchildren, hnodes⟩ := h.exists_children
  refine ⟨root, hroot, fun e depth => ?_⟩
  have hfailed : .failed e depth ∉ nodes.flatMap (b.outline · 1) := fun hmem =>
    Bool.false_ne_true (hnodes _ hmem)
  rw [outline_eq, hchildren, List.flatMap_append, List.flatMap_map]
  simp [hfailed]

/-- A walk without a failure goes through a whole tree, or does not notice that it is cut short. -/
theorem whole_or_cutAt_of_walk (h : ∀ e, .error e ∉ b.walk) :
    (∃ root, b.root = .ok root ∧ b.Whole root) ∨ ∃ close, b.CutAt close := by
  cases hroot : b.root with
  | error e => exact absurd (by simp [walk, hroot]) (h e)
  | ok root =>
    cases hstart : b.contents root.offset with
    | error e => exact absurd (by simp [walk, hroot, hstart]) (h e)
    | ok start =>
      rw [walk_eq hroot hstart] at h
      have hopen : b.Open [root] start := .root hroot hstart .done
      obtain ⟨last, outer, close, hlast, hclose⟩ :=
        hopen.exists_end fun e he => h e (List.mem_cons_of_mem _ he)
      cases outer with
      | nil =>
        obtain ⟨hfirst, hwhole⟩ := hlast.whole (hclose.imp_right And.right)
        exact .inl ⟨last, hroot ▸ hfirst, hwhole⟩
      | cons m outer =>
        have hfinish : b.token close = .ok .finish := hclose.resolve_right (by simp)
        exact .inr ⟨close, last, m, outer, hlast, hfinish⟩

private theorem error_not_mem_of_visits {visits : List Visit} (h : b.walk = visits.map .ok)
    (e : ParseError) : .error e ∉ b.walk := by
  simp [h]

/-- The walk meets no failure if and only if going down from the root through the children meets
none, or a node below the root is open where the block ends. In that last case going down does meet
a failure, and no other than this one. -/
theorem walk_intact_iff (b : Blob) :
    ((∀ e, .error e ∉ b.walk) ↔
      (∃ root, b.root = .ok root ∧ b.Whole root) ∨ ∃ close, b.CutAt close) ∧
    ∀ close, b.CutAt close → ∃ root, b.root = .ok root ∧ ¬b.Whole root ∧
      ∀ e depth, .failed e depth ∈ b.outline root 0 ↔
        e = ⟨.badToken Token.finish.toCell, close⟩ ∧ depth = 1 := by
  refine ⟨⟨whole_or_cutAt_of_walk, ?_⟩, ?_⟩
  · rintro (⟨root, hroot, hwhole⟩ | ⟨close, hcut⟩)
    · obtain ⟨visits, hwalk, -⟩ := hwhole.exists_visits hroot
      exact error_not_mem_of_visits hwalk
    · obtain ⟨visits, hwalk⟩ := hcut.exists_visits
      exact error_not_mem_of_visits hwalk
  · intro close hcut
    obtain ⟨root, hroot, hfailed⟩ := hcut.exists_failed
    have hmem : .failed _ 1 ∈ b.outline root 0 := (hfailed _ 1).2 ⟨rfl, rfl⟩
    exact ⟨root, hroot, fun hwhole => Bool.false_ne_true (hwhole _ hmem), hfailed⟩

/-- A root with a child, both of which are open where the block ends. -/
def cutShort : Array UInt8 :=
  ((Tree.headerFor 16 20 0).toBytes ++ Reservation.terminator.toBytes ++
    [1, 0, 1, 0x61000000, 9].flatMap Cell.toBytes).toArray

/-- Going down meets a failure; the walk meets none, so that a phandle is only said to name no
node. -/
theorem exists_cutShort :
    ∃ b, Blob.parse cutShort = .ok b ∧ (∀ e, .error e ∉ b.walk) ∧ b.nodeByPhandle 7 = .ok none ∧
      ¬∃ root, b.root = .ok root ∧ b.Whole root := by
  have hrun : (Blob.parse cutShort).toOption.any (fun b =>
      b.walk.all (·.toOption.isSome) && (b.nodeByPhandle 7).toOption.any (· = none) &&
        b.root.toOption.any (· = ⟨56⟩) && decide (b.outline ⟨56⟩ 0 =
          [.node ⟨56⟩ 0, .failed ⟨.badToken Token.finish.toCell, 72⟩ 1])) = true := by
    decide +kernel
  obtain ⟨b, hparse, hb⟩ := exists_of_any hrun
  simp only [Bool.and_eq_true, List.all_eq_true, decide_eq_true_eq] at hb
  obtain ⟨⟨⟨hwalk, hphandle⟩, hroot⟩, houtline⟩ := hb
  refine ⟨b, hparse, fun e he => Bool.false_ne_true (hwalk _ he), eq_ok_of_any hphandle, ?_⟩
  rintro ⟨root, hfirst, hwhole⟩
  obtain rfl := Except.ok.inj ((eq_ok_of_any hroot).symm.trans hfirst)
  simp [Whole, houtline, Outline.node?] at hwhole

theorem cutAt_cutShort :
    ∃ b, Blob.parse cutShort = .ok b ∧ (∀ e, .error e ∉ b.walk) ∧ ∃ close, b.CutAt close := by
  obtain ⟨b, hparse, hwalk, -, hbroken⟩ := exists_cutShort
  exact ⟨b, hparse, hwalk, ((walk_intact_iff b).1.1 hwalk).resolve_left hbroken⟩

/-- An accepted blob need not be whole for the walk to meet no failure. -/
theorem walk_hides_cut : ¬∀ (bytes : Array UInt8) (b : Blob), Blob.parse bytes = .ok b →
    (∀ e, .error e ∉ b.walk) → ∃ root, b.root = .ok root ∧ b.Whole root := by
  intro h
  obtain ⟨b, hparse, hwalk, -, hbroken⟩ := exists_cutShort
  exact hbroken (h cutShort b hparse hwalk)

end Blob

end DeviceTree

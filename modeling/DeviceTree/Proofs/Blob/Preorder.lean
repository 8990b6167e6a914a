import Mathlib.Data.List.Nodup
import DeviceTree.Proofs.Blob.Bounds

/-!
# The walk and the children tell of one tree

The walk counts the nodes that are open, and the scan of the children goes past whole subtrees. If
no failure is met on the way down from the root through the children, the walk comes to the nodes
of that way in the same order and with the same depths, each once. Then the names above a node are
those of its ancestors, so that its path is made from the path of its parent.
-/
namespace DeviceTree

def Outline.node? : Outline → Option Node
  | node n _ => some n
  | failed .. => none

namespace Blob

variable {b : Blob} {offset start close depth : Nat} {n c root : Node} {line nodes : List Node}

/-- Going down from `n` through the children meets no failure. -/
def Whole (b : Blob) (n : Node) : Prop :=
  ∀ shown ∈ b.outline n 0, shown.node?.isSome = true

instance : Decidable (b.Whole n) :=
  inferInstanceAs (Decidable (∀ shown ∈ b.outline n 0, shown.node?.isSome = true))

private theorem walkFrom_last_endNode (token : b.token offset = .ok .endNode) :
    b.walkFrom offset [n] = [] := by
  rw [walkFrom]
  split <;> simp_all

theorem walkFrom_finish (token : b.token offset = .ok .finish) : b.walkFrom offset line = [] := by
  rw [walkFrom]
  split <;> simp_all

/-- A scan without a failure went past entries, up to a token that closes the node around them or
the block. -/
theorem exists_entries_of_childrenFrom (h : ∀ e, .error e ∉ b.childrenFrom offset) :
    ∃ nodes close, Entries b offset nodes close ∧ b.childrenFrom offset = nodes.map .ok ∧
      (b.token close = .ok .endNode ∨ b.token close = .ok .finish) := by
  fun_induction childrenFrom b offset with
  | case1 | case2 | case4 => simp at h
  | case3 offset token next after _ _ ih =>
    obtain ⟨start, below, last, hinside, hbelow, hends, rfl⟩ := exists_entries_of_afterNode after
    obtain ⟨nodes, close, hentries, hscan, hclose⟩ := ih fun e he => h e (List.mem_cons_of_mem _ he)
    refine ⟨_, close, .node token hinside hbelow hends hentries, ?_, hclose⟩
    rw [hscan, List.map_cons]
  | case5 offset token next after _ _ ih =>
    obtain ⟨nodes, close, hentries, hclose⟩ := ih h
    exact ⟨nodes, close, .property token after hentries, hclose⟩
  | case6 offset token _ ih =>
    obtain ⟨nodes, close, hentries, hclose⟩ := ih h
    exact ⟨nodes, close, .nop token hentries, hclose⟩
  | case7 offset other hbegin hproperty hnop token =>
    refine ⟨[], offset, .done, rfl, ?_⟩
    cases other <;> simp_all

theorem Whole.not_mem_children (h : b.Whole n) (e : ParseError) : .error e ∉ b.children n := by
  intro he
  have hshown : .failed e 1 ∈ b.outline n 0 := by
    rw [outline_eq]
    exact List.mem_cons_of_mem _ (List.mem_flatMap.2 ⟨_, he, List.mem_singleton_self _⟩)
  exact Bool.false_ne_true (h _ hshown)

theorem Whole.exists_contents (h : b.Whole n) : ∃ start, b.contents n.offset = .ok start := by
  cases hstart : b.contents n.offset with
  | error e =>
    have hmem : .error e ∈ b.children n := by
      rw [children, hstart]
      exact List.mem_singleton_self _
    exact absurd hmem (h.not_mem_children e)
  | ok start => exact ⟨start, rfl⟩

theorem Whole.met_root (h : b.Whole root) (hroot : b.root = .ok root) : b.Met root [] := by
  obtain ⟨start, hstart⟩ := h.exists_contents
  exact Blob.met_root hroot hstart

/-- The walk visits what the outline of a whole tree shows. -/
theorem Whole.exists_visits (h : b.Whole root) (hroot : b.root = .ok root) :
    ∃ visits : List Visit, b.walk = visits.map .ok ∧
      visits.map Outline.ofVisit = b.outline root 0 := by
  obtain ⟨start, hstart⟩ := h.exists_contents
  have hscan : b.children root = b.childrenFrom start := by rw [children, hstart]
  obtain ⟨nodes, close, hentries, hnodes, hclose⟩ :=
    exists_entries_of_childrenFrom fun e => hscan ▸ h.not_mem_children e
  obtain ⟨visits, hwalk, hshown, -⟩ := hentries.walkFrom_eq root []
  have hlast : b.walkFrom close [root] = [] := by
    rcases hclose with hclose | hclose
    · exact walkFrom_last_endNode hclose
    · exact walkFrom_finish hclose
  refine ⟨⟨root, []⟩ :: visits, ?_, ?_⟩
  · rw [walk_eq hroot hstart, hwalk, hlast, List.append_nil, List.map_cons]
  · rw [List.map_cons, hshown, outline_of_children (hscan.trans hnodes)]
    rfl

theorem met_of_mem_visits {visits : List Visit} {v : Visit} (hwalk : b.walk = visits.map .ok)
    (hv : v ∈ visits) : b.Met v.node v.ancestors :=
  met_of_mem_walk (by rw [hwalk]; exact List.mem_map_of_mem hv)

theorem nodup_visits {visits : List Visit} (hwalk : b.walk = visits.map .ok) :
    (visits.map Visit.node).Nodup := by
  have hnodup := b.walk_spaced.nodup (by decide)
  rw [hwalk, Items.values_map_ok] at hnodup
  refine List.Nodup.of_map Node.offset ?_
  rwa [List.map_map]

theorem Met.eq_root_iff (h : b.Met n line) (hroot : b.Met root []) : n = root ↔ line = [] := by
  constructor
  · rintro rfl
    exact h.unique hroot
  · rintro rfl
    exact Except.ok.inj (h.root_eq.symm.trans hroot.root_eq)

theorem Met.exists_name (h : b.Met n line) : ∃ name, b.name n = .ok name := by
  obtain ⟨_, start, hstart, -⟩ := h
  obtain ⟨name, hname, -⟩ := contents_eq_ok hstart
  exact ⟨name, hname⟩

/-- The names of the nodes around a visited one can all be read. -/
theorem Met.exists_names (h : b.Met n line) :
    ∃ names, (n :: line).reverse.mapM b.name = .ok names := by
  induction line generalizing n with
  | nil =>
    obtain ⟨name, hname⟩ := h.exists_name
    exact ⟨_, mapM_name_append rfl hname⟩
  | cons m line ih =>
    obtain ⟨names, hnames⟩ := ih h.parent
    obtain ⟨name, hname⟩ := h.exists_name
    exact ⟨_, mapM_name_append hnames hname⟩

theorem Met.path_eq {names : List String} (h : b.Met n line)
    (hnames : (n :: line).reverse.mapM b.name = .ok names) :
    b.path n = .ok (if names.length = 1 then "/" else String.join (names.tail.map ("/" ++ ·))) := by
  rw [path, h.visit_eq, ok_bind, hnames]
  rfl

theorem Met.path_root (h : b.Met n []) : b.path n = .ok "/" := by
  obtain ⟨names, hnames⟩ := h.exists_names
  have hlength := length_eq_of_mapM hnames
  rw [h.path_eq hnames, if_pos (by simpa using hlength)]

/-- The path of a child is made from that of its parent, of which nothing is left if it is the
root. -/
theorem Met.path_child (h : b.Met n line) (hc : .ok c ∈ b.children n) :
    ∃ name above, b.name c = .ok name ∧ b.path n = .ok above ∧
      b.path c = .ok ((if line = [] then "" else above) ++ "/" ++ name) := by
  obtain ⟨names, hnames⟩ := h.exists_names
  have hchild := h.child hc
  obtain ⟨name, hname⟩ := hchild.exists_name
  have hlength : names.length = line.length + 1 := by simpa using length_eq_of_mapM hnames
  have hne : names ≠ [] := by
    rintro rfl
    simp at hlength
  refine ⟨name, _, hname, h.path_eq hnames, ?_⟩
  rw [hchild.path_eq (mapM_name_append hnames hname), if_neg (by simp [hlength]),
    List.tail_append_of_ne_nil hne, List.map_append, String.join_append]
  cases line with
  | nil =>
    obtain ⟨first, rfl⟩ := List.length_eq_one_iff.1 hlength
    simp
  | cons above line => simp [hlength, String.append_assoc]

end Blob

end DeviceTree

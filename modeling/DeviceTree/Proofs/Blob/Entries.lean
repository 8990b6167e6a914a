import DeviceTree.Blob.Walk

/-!
# The entries of a node

`Entries offset nodes stop` says that fillers, properties and whole nodes stand between `offset` and
`stop`, and that `nodes` are these nodes in order. It knows nothing of the scans; each scan is
related to it once. A scan that comes to `offset` goes on at `stop` as if it had started there, and
has seen `nodes` on its way. The other way round, what a scan went past were entries.
-/
namespace DeviceTree

namespace Blob

inductive Entries (b : Blob) : Nat → List Node → Nat → Prop
  | done {offset} : Entries b offset [] offset
  | nop {offset nodes stop} (token : b.token offset = .ok .nop)
      (rest : Entries b (offset + Cell.size) nodes stop) : Entries b offset nodes stop
  | property {offset next nodes stop} (token : b.token offset = .ok .property)
      (after : b.afterProperty offset = .ok next) (rest : Entries b next nodes stop) :
      Entries b offset nodes stop
  | node {offset start below close nodes stop} (token : b.token offset = .ok .beginNode)
      (inside : b.contents offset = .ok start) (entries : Entries b start below close)
      (ends : b.token close = .ok .endNode) (rest : Entries b (close + Cell.size) nodes stop) :
      Entries b offset (⟨offset⟩ :: nodes) stop

variable {b : Blob} {offset start close stop next depth : Nat} {nodes below : List Node}

theorem Entries.append {mid : Nat} {more : List Node} (h : Entries b offset nodes mid)
    (hmore : Entries b mid more stop) : Entries b offset (nodes ++ more) stop := by
  induction h with
  | done => exact hmore
  | nop token _ ih => exact .nop token (ih hmore)
  | property token after _ ih => exact .property token after (ih hmore)
  | node token inside entries ends _ _ ih => exact .node token inside entries ends (ih hmore)

theorem Entries.le (h : Entries b offset nodes stop) : offset ≤ stop := by
  induction h with
  | done => exact Nat.le_refl _
  | nop _ _ ih => exact Nat.le_trans (Nat.le_add_right _ _) ih
  | property _ after _ ih => exact Nat.le_trans (Nat.le_of_lt (lt_of_afterProperty after)) ih
  | node _ inside _ _ _ ihBelow ihRest =>
    have := lt_of_contents inside
    omega

private theorem skip_nop (token : b.token offset = .ok .nop) :
    b.skip offset depth = b.skip (offset + Cell.size) depth := by
  rw [skip.eq_def]
  split <;> simp_all

private theorem skip_property (token : b.token offset = .ok .property)
    (after : b.afterProperty offset = .ok next) : b.skip offset depth = b.skip next depth := by
  rw [skip.eq_def]
  split <;> simp_all
  split <;> simp_all

theorem skip_beginNode (token : b.token offset = .ok .beginNode)
    (inside : b.contents offset = .ok start) : b.skip offset depth = b.skip start (depth + 1) := by
  rw [skip.eq_def]
  split <;> simp_all
  split <;> simp_all

private theorem skip_endNode_zero (token : b.token offset = .ok .endNode) :
    b.skip offset 0 = .ok (offset + Cell.size) := by
  rw [skip.eq_def]
  split <;> simp_all

private theorem skip_endNode_succ (token : b.token offset = .ok .endNode) :
    b.skip offset (depth + 1) = b.skip (offset + Cell.size) depth := by
  rw [skip.eq_def]
  split <;> simp_all

theorem Entries.skip_eq (h : Entries b offset nodes stop) (depth : Nat) :
    b.skip offset depth = b.skip stop depth := by
  induction h generalizing depth with
  | done => rfl
  | nop token _ ih => rw [skip_nop token, ih]
  | property token after _ ih => rw [skip_property token after, ih]
  | node token inside _ ends _ ihBelow ihRest =>
    rw [skip_beginNode token inside, ihBelow, skip_endNode_succ ends, ihRest]

/-- A node whose entries end with its closing token is left just after that token. -/
theorem Entries.afterNode_eq (inside : b.contents offset = .ok start)
    (entries : Entries b start below close) (ends : b.token close = .ok .endNode) :
    b.afterNode offset = .ok (close + Cell.size) := by
  rw [afterNode, inside]
  exact (entries.skip_eq 0).trans (skip_endNode_zero ends)

/-- What was skipped are the entries of the innermost open node, its closing token, and what is
skipped with one node less open. -/
private theorem exists_entries_of_skip (h : b.skip offset depth = .ok next) :
    ∃ nodes close, Entries b offset nodes close ∧ b.token close = .ok .endNode ∧
      (depth = 0 → next = close + Cell.size) ∧
      ∀ outer, depth = outer + 1 → b.skip (close + Cell.size) outer = .ok next := by
  induction hn : b.structEnd - offset using Nat.strongRecOn generalizing offset depth with
  | ind n ih =>
    cases htoken : b.token offset with
    | error e =>
      rw [skip.eq_def] at h
      split at h <;> simp_all
    | ok token =>
      have hle := add_le_of_token htoken
      have hsize : Cell.size = 4 := rfl
      cases token with
      | nop =>
        rw [skip_nop htoken] at h
        obtain ⟨nodes, close, hentries, hrest⟩ := ih _ (by omega) h rfl
        exact ⟨nodes, close, .nop htoken hentries, hrest⟩
      | property =>
        cases hafter : b.afterProperty offset with
        | error e =>
          rw [skip.eq_def] at h
          split at h <;> simp_all
          split at h <;> simp_all
        | ok following =>
          have hlt := lt_of_afterProperty hafter
          rw [skip_property htoken hafter] at h
          obtain ⟨nodes, close, hentries, hrest⟩ := ih _ (by omega) h rfl
          exact ⟨nodes, close, .property htoken hafter hentries, hrest⟩
      | beginNode =>
        cases hinside : b.contents offset with
        | error e =>
          rw [skip.eq_def] at h
          split at h <;> simp_all
          split at h <;> simp_all
        | ok start =>
          have hlt := lt_of_contents hinside
          rw [skip_beginNode htoken hinside] at h
          obtain ⟨below, close, hbelow, hends, _, hrest⟩ := ih _ (by omega) h rfl
          have hclose := hbelow.le
          obtain ⟨nodes, last, hentries, hlast⟩ := ih _ (by omega) (hrest depth rfl) rfl
          exact ⟨_, last, .node htoken hinside hbelow hends hentries, hlast⟩
      | endNode =>
        refine ⟨[], offset, .done, htoken, ?_, ?_⟩
        · rintro rfl
          rw [skip_endNode_zero htoken] at h
          exact (Except.ok.inj h).symm
        · rintro outer rfl
          rwa [skip_endNode_succ htoken] at h
      | finish =>
        rw [skip.eq_def] at h
        split at h <;> simp_all

theorem exists_entries_of_afterNode (h : b.afterNode offset = .ok next) :
    ∃ start below close, b.contents offset = .ok start ∧ Entries b start below close ∧
      b.token close = .ok .endNode ∧ next = close + Cell.size := by
  cases hinside : b.contents offset with
  | error e => simp [afterNode, hinside, bind, Except.bind] at h
  | ok start =>
    simp only [afterNode, hinside, bind, Except.bind] at h
    obtain ⟨below, close, hbelow, hends, hnext, _⟩ := exists_entries_of_skip h
    exact ⟨start, below, close, rfl, hbelow, hends, hnext rfl⟩

theorem rootFrom_beginNode (token : b.token offset = .ok .beginNode) :
    b.rootFrom offset = .ok ⟨offset⟩ := by
  rw [rootFrom]
  split <;> simp_all

theorem propertiesFrom_property {property : Property} (token : b.token offset = .ok .property)
    (after : b.afterProperty offset = .ok next) (read : b.propertyAt offset = .ok property) :
    b.propertiesFrom offset = .ok property :: b.propertiesFrom next := by
  rw [propertiesFrom]
  split <;> simp_all
  split <;> simp_all

theorem propertiesFrom_beginNode (token : b.token offset = .ok .beginNode) :
    b.propertiesFrom offset = [] := by
  rw [propertiesFrom]
  split <;> simp_all

theorem propertiesFrom_endNode (token : b.token offset = .ok .endNode) :
    b.propertiesFrom offset = [] := by
  rw [propertiesFrom]
  split <;> simp_all

private theorem childrenFrom_nop (token : b.token offset = .ok .nop) :
    b.childrenFrom offset = b.childrenFrom (offset + Cell.size) := by
  rw [childrenFrom]
  split <;> simp_all

private theorem childrenFrom_property (token : b.token offset = .ok .property)
    (after : b.afterProperty offset = .ok next) :
    b.childrenFrom offset = b.childrenFrom next := by
  rw [childrenFrom]
  split <;> simp_all
  split <;> simp_all

theorem childrenFrom_beginNode (token : b.token offset = .ok .beginNode)
    (after : b.afterNode offset = .ok next) :
    b.childrenFrom offset = .ok ⟨offset⟩ :: b.childrenFrom next := by
  rw [childrenFrom]
  split <;> simp_all
  split <;> simp_all

theorem childrenFrom_beginNode_error {e : ParseError} (token : b.token offset = .ok .beginNode)
    (after : b.afterNode offset = .error e) : b.childrenFrom offset = [.error e] := by
  rw [childrenFrom]
  split <;> simp_all
  split <;> simp_all

theorem childrenFrom_endNode (token : b.token offset = .ok .endNode) :
    b.childrenFrom offset = [] := by
  rw [childrenFrom]
  split <;> simp_all

theorem Entries.childrenFrom_eq (h : Entries b offset nodes stop) :
    b.childrenFrom offset = nodes.map .ok ++ b.childrenFrom stop := by
  induction h with
  | done => rfl
  | nop token _ ih => rw [childrenFrom_nop token, ih]
  | property token after _ ih => rw [childrenFrom_property token after, ih]
  | node token inside entries ends _ _ ih =>
    rw [childrenFrom_beginNode token (entries.afterNode_eq inside ends), ih, List.map_cons,
      List.cons_append]

/-- Before a child there are entries, and the child itself can be entered. -/
theorem exists_entries_of_mem_childrenFrom {c : Node} (h : .ok c ∈ b.childrenFrom offset) :
    ∃ nodes start, Entries b offset nodes c.offset ∧ b.token c.offset = .ok .beginNode ∧
      b.contents c.offset = .ok start := by
  fun_induction childrenFrom b offset with
  | case1 | case2 | case4 | case7 => simp at h
  | case3 offset token next after _ _ ih =>
    obtain ⟨start, below, close, hinside, hbelow, hends, rfl⟩ := exists_entries_of_afterNode after
    simp only [List.mem_cons, Except.ok.injEq] at h
    rcases h with rfl | h
    · exact ⟨[], start, .done, token, hinside⟩
    · obtain ⟨nodes, inside, hentries, hc⟩ := ih h
      exact ⟨_, inside, .node token hinside hbelow hends hentries, hc⟩
  | case5 offset token next after _ _ ih =>
    obtain ⟨nodes, start, hentries, hc⟩ := ih h
    exact ⟨nodes, start, .property token after hentries, hc⟩
  | case6 offset token _ ih =>
    obtain ⟨nodes, start, hentries, hc⟩ := ih h
    exact ⟨nodes, start, .nop token hentries, hc⟩

end Blob

end DeviceTree

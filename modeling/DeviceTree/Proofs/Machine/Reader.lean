import DeviceTree.Machine.Reader
import DeviceTree.Proofs.Blob.Bounds
import DeviceTree.Proofs.Machine.Basic

/-!
# The reader ends and does not trap

On the bytes of an accepted blob the machine returns what the readers of the blob give, for every
offset that is not far past the end of the blob. The offsets that a scan comes to are of this kind,
since it stays inside the structure block, and the nodes that it keeps open are fewer than the bytes
it went past. So the loops end, and the iterators give the items of the blob.
-/
namespace DeviceTree

private theorem Header.lt_of_mem_words {bytes : List UInt8} {h : Header} {word : Nat}
    (hread : Header.ofBytes? bytes = some h) (hword : word ∈ h.words) : word < UInt32.size := by
  unfold Header.ofBytes? at hread
  split at hread
  · next heq =>
    obtain rfl := Option.some.inj hread
    rw [words, ← heq] at hword
    obtain ⟨cell, -, rfl⟩ := List.mem_map.1 hword
    exact cell.toNat_lt
  · contradiction

namespace Blob

theorem parse_eq_ok {bytes : Array UInt8} {b : Blob} (h : parse bytes = .ok b) :
    b.bytes = bytes ∧ Header.ofBytes? (bytes.extract 0 Header.size).toList = some b.header ∧
      b.header.totalSize = bytes.size := by
  unfold parse at h
  split at h
  · contradiction
  · next header hread =>
    split at h
    · contradiction
    split at h
    · contradiction
    split at h
    · contradiction
    · next htotal =>
      split at h
      · contradiction
      · obtain rfl := Except.ok.inj h
        exact ⟨rfl, hread, by simpa using htotal⟩

/-- The bytes of `b` are accepted, as `b`. -/
def Accepted (b : Blob) : Prop :=
  parse b.bytes = .ok b

abbrev data (b : Blob) : List UInt8 :=
  b.bytes.toList

variable {b : Blob}

theorem Accepted.header_eq (h : b.Accepted) :
    Header.ofBytes? (b.data.take Header.size) = some b.header := by
  have hread := (parse_eq_ok h).2.1
  rwa [Array.toList_extract, List.extract_eq_take_drop, List.drop_zero] at hread

theorem Accepted.size_lt (h : b.Accepted) : b.size < UInt32.size := by
  obtain ⟨-, hread, htotal⟩ := parse_eq_ok h
  have hword : b.header.totalSize ∈ b.header.words := by simp [Header.words]
  have hlt := Header.lt_of_mem_words hread hword
  rwa [htotal] at hlt

end Blob

namespace Machine

variable {b : Blob} {m n offset stop length depth : Nat}

/-- What is not far past the end of a blob can be added up. -/
theorem add_eq_of_lt (hm : m < 4 * UInt32.size) (hn : n < 4 * UInt32.size) :
    add m n = pure (m + n) :=
  add_eq (by simp only [UInt32.size, UInt64.size] at *; omega)

theorem align_eq (h : offset < 4 * UInt32.size) : align offset = pure (aligned offset) := by
  have hsub : sub Cell.size (offset % Cell.size) = pure (Cell.size - offset % Cell.size) :=
    sub_eq (Nat.le_of_lt (Nat.mod_lt _ (by decide)))
  unfold align
  split
  · next haligned =>
    have heq : aligned offset = offset := by
      simp only [aligned, Cell.size] at *
      omega
    rw [heq]
  · next haligned =>
    have heq : offset + (Cell.size - offset % Cell.size) = aligned offset := by
      simp only [aligned, Cell.size] at *
      omega
    rw [hsub, pure_bind, add_eq_of_lt h (by simp only [Cell.size, UInt32.size]; omega), heq]

theorem front?_eq (hstop : stop ≤ b.size) :
    front? b.data offset stop length =
      if offset + length ≤ stop then some (b.slice offset (offset + length)) else none := by
  have hsize : b.data.length = b.size := Array.length_toList
  unfold front?
  by_cases hoffset : offset ≤ stop
  · rw [slice?_eq_some hoffset (by omega), Option.bind_some]
    split
    · next hle =>
      rw [slice?_eq_some (Nat.zero_le _) (by rw [List.length_take, List.length_drop]; omega),
        List.drop_zero, List.take_take, Blob.slice_eq]
      congr 2
      omega
    · exact slice?_eq_none (.inr (by rw [List.length_take, List.length_drop]; omega))
  · rw [slice?_eq_none (.inl (by omega)), Option.bind_none, if_neg (by omega)]

theorem cellAt_eq : cellAt b.data offset = returns (b.cellAt offset) := by
  have hsize : b.data.length = b.size := Array.length_toList
  rw [cellAt, hsize, front?_eq (Nat.le_refl _), Blob.cellAt]
  by_cases hle : offset + Cell.size ≤ b.size
  · rw [if_pos hle, if_neg (by omega)]
    rfl
  · rw [if_neg hle, if_pos (by omega)]
    rfl

theorem textAt_eq (hstop : stop ≤ b.size) :
    textAt b.data offset stop = returns (b.textAt offset stop) := by
  have hsize : b.data.length = b.size := Array.length_toList
  rw [textAt, Blob.textAt]
  by_cases hoffset : offset ≤ stop
  · rw [slice?_eq_some hoffset (by omega), ← Blob.slice_eq, if_neg (by omega), Text.untilNul?_eq]
    cases hfind : (b.slice offset stop).findIdx? (· = 0) with
    | none =>
      simp only [hfind, Option.map_none, Option.bind_none]
      rfl
    | some length =>
      have hle : length ≤ (b.slice offset stop).length :=
        Nat.le_of_lt (List.findIdx?_eq_some_iff_getElem.1 hfind).1
      have htext : slice (b.slice offset stop) 0 length =
          pure ((b.slice offset stop).take length) :=
        slice_eq (Nat.zero_le _) hle
      simp only [hfind, htext, pure_bind, Option.map_some, Option.bind_some]
      cases Text.decode? ((b.slice offset stop).take length) <;> rfl
  · rw [slice?_eq_none (.inl (by omega)), if_pos (by omega)]
    rfl

variable (hb : b.Accepted)

include hb

theorem header_eq : header b.data = pure b.header := by
  rw [header, hb.header_eq]

theorem structEnd_eq : structEnd b.data = pure b.structEnd := by
  have hend : b.header.structOffset + b.header.structSize ≤ b.size := b.structEnd_le_size
  have hsize := hb.size_lt
  rw [structEnd, header_eq hb, pure_bind]
  exact add_eq_of_lt (by omega) (by omega)

theorem token_eq (h : offset < 2 * UInt32.size) :
    token b.data offset = returns (b.token offset) := by
  have hcell : Cell.size < UInt32.size := by decide
  rw [token, structEnd_eq hb, pure_bind, add_eq_of_lt (by omega) (by omega), pure_bind, Blob.token]
  split
  · exact throw_bind _ _
  · refine bind_eq_returns cellAt_eq fun cell _ => ?_
    cases Token.ofCell? cell <;> rfl

theorem nodeName_eq (h : offset < 2 * UInt32.size) :
    nodeName b.data offset = returns (b.nodeName offset) := by
  have hcell : Cell.size < UInt32.size := by decide
  rw [nodeName, add_eq_of_lt (by omega) (by omega), pure_bind, structEnd_eq hb, pure_bind,
    textAt_eq b.structEnd_le_size]
  rfl

theorem propertyName_eq (h : offset < UInt32.size) :
    propertyName b.data offset = returns (b.propertyName offset) := by
  have hend : b.header.stringsOffset + b.header.stringsSize = b.header.stringsEnd := rfl
  have hle := b.layout.stringsEnd_le
  have hsize : b.bytes.size < UInt32.size := hb.size_lt
  rw [propertyName, header_eq hb, pure_bind, add_eq_of_lt (by omega) (by omega), pure_bind,
    add_eq_of_lt (by omega) (by omega), pure_bind, hend, Blob.propertyName]
  dsimp only
  split
  · exact throw_bind _ _
  · exact textAt_eq hle

theorem contents_eq (h : offset < 2 * UInt32.size) :
    contents b.data offset = returns (b.contents offset) := by
  have hcell : Cell.size < UInt32.size := by decide
  have hsize := hb.size_lt
  have hend := b.structEnd_le_size
  refine bind_eq_returns (nodeName_eq hb h) fun name hname => ?_
  have hle := (Blob.holds_of_textAt hname b.structEnd_le_size).2
  rw [add_eq_of_lt (by omega) (by omega), pure_bind, add_eq_of_lt (by omega) (by omega), pure_bind,
    add_eq_of_lt (by omega) (by omega), pure_bind, align_eq (by omega), returns_pure]

omit hb in
theorem propertyHeader_eq (h : offset < 2 * UInt32.size) :
    propertyHeader b.data offset = returns (b.propertyHeader offset) := by
  have hcell : 2 * Cell.size < UInt32.size := by decide
  rw [propertyHeader, add_eq_of_lt (by omega) (by omega), pure_bind]
  refine bind_eq_returns cellAt_eq fun length _ => ?_
  rw [add_eq_of_lt (by omega) (by omega), pure_bind]
  exact bind_eq_returns cellAt_eq fun nameOffset _ => rfl

omit hb in
private theorem propertyHeader_lt {header : PropertyHeader}
    (h : b.propertyHeader offset = .ok header) :
    header.length < UInt32.size ∧ header.nameOffset < UInt32.size := by
  obtain ⟨length, -, h⟩ := bind_eq_ok_iff.1 h
  obtain ⟨nameOffset, -, h⟩ := bind_eq_ok_iff.1 h
  obtain rfl := Except.ok.inj h
  exact ⟨length.toNat_lt, nameOffset.toNat_lt⟩

theorem afterProperty_eq (h : offset < 2 * UInt32.size) :
    afterProperty b.data offset = returns (b.afterProperty offset) := by
  have hcell : 3 * Cell.size < UInt32.size := by decide
  refine bind_eq_returns (propertyHeader_eq h) fun header hheader => ?_
  have hlength := (propertyHeader_lt hheader).1
  rw [add_eq_of_lt (by omega) (by omega), pure_bind, add_eq_of_lt (by omega) (by omega), pure_bind,
    align_eq (by omega), pure_bind, structEnd_eq hb, pure_bind]
  dsimp only
  split
  · exact throw_bind _ _
  · rfl

/-- A scan comes no farther than one cell past the end of the structure block. -/
theorem lt_of_le_structEnd (h : offset ≤ b.structEnd + Cell.size) : offset < 2 * UInt32.size := by
  have hcell : Cell.size < UInt32.size := by decide
  have hsize := hb.size_lt
  have hend := b.structEnd_le_size
  omega

theorem lt_of_token {t : Token} (h : b.token offset = .ok t) :
    offset + Cell.size < 2 * UInt32.size :=
  lt_of_le_structEnd hb (Nat.le_add_right_of_le (Blob.add_le_of_token h))

theorem lt_of_fits {low : Nat} (h : b.TokenFits low offset) : offset < 2 * UInt32.size :=
  lt_of_le_structEnd hb (Nat.le_add_right_of_le (Nat.le_of_add_right_le h.le_structEnd))

theorem lt_of_contents {next : Nat} (h : b.contents offset = .ok next) :
    next < 2 * UInt32.size :=
  lt_of_le_structEnd hb (Nat.le_of_lt (Blob.contents_bounds h).2.2)

theorem lt_of_afterProperty {next : Nat} (h : b.afterProperty offset = .ok next) :
    next < 2 * UInt32.size :=
  lt_of_le_structEnd hb (Nat.le_add_right_of_le (Blob.afterProperty_bounds h).2.2)

theorem lt_of_afterNode {next : Nat} (h : b.afterNode offset = .ok next) :
    next < 2 * UInt32.size :=
  lt_of_le_structEnd hb (Nat.le_add_right_of_le (Blob.afterNode_bounds h).2.2)

theorem add_of_token {t : Token} (h : b.token offset = .ok t) :
    add offset Cell.size = pure (offset + Cell.size) := by
  have hcell : Cell.size < UInt32.size := by decide
  have hlt := lt_of_token hb h
  exact add_eq_of_lt (by omega) (by omega)

theorem skip_eq (h : offset < 2 * UInt32.size) (hdepth : depth ≤ offset) :
    skip b.data offset (depth + 1) = returns (b.skip offset depth) := by
  fun_induction Blob.skip b offset depth with
  | case1 offset depth e token =>
    rw [skip, loop_eq]
    simp [token_eq hb h, token]
  | case2 offset depth token e inside =>
    have hinner : add (depth + 1) 1 = pure (depth + 2) := add_eq_of_lt (by omega) (by decide)
    rw [skip, loop_eq]
    simp [token_eq hb h, token, hinner, contents_eq hb h, inside]
  | case3 offset depth token next inside hle hlt ih =>
    have hinner : add (depth + 1) 1 = pure (depth + 2) := add_eq_of_lt (by omega) (by decide)
    rw [skip, loop_eq]
    simp only [token_eq hb h, token, returns_ok, pure_bind, hinner, contents_eq hb h, inside]
    exact ih (lt_of_contents hb inside) (by omega)
  | case4 offset depth token e after =>
    rw [skip, loop_eq]
    simp [token_eq hb h, token, afterProperty_eq hb h, after]
  | case5 offset depth token next after hle hlt ih =>
    rw [skip, loop_eq]
    simp only [token_eq hb h, token, returns_ok, pure_bind, afterProperty_eq hb h, after]
    exact ih (lt_of_afterProperty hb after) (by omega)
  | case6 offset depth token hle ih =>
    rw [skip, loop_eq]
    simp only [token_eq hb h, token, returns_ok, pure_bind, add_of_token hb token]
    exact ih (lt_of_token hb token) (by omega)
  | case7 offset token hle =>
    have houter : sub (0 + 1) 1 = pure 0 := sub_eq (Nat.le_refl 1)
    rw [skip, loop_eq]
    simp [token_eq hb h, token, houter, add_of_token hb token]
  | case8 offset token hle depth ih =>
    have houter : sub (depth + 1 + 1) 1 = pure (depth + 1) := sub_eq (Nat.le_add_left 1 _)
    rw [skip, loop_eq]
    simp only [token_eq hb h, token, returns_ok, pure_bind, houter, add_of_token hb token,
      if_neg (Nat.succ_ne_zero depth)]
    exact ih (lt_of_token hb token) (by omega)
  | case9 offset depth token =>
    rw [skip, loop_eq]
    simp [token_eq hb h, token]

theorem afterNode_eq (h : offset < 2 * UInt32.size) :
    afterNode b.data offset = returns (b.afterNode offset) :=
  bind_eq_returns (contents_eq hb h) fun _ inside =>
    skip_eq hb (lt_of_contents hb inside) (Nat.zero_le _)

omit hb in
private theorem cellAt_of_token {t : Token} (h : b.token offset = .ok t) :
    cellAt b.data offset = pure t.toCell := by
  rw [cellAt_eq]
  unfold Blob.token at h
  split at h
  · contradiction
  · obtain ⟨cell, hcell, h⟩ := bind_eq_ok_iff.1 h
    cases hfind : Token.ofCell? cell with
    | none => simp [hfind, throw, throwThe, MonadExceptOf.throw] at h
    | some found =>
      obtain rfl : found = t := by simpa [hfind, pure, Except.pure] using h
      have hword : found.toCell = cell := by simpa using List.find?_some hfind
      rw [hcell, hword, returns_ok]

private theorem rootFrom_eq (h : offset < 2 * UInt32.size) :
    rootFrom b.data offset = returns (b.rootFrom offset) := by
  fun_induction Blob.rootFrom b offset with
  | case1 offset e token =>
    rw [rootFrom, loop_eq]
    simp [token_eq hb h, token]
  | case2 offset token =>
    rw [rootFrom, loop_eq]
    simp [token_eq hb h, token]
  | case3 offset token hle ih =>
    rw [rootFrom, loop_eq]
    simp only [token_eq hb h, token, returns_ok, pure_bind, add_of_token hb token]
    exact ih (lt_of_token hb token)
  | case4 offset t hbegin hnop token =>
    rw [rootFrom, loop_eq]
    simp only [token_eq hb h, token, returns_ok, pure_bind, cellAt_of_token token]
    cases t with
    | beginNode => exact (hbegin rfl).elim
    | nop => exact (hnop rfl).elim
    | endNode | property | finish => exact throw_bind _ _

theorem root_eq : root b.data = returns b.root := by
  have hend : b.header.structOffset ≤ b.structEnd := Nat.le_add_right _ _
  rw [root, header_eq hb, pure_bind]
  exact rootFrom_eq hb (lt_of_le_structEnd hb (by omega))

omit hb in
/-- A property is found to end inside the structure block before the rest of it is read. -/
theorem afterProperty_propertyAt :
    (do
      let header ← b.propertyHeader offset
      let next ← b.afterProperty offset
      let name ← b.propertyName header.nameOffset
      let start := offset + 3 * Cell.size
      return ({ name, value := b.slice start (start + header.length), valueOffset := start },
        next)) =
      (do
        let next ← b.afterProperty offset
        return (← b.propertyAt offset, next)) := by
  cases hheader : b.propertyHeader offset with
  | error e =>
    rw [Blob.afterProperty, hheader]
    rfl
  | ok header =>
    rw [ok_bind, Blob.propertyAt, hheader, ok_bind]
    cases b.afterProperty offset with
    | error e => rfl
    | ok next => cases b.propertyName header.nameOffset <;> rfl

theorem propertyAt_eq (h : offset < 2 * UInt32.size) :
    propertyAt b.data offset = returns (do
      let next ← b.afterProperty offset
      return (← b.propertyAt offset, next)) := by
  have hcell : 3 * Cell.size < UInt32.size := by decide
  rw [← afterProperty_propertyAt]
  refine bind_eq_returns (propertyHeader_eq h) fun header hheader => ?_
  rw [add_eq_of_lt (by omega) (by omega), pure_bind]
  refine bind_eq_returns (afterProperty_eq hb h) fun next hafter => ?_
  obtain ⟨_, hheader', hnext, hle⟩ := Blob.afterProperty_eq_ok hafter
  obtain rfl := Except.ok.inj (hheader.symm.trans hheader')
  obtain ⟨hlength, hname⟩ := propertyHeader_lt hheader
  refine bind_eq_returns (propertyName_eq hb hname) fun name _ => ?_
  have hlow := le_aligned (offset + 3 * Cell.size + header.length)
  have hsize : b.data.length = b.size := Array.length_toList
  have hend := b.structEnd_le_size
  rw [add_eq_of_lt (by omega) (by omega), pure_bind, slice_eq (by omega) (by omega),
    ← Blob.slice_eq, pure_bind, returns_pure]

section Inside

variable {node : Node}

/-- An iterator over the inside of a node yields what it yields from the first token there. -/
theorem inside_yields {α : Type} {next : Nat → Machine (Option (α × Option Nat))}
    {items : Nat → Items α} (h : node.offset < 2 * UInt32.size)
    (hitems : ∀ {offset}, offset < 2 * UInt32.size →
      Iterator.Yields { inside b.data node next with state := some (some offset) }
        (items offset)) :
    (inside b.data node next).Yields
      (match b.contents node.offset with
        | .error e => [.error e]
        | .ok start => items start) := by
  cases hstart : b.contents node.offset with
  | error e =>
    refine Iterator.yields_of_throw ?_
    simp only [contents_eq hb h, hstart]
    exact throw_bind e _
  | ok start =>
    refine Iterator.yields_of_step_eq ?_ (hitems (lt_of_contents hb hstart))
    simp only [contents_eq hb h, hstart]
    exact pure_bind start _

private theorem properties_yields_from (h : offset < 2 * UInt32.size) :
    Iterator.Yields { properties b.data node with state := some (some offset) }
      (b.propertiesFrom offset) := by
  fun_induction Blob.propertiesFrom b offset with
  | case1 offset e token =>
    refine Iterator.yields_of_throw ?_
    change propertyFrom b.data offset = _
    rw [propertyFrom, loop_eq]
    simp [token_eq hb h, token]
  | case2 offset token e after =>
    refine Iterator.yields_of_throw ?_
    change propertyFrom b.data offset = _
    rw [propertyFrom, loop_eq]
    simp [token_eq hb h, token, propertyAt_eq hb h, after, error_bind]
  | case3 offset token next after hle hlt e read =>
    refine Iterator.yields_of_throw ?_
    change propertyFrom b.data offset = _
    rw [propertyFrom, loop_eq]
    simp [token_eq hb h, token, propertyAt_eq hb h, after, read, ok_bind]
  | case4 offset token next after hle hlt property read ih =>
    refine Iterator.yields_of_item ?_ (ih (lt_of_afterProperty hb after))
    change propertyFrom b.data offset = _
    rw [propertyFrom, loop_eq]
    simp [token_eq hb h, token, propertyAt_eq hb h, after, read, ok_bind]
  | case5 offset token hle ih =>
    refine Iterator.yields_of_step_eq ?_ (ih (lt_of_token hb token))
    change propertyFrom b.data offset = propertyFrom b.data (offset + Cell.size)
    rw [propertyFrom, loop_eq]
    simp only [token_eq hb h, token, returns_ok, pure_bind, add_of_token hb token]
    rfl
  | case6 offset t hproperty hnop token =>
    refine Iterator.yields_of_end ?_
    change propertyFrom b.data offset = _
    rw [propertyFrom, loop_eq]
    cases t with
    | property => exact (hproperty rfl).elim
    | nop => exact (hnop rfl).elim
    | beginNode | endNode | finish => simp [token_eq hb h, token]

theorem properties_yields (h : node.offset < 2 * UInt32.size) :
    (properties b.data node).Yields (b.properties node) :=
  inside_yields hb h (properties_yields_from hb)

private theorem children_yields_from (h : offset < 2 * UInt32.size) :
    Iterator.Yields { children b.data node with state := some (some offset) }
      (b.childrenFrom offset) := by
  fun_induction Blob.childrenFrom b offset with
  | case1 offset e token =>
    refine Iterator.yields_of_throw ?_
    change childFrom b.data offset = _
    rw [childFrom, loop_eq]
    simp [token_eq hb h, token]
  | case2 offset token e after =>
    refine Iterator.yields_of_throw ?_
    change childFrom b.data offset = _
    rw [childFrom, loop_eq]
    simp [token_eq hb h, token, afterNode_eq hb h, after]
  | case3 offset token next after hle hlt ih =>
    refine Iterator.yields_of_item ?_ (ih (lt_of_afterNode hb after))
    change childFrom b.data offset = _
    rw [childFrom, loop_eq]
    simp only [token_eq hb h, token, returns_ok, pure_bind, afterNode_eq hb h, after]
  | case4 offset token e after =>
    refine Iterator.yields_of_throw ?_
    change childFrom b.data offset = _
    rw [childFrom, loop_eq]
    simp [token_eq hb h, token, afterProperty_eq hb h, after]
  | case5 offset token next after hle hlt ih =>
    refine Iterator.yields_of_step_eq ?_ (ih (lt_of_afterProperty hb after))
    change childFrom b.data offset = _
    rw [childFrom, loop_eq]
    simp only [token_eq hb h, token, returns_ok, pure_bind, afterProperty_eq hb h, after]
    rfl
  | case6 offset token hle ih =>
    refine Iterator.yields_of_step_eq ?_ (ih (lt_of_token hb token))
    change childFrom b.data offset = _
    rw [childFrom, loop_eq]
    simp only [token_eq hb h, token, returns_ok, pure_bind, add_of_token hb token]
    rfl
  | case7 offset t hbegin hproperty hnop token =>
    refine Iterator.yields_of_end ?_
    change childFrom b.data offset = _
    rw [childFrom, loop_eq]
    cases t with
    | beginNode => exact (hbegin rfl).elim
    | property => exact (hproperty rfl).elim
    | nop => exact (hnop rfl).elim
    | endNode | finish => simp [token_eq hb h, token]

theorem children_yields (h : node.offset < 2 * UInt32.size) :
    (children b.data node).Yields (b.children node) :=
  inside_yields hb h (children_yields_from hb)

end Inside

/-- What the walk on a machine knows of a visit: how many nodes are above it, but not which. -/
def leveled (v : Visit) : Node × Nat :=
  (v.node, v.ancestors.length)

/-- The depth counts the open nodes, which are no more than the bytes that were gone past. -/
theorem walk_yields_from {line : List Node} (h : offset < 2 * UInt32.size) (hline : line ≠ [])
    (hdepth : line.length ≤ offset) :
    Iterator.Yields { walk b.data with state := some (some offset, line.length) }
      ((b.walkFrom offset line).map (Except.map leveled)) := by
  have hpositive := List.length_pos_iff.2 hline
  fun_induction Blob.walkFrom b offset line with
  | case1 offset line e token =>
    refine Iterator.yields_of_throw ?_
    change nodeFrom b.data offset line.length = _
    rw [nodeFrom, loop_eq]
    simp [token_eq hb h, token]
  | case2 offset line token e inside =>
    have hinner : add line.length 1 = pure (line.length + 1) := add_eq_of_lt (by omega) (by decide)
    refine Iterator.yields_of_throw ?_
    change nodeFrom b.data offset line.length = _
    rw [nodeFrom, loop_eq]
    simp [token_eq hb h, token, hinner, contents_eq hb h, inside]
  | case3 offset line token next inside hle hlt ih =>
    have hinner : add line.length 1 = pure (line.length + 1) := add_eq_of_lt (by omega) (by decide)
    refine Iterator.yields_of_item ?_
      (ih (lt_of_contents hb inside) (by simp) (by simp; omega) (by simp))
    change nodeFrom b.data offset line.length = _
    rw [nodeFrom, loop_eq]
    simp only [token_eq hb h, token, returns_ok, pure_bind, hinner, contents_eq hb h, inside]
    rfl
  | case4 offset line token e after =>
    refine Iterator.yields_of_throw ?_
    change nodeFrom b.data offset line.length = _
    rw [nodeFrom, loop_eq]
    simp [token_eq hb h, token, afterProperty_eq hb h, after]
  | case5 offset line token next after hle hlt ih =>
    refine Iterator.yields_of_step_eq ?_
      (ih (lt_of_afterProperty hb after) hline (by omega) hpositive)
    change nodeFrom b.data offset line.length = _
    rw [nodeFrom, loop_eq]
    simp only [token_eq hb h, token, returns_ok, pure_bind, afterProperty_eq hb h, after]
    rfl
  | case6 offset line token hle ih =>
    refine Iterator.yields_of_step_eq ?_
      (ih (lt_of_token hb token) hline (by omega) hpositive)
    change nodeFrom b.data offset line.length = _
    rw [nodeFrom, loop_eq]
    simp only [token_eq hb h, token, returns_ok, pure_bind, add_of_token hb token]
    rfl
  | case7 offset line token hle htail =>
    have houter : sub line.length 1 = pure (line.length - 1) := sub_eq hpositive
    have hlength : line.length - 1 = 0 := by rw [← List.length_tail, htail, List.length_nil]
    refine Iterator.yields_of_end ?_
    change nodeFrom b.data offset line.length = _
    rw [nodeFrom, loop_eq]
    simp [token_eq hb h, token, add_of_token hb token, houter, hlength]
  | case8 offset line token hle houter ih =>
    have hsub : sub line.length 1 = pure line.tail.length := by
      rw [List.length_tail, sub_eq hpositive]
    have hlength := List.length_pos_iff.2 houter
    have htail := List.length_tail (l := line)
    refine Iterator.yields_of_step_eq ?_
      (ih (lt_of_token hb token) houter (by omega) hlength)
    change nodeFrom b.data offset line.length = _
    rw [nodeFrom, loop_eq]
    simp only [token_eq hb h, token, returns_ok, pure_bind, add_of_token hb token, hsub,
      if_neg (Nat.ne_of_gt hlength)]
    rfl
  | case9 offset line token =>
    refine Iterator.yields_of_end ?_
    change nodeFrom b.data offset line.length = _
    rw [nodeFrom, loop_eq]
    simp [token_eq hb h, token]

theorem walk_yields : (walk b.data).Yields (b.walk.map (Except.map leveled)) := by
  cases hroot : b.root with
  | error e =>
    rw [Blob.walk, hroot]
    refine Iterator.yields_of_throw ?_
    simp only [root_eq hb, hroot]
    exact throw_bind e _
  | ok n =>
    have hoffset := lt_of_fits hb (Blob.root_fits hroot)
    cases inside : b.contents n.offset with
    | error e =>
      simp only [Blob.walk, hroot, inside]
      refine Iterator.yields_of_throw ?_
      simp only [root_eq hb, hroot, returns_ok, pure_bind, contents_eq hb hoffset, inside]
      exact throw_bind e _
    | ok start =>
      obtain ⟨-, hlow, hstart⟩ := Blob.contents_bounds inside
      rw [Blob.walk_eq hroot inside]
      have hrest := walk_yields_from hb (lt_of_contents hb inside)
        (List.cons_ne_nil n []) (Nat.one_le_of_lt hlow)
      refine Iterator.yields_of_item ?_ hrest
      simp only [root_eq hb, hroot, returns_ok, pure_bind, contents_eq hb hoffset, inside]
      rfl

private theorem reservations_yields_from (h : offset < 2 * UInt32.size) :
    Iterator.Yields ⟨reservationAt b.data b.header.structOffset, some offset⟩
      (b.reservationsFrom offset) := by
  have hsize := hb.size_lt
  have hend : b.header.structOffset ≤ b.size :=
    Nat.le_trans (Nat.le_add_right _ _) b.structEnd_le_size
  fun_induction Blob.reservationsFrom b offset with
  | case1 offset hmod =>
    refine Iterator.yields_of_throw ?_
    rw [reservationAt, if_pos hmod]
    exact throw_bind _ _
  | case2 offset hmod hlt =>
    refine Iterator.yields_of_throw ?_
    rw [reservationAt, if_neg hmod, front?_eq hend, if_neg (by omega)]
  | case3 offset hmod hlt entry hentry =>
    refine Iterator.yields_of_end ?_
    rw [reservationAt, if_neg hmod, front?_eq hend, if_pos (by omega)]
    exact if_pos hentry
  | case4 offset hmod hlt entry hentry ih =>
    refine Iterator.yields_of_item ?_ (ih (by omega))
    have hnext : add offset Reservation.entrySize = pure (offset + Reservation.entrySize) :=
      add_eq_of_lt (by omega) (by decide)
    rw [reservationAt, if_neg hmod, front?_eq hend, if_pos (by omega)]
    simp only [hnext, pure_bind]
    exact if_neg hentry

theorem reservations_yields :
    ∃ it, reservations b.data = pure it ∧ it.Yields b.reservations := by
  have hend : b.header.structOffset ≤ b.size :=
    Nat.le_trans (Nat.le_add_right _ _) b.structEnd_le_size
  have hsize := hb.size_lt
  have hle := b.layout.reservations_le
  refine ⟨⟨reservationAt b.data b.header.structOffset, some b.header.reservationsOffset⟩, ?_,
    reservations_yields_from hb (by omega)⟩
  rw [reservations, header_eq hb, pure_bind]

end Machine

end DeviceTree

import DeviceTree.Proofs.Blob.Placement
import DeviceTree.Proofs.Blob.Walk
import DeviceTree.Standard.Properties

/-!
# How far a scan gets

A scan of the structure block stays inside it and goes forward from cell boundary to cell boundary.
`Spaced gap low starts` says this of the tokens that it has found: they start at `low` or later, and
each `gap` bytes or more after the one before. What a property consists of lies inside the blocks
that it was read from. Nothing is asked of the blob, which may be broken at any point.
-/
namespace DeviceTree

namespace Items

variable {α : Type}

def values (items : Items α) : List α :=
  items.filterMap Except.toOption

@[simp] theorem values_nil : values ([] : Items α) = [] :=
  rfl

@[simp] theorem values_error_cons (e : ParseError) (items : Items α) :
    values (.error e :: items) = values items :=
  rfl

@[simp] theorem values_ok_cons (a : α) (items : Items α) :
    values (.ok a :: items) = a :: values items :=
  rfl

@[simp] theorem values_map_ok (as : List α) : values (as.map .ok : Items α) = as := by
  induction as with
  | nil => rfl
  | cons a as ih => rw [List.map_cons, values_ok_cons, ih]

theorem mem_values {items : Items α} {a : α} : a ∈ items.values ↔ .ok a ∈ items := by
  rw [values, List.mem_filterMap]
  constructor
  · rintro ⟨_ | a', hmem, h⟩
    · contradiction
    · obtain rfl := Option.some.inj h
      exact hmem
  · exact fun hmem => ⟨.ok a, hmem, rfl⟩

end Items

/-- Where the token of a property that was read stands. -/
def Property.tokenOffset (p : Property) : Nat :=
  p.valueOffset - 3 * Cell.size

namespace Blob

variable {b : Blob} {gap low offset stop start next : Nat} {starts : List Nat} {text : String}

theorem holds_slice (b : Blob) (start stop : Nat) : b.Holds start (b.slice start stop) := by
  rw [Blob.slice_eq]
  exact List.take_prefix _ _

theorem length_slice (h : stop ≤ b.size) : (b.slice start stop).length = stop - start := by
  have hsize : b.bytes.toList.length = b.size := Array.length_toList
  rw [Blob.slice_eq, List.length_take, List.length_drop]
  omega

theorem holds_of_textAt (h : b.textAt offset stop = .ok text) (hstop : stop ≤ b.size) :
    b.Holds offset (Text.terminated text) ∧ offset + (text.utf8ByteSize + 1) ≤ stop := by
  unfold textAt at h
  split at h
  · contradiction
  next hle =>
    split at h
    · next read hread =>
      obtain rfl : read = text := by simpa using h
      obtain ⟨⟨bytes, tail⟩, hcut, hdecode⟩ := Option.bind_eq_some_iff.1 hread
      have hslice : b.slice offset stop = Text.terminated read ++ tail := by
        rw [Text.eq_of_untilNul? hcut, Text.terminated, Text.encode_of_decode? hdecode]
        simp
      have hheld := b.holds_slice offset stop
      have hlength : (b.slice offset stop).length = stop - offset := length_slice hstop
      rw [hslice] at hheld hlength
      rw [List.length_append, Text.length_terminated] at hlength
      exact ⟨(holds_append_iff.1 hheld).1, by omega⟩
    · contradiction

theorem contents_eq_ok (h : b.contents offset = .ok next) :
    ∃ name, b.nodeName offset = .ok name ∧
      next = aligned (offset + Cell.size + name.utf8ByteSize + 1) ∧
      offset + Cell.size + name.utf8ByteSize + 1 ≤ b.structEnd := by
  obtain ⟨name, hname, hnext⟩ := bind_eq_ok_iff.1 h
  have hle := (holds_of_textAt hname b.structEnd_le_size).2
  exact ⟨name, hname, (Except.ok.inj hnext).symm, by omega⟩

/-- Only the filler after the name may reach past the end of the block. -/
theorem contents_bounds (h : b.contents offset = .ok next) :
    next % Cell.size = 0 ∧ offset + Cell.size < next ∧ next < b.structEnd + Cell.size := by
  obtain ⟨name, -, rfl, hle⟩ := contents_eq_ok h
  have hmod := aligned_mod (offset + Cell.size + name.utf8ByteSize + 1)
  have hlow := le_aligned (offset + Cell.size + name.utf8ByteSize + 1)
  refine ⟨hmod, by omega, ?_⟩
  simp only [aligned, Cell.size] at *
  omega

theorem afterProperty_eq_ok (h : b.afterProperty offset = .ok next) :
    ∃ header, b.propertyHeader offset = .ok header ∧
      next = aligned (offset + 3 * Cell.size + header.length) ∧ next ≤ b.structEnd := by
  obtain ⟨header, hheader, h⟩ := bind_eq_ok_iff.1 h
  dsimp only at h
  split at h
  · contradiction
  · next hle =>
    obtain rfl := Except.ok.inj h
    exact ⟨header, hheader, rfl, by omega⟩

theorem afterProperty_bounds (h : b.afterProperty offset = .ok next) :
    next % Cell.size = 0 ∧ offset + 3 * Cell.size ≤ next ∧ next ≤ b.structEnd := by
  obtain ⟨header, -, rfl, hle⟩ := afterProperty_eq_ok h
  have hlow := le_aligned (offset + 3 * Cell.size + header.length)
  exact ⟨aligned_mod _, by omega, hle⟩

theorem Entries.mod_eq_zero {nodes : List Node} (h : Entries b offset nodes stop)
    (haligned : offset % Cell.size = 0) : stop % Cell.size = 0 := by
  induction h with
  | done => exact haligned
  | nop _ _ ih => exact ih (by simpa using haligned)
  | property _ after _ ih => exact ih (afterProperty_bounds after).1
  | node _ inside _ _ _ ihBelow ihRest =>
    have hclose := ihBelow (contents_bounds inside).1
    exact ihRest (by simpa using hclose)

theorem afterNode_bounds (h : b.afterNode offset = .ok next) :
    next % Cell.size = 0 ∧ offset + 2 * Cell.size < next ∧ next ≤ b.structEnd := by
  obtain ⟨start, below, close, hinside, hbelow, hends, rfl⟩ := exists_entries_of_afterNode h
  obtain ⟨hmod, hlow, -⟩ := contents_bounds hinside
  have hclose := hbelow.mod_eq_zero hmod
  have hle := hbelow.le
  have hstop := add_le_of_token hends
  exact ⟨by simpa using hclose, by omega, hstop⟩

/-- A token can be read at the cell boundary `offset`, which is not before `low`. -/
structure TokenFits (b : Blob) (low offset : Nat) : Prop where
  aligned : offset % Cell.size = 0
  low_le : low ≤ offset
  le_structEnd : offset + Cell.size ≤ b.structEnd

/-- Tokens inside the structure block, each `gap` bytes or more after the one before. -/
structure Spaced (b : Blob) (gap low : Nat) (starts : List Nat) : Prop where
  fits : ∀ start ∈ starts, b.TokenFits low start
  apart : starts.Pairwise fun start later => start + gap ≤ later

theorem Spaced.nil : b.Spaced gap low [] :=
  ⟨by simp, .nil⟩

theorem Spaced.nodup (h : b.Spaced gap low starts) (hgap : 0 < gap) : starts.Nodup :=
  h.apart.imp fun hle heq => by omega

theorem Spaced.mono (h : b.Spaced gap start starts) (hle : low ≤ start) :
    b.Spaced gap low starts where
  fits := fun s hs => { h.fits s hs with low_le := Nat.le_trans hle (h.fits s hs).low_le }
  apart := h.apart

theorem Spaced.cons (hstart : b.TokenFits low start) (h : b.Spaced gap (start + gap) starts) :
    b.Spaced gap low (start :: starts) where
  fits := List.forall_mem_cons.2
    ⟨hstart, (h.mono (Nat.le_trans hstart.low_le (Nat.le_add_right _ _))).fits⟩
  apart := List.pairwise_cons.2 ⟨fun later hlater => (h.fits later hlater).low_le, h.apart⟩

private theorem childrenFrom_spaced (h : offset % Cell.size = 0) :
    b.Spaced (2 * Cell.size) offset ((b.childrenFrom offset).values.map Node.offset) := by
  fun_induction childrenFrom b offset with
  | case1 | case2 | case4 | case7 => exact .nil
  | case3 offset token next after hle hlt ih =>
    obtain ⟨hmod, hlow, -⟩ := afterNode_bounds after
    exact .cons ⟨h, Nat.le_refl _, hle⟩ ((ih hmod).mono (Nat.le_of_lt hlow))
  | case5 offset token next after hle hlt ih =>
    exact (ih (afterProperty_bounds after).1).mono (Nat.le_of_lt hlt)
  | case6 offset token hle ih =>
    exact (ih (by simpa using h)).mono (Nat.le_add_right _ _)

private theorem walkFrom_spaced (h : offset % Cell.size = 0) (line : List Node) :
    b.Spaced (2 * Cell.size) offset
      ((b.walkFrom offset line).values.map fun v => v.node.offset) := by
  fun_induction walkFrom b offset line with
  | case1 | case2 | case4 | case7 | case9 => exact .nil
  | case3 offset line token next inside hle hlt ih =>
    obtain ⟨hmod, hlow, -⟩ := contents_bounds inside
    have hgap : offset + 2 * Cell.size ≤ next := by
      simp only [Cell.size] at *
      omega
    exact .cons ⟨h, Nat.le_refl _, hle⟩ ((ih hmod).mono hgap)
  | case5 offset line token next after hle hlt ih =>
    exact (ih (afterProperty_bounds after).1).mono (Nat.le_of_lt hlt)
  | case6 offset line token hle ih | case8 offset line token hle outer ih =>
    exact (ih (by simpa using h)).mono (Nat.le_add_right _ _)

private theorem propertyAt_eq_ok {p : Property} (h : b.propertyAt offset = .ok p) :
    ∃ header, b.propertyHeader offset = .ok header ∧
      b.propertyName header.nameOffset = .ok p.name ∧ p.valueOffset = offset + 3 * Cell.size ∧
      p.value = b.slice p.valueOffset (p.valueOffset + header.length) := by
  obtain ⟨header, hheader, h⟩ := bind_eq_ok_iff.1 h
  obtain ⟨name, hname, h⟩ := bind_eq_ok_iff.1 h
  obtain rfl := Except.ok.inj h
  exact ⟨header, hheader, hname, rfl, rfl⟩

private theorem propertiesFrom_spaced (h : offset % Cell.size = 0) :
    b.Spaced (3 * Cell.size) offset
      ((b.propertiesFrom offset).values.map Property.tokenOffset) := by
  fun_induction propertiesFrom b offset with
  | case1 | case2 | case3 | case6 => exact .nil
  | case4 offset token next after hle hlt p read ih =>
    obtain ⟨hmod, hlow, -⟩ := afterProperty_bounds after
    obtain ⟨-, -, -, hvalue, -⟩ := propertyAt_eq_ok read
    have hstart : p.tokenOffset = offset := by
      rw [Property.tokenOffset, hvalue, Nat.add_sub_cancel]
    rw [Items.values_ok_cons, List.map_cons, hstart]
    exact .cons ⟨h, Nat.le_refl _, hle⟩ ((ih hmod).mono hlow)
  | case5 offset token hle ih =>
    exact (ih (by simpa using h)).mono (Nat.le_add_right _ _)

/-- The token, the value and the name of `p` lie inside the blocks they belong to. -/
structure HoldsProperty (b : Blob) (p : Property) : Prop where
  token_le : b.header.structOffset + 3 * Cell.size ≤ p.valueOffset
  value : b.Holds p.valueOffset p.value
  value_le : p.valueOffset + p.value.length ≤ b.structEnd
  name : ∃ start, b.header.stringsOffset ≤ start ∧ b.Holds start (Text.terminated p.name) ∧
    start + (p.name.utf8ByteSize + 1) ≤ b.header.stringsEnd

theorem holdsProperty {p : Property} (h : b.propertyAt offset = .ok p)
    (hafter : b.afterProperty offset = .ok next) (hlow : b.header.structOffset ≤ offset) :
    b.HoldsProperty p := by
  obtain ⟨header, hheader, hname, hoffset, hvalue⟩ := propertyAt_eq_ok h
  obtain ⟨_, hheader', rfl, hle⟩ := afterProperty_eq_ok hafter
  obtain rfl := Except.ok.inj (hheader.symm.trans hheader')
  have hend := le_aligned (offset + 3 * Cell.size + header.length)
  have hsize := b.structEnd_le_size
  have hlength : p.value.length = header.length := by
    rw [hvalue, length_slice (by omega), Nat.add_sub_cancel_left]
  have hstrings := b.layout.stringsEnd_le
  unfold propertyName at hname
  dsimp only at hname
  split at hname
  · contradiction
  · obtain ⟨hheld, hfits⟩ := holds_of_textAt hname hstrings
    exact ⟨by omega, hvalue ▸ b.holds_slice _ _, by omega, _, Nat.le_add_right _ _, hheld, hfits⟩

private theorem holdsProperty_of_mem_propertiesFrom {p : Property}
    (h : .ok p ∈ b.propertiesFrom offset)
    (hlow : b.header.structOffset ≤ offset) : b.HoldsProperty p := by
  fun_induction propertiesFrom b offset with
  | case1 | case2 | case3 | case6 => simp at h
  | case4 offset token next after hle hlt p' read ih =>
    simp only [List.mem_cons, Except.ok.injEq] at h
    rcases h with rfl | h
    · exact holdsProperty read after hlow
    · exact ih h (by omega)
  | case5 offset token hle ih => exact ih h (by omega)

theorem TokenFits.mono (h : b.TokenFits start offset) (hle : low ≤ start) :
    b.TokenFits low offset :=
  { h with low_le := Nat.le_trans hle h.low_le }

private theorem rootFrom_fits {n : Node} (h : offset % Cell.size = 0)
    (hroot : b.rootFrom offset = .ok n) :
    b.TokenFits offset n.offset := by
  fun_induction rootFrom b offset with
  | case1 | case4 => contradiction
  | case2 offset token =>
    obtain rfl := Except.ok.inj hroot
    exact ⟨h, Nat.le_refl _, add_le_of_token token⟩
  | case3 offset token hle ih =>
    exact (ih (by simpa using h) hroot).mono (Nat.le_add_right _ _)

theorem root_fits {n : Node} (h : b.root = .ok n) : b.TokenFits b.header.structOffset n.offset :=
  rootFrom_fits b.layout.aligned h

theorem walk_spaced (b : Blob) :
    b.Spaced (2 * Cell.size) b.header.structOffset
      (b.walk.values.map fun v => v.node.offset) := by
  cases hroot : b.root with
  | error e => simpa [walk, hroot] using Spaced.nil
  | ok root =>
    have hfits := root_fits hroot
    cases hstart : b.contents root.offset with
    | error e => simpa [walk, hroot, hstart] using Spaced.nil
    | ok start =>
      obtain ⟨hmod, hlow, -⟩ := contents_bounds hstart
      have haligned := hfits.aligned
      rw [walk_eq hroot hstart, Items.values_ok_cons, List.map_cons]
      refine .cons hfits ((walkFrom_spaced hmod [root]).mono ?_)
      simp only [Cell.size] at *
      omega

section Node

variable {n c : Node} (h : b.TokenFits b.header.structOffset n.offset)

include h

theorem TokenFits.children_spaced :
    b.Spaced (2 * Cell.size) b.header.structOffset ((b.children n).values.map Node.offset) := by
  unfold children
  cases hstart : b.contents n.offset with
  | error e => exact .nil
  | ok start =>
    have hlow := h.low_le
    obtain ⟨hmod, hlt, -⟩ := contents_bounds hstart
    exact (childrenFrom_spaced hmod).mono (by omega)

theorem TokenFits.properties_spaced :
    b.Spaced (3 * Cell.size) b.header.structOffset
      ((b.properties n).values.map Property.tokenOffset) := by
  unfold properties
  cases hstart : b.contents n.offset with
  | error e => exact .nil
  | ok start =>
    have hlow := h.low_le
    obtain ⟨hmod, hlt, -⟩ := contents_bounds hstart
    exact (propertiesFrom_spaced hmod).mono (by omega)

theorem TokenFits.holdsProperty {p : Property} (hp : .ok p ∈ b.properties n) :
    b.HoldsProperty p := by
  unfold properties at hp
  cases hstart : b.contents n.offset with
  | error e => simp [hstart] at hp
  | ok start =>
    have hlow := h.low_le
    obtain ⟨-, hlt, -⟩ := contents_bounds hstart
    rw [hstart] at hp
    exact holdsProperty_of_mem_propertiesFrom hp (by omega)

theorem TokenFits.child (hc : .ok c ∈ b.children n) :
    b.TokenFits b.header.structOffset c.offset :=
  h.children_spaced.fits _ (List.mem_map_of_mem (Items.mem_values.2 hc))

theorem TokenFits.descend {names : List String} (hc : b.descend n names = .ok (some c)) :
    b.TokenFits b.header.structOffset c.offset := by
  induction names generalizing n with
  | nil =>
    obtain rfl : n = c := by simpa [Blob.descend, pure, Except.pure] using hc
    exact h
  | cons name names ih =>
    obtain ⟨found, hfound, hc⟩ := bind_eq_ok_iff.1 hc
    cases found with
    | none => simp [pure, Except.pure] at hc
    | some child => exact ih (h.child (Items.mem_of_first? hfound).1) hc

end Node

/-- The nodes that operations of `b` lead to, one after another. -/
inductive Reached (b : Blob) : Node → Prop
  | root {n : Node} (found : b.root = .ok n) : Reached b n
  | findNode {path : String} {n : Node} (found : b.findNode path = .ok (some n)) : Reached b n
  | nodeByPhandle {handle : UInt32} {n : Node} (found : b.nodeByPhandle handle = .ok (some n)) :
    Reached b n
  | walk {v : Visit} (mem : .ok v ∈ b.walk) : Reached b v.node
  | child {n c : Node} (reached : Reached b n) (mem : .ok c ∈ b.children n) : Reached b c
  | parent {n above : Node} (found : b.parent n = .ok (some above)) : Reached b above

/-- Every operation leads to nodes that stand inside the structure block. -/
theorem Reached.fits {n : Node} (h : b.Reached n) :
    b.TokenFits b.header.structOffset n.offset := by
  have hwalk : ∀ v, .ok v ∈ b.walk → b.TokenFits b.header.structOffset v.node.offset :=
    fun v hv => b.walk_spaced.fits _
      (List.mem_map_of_mem (f := fun v : Visit => v.node.offset) (Items.mem_values.2 hv))
  induction h with
  | root found => exact root_fits found
  | @findNode path n found =>
    unfold Blob.findNode at found
    split at found
    · obtain ⟨root, hroot, hn⟩ := bind_eq_ok_iff.1 found
      exact (root_fits hroot).descend hn
    · simp [pure, Except.pure] at found
  | @nodeByPhandle handle n found =>
    unfold Blob.nodeByPhandle at found
    split at found
    · simp [pure, Except.pure] at found
    · obtain ⟨visit, hvisit, hn⟩ := bind_eq_ok_iff.1 found
      obtain ⟨v, rfl, rfl⟩ : ∃ v, visit = some v ∧ v.node = n := by
        simpa [pure, Except.pure] using hn
      exact hwalk v (Items.mem_of_first? hvisit).1
  | walk mem => exact hwalk _ mem
  | child _ mem ih => exact ih.child mem
  | @parent n above found =>
    obtain ⟨line, hmet, hhead⟩ := parent_eq_ok_iff.1 found
    obtain ⟨line, rfl⟩ := List.head?_eq_some_iff.1 hhead
    exact hwalk ⟨above, line⟩ hmet.parent.mem_walk

end Blob

end DeviceTree

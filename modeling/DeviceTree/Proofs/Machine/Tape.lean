import DeviceTree.Machine.Tape
import DeviceTree.Proofs.Machine.Basic
import DeviceTree.Proofs.Value.Cursor
import DeviceTree.Proofs.Value.Numbers

/-!
# Cursors in place

A step on a tape that stands for a cursor ends as the reader of the cursor says, with the position
where the reader leaves it: no step traps, and what a step composes of cells is the number that they
spell. A step that fails half way leaves the position further on, but never behind where it started;
the steps that are offered put it back.
-/
namespace DeviceTree

namespace Machine

variable {m n count : Nat}

theorem product?_eq_some (h : m * n < UInt64.size) : product? m n = some (m * n) :=
  if_pos h

private theorem product?_eq_none (h : UInt64.size ≤ m * n) : product? m n = none :=
  if_neg (Nat.not_lt.2 h)

private theorem eq_of_product? (h : product? m n = some count) : m * n = count := by
  rw [product?] at h
  split at h
  · exact Option.some.inj h
  · cases h

open Cell (limit) in
/-- A register that is wide enough holds what is shifted into it. -/
theorem toNat_compose {bits : Nat} {cells : List Cell} (h : limit cells.length ≤ 2 ^ bits) :
    (compose bits cells).toNat = Cell.join cells := by
  suffices hfold : ∀ n : BitVec bits, (n.toNat + 1) * limit cells.length ≤ 2 ^ bits →
      (cells.foldl (fun (n : BitVec bits) cell => n <<< 32 ||| .ofNat bits cell.toNat) n).toNat =
        cells.foldl (fun n cell => UInt32.size * n + cell.toNat) n.toNat by
    have hjoin := hfold 0 (by simpa using h)
    rwa [show (0 : BitVec bits).toNat = 0 by simp] at hjoin
  clear h
  induction cells with
  | nil => exact fun n _ => rfl
  | cons cell cells ih =>
    intro n h
    have hcell : cell.toNat < 2 ^ 32 := cell.toNat_lt
    -- The next number is less than the product on the left, as `cell` is less than a cell's limit.
    rw [List.length_cons, limit, ← Nat.mul_assoc] at h
    have hnext : UInt32.size * n.toNat + cell.toNat + 1 ≤ (n.toNat + 1) * UInt32.size := by
      simp only [UInt32.size]
      omega
    have hroom := (Nat.mul_le_mul_right _ hnext).trans h
    have hfits : UInt32.size * n.toNat + cell.toNat < 2 ^ bits :=
      (Nat.le_mul_of_pos_right _ (Cell.limit_pos _)).trans hroom
    have hshifted : n.toNat <<< 32 < 2 ^ bits := by
      rw [Nat.shiftLeft_eq, Nat.mul_comm]
      exact (Nat.le_add_right _ _).trans_lt hfits
    have hor : (n <<< 32 ||| BitVec.ofNat bits cell.toNat : BitVec bits).toNat =
        UInt32.size * n.toNat + cell.toNat := by
      rw [BitVec.toNat_or, BitVec.toNat_shiftLeft, BitVec.toNat_ofNat, Nat.mod_eq_of_lt hshifted,
        Nat.mod_eq_of_lt ((Nat.le_add_left _ _).trans_lt hfits),
        ← Nat.shiftLeft_add_eq_or_of_lt hcell, Nat.shiftLeft_eq, Nat.mul_comm]
    rw [List.foldl_cons, List.foldl_cons, ih _ (by rwa [hor]), hor]

end Machine

variable {σ α β : Type}

namespace TapeM

variable {s t u : σ × Tape} {a : α} {e : Error} {x : TapeM σ α} {f : α → TapeM σ β}
  {outcome : Except Error β}

/-- From `s` on, `x` ends with `outcome` and leaves `t`. -/
def Ends (x : TapeM σ α) (s : σ × Tape) (outcome : Except Error α) (t : σ × Tape) : Prop :=
  x.run.run s = Part.some (outcome, t)

theorem ends_pure : Ends (pure a) s (.ok a) s :=
  rfl

theorem ends_throw : Ends (throw e : TapeM σ α) s (.error e) s :=
  rfl

theorem Ends.bind (hx : Ends x s (.ok a) t) (hf : Ends (f a) t outcome u) :
    Ends (x >>= f) s outcome u := by
  change (x.run.run s).bind (fun last => (ExceptT.bindCont f last.1).run last.2) = _
  rw [hx, Part.bind_some]
  exact hf

theorem Ends.bind_error (hx : Ends x s (.error e) t) : Ends (x >>= f) s (.error e) t := by
  change (x.run.run s).bind (fun last => (ExceptT.bindCont f last.1).run last.2) = _
  rw [hx, Part.bind_some]
  rfl

theorem ends_lift {x : Machine α} (hx : x = pure a) : Ends (liftM x : TapeM σ α) s (.ok a) s := by
  rw [hx]
  exact Part.map_some _ _

private theorem ends_get : Ends get s (.ok s) s := by
  change (Part.some (s, s)).bind (fun last => Part.some (Except.ok last.1, last.2)) = _
  exact Part.bind_some _ _

private theorem ends_modify {g : σ × Tape → σ × Tape} : Ends (modify g) s (.ok ()) (g s) := by
  change (Part.some ((), g s)).bind (fun last => Part.some (Except.ok last.1, last.2)) = _
  exact Part.bind_some _ _

theorem ends_tape : Ends tape s (.ok s.2) s :=
  ends_get.bind ends_pure

theorem ends_moveTo (position : Nat) :
    Ends (moveTo position) s (.ok ()) (s.1, { s.2 with position }) :=
  ends_modify

theorem Ends.tryCatch_ok {handle : Error → TapeM σ α} (hx : Ends x s (.ok a) t) :
    Ends (tryCatch x handle) s (.ok a) t := by
  change (ExceptT.tryCatch x handle).run.run s = _
  rw [ExceptT.tryCatch, ExceptT.run_mk, StateT.run_bind]
  change Part.bind (x.run.run s) _ = _
  rw [hx, Part.bind_some]
  rfl

theorem Ends.tryCatch_error {outcome : Except Error α} {handle : Error → TapeM σ α}
    (hx : Ends x s (.error e) t) (h : Ends (handle e) t outcome u) :
    Ends (tryCatch x handle) s outcome u := by
  change (ExceptT.tryCatch x handle).run.run s = _
  rw [ExceptT.tryCatch, ExceptT.run_mk, StateT.run_bind]
  change Part.bind (x.run.run s) _ = _
  rw [hx, Part.bind_some]
  exact h

theorem Ends.restoring_ok (hx : Ends x s (.ok a) t) : Ends (restoring x) s (.ok a) t :=
  ends_tape.bind hx.tryCatch_ok

theorem Ends.restoring_error (hx : Ends x s (.error e) t) :
    Ends (restoring x) s (.error e) (t.1, { t.2 with position := s.2.position }) :=
  ends_tape.bind (hx.tryCatch_error ((ends_moveTo _).bind ends_throw))

theorem Ends.trying {outcome : Except Error α} (hx : Ends x s outcome t) :
    Ends (trying x) s (.ok ()) t := by
  cases outcome with
  | ok a =>
    have hunit : Ends (do let _ ← x) s (.ok ()) t := hx.bind ends_pure
    exact hunit.tryCatch_ok
  | error e =>
    have hunit : Ends (do let _ ← x) s (.error e) t := hx.bind_error
    exact hunit.tryCatch_error ends_pure

end TapeM

namespace Cursor

variable {c moved last : Cursor} {count length : Nat}

/-- The tape that stands where the cursor does. -/
def tape (c : Cursor) : Tape :=
  { name := c.name, value := c.value, position := c.position }

def Countable (c : Cursor) : Prop :=
  c.value.length < UInt64.size

/-- `moved` is `c`, some bytes further on or none. -/
def Ahead (c moved : Cursor) : Prop :=
  ∃ count, c.Advanced count moved

theorem Ahead.refl (c : Cursor) : c.Ahead c :=
  ⟨0, rfl, rfl, rfl⟩

theorem Ahead.trans (h : c.Ahead moved) (hlast : moved.Ahead last) : c.Ahead last := by
  obtain ⟨count, h⟩ := h
  obtain ⟨more, hlast⟩ := hlast
  exact ⟨count + more, h.trans hlast⟩

theorem Advanced.ahead (h : c.Advanced count moved) : c.Ahead moved :=
  ⟨count, h⟩

theorem Ahead.countable (h : c.Ahead moved) (hc : c.Countable) : moved.Countable := by
  obtain ⟨count, h⟩ := h
  rwa [Countable, h.value]

theorem Advanced.tape_eq (h : c.Advanced count moved) :
    { c.tape with position := c.position + count } = moved.tape := by
  rw [tape, tape, h.name, h.value, h.position]

theorem Ahead.tape_eq (h : c.Ahead moved) :
    { moved.tape with position := c.position } = c.tape := by
  obtain ⟨count, h⟩ := h
  rw [tape, tape, h.name, h.value]

theorem exists_takeTerminated_eq (h : c.remaining.findIdx? (· = 0) = some length) :
    ∃ moved, c.Advanced (length + 1) moved ∧
      takeTerminated c = .ok (c.remaining.take length, moved) := by
  have hlt : length < c.remaining.length := (List.findIdx?_eq_some_iff_findIdx_eq.1 h).1
  have hlength : (c.remaining.take length).length = length :=
    List.length_take_of_le (Nat.le_of_lt hlt)
  have hle := c.position_le
  rw [remaining, List.length_drop] at hlt
  obtain ⟨moved, hmoved⟩ := exists_advanced
    (show c.position + (length + 1) ≤ c.value.length by omega)
  have htake := (reads_take (length + 1) .notFound c _ moved).2 ⟨trivial, rfl, hmoved⟩
  refine ⟨moved, hmoved, ?_⟩
  rw [takeTerminated, get_bind_apply, Text.untilNul?_eq, h]
  simp only [Option.map_some, hlength, bind_apply, htake, ok_bind, pure_apply]

theorem takeTerminated_eq_error (h : c.remaining.findIdx? (· = 0) = none) :
    takeTerminated c = .error .notFound := by
  rw [takeTerminated, get_bind_apply, Text.untilNul?_eq, h]
  rfl

private theorem add_eq_of_advanced (hc : c.Countable) (hmoved : c.Advanced (length + 1) moved) :
    Machine.add length 1 = pure (length + 1) := by
  have hle := hmoved.le
  rw [Countable] at hc
  exact Machine.add_eq (by omega)

end Cursor

namespace TapeM

variable {rest : σ} {c moved : Cursor} {count : Nat} {read : Reader α} {step : TapeM σ α}

theorem ends_remaining : Ends remaining (rest, c.tape) (.ok c.remaining) (rest, c.tape) := by
  refine ends_tape.bind (ends_lift ?_)
  change Machine.slice c.value c.position c.value.length = _
  rw [Machine.slice_eq c.position_le (Nat.le_refl _), List.take_of_length_le]
  · rfl
  · exact Nat.le_of_eq List.length_drop

theorem ends_remainingCells :
    Ends remainingCells (rest, c.tape) (.ok c.remainingCells) (rest, c.tape) :=
  ends_tape.bind ((ends_lift (Machine.sub_eq c.position_le)).bind ends_pure)

theorem ends_goOn (hc : c.Countable) (hmoved : c.Advanced count moved) :
    Ends (goOn count) (rest, c.tape) (.ok ()) (rest, moved.tape) := by
  have hle : c.position + count < UInt64.size := Nat.lt_of_le_of_lt hmoved.le hc
  rw [← hmoved.tape_eq]
  exact ends_tape.bind ((ends_lift (Machine.add_eq hle)).bind (ends_moveTo _))

/-- The step ends as the reader does, and goes the same way if that succeeds. If it fails, the step
may have gone on. -/
def Follows (step : TapeM σ α) (read : Reader α) : Prop :=
  ∀ rest (c : Cursor), c.Countable →
    (∀ a moved, read c = .ok (a, moved) →
      c.Ahead moved ∧ step.Ends (rest, c.tape) (.ok a) (rest, moved.tape)) ∧
    ∀ e, read c = .error e →
      ∃ left, c.Ahead left ∧ step.Ends (rest, c.tape) (.error e) (rest, left.tape)

/-- The step ends as an attempt to read does, and leaves the tape where that leaves the cursor. -/
def Attempts (step : TapeM σ α) (read : Reader α) : Prop :=
  ∀ rest (c : Cursor), c.Countable → c.Ahead (c.attempt read).2 ∧
    step.Ends (rest, c.tape) (c.attempt read).1 (rest, (c.attempt read).2.tape)

theorem Follows.bind {next : α → TapeM σ β} {after : α → Reader β} (h : Follows step read)
    (hnext : ∀ a, Follows (next a) (after a)) : Follows (step >>= next) (read >>= after) := by
  intro rest c hc
  obtain ⟨hok, herror⟩ := h rest c hc
  constructor
  · intro b last hread
    obtain ⟨⟨a, moved⟩, hfirst, hlast⟩ := bind_eq_ok_iff.1 hread
    obtain ⟨hmoved, hends⟩ := hok a moved hfirst
    obtain ⟨hahead, hrest⟩ := (hnext a rest moved (hmoved.countable hc)).1 b last hlast
    exact ⟨hmoved.trans hahead, hends.bind hrest⟩
  · intro e hread
    change (read c >>= fun first => after first.1 first.2) = _ at hread
    cases hfirst : read c with
    | error first =>
      rw [hfirst] at hread
      cases hread
      obtain ⟨left, hleft, hends⟩ := herror _ hfirst
      exact ⟨left, hleft, hends.bind_error⟩
    | ok first =>
      obtain ⟨a, moved⟩ := first
      rw [hfirst] at hread
      obtain ⟨hmoved, hends⟩ := hok a moved hfirst
      obtain ⟨left, hleft, hrest⟩ := (hnext a rest moved (hmoved.countable hc)).2 e hread
      exact ⟨left, hmoved.trans hleft, hends.bind hrest⟩

theorem Attempts.follows (h : Attempts step read) : Follows step read := by
  intro rest c hc
  obtain ⟨hahead, hends⟩ := h rest c hc
  rw [Cursor.attempt] at hahead hends
  constructor
  · intro a moved hread
    rw [hread] at hahead hends
    exact ⟨hahead, hends⟩
  · intro e hread
    rw [hread] at hahead hends
    exact ⟨c, hahead, hends⟩

theorem Follows.restoring (h : Follows step read) : Attempts (restoring step) read := by
  intro rest c hc
  obtain ⟨hok, herror⟩ := h rest c hc
  rw [Cursor.attempt]
  cases hread : read c with
  | ok first =>
    obtain ⟨hahead, hends⟩ := hok first.1 first.2 hread
    exact ⟨hahead, hends.restoring_ok⟩
  | error e =>
    obtain ⟨left, hleft, hends⟩ := herror e hread
    have hrestored := hends.restoring_error
    rw [show (rest, c.tape).2.position = c.position from rfl, hleft.tape_eq] at hrestored
    exact ⟨.refl c, hrestored⟩

theorem Attempts.map {next : α → TapeM σ β} {f : α → β} (h : Attempts step read)
    (hnext : ∀ c a moved, read c = .ok (a, moved) → next a = pure (f a)) :
    Attempts (step >>= next) (read >>= fun a => pure (f a)) := by
  intro rest c hc
  obtain ⟨hahead, hends⟩ := h rest c hc
  rw [Cursor.attempt] at hahead hends ⊢
  cases hread : read c with
  | ok first =>
    have hlast : (read >>= fun a => pure (f a)) c = .ok (f first.1, first.2) :=
      bind_eq_ok_iff.2 ⟨first, hread, rfl⟩
    rw [hread] at hahead hends
    rw [hlast]
    refine ⟨hahead, hends.bind ?_⟩
    rw [hnext c first.1 first.2 hread]
    exact ends_pure
  | error e =>
    have hlast : (read >>= fun a => pure (f a)) c = .error e := by
      change (read c >>= _) = _
      rw [hread]
      rfl
    rw [hread] at hahead hends
    rw [hlast]
    exact ⟨hahead, hends.bind_error⟩

theorem follows_pure (a : α) : Follows (pure a : TapeM σ α) (pure a) := by
  intro rest c _
  constructor
  · rintro b moved h
    cases h
    exact ⟨.refl c, ends_pure⟩
  · rintro e h
    cases h

theorem follows_throw (e : Error) : Follows (throw e : TapeM σ α) (throw e) := by
  intro rest c _
  constructor
  · rintro b moved h
    cases h
  · rintro e h
    cases h
    exact ⟨c, .refl c, ends_throw⟩

theorem Follows.map (h : Follows step read) (f : α → β) :
    Follows (step >>= fun a => pure (f a)) (read >>= fun a => pure (f a)) :=
  h.bind fun a => follows_pure (f a)

section Cells

/-- A step that takes bytes if they are there, and otherwise leaves the tape alone. -/
theorem attempts_of_take {short : Error} {f : List UInt8 → α}
    (htaken : ∀ rest (c moved : Cursor), c.Countable → c.Advanced count moved →
      step.Ends (rest, c.tape) (.ok (f (c.remaining.take count))) (rest, moved.tape))
    (hshort : ∀ rest (c : Cursor), c.Countable → c.value.length < c.position + count →
      step.Ends (rest, c.tape) (.error short) (rest, c.tape)) :
    Attempts step (Cursor.take count short >>= fun bytes => pure (f bytes)) := by
  intro rest c hc
  by_cases hfits : c.position + count ≤ c.value.length
  · obtain ⟨moved, hmoved⟩ := Cursor.exists_advanced hfits
    have hread := ((Cursor.reads_take count short).map f c _ moved).2 ⟨trivial, rfl, hmoved⟩
    rw [Cursor.attempt, hread]
    exact ⟨hmoved.ahead, htaken rest c moved hc hmoved⟩
  · have hread : (Cursor.take count short >>= fun bytes => pure (f bytes)) c = .error short := by
      have hle := c.position_le
      change (Cursor.take count short c >>= _) = _
      rw [Cursor.take, dif_neg (by omega)]
      rfl
    rw [Cursor.attempt, hread]
    exact ⟨.refl c, hshort rest c hc (Nat.not_le.1 hfits)⟩

variable {cells : Nat}

private theorem ends_advance (hc : c.Countable) (hmoved : c.Advanced (cells * Cell.size) moved) :
    Ends (advance cells) (rest, c.tape) (.ok ()) (rest, moved.tape) := by
  have hle := hmoved.le
  have hword : cells * Cell.size < UInt64.size := by rw [Cursor.Countable] at hc; omega
  rw [advance, Machine.product?_eq_some hword]
  refine ends_tape.bind ((ends_lift (Machine.sub_eq c.position_le)).bind ?_)
  change Ends (if c.value.length - c.position < _ then _ else _) _ _ _
  rw [if_neg (by omega)]
  exact ends_goOn hc hmoved

private theorem ends_advance_short (hshort : c.value.length < c.position + cells * Cell.size) :
    Ends (advance cells) (rest, c.tape) (.error .outOfBounds) (rest, c.tape) := by
  rw [advance]
  cases hproduct : Machine.product? cells Cell.size with
  | none => exact ends_throw
  | some bytes =>
    obtain rfl := Machine.eq_of_product? hproduct
    refine ends_tape.bind ((ends_lift (Machine.sub_eq c.position_le)).bind ?_)
    change Ends (if c.value.length - c.position < _ then _ else _) _ _ _
    have hle := c.position_le
    rw [if_pos (by omega)]
    exact ends_throw.bind_error

theorem attempts_advance (cells : Nat) :
    Attempts (advance cells : TapeM σ Unit) (Cursor.advance cells) :=
  attempts_of_take (fun _ _ _ hc hmoved => ends_advance hc hmoved)
    fun _ _ _ hshort => ends_advance_short hshort

theorem attempts_skipCells (cells : Nat) :
    Attempts (skipCells cells : TapeM σ Unit) (Cursor.skipCells cells) :=
  attempts_of_take (fun _ _ _ hc hmoved => (ends_advance hc hmoved).tryCatch_ok)
    fun _ _ _ hshort => (ends_advance_short hshort).tryCatch_error ends_throw

theorem attempts_readCells (cells : Nat) :
    Attempts (readCells cells : TapeM σ (List Cell)) (Cursor.readCells cells) := by
  refine attempts_of_take (fun rest c moved hc hmoved => ?_) fun rest c hc hshort => ?_
  · have hle := hmoved.le
    have hleft : cells * Cell.size ≤ c.remaining.length := by
      rw [Cursor.remaining, List.length_drop]
      omega
    have hword : cells * Cell.size < UInt64.size := by rw [Cursor.Countable] at hc; omega
    rw [readCells, Machine.product?_eq_some hword]
    refine ends_remaining.bind ?_
    rw [Machine.slice?_eq_some (Nat.zero_le _) hleft]
    exact (ends_goOn hc hmoved).bind ends_pure
  · rw [readCells]
    cases hproduct : Machine.product? cells Cell.size with
    | none => exact ends_throw
    | some bytes =>
      obtain rfl := Machine.eq_of_product? hproduct
      refine ends_remaining.bind ?_
      rw [Machine.slice?_eq_none]
      · exact ends_throw
      · rw [Cursor.remaining, List.length_drop]
        have hle := c.position_le
        omega

theorem attempts_skipElements (index width : Nat) :
    Attempts (skipElements index width : TapeM σ Unit) (Cursor.skipElements index width) := by
  by_cases hword : index * width < UInt64.size
  · rw [skipElements, Machine.product?_eq_some hword]
    exact attempts_skipCells _
  · rw [skipElements, Machine.product?_eq_none (Nat.not_lt.1 hword)]
    refine attempts_of_take (fun _ _ _ hc hmoved => ?_) fun _ _ _ _ => ends_throw
    have hle := hmoved.le
    rw [Cursor.Countable] at hc
    rw [Cell.size] at hle
    omega

end Cells

section Numbers

variable {cells : Nat} {read : List Cell}

private theorem length_of_readCells (h : Cursor.readCells cells c = .ok (read, moved)) :
    read.length = cells := by
  obtain ⟨-, rfl, hmoved⟩ := (Cursor.reads_readCells cells _ _ _).1 h
  have hle := hmoved.le
  refine Cell.length_ofBytes ?_
  rw [List.length_take, Cursor.remaining, List.length_drop]
  omega

private theorem toNat_compose_readCells {bits : Nat}
    (h : Cursor.readCells cells c = .ok (read, moved))
    (hbits : 32 * cells ≤ bits) : (Machine.compose bits read).toNat = Cell.join read := by
  refine Machine.toNat_compose ?_
  rw [length_of_readCells h, Cell.limit_eq_two_pow]
  exact Nat.pow_le_pow_right Nat.two_pos hbits

theorem attempts_readU32 : Attempts (readU32 : TapeM σ UInt32) Cursor.readU32 := by
  refine (attempts_readCells 1).map fun c read moved hread => ?_
  obtain ⟨cell, rfl⟩ := List.length_eq_one_iff.1 (length_of_readCells hread)
  simp [Cell.join]

theorem attempts_readU64 : Attempts (readU64 : TapeM σ UInt64) Cursor.readU64 := by
  refine (attempts_readCells 2).map fun c read moved hread => congrArg pure ?_
  rw [← toNat_compose_readCells hread (Nat.le_refl 64)]
  exact (UInt64.ofNat_toNat (x := .ofBitVec (Machine.compose 64 read))).symm

theorem attempts_readUint (cells : Nat) :
    Attempts (readUint cells : TapeM σ Nat) (Cursor.readUint cells) := by
  rw [readUint, Cursor.readUint]
  split
  case isTrue => exact fun rest c _ => ⟨.refl c, ends_throw.bind_error⟩
  case isFalse hfew =>
    refine (attempts_readCells cells).map fun c read moved hread => congrArg pure ?_
    rw [Cursor.maximumCells] at hfew
    exact toNat_compose_readCells hread (by omega)

end Numbers

section Strings

variable {length : Nat}

theorem ends_untilNul (h : c.remaining.findIdx? (· = 0) = some length) :
    Ends untilNul (rest, c.tape) (.ok length) (rest, c.tape) := by
  refine ends_remaining.bind ?_
  rw [h]
  exact ends_pure

private theorem ends_untilNul_missing (h : c.remaining.findIdx? (· = 0) = none) :
    Ends untilNul (rest, c.tape) (.error .notFound) (rest, c.tape) := by
  refine ends_remaining.bind ?_
  rw [h]
  exact ends_throw

theorem attempts_skipString : Attempts (skipString : TapeM σ Unit)
    (Cursor.takeTerminated >>= fun _ => pure ()) := by
  intro rest c hc
  cases hfind : c.remaining.findIdx? (· = 0) with
  | none =>
    have hread : (Cursor.takeTerminated >>= fun _ => pure ()) c = .error .notFound := by
      change (Cursor.takeTerminated c >>= _) = _
      rw [Cursor.takeTerminated_eq_error hfind]
      rfl
    rw [Cursor.attempt, hread]
    exact ⟨.refl c, (ends_untilNul_missing hfind).bind_error⟩
  | some length =>
    obtain ⟨moved, hmoved, htaken⟩ := Cursor.exists_takeTerminated_eq hfind
    have hread : (Cursor.takeTerminated >>= fun _ => pure ()) c = .ok ((), moved) :=
      bind_eq_ok_iff.2 ⟨_, htaken, rfl⟩
    rw [Cursor.attempt, hread]
    exact ⟨hmoved.ahead, (ends_untilNul hfind).bind
      ((ends_lift (Cursor.add_eq_of_advanced hc hmoved)).bind (ends_goOn hc hmoved))⟩

private theorem follows_skipStringsOnward (count : Nat) :
    Follows (skipStringsOnward count : TapeM σ Unit) (Cursor.skipStrings count) := by
  induction count with
  | zero => exact follows_pure ()
  | succ count ih =>
    have hbind : Cursor.skipStrings (count + 1) =
        (Cursor.takeTerminated >>= fun _ => pure ()) >>= fun _ => Cursor.skipStrings count := by
      rw [bind_assoc]
      rfl
    rw [hbind]
    exact attempts_skipString.follows.bind fun _ => ih

theorem attempts_skipStrings (count : Nat) :
    Attempts (skipStrings count : TapeM σ Unit) (Cursor.skipStrings count) :=
  (follows_skipStringsOnward count).restoring

theorem attempts_readString : Attempts (readString : TapeM σ String) Cursor.readString := by
  intro rest c hc
  cases hfind : c.remaining.findIdx? (· = 0) with
  | none =>
    have hread : Cursor.readString c = .error .notFound := by
      change (Cursor.takeTerminated c >>= _) = _
      rw [Cursor.takeTerminated_eq_error hfind]
      rfl
    rw [Cursor.attempt, hread]
    exact ⟨.refl c, (ends_untilNul_missing hfind).bind_error⟩
  | some length =>
    obtain ⟨moved, hmoved, htaken⟩ := Cursor.exists_takeTerminated_eq hfind
    have hlt : length < c.remaining.length := (List.findIdx?_eq_some_iff_findIdx_eq.1 hfind).1
    have hslice : Machine.slice c.remaining 0 length = pure (c.remaining.take length) := by
      rw [Machine.slice_eq (Nat.zero_le _) (Nat.le_of_lt hlt)]
      rfl
    have hcut {f : List UInt8 → TapeM σ String} {outcome : Except Error String} {t : σ × Tape}
        (hf : Ends (f (c.remaining.take length)) (rest, c.tape) outcome t) :
        Ends (do f (← Machine.slice (← remaining) 0 length)) (rest, c.tape) outcome t :=
      ends_remaining.bind ((ends_lift hslice).bind hf)
    cases htext : Text.decode? (c.remaining.take length) with
    | none =>
      have hread : Cursor.readString c = .error (.device (.malformedProperty "string")) := by
        change (Cursor.takeTerminated c >>= _) = _
        rw [htaken, ok_bind]
        simp only [htext]
        rfl
      rw [Cursor.attempt, hread]
      refine ⟨.refl c, (ends_untilNul hfind).bind (hcut ?_)⟩
      rw [htext]
      exact ends_throw
    | some text =>
      have hread : Cursor.readString c = .ok (text, moved) := by
        change (Cursor.takeTerminated c >>= _) = _
        rw [htaken, ok_bind]
        simp only [htext]
        rfl
      rw [Cursor.attempt, hread]
      refine ⟨hmoved.ahead, (ends_untilNul hfind).bind (hcut ?_)⟩
      rw [htext]
      exact (ends_lift (Cursor.add_eq_of_advanced hc hmoved)).bind
        ((ends_goOn hc hmoved).bind ends_pure)

end Strings

section Elements

variable {index width : Nat} {cells : Cells}

theorem follows_readElement (index width : Nat) :
    Follows (readElement index width : TapeM σ Nat) (Cursor.readElement index width) :=
  (attempts_skipElements index width).follows.bind fun _ => (attempts_readUint width).follows

theorem follows_readAddress (index : Nat) (width : UInt32) :
    Follows (readAddress index width : TapeM σ Nat) (Cursor.readAddress index width) := by
  rw [readAddress, Cursor.readAddress]
  split
  case isTrue => exact (follows_throw .notFound).bind fun _ => follows_readElement _ _
  case isFalse => exact follows_readElement index width.toNat

theorem follows_elementU32 (index : Nat) :
    Follows (elementU32 index : TapeM σ UInt32) (Cursor.elementU32 index) :=
  (attempts_skipElements index 1).follows.bind fun _ => attempts_readU32.follows

theorem follows_elementU64 (index : Nat) :
    Follows (elementU64 index : TapeM σ UInt64) (Cursor.elementU64 index) :=
  (attempts_skipElements index 2).follows.bind fun _ => attempts_readU64.follows

theorem follows_elementString (index : Nat) :
    Follows (elementString index : TapeM σ String) (Cursor.elementString index) :=
  (attempts_skipStrings index).follows.bind fun _ => attempts_readString.follows

private theorem follows_decodeAt (type : ElementType) (index : Nat) (cells : Cells) :
    Follows (decodeAt type index cells : TapeM σ Element) (Cursor.decode type index cells) := by
  cases type with
  | u32 => exact (follows_elementU32 index).map Element.u32
  | u64 => exact (follows_elementU64 index).map Element.u64
  | u128 => exact (follows_readElement index 4).map Element.u128
  | busAddress => exact (follows_readAddress index cells.address).map Element.busAddress
  | childBusAddress =>
    exact (follows_readAddress index cells.childAddress).map Element.childBusAddress
  | size => exact (follows_readElement index cells.size.toNat).map Element.size
  | childSize => exact (follows_readElement index cells.childSize.toNat).map Element.childSize
  | string => exact (follows_elementString index).map Element.string
  | device | reg | range => exact follows_throw _

theorem attempts_decode (type : ElementType) (index : Nat) (cells : Cells) :
    Attempts (decode type index cells : TapeM σ Element) (Cursor.decode type index cells) :=
  (follows_decodeAt type index cells).restoring

end Elements

theorem ends_reset : Ends reset (rest, c.tape) (.ok ()) (rest, c.reset.tape) :=
  ends_moveTo 0

theorem ends_rewind (position : Nat) : Ends (rewind position) (rest, c.tape)
    (c.attempt (Cursor.rewind position)).1 (rest, (c.attempt (Cursor.rewind position)).2.tape) := by
  rw [Cursor.attempt, Cursor.rewind]
  by_cases hback : position ≤ c.position
  · rw [dif_pos hback]
    refine ends_tape.bind ?_
    change Ends (if c.position < position then _ else _) _ _ _
    rw [if_neg (Nat.not_lt.2 hback)]
    exact ends_moveTo position
  · rw [dif_neg hback]
    refine ends_tape.bind ?_
    change Ends (if c.position < position then _ else _) _ _ _
    rw [if_pos (Nat.not_le.1 hback)]
    exact ends_throw.bind_error

end TapeM

end DeviceTree

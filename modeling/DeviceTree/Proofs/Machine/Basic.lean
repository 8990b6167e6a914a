import DeviceTree.Machine.Basic
import DeviceTree.Proofs.Outcome

/-!
# Computations that end

What a machine returns is put together from what its parts return. An iterator `Yields` items if its
calls give them in order and nothing after them; then a loop over its calls is a fold over the
items. No item comes after a failure, whatever the steps of the iterator are.
-/
namespace DeviceTree.Machine

section Word

variable {α β : Type} {m n start stop : Nat} {list : List α}

@[simp] theorem returns_ok (a : α) : returns (.ok a) = pure a :=
  rfl

@[simp] theorem returns_pure (a : α) : returns (pure a : Except ParseError α) = pure a :=
  rfl

@[simp] theorem returns_error (e : ParseError) : returns (.error e : Except _ α) = throw e :=
  rfl

@[simp] theorem throw_bind (e : ParseError) (f : α → Machine β) : (throw e >>= f) = throw e :=
  Part.bind_some _ _

@[simp] theorem liftM_some (a : α) : (liftM (Part.some a) : Machine α) = pure a :=
  Part.map_some _ _

/-- What is put together from computations that return does so too. -/
theorem bind_eq_returns {m : Machine α} {x : Except ParseError α} {f : α → Machine β}
    {g : α → Except ParseError β} (hm : m = returns x)
    (hf : ∀ a, x = .ok a → f a = returns (g a)) : (m >>= f) = returns (x >>= g) := by
  rw [hm]
  cases x with
  | error e => exact throw_bind e f
  | ok a => exact (pure_bind a f).trans (hf a rfl)

theorem add_eq (h : m + n < UInt64.size) : add m n = pure (m + n) :=
  if_pos h

theorem sub_eq (h : n ≤ m) : sub m n = pure (m - n) :=
  if_pos h

theorem slice?_eq_some (h : start ≤ stop) (hstop : stop ≤ list.length) :
    slice? list start stop = some ((list.drop start).take (stop - start)) :=
  if_pos ⟨h, hstop⟩

theorem slice?_eq_none (h : stop < start ∨ list.length < stop) : slice? list start stop = none :=
  if_neg (by omega)

theorem slice_eq (h : start ≤ stop) (hstop : stop ≤ list.length) :
    slice list start stop = pure ((list.drop start).take (stop - start)) := by
  rw [slice, slice?_eq_some h hstop]

theorem fix_eq {σ : Type} (step : σ →. β ⊕ σ) (state : σ) :
    step.fix state = (step state).bind fun
      | .inl b => Part.some b
      | .inr next => step.fix next := by
  refine Part.ext fun b => PFun.mem_fix_iff.trans (Iff.trans ?_ Part.mem_bind_iff.symm)
  constructor
  · rintro (hleft | ⟨next, hnext, hb⟩)
    · exact ⟨.inl b, hleft, Part.mem_some b⟩
    · exact ⟨.inr next, hnext, hb⟩
  · rintro ⟨found | next, hled, hb⟩
    · obtain rfl := Part.mem_some_iff.1 hb
      exact .inl hled
    · exact .inr ⟨next, hled, hb⟩

/-- A loop takes a turn, and goes on from where that leads. -/
theorem loop_eq {σ : Type} (turn : σ → Machine (Turn σ α)) (state : σ) :
    loop turn state = turn state >>= fun
      | .again next => loop turn next
      | .done result => pure result := by
  refine (fix_eq _ state).trans ((Part.bind_map _ _ _).trans ?_)
  refine congrArg (Part.bind _) (funext fun led => ?_)
  rcases led with e | next | result <;> rfl

end Word

namespace Iterator

variable {σ α β : Type} {it rest : Iterator σ α} {items : Items α} {item : Except ParseError α}
  {step : σ → Machine (Option (α × σ))} {state after : σ} {a : α} {e : ParseError}
  {outcome : Option (Except ParseError α)}

/-- The calls give `items` in order, and nothing more. -/
def Yields (it : Iterator σ α) (items : Items α) : Prop :=
  ∀ k, it.call k = Part.some items[k]?

theorem call_zero (h : it.next = Part.some (outcome, rest)) : it.call 0 = Part.some outcome := by
  rw [call, h, Part.map_some]

theorem call_succ (h : it.next = Part.some (outcome, rest)) (k : Nat) :
    it.call (k + 1) = rest.call k := by
  rw [call, h, Part.bind_some]

theorem call_eq_none (h : it.state = none) (k : Nat) : it.call k = Part.some none := by
  have hnext : it.next = Part.some (none, it) := by rw [next, h]
  induction k with
  | zero => exact call_zero hnext
  | succ k ih => rw [call_succ hnext, ih]

/-- An iterator stays ready for another call after a readable item only. -/
theorem state_eq_none_of_next (h : it.next = Part.some (outcome, rest))
    (hfinal : ∀ a, outcome ≠ some (.ok a)) : rest.state = none := by
  cases hstate : it.state with
  | none =>
    rw [next, hstate] at h
    obtain ⟨-, rfl⟩ := Prod.mk.inj (Part.some_injective h)
    exact hstate
  | some state =>
    rw [next, hstate, Part.eq_some_iff, Part.mem_map_iff] at h
    obtain ⟨e | _ | ⟨a, after⟩, -, h⟩ := h
    all_goals obtain ⟨rfl, rfl⟩ := Prod.mk.inj h
    · rfl
    · rfl
    · exact absurd rfl (hfinal a)

/-- After a failure, as after the end, every call gives nothing. -/
theorem call_eq_none_of_lt {k l : Nat} (h : it.call k = Part.some outcome)
    (hfinal : ∀ a, outcome ≠ some (.ok a)) (hlt : k < l) : it.call l = Part.some none := by
  obtain ⟨l, rfl⟩ := Nat.exists_eq_add_one_of_ne_zero (by omega : l ≠ 0)
  induction k generalizing it l with
  | zero =>
    obtain ⟨⟨first, rest⟩, hnext, rfl⟩ := (Part.mem_map_iff _).1 (Part.eq_some_iff.1 h)
    have hnext := Part.eq_some_iff.2 hnext
    rw [call_succ hnext]
    exact call_eq_none (state_eq_none_of_next hnext hfinal) l
  | succ k ih =>
    obtain ⟨⟨first, rest⟩, hnext, hcall⟩ := Part.mem_bind_iff.1 (Part.eq_some_iff.1 h)
    obtain ⟨l, rfl⟩ := Nat.exists_eq_add_one_of_ne_zero (by omega : l ≠ 0)
    rw [call_succ (Part.eq_some_iff.2 hnext)]
    exact ih (Part.eq_some_iff.2 hcall) l (by omega)

theorem Yields.length_eq {k : Nat} (h : it.Yields items) (hk : items[k]? = some (.error e)) :
    items.length = k + 1 := by
  have hfailed : it.call k = Part.some (some (.error e)) := by rw [h k, hk]
  have hafter := call_eq_none_of_lt hfailed (by simp) (Nat.lt_add_one k)
  rw [h (k + 1)] at hafter
  have hle : items.length ≤ k + 1 := List.getElem?_eq_none_iff.1 (Part.some_injective hafter)
  have hlt := (List.getElem?_eq_some_iff.1 hk).1
  omega

theorem yields_of_none : Yields ⟨step, none⟩ [] :=
  call_eq_none rfl

theorem yields_cons (h : it.next = Part.some (some item, rest)) (hrest : rest.Yields items) :
    it.Yields (item :: items)
  | 0 => call_zero h
  | k + 1 => (call_succ h k).trans (hrest k)

theorem yields_of_end (h : step state = pure none) : Yields ⟨step, some state⟩ [] := by
  have hnext : next ⟨step, some state⟩ = Part.some (none, ⟨step, none⟩) := by
    simp only [next, h]
    exact Part.map_some _ _
  rintro (_ | k)
  · exact call_zero hnext
  · rw [call_succ hnext]
    exact yields_of_none k

theorem yields_of_throw (h : step state = throw e) : Yields ⟨step, some state⟩ [.error e] := by
  have hnext : next ⟨step, some state⟩ = Part.some (some (.error e), ⟨step, none⟩) := by
    simp only [next, h]
    exact Part.map_some _ _
  exact yields_cons hnext yields_of_none

theorem yields_of_item (h : step state = pure (some (a, after)))
    (hrest : Yields ⟨step, some after⟩ items) : Yields ⟨step, some state⟩ (.ok a :: items) := by
  have hnext : next ⟨step, some state⟩ = Part.some (some (.ok a), ⟨step, some after⟩) := by
    simp only [next, h]
    exact Part.map_some _ _
  exact yields_cons hnext hrest

theorem yields_of_step_eq (h : step state = step after) (hafter : Yields ⟨step, some after⟩ items) :
    Yields ⟨step, some state⟩ items := by
  have hnext : next ⟨step, some state⟩ = next ⟨step, some after⟩ := by
    simp only [next, h]
  intro k
  rw [← hafter k]
  cases k <;> rw [call, call, hnext]

/-- What a loop makes of `items`. -/
def overItems (body : β → α → Machine (ForInStep β)) : Items α → β → Machine β
  | [], acc => return acc
  | item :: items, acc => do
    match ← body acc (← returns item) with
    | .done acc => return acc
    | .yield acc => overItems body items acc

section Each

variable {body : β → α → Machine (ForInStep β)} {acc next : β}

theorem overItems_error : overItems body (.error e :: items) acc = throw e := by
  rw [overItems, returns_error, throw_bind]

theorem overItems_done (h : body acc a = pure (.done next)) :
    overItems body (.ok a :: items) acc = pure next := by
  rw [overItems, returns_ok, pure_bind, h, pure_bind]

theorem overItems_yield (h : body acc a = pure (.yield next)) :
    overItems body (.ok a :: items) acc = overItems body items next := by
  rw [overItems, returns_ok, pure_bind, h, pure_bind]

private theorem overItems_throw (h : body acc a = throw e) :
    overItems body (.ok a :: items) acc = throw e := by
  rw [overItems, returns_ok, pure_bind, h, throw_bind]

theorem Yields.next_nil (h : it.Yields []) : ∃ rest, it.next = Part.some (none, rest) := by
  obtain ⟨⟨outcome, rest⟩, hnext, rfl⟩ := (Part.mem_map_iff _).1 (Part.eq_some_iff.1 (h 0))
  exact ⟨rest, Part.eq_some_iff.2 hnext⟩

theorem Yields.next_cons (h : it.Yields (item :: items)) :
    ∃ rest, it.next = Part.some (some item, rest) ∧ rest.Yields items := by
  obtain ⟨⟨outcome, rest⟩, hnext, rfl⟩ := (Part.mem_map_iff _).1 (Part.eq_some_iff.1 (h 0))
  have hnext := Part.eq_some_iff.2 hnext
  exact ⟨rest, hnext, fun k => (call_succ hnext k).symm.trans (h (k + 1))⟩

/-- A loop ends, because the items do. -/
theorem Yields.each_eq (h : it.Yields items) (body : β → α → Machine (ForInStep β)) (acc : β) :
    it.each body acc = overItems body items acc := by
  induction items generalizing it acc with
  | nil =>
    obtain ⟨rest, hnext⟩ := h.next_nil
    rw [each, loop_eq]
    simp only [hnext, liftM_some, pure_bind]
    rfl
  | cons item items ih =>
    obtain ⟨rest, hnext, hrest⟩ := h.next_cons
    rw [each, loop_eq]
    simp only [hnext, liftM_some, pure_bind, overItems, bind_assoc]
    refine bind_congr fun a => bind_congr fun taken => ?_
    cases taken with
    | done acc => exact pure_bind _ _
    | yield acc => exact (pure_bind _ _).trans (ih hrest acc)

/-- A search finds the first item that is accepted, and ends with a failure that comes before. -/
theorem Yields.first_eq {accept : α → Machine Bool} {accepts : α → Except ParseError Bool}
    (h : it.Yields items) (haccept : ∀ a, .ok a ∈ items → accept a = returns (accepts a)) :
    it.first accept = returns (items.first? accepts) := by
  rw [first, h.each_eq]
  clear h
  induction items with
  | nil => rfl
  | cons item items ih =>
    cases item with
    | error e => exact overItems_error
    | ok a =>
      have hitems := fun a ha => haccept a (List.mem_cons_of_mem _ ha)
      have hfirst := haccept a List.mem_cons_self
      rw [Items.first?]
      cases htaken : accepts a with
      | error e =>
        refine overItems_throw ?_
        rw [hfirst, htaken, returns_error, throw_bind]
      | ok taken =>
        cases taken with
        | true =>
          refine overItems_done ?_
          rw [hfirst, htaken, returns_ok, pure_bind]
          rfl
        | false =>
          refine (overItems_yield ?_).trans (ih hitems)
          rw [hfirst, htaken, returns_ok, pure_bind]
          rfl

end Each

end Iterator

end DeviceTree.Machine

import DeviceTree.Items

/-!
# Outcomes of computations and searches

How a computation that may fail goes on after each of its outcomes, what its success says about its
parts, and what a search through items says about the items.
-/
namespace DeviceTree

section Except

variable {ε α β : Type} {a : α} {f : α → Except ε β}

theorem ok_bind (a : α) (f : α → Except ε β) : (Except.ok a >>= f) = f a :=
  rfl

theorem error_bind (e : ε) (f : α → Except ε β) : (Except.error e >>= f) = .error e :=
  rfl

theorem ok_ne_error {e : ε} : (.ok a : Except ε α) ≠ .error e :=
  nofun

theorem error_ne_error {e other : ε} (h : e ≠ other) : (.error e : Except ε α) ≠ .error other :=
  mt Except.error.inj h

theorem bind_eq_ok_iff {x : Except ε α} {b : β} :
    (x >>= f) = .ok b ↔ ∃ a, x = .ok a ∧ f a = .ok b := by
  cases x with
  | error e => simp [error_bind]
  | ok a => simp [ok_bind]

theorem length_eq_of_mapM {f : α → Except ε β} {as : List α} {bs : List β}
    (h : as.mapM f = .ok bs) : bs.length = as.length := by
  induction as generalizing bs with
  | nil =>
    obtain rfl : bs = [] := by simpa [pure, Except.pure] using h.symm
    rfl
  | cons a as ih =>
    rw [List.mapM_cons] at h
    obtain ⟨first, -, h⟩ := bind_eq_ok_iff.1 h
    obtain ⟨rest, hrest, h⟩ := bind_eq_ok_iff.1 h
    obtain rfl := Except.ok.inj h
    rw [List.length_cons, List.length_cons, ih hrest]

theorem bind_ne_error {x : Except ε α} {e : ε} (hx : x ≠ .error e) (hf : ∀ a, f a ≠ .error e) :
    (x >>= f) ≠ .error e := by
  cases x with
  | error e' => simpa [error_bind] using hx
  | ok a => exact hf a

/-- What cannot fail so later has failed so at once. -/
theorem bind_eq_error_iff {x : Except ε α} {e : ε} (hf : ∀ a, f a ≠ .error e) :
    (x >>= f) = .error e ↔ x = .error e := by
  cases x with
  | error e' => simp [error_bind]
  | ok a => simp [ok_bind, hf]

theorem liftM_ok (a : α) : (liftM (.ok a : Except ParseError α) : Except Error α) = .ok a :=
  rfl

theorem liftM_error (e : ParseError) :
    (liftM (.error e : Except ParseError α) : Except Error α) = .error (.ofParse e) :=
  rfl

theorem liftM_ne_error {e : Error} (h : ∀ fault, .ofParse fault ≠ e) (x : Except ParseError α) :
    (liftM x : Except Error α) ≠ .error e := by
  cases x with
  | error fault => exact error_ne_error (h fault)
  | ok a => exact ok_ne_error

/-- Lifting a reading of a blob to an operation changes its failures alone. -/
theorem liftM_eq_ok_iff {x : Except ParseError α} :
    (liftM x : Except Error α) = .ok a ↔ x = .ok a := by
  cases x with
  | error e => simp [liftM_error]
  | ok b => simp [liftM_ok]

theorem exists_of_any {x : Except ε α} {p : α → Bool} (h : x.toOption.any p = true) :
    ∃ a, x = .ok a ∧ p a = true := by
  cases x with
  | error e => simp [Except.toOption] at h
  | ok a => exact ⟨a, rfl, h⟩

theorem eq_ok_of_any [DecidableEq α] {x : Except ε α} (h : x.toOption.any (· = a) = true) :
    x = .ok a := by
  obtain ⟨found, hfound, heq⟩ := exists_of_any h
  rw [hfound, of_decide_eq_true heq]

end Except

namespace Items

variable {α : Type} {accept : α → Except ParseError Bool} {items : Items α} {a : α}

/-- A search passes over what it does not accept. -/
theorem first?_append {passed : List α} (h : ∀ b ∈ passed, accept b = .ok false)
    (rest : Items α) : first? accept (passed.map .ok ++ rest) = first? accept rest := by
  induction passed with
  | nil => rfl
  | cons b passed ih =>
    obtain ⟨hb, hpassed⟩ := List.forall_mem_cons.1 h
    rw [List.map_cons, List.cons_append, first?, hb, ok_bind, ← ih hpassed]
    rfl

theorem first?_cons_of_accept (h : accept a = .ok true) (rest : Items α) :
    first? accept (.ok a :: rest) = .ok (some a) := by
  rw [first?, h]
  rfl

/-- What a search finds is the first item that it accepts, and none before it fails. -/
theorem first?_eq_ok_some_iff : items.first? accept = .ok (some a) ↔
    ∃ (passed : List α) (rest : Items α), items = passed.map .ok ++ .ok a :: rest ∧
      (∀ b ∈ passed, accept b = .ok false) ∧ accept a = .ok true := by
  constructor
  · intro h
    induction items with
    | nil => simp [first?] at h
    | cons item items ih =>
      cases item with
      | error e => simp [first?] at h
      | ok first =>
        obtain ⟨taken, hfirst, hrest⟩ := bind_eq_ok_iff.1 h
        cases taken with
        | true =>
          obtain rfl : first = a := by simpa [pure, Except.pure] using hrest
          exact ⟨[], items, rfl, by simp, hfirst⟩
        | false =>
          obtain ⟨passed, rest, rfl, hpassed, haccept⟩ := ih (by simpa using hrest)
          exact ⟨first :: passed, rest, rfl, List.forall_mem_cons.2 ⟨hfirst, hpassed⟩, haccept⟩
  · rintro ⟨passed, rest, rfl, hpassed, haccept⟩
    rw [first?_append hpassed, first?_cons_of_accept haccept]

theorem mem_of_first? (h : items.first? accept = .ok (some a)) :
    .ok a ∈ items ∧ accept a = .ok true := by
  obtain ⟨passed, rest, rfl, -, haccept⟩ := first?_eq_ok_some_iff.1 h
  exact ⟨List.mem_append_right _ List.mem_cons_self, haccept⟩

/-- A search that meets no failure is a search through a list. -/
theorem first?_map_ok {p : α → Bool} {as : List α} (h : ∀ b ∈ as, accept b = .ok (p b)) :
    first? accept (as.map .ok) = .ok (as.find? p) := by
  induction as with
  | nil => rfl
  | cons b as ih =>
    obtain ⟨hb, has⟩ := List.forall_mem_cons.1 h
    rw [List.map_cons, first?, hb, ok_bind, ih has, List.find?_cons]
    cases p b <;> rfl

/-- A search among the images is a search for what has an accepted image. -/
theorem first?_map {β : Type} (f : α → β) (accept : β → Except ParseError Bool)
    (items : Items α) :
    first? accept (items.map (Except.map f)) =
      (first? (fun a => accept (f a)) items).map (Option.map f) := by
  induction items with
  | nil => rfl
  | cons item items ih =>
    cases item with
    | error e => rfl
    | ok a =>
      simp only [List.map_cons, Except.map, first?]
      cases accept (f a) with
      | error e => rfl
      | ok taken =>
        cases taken with
        | true => rfl
        | false => exact ih

end Items

end DeviceTree

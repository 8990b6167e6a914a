import DeviceTree.Bus.Basic

/-!
# What holds after a computation

An operation changes its state whether it succeeds or fails, so both ends are spoken of: `Ensures`
says what holds of the answer and the state, and what holds of the state that an error leaves. A
sequence of steps is followed one after another. For a success alone, each step has to succeed.
-/
namespace DeviceTree

variable {σ α β : Type} {s : σ} {x : EStateM Error σ α} {f : α → EStateM Error σ β}
  {returns : β → σ → Prop} {fails : σ → Prop}

/-- What holds after a computation from `s` on: `returns` of its answer and the state that it
leaves, or `fails` of the state that it leaves with an error. -/
def Ensures (x : EStateM Error σ α) (s : σ) (returns : α → σ → Prop) (fails : σ → Prop) : Prop :=
  match x s with
  | .ok a t => returns a t
  | .error _ t => fails t

theorem Ensures.imp {first next : α → σ → Prop} {firstFails nextFails : σ → Prop}
    (hx : Ensures x s first firstFails) (hreturns : ∀ a t, first a t → next a t)
    (hfails : ∀ t, firstFails t → nextFails t) : Ensures x s next nextFails := by
  unfold Ensures at *
  cases h : x s with
  | ok a t => exact hreturns a t (by simpa [h] using hx)
  | error e t => exact hfails t (by simpa [h] using hx)

theorem Ensures.of_ok {returns : α → σ → Prop} {a : α} {t : σ}
    (hx : Ensures x s returns fails) (hend : x s = .ok a t) : returns a t := by
  simpa [Ensures, hend] using hx

theorem ensures_bind : Ensures (x >>= f) s returns fails ↔
    Ensures x s (fun a t => Ensures (f a) t returns fails) fails := by
  simp only [Ensures, bind, EStateM.bind]
  cases x s <;> rfl

theorem ensures_pure {a : β} : Ensures (pure a) s returns fails ↔ returns a s :=
  Iff.rfl

theorem ensures_throw {e : Error} : Ensures (throw e) s returns fails ↔ fails s :=
  Iff.rfl

theorem ensures_get {returns : σ → σ → Prop} : Ensures get s returns fails ↔ returns s s :=
  Iff.rfl

theorem ensures_set {t : σ} {returns : PUnit → σ → Prop} :
    Ensures (set t) s returns fails ↔ returns ⟨⟩ t :=
  Iff.rfl

theorem ensures_lift {x : Except Error α} {returns : α → σ → Prop} :
    Ensures (liftM x) s returns fails ↔
      (∀ a, x = .ok a → returns a s) ∧ ∀ e, x = .error e → fails s := by
  cases x with
  | ok a =>
    change returns a s ↔ _
    simp
  | error e =>
    change fails s ↔ _
    simp

theorem ensures_liftParse {x : Except ParseError α} {returns : α → σ → Prop} :
    Ensures (liftM x) s returns fails ↔
      (∀ a, x = .ok a → returns a s) ∧ ∀ e, x = .error e → fails s := by
  cases x with
  | ok a =>
    change returns a s ↔ _
    simp
  | error e =>
    change fails s ↔ _
    simp

theorem get_bind_apply {f : σ → EStateM Error σ β} : (get >>= f) s = f s s :=
  rfl

theorem seq_eq_ok_iff {b : β} {t : σ} :
    (x >>= f) s = .ok b t ↔ ∃ a between, x s = .ok a between ∧ f a between = .ok b t := by
  simp only [bind, EStateM.bind]
  cases x s <;> simp [and_assoc]

theorem lift_eq_ok_iff {x : Except Error α} {a : α} {t : σ} :
    (liftM x : EStateM Error σ α) s = .ok a t ↔ x = .ok a ∧ s = t := by
  cases x with
  | ok found =>
    change EStateM.Result.ok found s = _ ↔ _
    simp
  | error e =>
    change EStateM.Result.error e s = _ ↔ _
    simp

namespace Bus

variable {σ ι α : Type} {bus later : Bus σ ι} {a : α} {returns : α → Bus σ ι → Prop}
  {fails : Bus σ ι → Prop}

theorem ensures_ask {question : Registry ι → Except Error α} :
    Ensures (ask question) bus returns fails ↔
      (∀ a, question bus.registry = .ok a → returns a bus) ∧
        ∀ e, question bus.registry = .error e → fails bus := by
  rw [ask, ensures_bind, ensures_get, ensures_lift]

theorem ask_eq_ok_iff {question : Registry ι → Except Error α} :
    ask question bus = .ok a later ↔ question bus.registry = .ok a ∧ bus = later := by
  rw [ask, seq_eq_ok_iff]
  constructor
  · rintro ⟨_, _, hget, hend⟩
    cases hget
    exact lift_eq_ok_iff.1 hend
  · exact fun hend => ⟨bus, bus, rfl, lift_eq_ok_iff.2 hend⟩

theorem onRegistry_eq_ok_iff {operation : RegistryM ι α} :
    onRegistry operation bus = .ok a later ↔
      ∃ registry, operation bus.registry = .ok a registry ∧ { bus with registry } = later := by
  rw [onRegistry]
  cases operation bus.registry <;> simp [and_assoc]

theorem ensures_onRegistry {operation : RegistryM ι α} :
    Ensures (onRegistry operation) bus returns fails ↔ Ensures operation bus.registry
      (fun a registry => returns a { bus with registry })
      fun registry => fails { bus with registry } := by
  simp only [Ensures, onRegistry]
  cases operation bus.registry <;> rfl

theorem ensures_call [Platform σ ι] {request : Call ι} {returns : request.Reply → Bus σ ι → Prop} :
    Ensures (call request) bus returns fails ↔
      returns (Platform.respond request bus.platform).1
        { bus with platform := (Platform.respond request bus.platform).2 } :=
  Iff.rfl

end Bus

end DeviceTree

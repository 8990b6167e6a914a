import DeviceTree.Proofs.Bus.Claims

/-!
# Platforms that keep to a rule

What a platform replies may change with every call. A rule that all replies follow, however the
platform is called from now on, is kept by an operation that claims an entry, and such an operation
leaves the devices alone; so what follows from the rule can be said again of the next operation.
-/
namespace DeviceTree

variable {σ ι : Type} [Platform σ ι] {P : Event ι → Prop} {s : σ}

namespace Platform

def afterCalls (calls : List (Call ι)) (s : σ) : σ :=
  calls.foldl (fun s call => (respond call s).2) s

/-- Whatever is called, and after whatever calls, the reply follows the rule `P`. -/
def Obeys (P : Event ι → Prop) (s : σ) : Prop :=
  ∀ calls call, P ⟨call, (respond call (afterCalls calls s)).1⟩

theorem Obeys.reply (h : Obeys P s) (call : Call ι) : P ⟨call, (respond call s).1⟩ :=
  h [] call

theorem Obeys.next (h : Obeys P s) (call : Call ι) : Obeys P (respond call s).2 :=
  fun calls => h (call :: calls)

/-- A rule is kept if all states that are met follow it. -/
theorem obeys_of_invariant (I : σ → Prop) (hnext : ∀ s call, I s → I (respond call s).2)
    (hreply : ∀ s call, I s → P ⟨call, (respond call s).1⟩) (hs : I s) : Obeys P s := by
  intro calls
  induction calls generalizing s with
  | nil => exact fun call => hreply s call hs
  | cons call calls ih => exact ih (hnext s call hs)

theorem Obeys.recorded (h : Obeys P s) (log : List (Event ι)) :
    Obeys P ({ inner := s, log } : Recorded σ ι) :=
  obeys_of_invariant (fun recorded : Recorded σ ι => Obeys P recorded.inner)
    (fun _ call hinner => hinner.next call) (fun _ call hinner => hinner.reply call) h

end Platform

namespace Event

/-- Memory that is claimed may be refused, but not as if it were not found. -/
def ClaimFound : Event ι → Prop
  | ⟨.claim _, reply⟩ => reply ≠ .error .notFound
  | _ => True

end Event

namespace Simulated

open Platform (Obeys)

theorem refused_respond (s : Simulated) (call : Call FileNumber) :
    (Platform.respond call s).2.refusedClaims = s.refusedClaims ∧
      (Platform.respond call s).2.refusedDrivers = s.refusedDrivers := by
  cases call with
  | read space width address =>
    change (if space = .cpu then s.settle address else s).refusedClaims = _ ∧
      (if space = .cpu then s.settle address else s).refusedDrivers = _
    split <;> exact ⟨rfl, rfl⟩
  | write space width address value =>
    simp only [Platform.respond, respond]
    cases (s.file space).write address value with
    | error e => exact ⟨rfl, rfl⟩
    | ok file => cases space <;> exact ⟨rfl, rfl⟩
  | claim c | connect h n name | stall microseconds => exact ⟨rfl, rfl⟩

theorem obeys_claimFound (s : Simulated) : Obeys Event.ClaimFound s := by
  refine Platform.obeys_of_invariant (fun _ => True) (fun _ _ _ => trivial) (fun s call _ => ?_)
    trivial
  cases call with
  | claim c =>
    change (if c.base ∈ s.refusedClaims then (.error .outOfResources : Except Error Unit)
      else .ok ()) ≠ .error .notFound
    split
    · exact error_ne_error (by simp)
    · exact ok_ne_error
  | read | write | connect | stall => exact trivial

end Simulated

namespace Bus

open Platform (Obeys)

variable {α : Type} {bus later last : Bus σ ι}

/-- The devices are the same, and the platform keeps to the rules that it kept to. -/
structure Steady (bus later : Bus σ ι) : Prop where
  registry : later.registry = bus.registry
  obeys : ∀ P, Obeys P bus.platform → Obeys P later.platform

theorem Steady.refl (bus : Bus σ ι) : Steady bus bus :=
  ⟨rfl, fun _ => id⟩

theorem Steady.trans (h : Steady bus later) (hlast : Steady later last) : Steady bus last :=
  ⟨hlast.registry.trans h.registry, fun P hP => hlast.obeys P (h.obeys P hP)⟩

/-- Whatever is asked about an entry, it is claimed at most. -/
theorem steady_settle (read : EntryRead α) :
    Ensures (settle read) bus (fun answer later => answer = (read.value, read.cursor) ∧
      Steady bus later) (Steady bus) := by
  rw [settle]
  cases read.claim? with
  | none => exact ⟨rfl, .refl bus⟩
  | some c =>
    rw [ensures_bind, claim, ensures_bind, ensures_call, ensures_lift]
    have hcalled : Steady bus
        { bus with platform := (Platform.respond (.claim c) bus.platform).2 } :=
      ⟨rfl, fun _ hP => hP.next _⟩
    exact ⟨fun _ _ => ⟨rfl, hcalled⟩, fun _ _ => hcalled⟩

theorem settle_eq_error {read : EntryRead α} {e : Error} (h : settle read bus = .error e later) :
    ∃ c, read.claim? = some c ∧ (Platform.respond (.claim c) bus.platform).1 = .error e := by
  rw [settle] at h
  cases hclaim : read.claim? with
  | none =>
    rw [hclaim] at h
    cases h
  | some c =>
    refine ⟨c, rfl, ?_⟩
    simp only [hclaim, bind, EStateM.bind, claim_eq] at h
    cases hreply : (Platform.respond (.claim c) bus.platform).1 with
    | ok _ =>
      rw [hreply] at h
      cases h
    | error refused =>
      rw [hreply] at h
      cases h
      rfl

end Bus

end DeviceTree

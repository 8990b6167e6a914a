import DeviceTree.Machine.Entry
import DeviceTree.Proofs.Bus.Claims
import DeviceTree.Proofs.Bus.Descriptions
import DeviceTree.Proofs.Bus.Mapping
import DeviceTree.Proofs.Machine.Tape

/-!
# Runs of a cursor

Whatever is done with a cursor on a machine, in whatever order and with whatever counts, ends: no
step traps, and no position leaves the value. An operation that reads in several steps may fail
after any of them, also for reasons that lie with the bus or the platform, and has then gone on by
what it had read; but all of them put the position back. What such an operation does to the bus
stays done.
-/
namespace DeviceTree

variable {σ ι α β : Type}

namespace InPlace

section Taking

variable {question : Registry ι → Except Error α} {reader : Reader α}

private theorem taking_ask (parse : α → Cursor → BusM σ ι (β × Cursor)) :
    taking (fun c => Bus.ask question >>= fun a => parse a c) =
      onBus (Bus.ask question) >>= fun a => taking (parse a) := by
  funext ⟨bus, cursor⟩
  simp only [taking, onBus, Bind.bind, EStateM.bind, ask_apply]
  cases question bus.registry <;> rfl

/-- What is read in front of all else is read in place. -/
theorem taking_read (body : α → BusM σ ι β) :
    taking (fun c => do
      let first ← reader c
      return (← body first.1, first.2)) = restoring (read reader >>= fun a => onBus (body a)) := by
  funext ⟨bus, cursor⟩
  simp only [taking, restoring, read, onBus, Bind.bind, EStateM.bind]
  cases reader cursor with
  | error e => rfl
  | ok first =>
    have hlift : (liftM (Except.ok first : Except Error _) : BusM σ ι _) bus = .ok first bus := rfl
    simp only [hlift]
    cases body first.1 bus <;> rfl

private theorem taking_lift (reader : Reader α) :
    taking (fun c => (reader c : BusM σ ι (α × Cursor))) = read reader := by
  funext ⟨bus, cursor⟩
  simp only [taking, read]
  cases reader cursor <;> rfl

theorem taking_map (parse : Cursor → BusM σ ι (α × Cursor)) (f : α → β) :
    taking (fun c => do
      let (a, moved) ← parse c
      return (f a, moved)) = taking parse >>= fun a => pure (f a) := by
  funext ⟨bus, cursor⟩
  simp only [taking, Bind.bind, EStateM.bind]
  cases parse cursor bus <;> rfl

end Taking

variable [Platform σ ι]

theorem parseDevice_eq (h : Handle) (index : Nat) :
    (parseDevice h index : InPlace σ ι Handle) = taking (Bus.parseDevice h · index) :=
  ((taking_ask _).trans (bind_congr fun _ => taking_read Bus.follow)).symm

end InPlace

namespace TapeM

variable {index width : Nat}

/-- A first part that leaves the tape alone may be done without. -/
theorem Follows.of_answer {first : TapeM σ β} {next : β → TapeM σ α} {answer : Cursor → β}
    {read : Reader α} (readFrom : Cursor → Reader α)
    (hfirst : ∀ rest (c : Cursor), first.Ends (rest, c.tape) (.ok (answer c)) (rest, c.tape))
    (hread : ∀ c, read c = readFrom c c) (h : ∀ c, Follows (next (answer c)) (readFrom c)) :
    Follows (first >>= next) read := by
  intro rest c hc
  obtain ⟨hok, herror⟩ := h c rest c hc
  rw [hread c]
  constructor
  · intro a moved hend
    obtain ⟨hahead, hends⟩ := hok a moved hend
    exact ⟨hahead, (hfirst rest c).bind hends⟩
  · intro e hend
    obtain ⟨left, hleft, hends⟩ := herror e hend
    exact ⟨left, hleft, (hfirst rest c).bind hends⟩

theorem Follows.tape {next : Tape → TapeM σ α} {read : Cursor → Reader α}
    (h : ∀ c : Cursor, Follows (next c.tape) (read c)) : Follows (tape >>= next) (get >>= read) :=
  .of_answer read (fun _ _ => ends_tape) (fun _ => rfl) h

theorem Follows.lift {m : Machine β} {b : β} {next : β → TapeM σ α} {read : Reader α}
    (hm : m = pure b) (h : Follows (next b) read) : Follows (liftM m >>= next) read :=
  .of_answer (fun _ => read) (fun _ _ => ends_lift hm) (fun _ => rfl) fun _ => h

private theorem skipElements_zero (index : Nat) : Cursor.skipElements index 0 = pure () := by
  funext c
  exact (Cursor.reads_skipElements index 0 c () c).2 ⟨trivial, rfl, rfl, rfl, by simp⟩

theorem follows_seekEntry (index : Nat) (hwidth : width < UInt32.size) :
    Follows (seekEntry index width : TapeM σ Nat) (Cursor.seekEntry index width) := by
  have hbytes : Machine.mul width Cell.size = pure (width * Cell.size) :=
    Machine.mul_eq (by simp only [UInt32.size, UInt64.size, Cell.size] at *; omega)
  refine .lift hbytes ?_
  rw [Cursor.seekEntry]
  by_cases hzero : width = 0
  · subst hzero
    have hskip := (attempts_skipElements (σ := σ) index 0).follows.map fun _ => index
    rwa [skipElements_zero, pure_bind] at hskip
  · rw [if_neg (Nat.mul_ne_zero hzero (by decide)), if_neg hzero]
    refine .tape fun c => ?_
    change Follows (if c.position % (width * Cell.size) ≠ 0 then _ else _) _
    split
    · exact (follows_throw _).bind fun _ => (attempts_skipElements index width).follows.bind
        fun _ => .tape fun _ => follows_pure _
    · exact (attempts_skipElements index width).follows.bind
        fun _ => .tape fun _ => follows_pure _

section OnBus

variable {bus : Bus σ ι} {step : TapeM (Bus σ ι) α} {x : InPlace σ ι α}
  {f : α → TapeM (Bus σ ι) β} {g : α → InPlace σ ι β} {reader : Reader α}
  {question : Registry ι → Except Error α}

/-- From `bus` on, the step ends as `x` does and leaves the same bus. If it fails, it may have gone
on. -/
def FollowsOn (bus : Bus σ ι) (step : TapeM (Bus σ ι) α) (x : InPlace σ ι α) : Prop :=
  ∀ c : Cursor, c.Countable →
    (∀ a next moved, x (bus, c) = .ok a (next, moved) →
      c.Ahead moved ∧ step.Ends (bus, c.tape) (.ok a) (next, moved.tape)) ∧
    ∀ e next last, x (bus, c) = .error e (next, last) →
      ∃ left, c.Ahead left ∧ step.Ends (bus, c.tape) (.error e) (next, left.tape)

/-- From `bus` on, the step ends as `x` does and leaves the same bus. If it fails, it has not gone
on. -/
def AttemptsOn (bus : Bus σ ι) (step : TapeM (Bus σ ι) α) (x : InPlace σ ι α) : Prop :=
  ∀ c : Cursor, c.Countable →
    (∀ a next moved, x (bus, c) = .ok a (next, moved) →
      c.Ahead moved ∧ step.Ends (bus, c.tape) (.ok a) (next, moved.tape)) ∧
    ∀ e next last, x (bus, c) = .error e (next, last) →
      last = c ∧ step.Ends (bus, c.tape) (.error e) (next, c.tape)

private theorem ends_onBus_ok {y : BusM σ ι α} {a : α} {next : Bus σ ι} {t : Tape}
    (h : y bus = .ok a next) : Ends (onBus y) (bus, t) (.ok a) (next, t) := by
  rw [Ends, onBus, ExceptT.run_mk, StateT.run]
  simp only [h]

private theorem ends_onBus_error {y : BusM σ ι α} {e : Error} {next : Bus σ ι} {t : Tape}
    (h : y bus = .error e next) : Ends (onBus y) (bus, t) (.error e) (next, t) := by
  rw [Ends, onBus, ExceptT.run_mk, StateT.run]
  simp only [h]

theorem FollowsOn.bind (h : FollowsOn bus step x)
    (hnext : ∀ a c next moved, x (bus, c) = .ok a (next, moved) → FollowsOn next (f a) (g a)) :
    FollowsOn bus (step >>= f) (x >>= g) := by
  intro c hc
  obtain ⟨hok, herror⟩ := h c hc
  constructor
  · intro b later last hend
    simp only [Bind.bind, EStateM.bind] at hend
    cases hfirst : x (bus, c) with
    | error e s => simp [hfirst] at hend
    | ok a s =>
      obtain ⟨next, moved⟩ := s
      rw [hfirst] at hend
      obtain ⟨hmoved, hends⟩ := hok a next moved hfirst
      obtain ⟨hlast, hrest⟩ := (hnext a c next moved hfirst moved (hmoved.countable hc)).1 b later
        last hend
      exact ⟨hmoved.trans hlast, hends.bind hrest⟩
  · intro e later last hend
    simp only [Bind.bind, EStateM.bind] at hend
    cases hfirst : x (bus, c) with
    | error e' s =>
      rw [hfirst] at hend
      cases hend
      obtain ⟨left, hleft, hends⟩ := herror _ _ _ hfirst
      exact ⟨left, hleft, hends.bind_error⟩
    | ok a s =>
      obtain ⟨next, moved⟩ := s
      rw [hfirst] at hend
      obtain ⟨hmoved, hends⟩ := hok a next moved hfirst
      obtain ⟨left, hleft, hrest⟩ := (hnext a c next moved hfirst moved (hmoved.countable hc)).2 e
        later last hend
      exact ⟨left, hmoved.trans hleft, hends.bind hrest⟩

theorem AttemptsOn.followsOn (h : AttemptsOn bus step x) : FollowsOn bus step x := by
  intro c hc
  obtain ⟨hok, herror⟩ := h c hc
  refine ⟨hok, fun e next last hend => ?_⟩
  obtain ⟨-, hends⟩ := herror e next last hend
  exact ⟨c, .refl c, hends⟩

/-- It is enough to see how the step ends from each cursor. -/
theorem attemptsOn_of_end (h : ∀ c : Cursor, c.Countable →
    (∃ a next moved, x (bus, c) = .ok a (next, moved) ∧ c.Ahead moved ∧
      step.Ends (bus, c.tape) (.ok a) (next, moved.tape)) ∨
    ∃ e next, x (bus, c) = .error e (next, c) ∧
      step.Ends (bus, c.tape) (.error e) (next, c.tape)) : AttemptsOn bus step x := by
  intro c hc
  rcases h c hc with ⟨a, next, moved, hx, hahead, hends⟩ | ⟨e, next, hx, hends⟩
  · rw [hx]
    refine ⟨fun a' next' moved' hend => ?_, fun e next' last hend => by cases hend⟩
    cases hend
    exact ⟨hahead, hends⟩
  · rw [hx]
    refine ⟨fun a next' moved hend => (by cases hend), fun e' next' last hend => ?_⟩
    cases hend
    exact ⟨rfl, hends⟩

theorem attemptsOn_read (h : Attempts step reader) :
    AttemptsOn bus step (InPlace.read reader) := by
  refine attemptsOn_of_end fun c hc => ?_
  obtain ⟨hahead, hends⟩ := h bus c hc
  rw [Cursor.attempt] at hahead hends
  cases hread : reader c with
  | ok first =>
    rw [hread] at hahead hends
    exact .inl ⟨first.1, bus, first.2, by simp only [InPlace.read, hread], hahead, hends⟩
  | error e =>
    rw [hread] at hends
    exact .inr ⟨e, bus, by simp only [InPlace.read, hread], hends⟩

theorem followsOn_read (h : Follows step reader) : FollowsOn bus step (InPlace.read reader) := by
  intro c hc
  obtain ⟨hok, herror⟩ := h bus c hc
  simp only [InPlace.read]
  cases hread : reader c with
  | ok first =>
    refine ⟨fun a next moved hend => ?_, fun e next last hend => by cases hend⟩
    cases hend
    exact hok _ _ hread
  | error e =>
    refine ⟨fun a next moved hend => (by cases hend), fun e next last hend => ?_⟩
    cases hend
    exact herror _ hread

theorem attemptsOn_onBus (y : BusM σ ι α) : AttemptsOn bus (onBus y) (InPlace.onBus y) := by
  refine attemptsOn_of_end fun c _ => ?_
  cases hend : y bus with
  | ok a next =>
    exact .inl ⟨a, next, c, by simp only [InPlace.onBus, hend], .refl c, ends_onBus_ok hend⟩
  | error e next =>
    exact .inr ⟨e, next, by simp only [InPlace.onBus, hend], ends_onBus_error hend⟩

theorem FollowsOn.restoring (h : FollowsOn bus step x) :
    AttemptsOn bus (restoring step) (InPlace.restoring x) := by
  refine attemptsOn_of_end fun c hc => ?_
  obtain ⟨hok, herror⟩ := h c hc
  cases hend : x (bus, c) with
  | ok a s =>
    obtain ⟨hahead, hends⟩ := hok a s.1 s.2 hend
    exact .inl ⟨a, s.1, s.2, by simp only [InPlace.restoring, hend]; rfl, hahead,
      hends.restoring_ok⟩
  | error e s =>
    obtain ⟨left, hleft, hends⟩ := herror e s.1 s.2 hend
    have hback := hends.restoring_error
    rw [show (bus, c.tape).2.position = c.position from rfl, hleft.tape_eq] at hback
    exact .inr ⟨e, s.1, by simp only [InPlace.restoring, hend]; rfl, hback⟩

theorem AttemptsOn.map (h : AttemptsOn bus step x) (f : α → β) :
    AttemptsOn bus (step >>= fun a => pure (f a)) (x >>= fun a => pure (f a)) := by
  refine attemptsOn_of_end fun c hc => ?_
  obtain ⟨hok, herror⟩ := h c hc
  cases hend : x (bus, c) with
  | ok a s =>
    obtain ⟨hahead, hends⟩ := hok a s.1 s.2 hend
    exact .inl ⟨f a, s.1, s.2, by simp only [Bind.bind, EStateM.bind, hend]; rfl, hahead,
      hends.bind ends_pure⟩
  | error e s =>
    obtain ⟨hlast, hends⟩ := herror e s.1 s.2 hend
    have hsame : s = (s.1, c) := by rw [← hlast]
    exact .inr ⟨e, s.1, by simp only [Bind.bind, EStateM.bind, hend, ← hsame], hends.bind_error⟩

theorem AttemptsOn.of_answer {first : TapeM (Bus σ ι) β} {next : β → TapeM (Bus σ ι) α}
    {answer : Cursor → β} (g : Cursor → InPlace σ ι α)
    (hfirst : ∀ c : Cursor, first.Ends (bus, c.tape) (.ok (answer c)) (bus, c.tape))
    (hx : ∀ c, x (bus, c) = g c (bus, c)) (h : ∀ c, AttemptsOn bus (next (answer c)) (g c)) :
    AttemptsOn bus (first >>= next) x := by
  intro c hc
  obtain ⟨hok, herror⟩ := h c c hc
  rw [hx c]
  constructor
  · intro a later moved hend
    obtain ⟨hahead, hends⟩ := hok a later moved hend
    exact ⟨hahead, (hfirst c).bind hends⟩
  · intro e later last hend
    obtain ⟨hlast, hends⟩ := herror e later last hend
    exact ⟨hlast, (hfirst c).bind hends⟩

theorem AttemptsOn.name {next : String → TapeM (Bus σ ι) α} {g : String → InPlace σ ι α}
    (h : ∀ name, AttemptsOn bus (next name) (g name)) :
    AttemptsOn bus (MovesCursor.name >>= next) (MovesCursor.name >>= g) :=
  .of_answer (fun c => g c.name) (fun _ => ends_tape.bind ends_pure) (fun _ => rfl) fun c =>
    h c.name

theorem AttemptsOn.ask (h : ∀ a, question bus.registry = .ok a → AttemptsOn bus (f a) (g a)) :
    AttemptsOn bus (onBus (Bus.ask question) >>= f) (InPlace.onBus (Bus.ask question) >>= g) := by
  have hask : (Bus.ask question : BusM σ ι α) bus = _ := InPlace.ask_apply
  cases hquestion : question bus.registry with
  | ok a =>
    simp only [hquestion] at hask
    refine .of_answer (fun _ => g a) (fun _ => ends_onBus_ok hask) (fun c => ?_) fun _ =>
      h a hquestion
    simp only [Bind.bind, EStateM.bind, InPlace.onBus, hask]
  | error e =>
    simp only [hquestion] at hask
    refine attemptsOn_of_end fun c _ => .inr ⟨e, bus, ?_, (ends_onBus_error hask).bind_error⟩
    simp only [Bind.bind, EStateM.bind, InPlace.onBus, hask]

theorem FollowsOn.ask (h : ∀ a, question bus.registry = .ok a → FollowsOn bus (f a) (g a)) :
    FollowsOn bus (onBus (Bus.ask question) >>= f) (InPlace.onBus (Bus.ask question) >>= g) := by
  refine (attemptsOn_onBus _).followsOn.bind fun a c next moved hend => ?_
  simp only [InPlace.onBus, InPlace.ask_apply] at hend
  cases hquestion : question bus.registry with
  | ok a =>
    rw [hquestion] at hend
    cases hend
    exact h a hquestion
  | error e =>
    rw [hquestion] at hend
    cases hend

theorem FollowsOn.read {next : α → TapeM (Bus σ ι) β} (h : Follows step reader)
    (hnext : ∀ a, FollowsOn bus (next a) (g a)) :
    FollowsOn bus (step >>= next) (InPlace.read reader >>= g) := by
  refine (followsOn_read h).bind fun a c later moved hend => ?_
  simp only [InPlace.read] at hend
  cases hread : reader c with
  | ok first =>
    rw [hread] at hend
    cases hend
    exact hnext _
  | error e =>
    rw [hread] at hend
    cases hend

theorem followsOn_pure (a : α) : FollowsOn bus (pure a) (pure a) := by
  intro c _
  refine ⟨fun b next moved hend => ?_, fun e next last hend => by cases hend⟩
  cases hend
  exact ⟨.refl c, ends_pure⟩

theorem FollowsOn.of_answer {first : TapeM (Bus σ ι) β} {b : β} {next : β → TapeM (Bus σ ι) α}
    (hfirst : ∀ c : Cursor, first.Ends (bus, c.tape) (.ok b) (bus, c.tape))
    (h : FollowsOn bus (next b) x) : FollowsOn bus (first >>= next) x := by
  intro c hc
  obtain ⟨hok, herror⟩ := h c hc
  refine ⟨fun a later moved hend => ?_, fun e later last hend => ?_⟩
  · obtain ⟨hahead, hends⟩ := hok a later moved hend
    exact ⟨hahead, (hfirst c).bind hends⟩
  · obtain ⟨left, hleft, hends⟩ := herror e later last hend
    exact ⟨left, hleft, (hfirst c).bind hends⟩

section Widths

variable {cells : Cells} (hcells : cells.Decodable) {s : Bus σ ι × Tape}

include hcells

/-- Counts that are decoded are added without a trap. -/
theorem ends_regWidth : (regWidth cells).Ends s (.ok cells.regWidth) s := by
  have hlt := hcells.regWidth_lt
  have hadd : Machine.addCells cells.address cells.size = pure _ := if_pos hlt
  have hwidth : (cells.address + cells.size).toNat = cells.regWidth := by
    rw [UInt32.toNat_add]
    exact Nat.mod_eq_of_lt hlt
  rw [← hwidth]
  exact (ends_lift hadd).bind ends_pure

private theorem ends_rangeWidth : (rangeWidth cells).Ends s (.ok cells.rangeWidth) s := by
  have hlt := hcells.rangeWidth_lt
  rw [Cells.rangeWidth] at hlt
  have hsides : (cells.childAddress + cells.address).toNat =
      cells.childAddress.toNat + cells.address.toNat := by
    rw [UInt32.toNat_add]
    exact Nat.mod_eq_of_lt (Nat.lt_of_le_of_lt (Nat.le_add_right _ _) hlt)
  have hadd : Machine.addCells cells.childAddress cells.address = pure _ :=
    if_pos (Nat.lt_of_le_of_lt (Nat.le_add_right _ _) hlt)
  rw [← hsides] at hlt
  have hmore : Machine.addCells (cells.childAddress + cells.address) cells.childSize = pure _ :=
    if_pos hlt
  have hwidth : (cells.childAddress + cells.address + cells.childSize).toNat =
      cells.rangeWidth := by
    rw [UInt32.toNat_add, Cells.rangeWidth, ← hsides]
    exact Nat.mod_eq_of_lt hlt
  rw [← hwidth]
  exact (ends_lift hadd).bind ((ends_lift hmore).bind ends_pure)

theorem FollowsOn.regWidth {next : Nat → TapeM (Bus σ ι) α} {g : Nat → InPlace σ ι α}
    (h : FollowsOn bus (next cells.regWidth) (g cells.regWidth)) :
    FollowsOn bus (MovesCursor.regWidth cells >>= next) (MovesCursor.regWidth cells >>= g) :=
  .of_answer (fun _ => ends_regWidth hcells) h

theorem FollowsOn.rangeWidth {next : Nat → TapeM (Bus σ ι) α} {g : Nat → InPlace σ ι α}
    (h : FollowsOn bus (next cells.rangeWidth) (g cells.rangeWidth)) :
    FollowsOn bus (MovesCursor.rangeWidth cells >>= next) (MovesCursor.rangeWidth cells >>= g) :=
  .of_answer (fun _ => ends_rangeWidth hcells) h

end Widths

variable [Platform σ ι]

theorem followsOn_claimReached (n : Node) (kindProperty : String) (place : Nat)
    (location : Location) (length : Nat) :
    FollowsOn bus (MovesCursor.claimReached n kindProperty place location length)
      (MovesCursor.claimReached n kindProperty place location length) := by
  unfold MovesCursor.claimReached
  split
  · exact .ask fun kind _ => (attemptsOn_onBus _).followsOn
  · exact followsOn_pure _

theorem attemptsOn_parseReg (htrue : bus.registry.Truthful) (h : Handle) (index : Nat) :
    AttemptsOn bus (parseReg h index) (InPlace.parseReg h index) := by
  refine .ask fun device hdevice => FollowsOn.restoring ?_
  have hcells := (htrue h device (Registry.device_eq_ok_iff.1 hdevice)).decodable
  exact .regWidth hcells <| .read (follows_seekEntry index hcells.regWidth_lt) fun place =>
    .read (follows_readAddress 0 _) fun base => .read (follows_readElement 0 _) fun length =>
      .ask fun location _ => (followsOn_claimReached _ _ _ _ _).bind fun _ _ _ _ _ =>
        followsOn_pure _

theorem attemptsOn_parseRange (htrue : bus.registry.Truthful) (h : Handle) (index : Nat) :
    AttemptsOn bus (parseRange h index) (InPlace.parseRange h index) := by
  refine .ask fun device hdevice => .name fun name => FollowsOn.restoring ?_
  have hcells := (htrue h device (Registry.device_eq_ok_iff.1 hdevice)).decodable
  refine .rangeWidth hcells <| .read (follows_seekEntry index hcells.rangeWidth_lt) fun place =>
    .read (follows_readAddress 0 _) fun childBase =>
      .read (follows_readAddress 0 _) fun parentBase =>
        .read (follows_readElement 0 _) fun length => .ask fun location _ => ?_
  dsimp only
  split
  · exact (followsOn_claimReached _ _ _ _ _).bind fun _ _ _ _ _ => followsOn_pure _
  · exact followsOn_pure _

theorem attemptsOn_parseDevice (h : Handle) (index : Nat) :
    AttemptsOn bus (parseDevice h index) (InPlace.parseDevice h index) :=
  .ask fun _ _ => FollowsOn.restoring (.read (follows_elementU32 index) fun _ =>
    (attemptsOn_onBus _).followsOn)

theorem attemptsOn_parseElement (htrue : bus.registry.Truthful) (h : Handle) (type : ElementType)
    (index : Nat) :
    AttemptsOn bus (parseElement h type index)
      (InPlace.taking (Bus.parseElement h · type index)) := by
  have hplain : AttemptsOn bus
      (do
        let device ← onBus (Bus.ask (·.device h))
        decode type index device.cells)
      (InPlace.taking fun c => do
        let device ← Bus.ask (·.device h)
        (Cursor.decode type index device.cells c : BusM σ ι _)) := by
    rw [InPlace.taking_ask fun device c => _]
    refine .ask fun device _ => ?_
    rw [InPlace.taking_lift]
    exact attemptsOn_read (attempts_decode type index device.cells)
  cases type with
  | device =>
    have hparse : AttemptsOn bus _ _ := (attemptsOn_parseDevice h index).map Element.device
    rwa [InPlace.parseDevice_eq, ← InPlace.taking_map] at hparse
  | reg =>
    have hparse := (attemptsOn_parseReg htrue h index).map Element.reg
    rwa [InPlace.parseReg_eq, ← InPlace.taking_map] at hparse
  | range =>
    have hparse := (attemptsOn_parseRange htrue h index).map Element.range
    rwa [InPlace.parseRange_eq, ← InPlace.taking_map] at hparse
  | u32 | u64 | u128 | busAddress | childBusAddress | size | childSize | string => exact hplain

end OnBus

end TapeM

/-- What a computation leaves, whether it succeeds or fails. -/
def leftBy {σ α : Type} (x : EStateM Error σ α) (s : σ) : σ :=
  match x s with
  | .ok _ t => t
  | .error _ t => t

section LeftBy

variable {bus : Bus σ ι} {c : Cursor}

private theorem Operation.after_eq [Platform σ ι] (op : Operation σ ι) (bus : Bus σ ι) :
    op.after bus = leftBy op.perform bus := by
  rw [after, leftBy]
  cases op.perform bus <;> rfl

private theorem leftBy_read (reader : Reader α) :
    (leftBy (InPlace.read reader : InPlace σ ι α) (bus, c)).1 = bus := by
  simp only [leftBy, InPlace.read]
  cases reader c <;> rfl

private theorem leftBy_onBus (x : BusM σ ι α) :
    (leftBy (InPlace.onBus x) (bus, c)).1 = leftBy x bus := by
  simp only [leftBy, InPlace.onBus]
  cases x bus <;> rfl

theorem leftBy_taking (parse : Cursor → BusM σ ι (α × Cursor)) :
    (leftBy (InPlace.taking parse) (bus, c)).1 = leftBy (parse c) bus := by
  simp only [leftBy, InPlace.taking]
  cases parse c bus <;> rfl

end LeftBy

namespace CursorOperation

variable [Platform σ ι] {b : Blob} {bus : Bus σ ι} {c : Cursor} {op : CursorOperation σ ι}

def outcome (op : CursorOperation σ ι) (s : Bus σ ι × Cursor) : Except Error op.Answer :=
  match op.perform s with
  | .ok a _ => .ok a
  | .error e _ => .error e

/-- The bus and the cursor that an operation leaves, whether it succeeds or fails. -/
def after (op : CursorOperation σ ι) (s : Bus σ ι × Cursor) : Bus σ ι × Cursor :=
  leftBy op.perform s

def afterAll (ops : List (CursorOperation σ ι)) (s : Bus σ ι × Cursor) : Bus σ ι × Cursor :=
  ops.foldl (fun s op => op.after s) s

/-- The operations that may leave the cursor further back. -/
def GoesBack : CursorOperation σ ι → Prop
  | rewind _ | reset => True
  | _ => False

/-- An operation on a machine ends as it is performed. It changes nothing of the cursor but the
position, and that only if it succeeds, and it goes on unless it is one to go back. -/
structure Disciplined (op : CursorOperation σ ι) (bus : Bus σ ι) (c : Cursor) : Prop where
  ends : op.steps.Ends (bus, c.tape) (op.outcome (bus, c))
    ((op.after (bus, c)).1, (op.after (bus, c)).2.tape)
  name : (op.after (bus, c)).2.name = c.name
  value : (op.after (bus, c)).2.value = c.value
  stays : ∀ e, op.outcome (bus, c) = .error e → (op.after (bus, c)).2 = c
  forward : ¬op.GoesBack → c.position ≤ (op.after (bus, c)).2.position

theorem disciplined_of_attemptsOn (h : TapeM.AttemptsOn bus op.steps op.perform)
    (hc : c.Countable) : op.Disciplined bus c := by
  obtain ⟨hok, herror⟩ := h c hc
  cases hend : op.perform (bus, c) with
  | ok a s =>
    obtain ⟨⟨count, hmoved⟩, hends⟩ := hok a s.1 s.2 hend
    have houtcome : op.outcome (bus, c) = .ok a := by rw [outcome, hend]
    have hafter : op.after (bus, c) = s := by rw [after, leftBy, hend]
    refine ⟨?_, ?_, ?_, ?_, fun _ => ?_⟩
    · rwa [houtcome, hafter]
    · rw [hafter, hmoved.name]
    · rw [hafter, hmoved.value]
    · simp [houtcome]
    · rw [hafter, hmoved.position]
      exact Nat.le_add_right _ _
  | error e s =>
    obtain ⟨hlast, hends⟩ := herror e s.1 s.2 hend
    have houtcome : op.outcome (bus, c) = .error e := by rw [outcome, hend]
    have hafter : op.after (bus, c) = s := by rw [after, leftBy, hend]
    refine ⟨?_, ?_, ?_, fun _ _ => ?_, fun _ => ?_⟩
    · rwa [houtcome, hafter, hlast]
    all_goals rw [hafter, hlast]

private theorem disciplined_rewind (position : Nat) :
    (rewind position : CursorOperation σ ι).Disciplined bus c := by
  have hends : TapeM.Ends _ (bus, c.tape) _ _ := TapeM.ends_rewind position
  have hread : (rewind position : CursorOperation σ ι).perform (bus, c) =
      InPlace.read (Cursor.rewind position) (bus, c) := rfl
  rw [Cursor.attempt] at hends
  by_cases hback : position ≤ c.position
  · have hmoved : Cursor.rewind position c = .ok ((), _) := dif_pos hback
    simp only [InPlace.read, hmoved] at hread
    rw [hmoved] at hends
    refine ⟨?_, ?_, ?_, ?_, fun h => absurd trivial h⟩
    · rwa [outcome, after, leftBy, hread]
    all_goals simp [outcome, after, leftBy, hread]
  · have hstays : Cursor.rewind position c = .error (.invalidParameter .rewindForward) :=
      dif_neg hback
    simp only [InPlace.read, hstays] at hread
    rw [hstays] at hends
    refine ⟨?_, ?_, ?_, ?_, fun h => absurd trivial h⟩
    · rwa [outcome, after, leftBy, hread]
    all_goals simp [after, leftBy, hread]

private theorem disciplined (htrue : bus.registry.Truthful) (op : CursorOperation σ ι)
    (hc : c.Countable) : op.Disciplined bus c := by
  cases op with
  | advance cells =>
    exact disciplined_of_attemptsOn (TapeM.attemptsOn_read (TapeM.attempts_advance cells)) hc
  | rewind position => exact disciplined_rewind position
  | reset => exact ⟨TapeM.ends_reset, rfl, rfl, nofun, fun h => absurd trivial h⟩
  | readCells cells =>
    exact disciplined_of_attemptsOn (TapeM.attemptsOn_read (TapeM.attempts_readCells cells)) hc
  | readU32 => exact disciplined_of_attemptsOn (TapeM.attemptsOn_read TapeM.attempts_readU32) hc
  | readU64 => exact disciplined_of_attemptsOn (TapeM.attemptsOn_read TapeM.attempts_readU64) hc
  | readUint cells =>
    exact disciplined_of_attemptsOn (TapeM.attemptsOn_read (TapeM.attempts_readUint cells)) hc
  | readString =>
    exact disciplined_of_attemptsOn (TapeM.attemptsOn_read TapeM.attempts_readString) hc
  | decode type index cells =>
    exact disciplined_of_attemptsOn
      (TapeM.attemptsOn_read (TapeM.attempts_decode type index cells)) hc
  | parseElement h type index =>
    exact disciplined_of_attemptsOn (TapeM.attemptsOn_parseElement htrue h type index) hc
  | parseDevice h index =>
    have hparse : TapeM.AttemptsOn bus _ _ := TapeM.attemptsOn_parseDevice h index
    rw [InPlace.parseDevice_eq] at hparse
    exact disciplined_of_attemptsOn hparse hc
  | parseReg h index =>
    have hparse := TapeM.attemptsOn_parseReg htrue h index
    rw [InPlace.parseReg_eq] at hparse
    exact disciplined_of_attemptsOn hparse hc
  | parseRange h index =>
    have hparse := TapeM.attemptsOn_parseRange htrue h index
    rw [InPlace.parseRange_eq] at hparse
    exact disciplined_of_attemptsOn hparse hc
  | elsewhere op => exact disciplined_of_attemptsOn (TapeM.attemptsOn_onBus _) hc

theorem later_leftBy (op : Operation σ ι) : Bus.Later bus (leftBy op.perform bus) :=
  .single ⟨op, op.after_eq bus⟩

/-- An operation on a cursor is one on the bus, or it leaves the bus alone. -/
theorem later_after (op : CursorOperation σ ι) (bus : Bus σ ι) (c : Cursor) :
    Bus.Later bus (op.after (bus, c)).1 := by
  have hread {α : Type} (reader : Reader α) :
      Bus.Later bus (leftBy (InPlace.read reader : InPlace σ ι α) (bus, c)).1 := by
    rw [leftBy_read]
    exact .refl
  cases op with
  | advance cells => exact hread (Cursor.advance cells)
  | rewind position => exact hread (Cursor.rewind position)
  | reset => exact .refl
  | readCells cells => exact hread (Cursor.readCells cells)
  | readU32 => exact hread Cursor.readU32
  | readU64 => exact hread Cursor.readU64
  | readUint cells => exact hread (Cursor.readUint cells)
  | readString => exact hread Cursor.readString
  | decode type index cells => exact hread (Cursor.decode type index cells)
  | parseElement h type index =>
    rw [after, perform, leftBy_taking]
    exact later_leftBy (.parseElement h c type index)
  | parseDevice h index =>
    rw [after, perform, leftBy_taking]
    exact later_leftBy (.parseDevice h c index)
  | parseReg h index =>
    rw [after, perform, leftBy_taking]
    exact later_leftBy (.parseReg h c index)
  | parseRange h index =>
    rw [after, perform, leftBy_taking]
    exact later_leftBy (.parseRange h c index)
  | elsewhere op =>
    rw [after, perform, leftBy_onBus]
    exact later_leftBy op

private theorem ends_stepAll (hbus : Bus.Reachable b bus) (hc : c.Countable)
    (ops : List (CursorOperation σ ι)) :
    (stepAll ops).Ends (bus, c.tape) (.ok ())
        ((afterAll ops (bus, c)).1, (afterAll ops (bus, c)).2.tape) ∧
      Bus.Reachable b (afterAll ops (bus, c)).1 ∧
      (afterAll ops (bus, c)).2.name = c.name ∧ (afterAll ops (bus, c)).2.value = c.value := by
  induction ops generalizing bus c with
  | nil => exact ⟨TapeM.ends_pure, hbus, rfl, rfl⟩
  | cons op ops ih =>
    have hop := disciplined hbus.truthful op hc
    have hnext : (op.after (bus, c)).2.Countable := by
      rw [Cursor.Countable, hop.value]
      exact hc
    obtain ⟨hends, hlater, hname, hvalue⟩ := ih (hbus.trans (later_after op bus c)) hnext
    exact ⟨hop.ends.trying.bind hends, hlater, hname.trans hop.name, hvalue.trans hop.value⟩

end CursorOperation

namespace Bus

variable [Platform σ ι] {b : Blob} {bus : Bus σ ι} {c : Cursor}

/-- After any operations, one after another, a cursor on a machine is one over the same value with a
position inside it, so what is left to read is defined. The next operation does what it is to do,
and it neither changes the value nor, if it fails, the position; it goes on, unless it is one to go
back. -/
theorem Reachable.cursor_discipline (hbus : Reachable b bus) (hc : c.Countable)
    (ops : List (CursorOperation σ ι)) (op : CursorOperation σ ι) :
    ∃ later here, CursorOperation.afterAll ops (bus, c) = (later, here) ∧
      (CursorOperation.stepAll ops).Ends (bus, c.tape) (.ok ()) (later, here.tape) ∧
      here.name = c.name ∧ here.value = c.value ∧ here.position ≤ c.value.length ∧
      TapeM.remaining.Ends (later, here.tape) (.ok here.remaining) (later, here.tape) ∧
      TapeM.remainingCells.Ends (later, here.tape) (.ok here.remainingCells)
        (later, here.tape) ∧
      op.Disciplined later here := by
  obtain ⟨hends, hlater, hname, hvalue⟩ := CursorOperation.ends_stepAll hbus hc ops
  have hcount : (CursorOperation.afterAll ops (bus, c)).2.Countable := by
    rwa [Cursor.Countable, hvalue]
  refine ⟨_, _, rfl, hends, hname, hvalue, ?_, TapeM.ends_remaining, TapeM.ends_remainingCells,
    CursorOperation.disciplined hlater.truthful op hcount⟩
  rw [← hvalue]
  exact Cursor.position_le _

/-- The cursor over the `reg` of the serial port is off an entry after one cell, and it is read
again from the front. -/
theorem cursor_discipline_bridge : ∃ bus : Bus (Recorded Simulated FileNumber) FileNumber,
    Reachable Tree.bridge.blob bus ∧ serialReg.Countable ∧ ∃ later here,
      CursorOperation.afterAll [.readU32, .parseReg ⟨2⟩ 0, .reset] (bus, serialReg) =
        (later, here) ∧ here.value = serialReg.value ∧ here.position ≤ serialReg.value.length ∧
      (CursorOperation.parseReg ⟨2⟩ 0).Disciplined later here := by
  obtain ⟨bus, hbus, -⟩ := exists_bridge
  have hc : serialReg.Countable := (by decide : serialReg.value.length < UInt64.size)
  obtain ⟨later, here, hafter, -, -, hvalue, hinside, -, -, hnext⟩ :=
    hbus.cursor_discipline hc [.readU32, .parseReg ⟨2⟩ 0, .reset] (.parseReg ⟨2⟩ 0)
  exact ⟨bus, hbus, hc, later, here, hafter, hvalue, hinside, hnext⟩

end Bus

end DeviceTree

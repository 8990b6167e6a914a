import DeviceTree.Proofs.Bus.Calls
import DeviceTree.Proofs.Bus.Reachable
import DeviceTree.Proofs.Machine.Access

/-!
# Polls keep to their time

What a poll calls is fixed before it starts: reads of one register with pauses between them, the
last pause cut short so that the last read comes when the timeout is over. The platform may answer
each read as it likes, and its answers say no more than after which of these reads the poll ends and
with what.
-/
namespace DeviceTree

open Bus (pollInterval)

variable {σ ι : Type}

namespace Call

def stall? : Call ι → Option Nat
  | stall microseconds => some microseconds
  | _ => none

def stalled (calls : List (Call ι)) : Nat :=
  (calls.filterMap stall?).foldr (· + ·) 0

theorem stalled_append (calls more : List (Call ι)) :
    stalled (calls ++ more) = stalled calls + stalled more := by
  simp only [stalled, List.filterMap_append, List.foldr_append]
  induction calls.filterMap stall? with
  | nil => exact (Nat.zero_add _).symm
  | cons pause pauses ih => simp only [List.foldr_cons, ih, Nat.add_assoc]

end Call

/-- What is asked of a register by polling it. -/
structure Poll (ι : Type) where
  space : AddressSpace ι
  width : Width
  address : Nat
  mask : UInt64
  expected : UInt64
  timeout : Nat

namespace Poll

section Schedule

variable (p : Poll ι) {k : Nat}

def read : Call ι :=
  .read p.space p.width p.address

/-- How long the poll waits between read `k` and the next one. -/
def pause (k : Nat) : Nat :=
  min pollInterval (p.timeout - pollInterval * k)

/-- How often the poll waits if it is not met: once for each interval, and for a part of one. -/
def pauses : Nat :=
  (p.timeout + (pollInterval - 1)) / pollInterval

/-- The calls before read `k`, counted from zero. -/
def callsBefore (k : Nat) : List (Call ι) :=
  (List.range k).flatMap fun i => [p.read, .stall (p.pause i)]

def callsThrough (k : Nat) : List (Call ι) :=
  p.callsBefore k ++ [p.read]

theorem callsBefore_succ (k : Nat) :
    p.callsBefore (k + 1) = p.callsBefore k ++ [p.read] ++ [.stall (p.pause k)] := by
  simp [callsBefore, List.range_succ]

theorem spent_iff : p.timeout - pollInterval * k = 0 ↔ p.pauses ≤ k := by
  simp only [pauses, pollInterval]
  omega

private theorem reads_callsBefore (k : Nat) :
    (p.callsBefore k).filter (·.stall?.isNone) = List.replicate k p.read := by
  induction k with
  | zero => rfl
  | succ k ih =>
    rw [callsBefore_succ, List.filter_append, List.filter_append, ih, List.replicate_succ']
    exact List.append_nil _

private theorem stalls_callsBefore (k : Nat) :
    (p.callsBefore k).filterMap Call.stall? = (List.range k).map p.pause := by
  induction k with
  | zero => rfl
  | succ k ih =>
    rw [callsBefore_succ, List.filterMap_append, List.filterMap_append, ih, List.range_succ,
      List.map_append]
    exact congrArg (· ++ [p.pause k]) (List.append_nil _)

private theorem stalled_callsBefore (k : Nat) :
    Call.stalled (p.callsBefore k) = min (pollInterval * k) p.timeout := by
  induction k with
  | zero => exact (Nat.zero_min _).symm
  | succ k ih =>
    have hturn : Call.stalled [p.read] + Call.stalled [Call.stall (ι := ι) (p.pause k)] =
        p.pause k := Nat.zero_add _
    rw [callsBefore_succ, Call.stalled_append, Call.stalled_append, ih, Nat.add_assoc, hturn]
    simp only [pause, pollInterval]
    omega

/-- Read `k` comes after `k` others and `k` pauses, none of which is longer than the interval; they
take that many intervals, or the timeout if that is less. -/
structure OnTime (k : Nat) : Prop where
  reads : (p.callsBefore k).filter (·.stall?.isNone) = List.replicate k p.read
  pauses : ((p.callsBefore k).filterMap Call.stall?).length = k
  positive : ∀ pause ∈ (p.callsBefore k).filterMap Call.stall?, 1 ≤ pause
  short : ∀ pause ∈ (p.callsBefore k).filterMap Call.stall?, pause ≤ pollInterval
  waited : Call.stalled (p.callsBefore k) = min (pollInterval * k) p.timeout

theorem onTime (hk : k ≤ p.pauses) : p.OnTime k := by
  have hpause : ∀ pause ∈ (p.callsBefore k).filterMap Call.stall?,
      1 ≤ pause ∧ pause ≤ pollInterval := by
    intro pause hpause
    rw [stalls_callsBefore] at hpause
    obtain ⟨i, hi, rfl⟩ := List.mem_map.1 hpause
    have hunspent : p.timeout - pollInterval * i ≠ 0 :=
      mt p.spent_iff.1 (by have := List.mem_range.1 hi; omega)
    simp only [Poll.pause, pollInterval] at *
    omega
  refine ⟨p.reads_callsBefore k, ?_, fun pause h => (hpause pause h).1,
    fun pause h => (hpause pause h).2, p.stalled_callsBefore k⟩
  rw [stalls_callsBefore, List.length_map, List.length_range]

private theorem stalled_of_spent : Call.stalled (p.callsBefore p.pauses) = p.timeout := by
  have hspent := p.spent_iff.2 (Nat.le_refl p.pauses)
  rw [stalled_callsBefore]
  omega

/-- A timeout that is no multiple of the interval ends with a shorter pause. -/
example : let p : Poll Unit := ⟨.cpu, .w32, 0x1008, 0xff, 5, 25⟩
    p.pauses = 3 ∧ p.callsThrough 3 =
      [p.read, .stall 10, p.read, .stall 10, p.read, .stall 5, p.read] := by
  decide

end Schedule

end Poll

theorem Bus.pollRegister_eq [Platform σ ι] {bus : Bus σ ι} {w : Window} {offset timeout : Nat}
    {width : Width} {mask expected : UInt64} :
    pollRegister w offset width mask expected timeout bus =
      match readRegister w offset width bus with
      | .error e next => .error e next
      | .ok value next =>
        if value &&& mask = expected then .ok value next
        else if timeout = 0 then .error .timeout next
        else pollRegister w offset width mask expected (timeout - pollInterval)
          (next.afterCalls [.stall (min pollInterval timeout)]) := by
  rw [pollRegister]
  simp only [bind, EStateM.bind]
  cases readRegister w offset width bus with
  | error e next => rfl
  | ok value next =>
    dsimp only
    split
    · rfl
    · split <;> rfl

namespace Poll

section End

variable [Platform σ ι] (p : Poll ι) (bus : Bus σ ι) {w : Window} {offset k : Nat}

/-- What read `k` is answered if the poll comes to it. -/
def answer (k : Nat) : Except Error UInt64 :=
  (Platform.respond p.read (bus.afterCalls (p.callsBefore k)).platform).1

/-- Read `k` is answered, but not with what the poll waits for. -/
def Misses (k : Nat) : Prop :=
  ∃ value, p.answer bus k = .ok value ∧ value &&& p.mask ≠ p.expected

/-- The poll ends with the first read that fails or is answered as expected, or with the last. -/
inductive Ends : EStateM.Result Error (Bus σ ι) UInt64 → Prop
  | failed {k : Nat} {e : Error} (inTime : k ≤ p.pauses) (missed : ∀ j < k, p.Misses bus j)
      (fails : p.answer bus k = .error e) : Ends (.error e (bus.afterCalls (p.callsThrough k)))
  | met {k : Nat} {value : UInt64} (inTime : k ≤ p.pauses) (missed : ∀ j < k, p.Misses bus j)
      (meets : p.answer bus k = .ok value) (expected : value &&& p.mask = p.expected) :
      Ends (.ok value (bus.afterCalls (p.callsThrough k)))
  | spent (missed : ∀ j ≤ p.pauses, p.Misses bus j) :
      Ends (.error .timeout (bus.afterCalls (p.callsThrough p.pauses)))

variable {p bus}

theorem not_misses_of_failed {e : Error} (h : p.answer bus k = .error e) : ¬p.Misses bus k := by
  rintro ⟨value, hanswer, -⟩
  exact ok_ne_error (hanswer.symm.trans h)

theorem not_misses_of_met {value : UInt64} (h : p.answer bus k = .ok value)
    (hmet : value &&& p.mask = p.expected) : ¬p.Misses bus k := by
  rintro ⟨other, hother, hmiss⟩
  obtain rfl := Except.ok.inj (hother.symm.trans h)
  exact hmiss hmet

private theorem first_unique {j : Nat} (hj : ∀ i < j, p.Misses bus i) (hstop : ¬p.Misses bus j)
    (hk : ∀ i < k, p.Misses bus i) (hstop' : ¬p.Misses bus k) : j = k :=
  Nat.le_antisymm (Nat.not_lt.1 fun hlt => hstop' (hj k hlt))
    (Nat.not_lt.1 fun hlt => hstop (hk j hlt))

/-- Where a poll ends is settled by its answers. -/
theorem Ends.unique {outcome other : EStateM.Result Error (Bus σ ι) UInt64}
    (h : p.Ends bus outcome) (hother : p.Ends bus other) : outcome = other := by
  cases h with
  | failed hk hmissed hfails =>
    have hstop := not_misses_of_failed hfails
    cases hother with
    | failed _ hmissed' hfails' =>
      obtain rfl := first_unique hmissed hstop hmissed' (not_misses_of_failed hfails')
      rw [Except.error.inj (hfails.symm.trans hfails')]
    | met _ hmissed' hmeets hmet =>
      obtain rfl := first_unique hmissed hstop hmissed' (not_misses_of_met hmeets hmet)
      cases hfails.symm.trans hmeets
    | spent hmissed' => exact absurd (hmissed' _ hk) hstop
  | met hk hmissed hmeets hmet =>
    have hstop := not_misses_of_met hmeets hmet
    cases hother with
    | failed _ hmissed' hfails =>
      obtain rfl := first_unique hmissed hstop hmissed' (not_misses_of_failed hfails)
      cases hmeets.symm.trans hfails
    | met _ hmissed' hmeets' hmet' =>
      obtain rfl := first_unique hmissed hstop hmissed' (not_misses_of_met hmeets' hmet')
      rw [Except.ok.inj (hmeets.symm.trans hmeets')]
    | spent hmissed' => exact absurd (hmissed' _ hk) hstop
  | spent hmissed =>
    cases hother with
    | failed hk _ hfails => exact absurd (hmissed _ hk) (not_misses_of_failed hfails)
    | met hk _ hmeets hmet => exact absurd (hmissed _ hk) (not_misses_of_met hmeets hmet)
    | spent => rfl

variable (p bus)

variable (haddress : w.address offset p.width 1 = .ok p.address)
  (hspace : bus.registry.spaceOf w = .ok p.space)

include haddress hspace

private theorem readRegister_eq (k : Nat) :
    Bus.readRegister w offset p.width (bus.afterCalls (p.callsBefore k)) =
      Bus.result (p.answer bus k) (bus.afterCalls (p.callsThrough k)) := by
  rw [Bus.readRegister_of_address haddress]
  exact Bus.readAt_afterCalls hspace _

theorem ends_of_misses (hk : k ≤ p.pauses) (hmissed : ∀ j < k, p.Misses bus j) :
    p.Ends bus (Bus.pollRegister w offset p.width p.mask p.expected
      (p.timeout - pollInterval * k) (bus.afterCalls (p.callsBefore k))) := by
  induction hleft : p.pauses - k using Nat.strongRecOn generalizing k with
  | _ left ih =>
    rw [Bus.pollRegister_eq, p.readRegister_eq bus haddress hspace k]
    cases hanswer : p.answer bus k with
    | error e => exact .failed hk hmissed hanswer
    | ok value =>
      simp only [Bus.result]
      split
      case isTrue hmet => exact .met hk hmissed hanswer hmet
      case isFalse hmiss =>
      have hthrough : ∀ j < k + 1, p.Misses bus j := by
        intro j hj
        rcases Nat.lt_succ_iff_lt_or_eq.1 hj with hj | rfl
        · exact hmissed j hj
        · exact ⟨value, hanswer, hmiss⟩
      split
      case isTrue hspent =>
        obtain rfl : k = p.pauses := Nat.le_antisymm hk (p.spent_iff.1 hspent)
        exact .spent fun j hj => hthrough j (Nat.lt_succ_of_le hj)
      case isFalse hspent =>
        have hlt : k < p.pauses := Nat.not_le.1 (mt p.spent_iff.2 hspent)
        have hnext := ih (p.pauses - (k + 1)) (by omega) hlt hthrough rfl
        rwa [callsBefore_succ, Bus.afterCalls_append, Nat.mul_succ, ← Nat.sub_sub] at hnext

end End

end Poll

section Polls

variable [Platform σ ι]

/-- A poll that is recorded: it ends as its answers say, and up to any of its reads it has called
what was to be called by then, and stalled for as long. -/
structure Poll.Runs (p : Poll ι) (bus : Bus (Recorded σ ι) ι)
    (outcome : EStateM.Result Error (Bus (Recorded σ ι) ι) UInt64) : Prop where
  ends : p.Ends bus outcome
  onTime : ∀ k ≤ p.pauses, p.OnTime k
  spent : Call.stalled (p.callsBefore p.pauses) = p.timeout
  recorded : ∀ k, (bus.afterCalls (p.callsThrough k)).platform.log.map Event.call =
    (p.callsThrough k).reverse ++ bus.platform.log.map Event.call

/-- What polling for at most `timeout` microseconds comes to. -/
structure PollsInTime (w : Window) (offset : Nat) (width : Width) (mask expected timeout : UInt64)
    (bus : Bus (Recorded σ ι) ι) : Prop where
  outside : ∀ e, w.address offset width 1 = .error e →
    Bus.pollRegister w offset width mask expected timeout.toNat bus = .error e bus
  unreached : ∀ address e, w.address offset width 1 = .ok address →
    bus.registry.spaceOf w = .error e →
      Bus.pollRegister w offset width mask expected timeout.toNat bus = .error e bus
  runs : ∀ address space, w.address offset width 1 = .ok address →
    bus.registry.spaceOf w = .ok space →
      Poll.Runs ⟨space, width, address, mask, expected, timeout.toNat⟩ bus
        (Bus.pollRegister w offset width mask expected timeout.toNat bus)
  /-- A machine does the same: its loop ends, and what it counts stays a word. -/
  machine : BusMachine.pollRegister w offset width mask expected timeout.toNat =
    (BusMachine.ofBus (Bus.pollRegister w offset width mask expected timeout.toNat) :
      BusMachine (Recorded σ ι) ι UInt64)

/-- A poll reads once for each interval of its timeout and once more when that is over, and ends
with the first read that fails or is as expected; what cannot be read is not waited for. -/
theorem polls_in_time (w : Window) (offset : Nat) (width : Width) (mask expected timeout : UInt64)
    (bus : Bus (Recorded σ ι) ι) : PollsInTime w offset width mask expected timeout bus where
  outside e haddress := by
    rw [Bus.pollRegister_eq, Bus.readRegister_of_outside haddress]
  unreached address e haddress hspace := by
    rw [Bus.pollRegister_eq, Bus.readRegister_of_address haddress, Bus.readAt_of_refused hspace]
  runs address space haddress hspace := by
    refine ⟨?_, fun k => Poll.onTime _, Poll.stalled_of_spent _, fun k =>
      Platform.log_afterCalls _ _⟩
    exact Poll.ends_of_misses ⟨space, width, address, mask, expected, timeout.toNat⟩ bus haddress
      hspace (Nat.zero_le _) (by simp)
  machine := BusMachine.pollRegister_eq timeout.toNat_lt

end Polls

/-- A register that takes its value after twenty microseconds. -/
def Simulated.warming : Simulated where
  cpu := { label := "cpu" }
  delayed := [{ address := 0x1000, value := 5, after := 20 }]

def statusWindow : Window where
  base := 0
  length := 4
  resolvedBase := 0x1000
  bus := none

/-- The third read finds the value, if there is time for it. -/
theorem polls_in_time_warming : ∃ bus : Bus (Recorded Simulated FileNumber) FileNumber,
    bus.platform.inner = .warming ∧
      Bus.pollRegister statusWindow 0 .w32 0xff 5 25 bus = .ok 5 (bus.afterCalls
        (Poll.callsThrough ⟨.cpu, .w32, 0x1000, 0xff, 5, 25⟩ 2)) ∧
      Bus.pollRegister statusWindow 0 .w32 0xff 5 15 bus = .error .timeout (bus.afterCalls
        (Poll.callsThrough ⟨.cpu, .w32, 0x1000, 0xff, 5, 15⟩ 2)) ∧
      Bus.pollRegister statusWindow 4 .w32 0xff 5 25 bus =
        .error (.unsupported .outsideWindow) bus := by
  obtain ⟨known, -⟩ := Bus.exists_bridge
  let bus : Bus (Recorded Simulated FileNumber) FileNumber :=
    { known with platform := { inner := .warming } }
  -- No read asks for a device, so the answers are those of the platform alone.
  have hanswer (timeout k : Nat) (value : UInt64) (h : (Platform.respond (.read .cpu .w32 0x1000)
      (Platform.afterCalls (Poll.callsBefore ⟨.cpu, .w32, 0x1000, 0xff, 5, timeout⟩ k)
        ({ inner := .warming } : Recorded Simulated FileNumber))).1.toOption.any (· = value)) :
      Poll.answer ⟨.cpu, .w32, 0x1000, 0xff, 5, timeout⟩ bus k = .ok value :=
    eq_ok_of_any h
  refine ⟨bus, rfl, ?_, ?_, (polls_in_time statusWindow 4 .w32 0xff 5 25 bus).outside _ rfl⟩
  · have hruns := (polls_in_time statusWindow 0 .w32 0xff 5 25 bus).runs 0x1000 .cpu rfl rfl
    refine hruns.ends.unique (.met (k := 2) (by decide) (fun j hj => ⟨0, ?_, by decide⟩) ?_
      (by decide))
    · obtain rfl | rfl : j = 0 ∨ j = 1 := by omega
      · exact hanswer _ _ _ (by decide +kernel)
      · exact hanswer _ _ _ (by decide +kernel)
    · exact hanswer _ _ _ (by decide +kernel)
  · have hruns := (polls_in_time statusWindow 0 .w32 0xff 5 15 bus).runs 0x1000 .cpu rfl rfl
    refine hruns.ends.unique (.spent fun j hj => ⟨0, ?_, by decide⟩)
    have hpauses : j ≤ 2 := hj
    obtain rfl | rfl | rfl : j = 0 ∨ j = 1 ∨ j = 2 := by omega
    · exact hanswer _ _ _ (by decide +kernel)
    · exact hanswer _ _ _ (by decide +kernel)
    · exact hanswer _ _ _ (by decide +kernel)

end DeviceTree

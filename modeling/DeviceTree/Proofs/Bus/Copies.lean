import DeviceTree.Proofs.Bus.Calls
import DeviceTree.Proofs.Bus.Reachable
import DeviceTree.Proofs.Bus.Windows
import DeviceTree.Proofs.Platform.Registers

/-!
# Copies of registers

A copy goes through the registers one after another, in one direction or the other, and ends with
the first access that is refused, or traps at the first register without an address. After some
registers are copied, each of them holds what its source held before the copy, and all else is as it
was: the direction is chosen such that no register is overwritten before it is read.
-/
namespace DeviceTree

variable {σ ι : Type}

/-- Registers to be copied, in one order or the other. -/
structure Copy (ι : Type) where
  source : AddressSpace ι
  target : AddressSpace ι
  srcStart : Nat
  dstStart : Nat
  width : Width
  backwards : Bool
  count : Nat

namespace Copy

section Order

variable (c : Copy ι) {i j k : Nat}

def index (k : Nat) : Nat :=
  if c.backwards then c.count - (k + 1) else k

def srcAddress (i : Nat) : Nat :=
  c.srcStart + i * c.width.bytes

def dstAddress (i : Nat) : Nat :=
  c.dstStart + i * c.width.bytes

/-- Both registers of the pair that is copied after `k` others have addresses. -/
def Within (k : Nat) : Prop :=
  c.srcAddress (c.index k) < addressLimit ∧ c.dstAddress (c.index k) < addressLimit

def read (k : Nat) : Call ι :=
  .read c.source c.width (c.srcAddress (c.index k))

def write (k : Nat) (value : UInt64) : Call ι :=
  .write c.target c.width (c.dstAddress (c.index k)) value

variable {c}

theorem index_lt (hk : k < c.count) : c.index k < c.count := by
  rw [index]
  split <;> omega

theorem index_ne (hj : j < k) (hk : k < c.count) : c.index j ≠ c.index k := by
  simp only [index]
  split <;> omega

theorem exists_index (hi : i < c.count) : ∃ k < c.count, c.index k = i := by
  by_cases hbackwards : c.backwards
  · exact ⟨c.count - (i + 1), by omega, by simp only [index, hbackwards, if_true]; omega⟩
  · exact ⟨i, hi, by simp [index, hbackwards]⟩

end Order

section End

variable [Platform σ ι] (c : Copy ι) (bus : Bus σ ι) {k : Nat}

/-- What read `k` is answered after some calls; zero if it is refused. -/
def given (calls : List (Call ι)) (k : Nat) : UInt64 :=
  (Platform.respond (c.read k) (bus.afterCalls calls).platform).1.toOption.getD 0

/-- The calls that copy the first `k` registers in the order. -/
def calls : Nat → List (Call ι)
  | 0 => []
  | k + 1 => calls k ++ [c.read k] ++ [c.write k (c.given bus (calls k) k)]

def Reads (k : Nat) (reply : Except Error UInt64) : Prop :=
  (Platform.respond (c.read k) (bus.afterCalls (c.calls bus k)).platform).1 = reply

def Writes (k : Nat) (value : UInt64) (reply : Except Error Unit) : Prop :=
  (Platform.respond (c.write k value) (bus.afterCalls (c.calls bus k ++ [c.read k])).platform).1 =
    reply

def Served (k : Nat) : Prop :=
  ∃ value, c.Reads bus k (.ok value) ∧ c.Writes bus k value (.ok ())

/-- How a copy may end after so many registers are copied: with the last of them, or with the first
access that is refused. -/
inductive Ends : Nat → Except Error Unit → Bus σ ι → Prop
  | done (served : ∀ j < c.count, c.Served bus j) :
      Ends c.count (.ok ()) (bus.afterCalls (c.calls bus c.count))
  | unread {k : Nat} {e : Error} (more : k < c.count) (served : ∀ j < k, c.Served bus j)
      (refused : c.Reads bus k (.error e)) :
      Ends k (.error e) (bus.afterCalls (c.calls bus k ++ [c.read k]))
  | unwritten {k : Nat} {value : UInt64} {e : Error} (more : k < c.count)
      (served : ∀ j < k, c.Served bus j) (read : c.Reads bus k (.ok value))
      (refused : c.Writes bus k value (.error e)) :
      Ends k (.error e) (bus.afterCalls (c.calls bus k ++ [c.read k] ++ [c.write k value]))

/-- How a copy may come past the last address after so many registers are copied: where it would
read, or where it would write what it has read. -/
inductive Overruns : Nat → Bus σ ι → Prop
  | source {k : Nat} (more : k < c.count) (served : ∀ j < k, c.Served bus j)
      (past : addressLimit ≤ c.srcAddress (c.index k)) :
      Overruns k (bus.afterCalls (c.calls bus k))
  | target {k : Nat} {value : UInt64} (more : k < c.count) (served : ∀ j < k, c.Served bus j)
      (read : c.Reads bus k (.ok value)) (past : addressLimit ≤ c.dstAddress (c.index k)) :
      Overruns k (bus.afterCalls (c.calls bus k ++ [c.read k]))

/-- What a copy comes to after so many registers: it ends, or it stops where there is no address. -/
inductive ComesTo (done : Nat) : EStateM.Result Error (Bus σ ι) Unit → Prop
  | ends {reply : Except Error Unit} {later : Bus σ ι} (h : c.Ends bus done reply later) :
      ComesTo done (Bus.result reply later)
  | overruns {later : Bus σ ι} (h : c.Overruns bus done later) :
      ComesTo done (.error .trap later)

variable {c bus}

theorem calls_succ {value : UInt64} (hread : c.Reads bus k (.ok value)) :
    c.calls bus (k + 1) = c.calls bus k ++ [c.read k] ++ [c.write k value] := by
  rw [calls, given, show _ = _ from hread]
  rfl

theorem Overruns.not_within {done : Nat} {later : Bus σ ι} (h : c.Overruns bus done later) :
    done < c.count ∧ ¬c.Within done := by
  cases h with
  | source more served past => exact ⟨more, fun hwithin => Nat.not_le.2 hwithin.1 past⟩
  | target more served read past => exact ⟨more, fun hwithin => Nat.not_le.2 hwithin.2 past⟩

variable {dst src : Window} (hsource : bus.registry.spaceOf src = .ok c.source)
  (htarget : bus.registry.spaceOf dst = .ok c.target)

include hsource

private theorem readAt_runAddress (k : Nat) :
    Bus.readAt src c.width (Bus.runAddress c.srcStart c.width (c.index k))
        (bus.afterCalls (c.calls bus k)) =
      if c.srcAddress (c.index k) < addressLimit then
        Bus.result (Platform.respond (c.read k) (bus.afterCalls (c.calls bus k)).platform).1
          (bus.afterCalls (c.calls bus k ++ [c.read k]))
      else .error .trap (bus.afterCalls (c.calls bus k)) := by
  rw [Bus.runAddress, srcAddress]
  split
  · rw [Bus.readAt_afterCalls hsource]
    rfl
  · exact Bus.readAt_of_error hsource

omit hsource in
include htarget in
private theorem writeAt_runAddress (k : Nat) (value : UInt64) :
    Bus.writeAt dst c.width (Bus.runAddress c.dstStart c.width (c.index k)) value
        (bus.afterCalls (c.calls bus k ++ [c.read k])) =
      if c.dstAddress (c.index k) < addressLimit then
        Bus.result (Platform.respond (c.write k value)
            (bus.afterCalls (c.calls bus k ++ [c.read k])).platform).1
          (bus.afterCalls (c.calls bus k ++ [c.read k] ++ [c.write k value]))
      else .error .trap (bus.afterCalls (c.calls bus k ++ [c.read k])) := by
  rw [Bus.runAddress, dstAddress]
  split
  · rw [Bus.writeAt_afterCalls htarget]
    rfl
  · exact Bus.writeAt_of_error htarget

include htarget

/-- One register more: the copy comes to its end, or the register is copied and it goes on. -/
theorem copyRun_step (hk : k < c.count) (hserved : ∀ j < k, c.Served bus j) :
    c.ComesTo bus k (Bus.copyRun dst src c.dstStart c.srcStart c.width c.backwards c.count
        (c.count - k) (bus.afterCalls (c.calls bus k))) ∨
      c.Served bus k ∧ c.Within k ∧
      Bus.copyRun dst src c.dstStart c.srcStart c.width c.backwards c.count (c.count - k)
          (bus.afterCalls (c.calls bus k)) =
        Bus.copyRun dst src c.dstStart c.srcStart c.width c.backwards c.count (c.count - (k + 1))
          (bus.afterCalls (c.calls bus (k + 1))) := by
  obtain ⟨left, hleft⟩ := Nat.exists_eq_add_of_lt hk
  have hindex : (if c.backwards then left else c.count - (left + 1)) = c.index k := by
    simp only [index]
    split <;> omega
  rw [show c.count - k = left + 1 by omega, show c.count - (k + 1) = left by omega, Bus.copyRun]
  simp only [hindex, bind, EStateM.bind, readAt_runAddress hsource]
  by_cases hsrc : c.srcAddress (c.index k) < addressLimit
  case neg =>
    simp only [hsrc, if_false]
    exact .inl (.overruns (.source hk hserved (Nat.not_lt.1 hsrc)))
  cases hread : (Platform.respond (c.read k) (bus.afterCalls (c.calls bus k)).platform).1 with
  | error e =>
    simp only [hsrc, if_true, Bus.result]
    exact .inl (.ends (.unread hk hserved hread))
  | ok value =>
  simp only [hsrc, if_true, Bus.result, writeAt_runAddress htarget]
  by_cases hdst : c.dstAddress (c.index k) < addressLimit
  case neg =>
    simp only [hdst, if_false]
    exact .inl (.overruns (.target hk hserved hread (Nat.not_lt.1 hdst)))
  cases hwritten : (Platform.respond (c.write k value)
      (bus.afterCalls (c.calls bus k ++ [c.read k])).platform).1 with
  | error e =>
    simp only [hdst, if_true]
    exact .inl (.ends (.unwritten hk hserved hread hwritten))
  | ok _ =>
    simp only [hdst, if_true, calls_succ hread]
    exact .inr ⟨⟨value, hread, hwritten⟩, ⟨hsrc, hdst⟩, trivial⟩

/-- From any register on, a copy comes to what it may, and all pairs before have addresses. -/
theorem comesTo_of_served (hk : k ≤ c.count) (hserved : ∀ j < k, c.Served bus j)
    (hwithin : ∀ j < k, c.Within j) :
    ∃ done, (∀ j < done, c.Within j) ∧
      c.ComesTo bus done (Bus.copyRun dst src c.dstStart c.srcStart c.width c.backwards c.count
        (c.count - k) (bus.afterCalls (c.calls bus k))) := by
  induction hleft : c.count - k generalizing k with
  | zero =>
    obtain rfl : k = c.count := by omega
    exact ⟨_, hwithin, .ends (.done hserved)⟩
  | succ left ih =>
    have hlt : k < c.count := by omega
    rw [← hleft]
    obtain hends | ⟨hcopied, haddresses, hgoes⟩ := copyRun_step hsource htarget hlt hserved
    · exact ⟨k, hwithin, hends⟩
    · rw [hgoes, show c.count - (k + 1) = left by omega]
      refine ih hlt ?_ ?_ (by omega)
      · exact fun j hj => (Nat.lt_succ_iff_lt_or_eq.1 hj).elim (hserved j) (· ▸ hcopied)
      · exact fun j hj => (Nat.lt_succ_iff_lt_or_eq.1 hj).elim (hwithin j) (· ▸ haddresses)

end End

section Moving

variable (c : Copy ι) {before between after : Values ι} {k : Nat}

/-- No register is overwritten before it is read. -/
def Safe : Prop :=
  ∀ j k, j < k → k < c.count →
    (c.source, c.srcAddress (c.index k)) ≠ (c.target, c.dstAddress (c.index j))

/-- The first `done` registers in the order hold what their sources held, and all else is as it
was. -/
structure Copied (before after : Values ι) (done : Nat) : Prop where
  moved : ∀ k < done, after c.target (c.dstAddress (c.index k)) =
    c.width.mask (before c.source (c.srcAddress (c.index k)))
  kept : ∀ space address,
    (∀ k < done, (space, address) ≠ (c.target, c.dstAddress (c.index k))) →
      after space address = before space address

variable {c}

private theorem dstAddress_ne {i j : Nat} (hne : i ≠ j) :
    c.dstAddress i ≠ c.dstAddress j := fun heq =>
  hne (Nat.eq_of_mul_eq_mul_right (Window.bytes_pos c.width) (Nat.add_left_cancel heq))

private theorem safe_of_ne (hne : c.source ≠ c.target) : c.Safe :=
  fun _ _ _ _ heq => hne (Prod.mk.inj heq).1

private theorem safe_of_disjoint
    (hdisjoint : ∀ i < c.count, ∀ j < c.count, c.srcAddress i ≠ c.dstAddress j) : c.Safe :=
  fun _ _ hlt hk heq =>
    hdisjoint _ (index_lt hk) _ (index_lt (Nat.lt_trans hlt hk)) (Prod.mk.inj heq).2

/-- Going away from where the copy is put overwrites only what was read. -/
theorem safe_of_direction (hdirection : c.backwards = decide (c.srcStart < c.dstStart)) :
    c.Safe := by
  intro j k hlt hk heq
  have haddress := (Prod.mk.inj heq).2
  have hbytes := Window.bytes_pos c.width
  simp only [srcAddress, dstAddress] at haddress
  by_cases hbackwards : c.srcStart < c.dstStart
  · have hindex : c.index k < c.index j := by
      simp only [index, hdirection, hbackwards, decide_true, if_true]
      omega
    have := Nat.mul_lt_mul_of_pos_right hindex hbytes
    omega
  · have hindex : c.index j < c.index k := by
      simp only [index, hdirection, hbackwards, decide_false, Bool.false_eq_true, if_false]
      exact hlt
    have := Nat.mul_lt_mul_of_pos_right hindex hbytes
    omega

theorem Copied.refl (c : Copy ι) (before : Values ι) : c.Copied before before 0 :=
  ⟨by simp, fun _ _ _ => rfl⟩

theorem Copied.succ (h : c.Copied before between k) (hsafe : c.Safe) (hk : k < c.count)
    (hputs : between.Puts after c.target (c.dstAddress (c.index k))
      (c.width.mask (between c.source (c.srcAddress (c.index k))))) :
    c.Copied before after (k + 1) := by
  -- The source of register `k` was not overwritten by any of the registers before.
  have hsource := h.kept c.source (c.srcAddress (c.index k)) fun j hj => hsafe j k hj hk
  constructor
  · intro j hj
    rcases Nat.lt_succ_iff_lt_or_eq.1 hj with hj | rfl
    · have hne : c.dstAddress (c.index j) ≠ c.dstAddress (c.index k) :=
        dstAddress_ne (index_ne hj hk)
      rw [hputs.elsewhere _ _ fun heq => hne (Prod.mk.inj heq).2]
      exact h.moved j hj
    · rw [hputs.there, hsource]
  · intro space address hne
    rw [hputs.elsewhere _ _ (hne k (Nat.lt_succ_self k))]
    exact h.kept space address fun j hj => hne j (Nat.lt_succ_of_lt hj)

theorem Copied.register (h : c.Copied before after c.count) {i : Nat} (hi : i < c.count) :
    after c.target (c.dstAddress i) = c.width.mask (before c.source (c.srcAddress i)) := by
  obtain ⟨k, hk, rfl⟩ := exists_index hi
  exact h.moved k hk

end Moving

section Run

variable [Platform σ ι] {c : Copy ι} {bus later : Bus σ ι} {F : Registers σ} {k : Nat}
  (hholds : F.Holds bus.platform) (htarget : F.Installed c.target) (hsafe : c.Safe)

include hholds

theorem holds_afterCalls (calls : List (Call ι)) : F.Holds (bus.afterCalls calls).platform := by
  induction calls generalizing bus with
  | nil => exact hholds
  | cons call calls ih =>
    have hnext : F.Holds (bus.afterCalls [call]).platform := F.holds_respond _ call hholds
    exact ih hnext

theorem values_read (calls : List (Call ι)) (k : Nat) :
    F.values (bus.afterCalls (calls ++ [c.read k])).platform =
      F.values (bus.afterCalls calls).platform := by
  rw [Bus.afterCalls_append]
  exact F.values_read _ _ _ _ (holds_afterCalls hholds calls)

include htarget hsafe

theorem copied_calls (hk : k ≤ c.count) (hserved : ∀ j < k, c.Served bus j) :
    c.Copied (F.values bus.platform) (F.values (bus.afterCalls (c.calls bus k)).platform) k := by
  induction k with
  | zero => exact .refl c _
  | succ k ih =>
    have hcopied := ih (by omega) fun j hj => hserved j (Nat.lt_succ_of_lt hj)
    obtain ⟨value, hread, hwritten⟩ := hserved k (Nat.lt_succ_self k)
    have hvalue := F.reply_read _ _ _ _ _ (holds_afterCalls hholds (c.calls bus k)) hread
    have hputs := F.puts_write _ _ _ _ _ (holds_afterCalls hholds _) htarget hwritten
    rw [values_read hholds, hvalue] at hputs
    rw [calls_succ hread, Bus.afterCalls_append, hvalue]
    exact hcopied.succ hsafe hk hputs

/-- Whether the copy is refused or not, what it left holds the registers that were copied. -/
theorem Ends.copied {done : Nat} {reply : Except Error Unit} (h : c.Ends bus done reply later) :
    c.Copied (F.values bus.platform) (F.values later.platform) done := by
  cases h with
  | done served => exact copied_calls hholds htarget hsafe (Nat.le_refl _) served
  | unread more served refused =>
    rw [values_read hholds]
    exact copied_calls hholds htarget hsafe (Nat.le_of_lt more) served
  | unwritten more served read refused =>
    rw [Bus.afterCalls_append]
    have hunchanged := F.values_refused _ _ _ _ _ _ (holds_afterCalls hholds _) refused
    rw [values_read hholds] at hunchanged
    refine hunchanged ▸ ?_
    exact copied_calls hholds htarget hsafe (Nat.le_of_lt more) served

end Run

end Copy

section Windows

variable {dst src : Window} {dstOffset srcOffset dstStart srcStart count : Nat} {width : Width}
  {source target : AddressSpace ι} {e : Error}

/-- The copy of `count` registers between two windows, if accesses to them go to `source` and
`target`. -/
def Copy.between (source target : AddressSpace ι) (dst : Window) (dstOffset : Nat) (src : Window)
    (srcOffset : Nat) (width : Width) (count : Nat) : Copy ι where
  source := source
  target := target
  srcStart := src.resolvedBase + srcOffset
  dstStart := dst.resolvedBase + dstOffset
  width := width
  backwards := dst = src && src.resolvedBase + srcOffset < dst.resolvedBase + dstOffset
  count := count

theorem Window.register_lt {w : Window} {offset start i : Nat}
    (hfits : w.resolvedBase + w.length ≤ addressLimit)
    (hstart : w.address offset width count = .ok start) (hi : i < count) :
    start + i * width.bytes < addressLimit := by
  obtain ⟨-, hinside⟩ := address_eq_ok hstart
  have hpos : 0 < width.bytes * count := Nat.mul_pos (bytes_pos width) (Nat.zero_lt_of_lt hi)
  have hend := (covers_runAddress (by omega) hstart hi).2.2
  have hbytes := bytes_pos width
  omega

variable (hdst : dst.address dstOffset width count = .ok dstStart)
  (hsrc : src.address srcOffset width count = .ok srcStart)

include hdst hsrc

/-- In windows that end at the last address, or before, all registers have addresses. -/
theorem Copy.within_between (hdstFits : dst.resolvedBase + dst.length ≤ addressLimit)
    (hsrcFits : src.resolvedBase + src.length ≤ addressLimit) {k : Nat} (hk : k < count) :
    (between source target dst dstOffset src srcOffset width count).Within k := by
  have hindex : (between source target dst dstOffset src srcOffset width count).index k < count :=
    index_lt hk
  obtain ⟨rfl, -⟩ := Window.address_eq_ok hsrc
  obtain ⟨rfl, -⟩ := Window.address_eq_ok hdst
  exact ⟨Window.register_lt hsrcFits hsrc hindex, Window.register_lt hdstFits hdst hindex⟩

variable [Platform σ ι] {bus : Bus σ ι}

private theorem Bus.copyRegisters_eq : copyRegisters dst dstOffset src srcOffset width count bus =
    copyRun dst src dstStart srcStart width (dst = src && srcStart < dstStart) count count bus := by
  rw [copyRegisters, hdst, hsrc]
  rfl

theorem Copy.exists_comesTo (hsource : bus.registry.spaceOf src = .ok source)
    (htarget : bus.registry.spaceOf dst = .ok target) :
    ∃ done,
      (∀ j < done, (between source target dst dstOffset src srcOffset width count).Within j) ∧
      (between source target dst dstOffset src srcOffset width count).ComesTo bus done
        (Bus.copyRegisters dst dstOffset src srcOffset width count bus) := by
  rw [Bus.copyRegisters_eq hdst hsrc]
  obtain ⟨rfl, -⟩ := Window.address_eq_ok hsrc
  obtain ⟨rfl, -⟩ := Window.address_eq_ok hdst
  exact comesTo_of_served
    (c := between source target dst dstOffset src srcOffset width count) hsource htarget
    (Nat.zero_le _) (by simp) (by simp)

end Windows

section Moves

open Platform (Obeys)

variable [Platform σ ι]

/-- What is overwritten is not read later: within one window a copy goes the right way, and nothing
can go wrong between different address spaces or without an address in common. -/
inductive Copy.Clear (c : Copy ι) (dst src : Window) : Prop
  | same (same : dst = src)
  | spaces (differ : c.source ≠ c.target)
  | disjoint (apart : ∀ i < c.count, ∀ j < c.count,
      c.srcStart + i * c.width.bytes ≠ c.dstStart + j * c.width.bytes)

private theorem Copy.safe_of_clear {source target : AddressSpace ι} {dst src : Window}
    {dstOffset srcOffset count : Nat} {width : Width}
    (hclear : (between source target dst dstOffset src srcOffset width count).Clear dst src) :
    (between source target dst dstOffset src srcOffset width count).Safe := by
  cases hclear with
  | same same => exact safe_of_direction (by simp [between, same])
  | spaces differ => exact safe_of_ne differ
  | disjoint apart => exact safe_of_disjoint apart

theorem Window.address_of_fits {w : Window} {offset count : Nat} {width : Width}
    (hfits : w.resolvedBase + w.length < addressLimit)
    (hinside : offset + width.bytes * count ≤ w.length) :
    w.address offset width count = .ok (w.resolvedBase + offset) := by
  rw [Window.address, if_neg (by omega), if_neg (by omega)]

theorem Window.address_of_outside {w : Window} {offset count : Nat} {width : Width}
    (houtside : w.length < offset + width.bytes * count) :
    w.address offset width count = .error (.unsupported .outsideWindow) :=
  if_pos houtside

section Placed

variable (F : Registers σ) (source target : AddressSpace ι) (dst src : Window)
  (dstOffset srcOffset : Nat) (width : Width) (count : Nat) (bus : Bus σ ι)

/-- Both runs lie in their windows, the registers are there, and what is to be read is not
overwritten before. -/
structure Copy.Placed : Prop where
  reads : bus.registry.spaceOf src = .ok source
  writes : bus.registry.spaceOf dst = .ok target
  installed : F.Installed target
  dstInside : dstOffset + width.bytes * count ≤ dst.length
  srcInside : srcOffset + width.bytes * count ≤ src.length
  clear : (between source target dst dstOffset src srcOffset width count).Clear dst src

/-- What copying `count` registers from one window to another comes to. -/
structure MovesRegisters : Prop where
  /-- If one of the runs leaves its window, nothing is called. -/
  outside : dst.length < dstOffset + width.bytes * count ∨
      src.length < srcOffset + width.bytes * count →
    Bus.copyRegisters dst dstOffset src srcOffset width count bus =
      .error (.unsupported .outsideWindow) bus
  /-- The first access that is refused ends the copy, and the registers before are copied. -/
  ends : ∀ source target,
    Copy.Placed F source target dst src dstOffset srcOffset width count bus →
    ∃ done reply later,
      Bus.copyRegisters dst dstOffset src srcOffset width count bus = Bus.result reply later ∧
      (Copy.between source target dst dstOffset src srcOffset width count).Ends bus done reply
        later ∧
      (Copy.between source target dst dstOffset src srcOffset width count).Copied
        (F.values bus.platform) (F.values later.platform) done
  /-- If nothing is refused, all registers are copied, as they were before. -/
  succeeds : ∀ source target,
    Copy.Placed F source target dst src dstOffset srcOffset width count bus →
    Obeys (Event.Serves fun space => space = source ∨ space = target) bus.platform →
    ∃ later, Bus.copyRegisters dst dstOffset src srcOffset width count bus = .ok () later ∧
      later.registry = bus.registry ∧
      (∀ i < count,
        F.values later.platform target (dst.resolvedBase + dstOffset + i * width.bytes) =
          width.mask (F.values bus.platform source
            (src.resolvedBase + srcOffset + i * width.bytes))) ∧
      ∀ space address, (∀ i < count,
        (space, address) ≠ (target, dst.resolvedBase + dstOffset + i * width.bytes)) →
          F.values later.platform space address = F.values bus.platform space address

end Placed

variable {F : Registers σ} {source target : AddressSpace ι} {dst src : Window}
  {dstOffset srcOffset count : Nat} {width : Width} {bus : Bus σ ι}

/-- A platform that refuses nothing lets a copy end with its last register. -/
theorem Copy.Ends.done_of_serves {c : Copy ι} {done : Nat} {reply : Except Error Unit}
    {later : Bus σ ι} (h : c.Ends bus done reply later)
    (hserves : Obeys (Event.Serves fun space => space = c.source ∨ space = c.target)
      bus.platform) :
    done = c.count ∧ reply = .ok () ∧ later = bus.afterCalls (c.calls bus c.count) := by
  cases h with
  | done served => exact ⟨rfl, rfl, rfl⟩
  | unread more served refused =>
    obtain ⟨value, hreply⟩ := hserves (c.calls bus done) (c.read done) (.inl rfl)
    exact absurd (hreply.symm.trans refused) ok_ne_error
  | @unwritten _ value _ more served read refused =>
    have hreply := hserves (c.calls bus done ++ [c.read done]) (c.write done value) (.inr rfl)
    exact absurd (hreply.symm.trans refused) ok_ne_error

theorem copyRegisters_of_outside (hdst : dst.resolvedBase + dst.length < addressLimit)
    (houtside : dst.length < dstOffset + width.bytes * count ∨
      src.length < srcOffset + width.bytes * count) :
    Bus.copyRegisters dst dstOffset src srcOffset width count bus =
      .error (.unsupported .outsideWindow) bus := by
  rw [Bus.copyRegisters]
  by_cases hinside : dst.length < dstOffset + width.bytes * count
  · rw [Window.address_of_outside hinside]
    rfl
  · rw [Window.address_of_fits hdst (Nat.not_lt.1 hinside),
      Window.address_of_outside (houtside.resolve_left hinside)]
    rfl

section Fits

variable (hholds : F.Holds bus.platform) (hdst : dst.resolvedBase + dst.length < addressLimit)
  (hsrc : src.resolvedBase + src.length < addressLimit)

include hdst hsrc

include hholds

private theorem Copy.Placed.exists_ends
    (h : Placed F source target dst src dstOffset srcOffset width count bus) :
    ∃ done reply later,
      Bus.copyRegisters dst dstOffset src srcOffset width count bus = Bus.result reply later ∧
      (between source target dst dstOffset src srcOffset width count).Ends bus done reply later ∧
      (between source target dst dstOffset src srcOffset width count).Copied
        (F.values bus.platform) (F.values later.platform) done := by
  have hdstStart := Window.address_of_fits hdst h.dstInside
  have hsrcStart := Window.address_of_fits hsrc h.srcInside
  obtain ⟨done, -, hcopy⟩ := Copy.exists_comesTo hdstStart hsrcStart h.reads h.writes
  generalize Bus.copyRegisters dst dstOffset src srcOffset width count bus = answer at hcopy ⊢
  cases hcopy with
  | @ends reply later hends =>
    exact ⟨done, reply, later, rfl, hends,
      hends.copied hholds h.installed (safe_of_clear h.clear)⟩
  | overruns hover =>
    obtain ⟨hmore, hpast⟩ := hover.not_within
    exact absurd (within_between hdstStart hsrcStart (Nat.le_of_lt hdst) (Nat.le_of_lt hsrc) hmore)
      hpast

/-- Registers are copied as if all of them were read before any is written. -/
theorem moves_registers : MovesRegisters F dst src dstOffset srcOffset width count bus where
  outside := copyRegisters_of_outside hdst
  ends _ _ h := h.exists_ends hholds hdst hsrc
  succeeds source target h hserves := by
    obtain ⟨done, reply, later, hcopy, hends, hcopied⟩ := h.exists_ends hholds hdst hsrc
    obtain ⟨rfl, rfl, hlater⟩ := hends.done_of_serves hserves
    refine ⟨later, hcopy, by rw [hlater]; rfl, fun i hi => hcopied.register hi, ?_⟩
    exact fun space address hne =>
      hcopied.kept space address fun k hk => hne _ (Copy.index_lt hk)

end Fits

def Simulated.numbered : Simulated where
  cpu := { label := "cpu"
           values := .ofList [(0x1000, (1 : UInt64)), (0x1004, 2), (0x1008, 3), (0x100c, 4)] }

def numberedWindow : Window where
  base := 0
  length := 0x10
  resolvedBase := 0x1000
  bus := none

/-- A run is copied onto its own registers, one place further. -/
theorem moves_registers_shifted : ∃ bus later : Bus (Recorded Simulated FileNumber) FileNumber,
    ((Simulated.registers 0).recorded.Holds bus.platform ∧
      numberedWindow.resolvedBase + numberedWindow.length < addressLimit) ∧
    bus.platform.inner = .numbered ∧
    Bus.copyRegisters numberedWindow 4 numberedWindow 0 .w32 3 bus = .ok () later ∧
    [0x1000, 0x1004, 0x1008, 0x100c].map later.platform.inner.cpu.get = [1, 1, 2, 3] := by
  obtain ⟨known, -⟩ := Bus.exists_bridge
  obtain ⟨bus, hbus⟩ : ∃ bus : Bus (Recorded Simulated FileNumber) FileNumber,
      bus.platform = { inner := .numbered } := ⟨{ known with platform := _ }, rfl⟩
  have hsettled : Simulated.numbered.Settled 0 := ⟨rfl, rfl⟩
  have hholds : (Simulated.registers 0).recorded.Holds bus.platform := by
    rw [hbus]
    exact hsettled
  have hserves : Platform.Obeys (Event.Serves fun space => space = .cpu ∨ space = .cpu)
      bus.platform := by
    rw [hbus]
    exact (hsettled.obeys_serves (by simp [Simulated.numbered, Simulated.file])).recorded []
  have hplaced : Copy.Placed (Simulated.registers 0).recorded .cpu .cpu numberedWindow
      numberedWindow 4 0 .w32 3 bus := ⟨rfl, rfl, trivial, by decide, by decide, .same rfl⟩
  obtain ⟨later, hcopy, -, hmoved, hkept⟩ :=
    (moves_registers hholds (by decide) (by decide)).succeeds .cpu .cpu hplaced hserves
  refine ⟨bus, later, ⟨hholds, by decide⟩, by rw [hbus], hcopy, ?_⟩
  rw [hbus] at hmoved hkept
  have hfirst : later.platform.inner.cpu.get 0x1004 = 1 := (hmoved 0 (by decide)).trans (by decide)
  have hsecond : later.platform.inner.cpu.get 0x1008 = 2 := (hmoved 1 (by decide)).trans (by decide)
  have hthird : later.platform.inner.cpu.get 0x100c = 3 := (hmoved 2 (by decide)).trans (by decide)
  have hstays : later.platform.inner.cpu.get 0x1000 = 1 :=
    (hkept .cpu 0x1000 (by decide)).trans (by decide)
  simp only [List.map_cons, List.map_nil, hfirst, hsecond, hthird, hstays]

end Moves

end DeviceTree

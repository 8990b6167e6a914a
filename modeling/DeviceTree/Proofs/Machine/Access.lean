import DeviceTree.Machine.Access
import DeviceTree.Proofs.Machine.Basic

/-!
# Register accesses that neither trap nor go on for ever

What the bus does is done by a machine as well, step by step. A poll on a machine does what the poll
of the bus does: the time that it has waited is a word at every turn, because it is never longer
than the timeout, and each turn but the last takes it further.
-/
namespace DeviceTree

namespace BusMachine

section Bus

variable {σ ι α β : Type}

theorem ofBus_pure (a : α) : (ofBus (pure a) : BusMachine σ ι α) = pure a :=
  rfl

theorem ofBus_throw (e : Error) : (ofBus (throw e) : BusMachine σ ι α) = throw e :=
  rfl

theorem run_bind (x : BusMachine σ ι α) (f : α → BusMachine σ ι β) (bus : Bus σ ι) :
    (x >>= f).run.run bus =
      (x.run.run bus).bind fun last => (ExceptT.bindCont f last.1).run last.2 :=
  rfl

theorem throw_bind (e : Error) (f : α → BusMachine σ ι β) : (throw e >>= f) = throw e :=
  ExceptT.ext (funext fun bus => (run_bind (throw e) f bus).trans (Part.bind_some _ _))

theorem ofBus_bind (x : BusM σ ι α) (f : α → BusM σ ι β) :
    ofBus (x >>= f) = ofBus x >>= fun a => ofBus (f a) := by
  refine ExceptT.ext (funext fun bus => ?_)
  refine Eq.trans ?_ (run_bind (ofBus x) (fun a => ofBus (f a)) bus).symm
  refine Eq.trans ?_ (Part.bind_some _ _).symm
  change Part.some _ = _
  simp only [bind, EStateM.bind]
  cases x bus <;> rfl

theorem lift_pure (a : α) : (liftM (pure a : Machine α) : BusMachine σ ι α) = pure a :=
  ExceptT.ext (funext fun _ => Part.map_some _ _)

theorem loop_eq (turn : β → BusMachine σ ι (Machine.Turn β α)) (place : β) :
    loop turn place = turn place >>= fun
      | .again next => loop turn next
      | .done a => pure a := by
  refine ExceptT.ext (funext fun bus => (Machine.fix_eq _ (place, bus)).trans ?_)
  refine ((Part.bind_map _ _ _).trans ?_).trans (run_bind (turn place) _ bus).symm
  refine congrArg (Part.bind _) (funext fun led => ?_)
  obtain ⟨e | next | a, left⟩ := led <;> rfl

end Bus

section Poll

variable {σ ι : Type} [Platform σ ι] {w : Window} {offset timeout waited : Nat} {width : Width}
  {mask expected : UInt64}

/-- From any turn on, a poll goes on as one whose timeout is what is left. -/
theorem loop_pollTurn (htimeout : timeout < UInt64.size) (hwaited : waited ≤ timeout) :
    loop (pollTurn w offset width mask expected timeout) waited =
      (ofBus (Bus.pollRegister w offset width mask expected (timeout - waited)) :
        BusMachine σ ι UInt64) := by
  induction hleft : timeout - waited using Nat.strongRecOn generalizing waited with
  | _ left ih =>
    rw [loop_eq, pollTurn, Bus.pollRegister, ofBus_bind, bind_assoc]
    refine bind_congr fun value => ?_
    by_cases hmet : value &&& mask = expected
    · simp only [hmet, if_true, pure_bind, ofBus_pure]
    simp only [hmet, if_false]
    by_cases hspent : timeout ≤ waited
    · obtain rfl : left = 0 := by omega
      simp only [hspent, if_true, dif_pos, throw_bind, ofBus_throw]
    have hpos : left ≠ 0 := by omega
    have hinterval : 0 < min Bus.pollInterval left ∧ min Bus.pollInterval left ≤ left := by
      simp only [Bus.pollInterval]
      omega
    simp only [hspent, if_false, hpos, dif_neg, not_false_iff, ofBus_bind]
    rw [Machine.sub_eq hwaited, lift_pure, pure_bind, hleft, bind_assoc]
    refine bind_congr fun _ => ?_
    rw [Machine.add_eq (by omega), lift_pure, pure_bind, pure_bind]
    have hafter : waited + min Bus.pollInterval left ≤ timeout := by omega
    have hnext := ih (left - min Bus.pollInterval left) (by omega) hafter (by omega)
    refine hnext.trans (congrArg (fun left => ofBus (Bus.pollRegister w offset width _ _ left)) ?_)
    omega

/-- A poll ends, and nothing that it counts is too large for a word. -/
theorem pollRegister_eq (htimeout : timeout < UInt64.size) :
    pollRegister w offset width mask expected timeout =
      (ofBus (Bus.pollRegister w offset width mask expected timeout) : BusMachine σ ι UInt64) :=
  loop_pollTurn htimeout (Nat.zero_le timeout)

end Poll

end BusMachine

end DeviceTree

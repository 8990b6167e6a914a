import DeviceTree.Proofs.Bus.Arena
import DeviceTree.Proofs.Bus.Ensures

/-!
# Discovery changes a registry step by step

Every operation of a registry is a sequence of steps, also when it fails on the way. What a
discovery creates comes from the children of a node or from the line of nodes above one, so the
parent is always that of the blob; and what was live stays live.
-/
namespace DeviceTree

namespace Registry

variable {ι : Type} {r next : Registry ι} {h parent k : Handle} {device above : Device ι}
  {n : Node} {line : List Node}

/-- Nothing was connected: what is live now was live and is connected if it was, or it is new and
not connected. -/
def Calm (r next : Registry ι) : Prop :=
  ∀ k device, next.device? k = some device →
    (∃ old, r.device? k = some old ∧ device.connected = old.connected) ∨
      r.slots.size ≤ k.index ∧ device.connected = false

theorem Calm.refl (r : Registry ι) : Calm r r :=
  fun _ device hk => .inl ⟨device, hk, rfl⟩

/-- Steps after which all that was live is live under its handle, as the device of the same node,
and nothing else is connected. -/
structure Grows (r next : Registry ι) : Prop where
  steps : Steps r next
  keeps : ∀ k device, r.device? k = some device →
    ∃ later, next.device? k = some later ∧ later.node = device.node
  calm : Calm r next

theorem Grows.refl (r : Registry ι) : Grows r r :=
  ⟨.refl r, fun _ device hk => ⟨device, hk, rfl⟩, .refl r⟩

theorem Grows.trans {last : Registry ι} (hfirst : Grows r next) (hlast : Grows next last) :
    Grows r last := by
  refine ⟨hfirst.steps.trans hlast.steps, fun k device hk => ?_, fun k device hk => ?_⟩
  · obtain ⟨later, hlater, hnode⟩ := hfirst.keeps k device hk
    obtain ⟨latest, hlatest, hnode'⟩ := hlast.keeps k later hlater
    exact ⟨latest, hlatest, hnode'.trans hnode⟩
  · rcases hlast.calm k device hk with ⟨later, hlater, hsame⟩ | ⟨hle, hnew⟩
    · rw [hsame]
      exact hfirst.calm k later hlater
    · exact .inr ⟨Nat.le_trans hfirst.steps.size_le hle, hnew⟩

theorem Grows.create (hlive : r.device? parent = some above) (hfresh : r.handleOf? n = none)
    (hbelow : r.blob.parent n = .ok (some above.node)) (hnew : r.newDevice parent n = .ok device) :
    Grows r (r.add parent device) := by
  refine ⟨.single (.create hlive hfresh hbelow hnew), fun k old hk => ?_, fun k later hk => ?_⟩
  · exact ⟨_, device?_add_of_live hlive hk, rfl⟩
  · rcases exists_of_device?_add hlive hk with ⟨rfl, rfl⟩ | ⟨old, hold, rfl⟩
    · exact .inr ⟨Nat.le_refl _, (newDevice_eq_ok hnew).2.2.2.2⟩
    · exact .inl ⟨old, hold, rfl⟩

theorem Grows.exchangeIO (r : Registry ι) (h : Handle) (io : Option ι) :
    Grows r (r.modify h fun device => { device with io }) := by
  refine ⟨.single (.exchangeIO r h io), fun k device hk => ?_, fun k device hk => ?_⟩
  · rw [device?_modify, hk]
    split <;> exact ⟨_, rfl, rfl⟩
  · obtain ⟨old, hold, rfl | rfl⟩ := exists_of_device?_modify hk <;> exact .inl ⟨_, hold, rfl⟩

/-- The handle is that of the live device of `n`. -/
def IsDeviceOf (r : Registry ι) (n : Node) (h : Handle) : Prop :=
  ∃ device, r.device? h = some device ∧ device.node = n

theorem childDevice_ensures (hsound : r.Sound) (hlive : r.device? parent = some above)
    (hbelow : r.blob.parent n = .ok (some above.node)) :
    Ensures (childDevice parent n) r (fun h next => r.Grows next ∧ next.IsDeviceOf n h)
      r.Grows := by
  simp only [childDevice, ensures_bind, ensures_get]
  cases hfresh : r.handleOf? n with
  | some h => exact ⟨.refl r, hsound.handleOf?_eq_some_iff.1 hfresh⟩
  | none =>
    simp only [ensures_bind, ensures_lift, ensures_set, ensures_pure]
    refine ⟨fun device hnew => ⟨.create hlive hfresh hbelow hnew, ?_⟩, fun _ _ => .refl r⟩
    exact ⟨device, by rw [device?_add hlive, if_pos rfl], (newDevice_eq_ok hnew).1⟩

theorem childDevices_ensures {items : Items Node} (hsound : r.Sound)
    (hlive : r.device? parent = some above)
    (hbelow : ∀ c, .ok c ∈ items → r.blob.parent c = .ok (some above.node)) :
    Ensures (childDevices parent items) r (fun _ next => r.Grows next) r.Grows := by
  induction items generalizing r above with
  | nil => exact .refl r
  | cons item rest ih =>
    cases item with
    | error e => exact .refl r
    | ok c =>
      simp only [childDevices, ensures_bind, ensures_pure]
      refine (childDevice_ensures hsound hlive (hbelow c List.mem_cons_self)).imp ?_ fun _ h => h
      intro h next hnext
      obtain ⟨hgrows, -⟩ := hnext
      obtain ⟨later, hlater, hnode⟩ := hgrows.keeps parent above hlive
      have hbelow' : ∀ c, .ok c ∈ rest → next.blob.parent c = .ok (some later.node) := by
        intro c hc
        rw [hgrows.steps.blob_eq, hnode]
        exact hbelow c (List.mem_cons_of_mem _ hc)
      exact (ih (hgrows.steps.sound hsound) hlater hbelow').imp (fun _ _ => hgrows.trans)
        fun _ => hgrows.trans

theorem children_ensures (hsound : r.Sound) :
    Ensures (children h) r (fun _ next => r.Grows next) r.Grows := by
  simp only [children, ensures_bind, ensures_get, ensures_lift, device_eq_ok_iff]
  refine ⟨fun device hd => ?_, fun _ _ => .refl r⟩
  obtain ⟨_, hparent⟩ := hsound.exists_parent hd
  exact childDevices_ensures hsound hd fun c hc => Blob.parent_of_mem_children hparent hc

theorem deviceOfLine_ensures (hsound : r.Sound) (hmet : r.blob.Met n line) :
    Ensures (deviceOfLine (n :: line)) r (fun h next => r.Grows next ∧ next.IsDeviceOf n h)
      r.Grows := by
  induction line generalizing n with
  | nil =>
    rw [deviceOfLine]
    simp only [ensures_bind, ensures_get]
    cases hfresh : r.handleOf? n with
    | some h => exact ⟨.refl r, hsound.handleOf?_eq_some_iff.1 hfresh⟩
    | none => exact .refl r
  | cons c line ih =>
    rw [deviceOfLine]
    simp only [ensures_bind, ensures_get]
    cases hfresh : r.handleOf? n with
    | some h => exact ⟨.refl r, hsound.handleOf?_eq_some_iff.1 hfresh⟩
    | none =>
      simp only [ensures_bind]
      refine (ih hmet.parent).imp ?_ fun _ h => h
      intro parent next hnext
      obtain ⟨hgrows, above, hlive, rfl⟩ := hnext
      have hbelow : next.blob.parent n = .ok (some above.node) := by
        rw [hgrows.steps.blob_eq]
        exact Blob.parent_eq_ok_iff.2 ⟨_, hmet, rfl⟩
      refine (childDevice_ensures (hgrows.steps.sound hsound) hlive hbelow).imp ?_
        fun _ => hgrows.trans
      exact fun h last hlast => ⟨hgrows.trans hlast.1, hlast.2⟩

theorem deviceOf_ensures (hsound : r.Sound) :
    Ensures (deviceOf n) r (fun h next => r.Grows next ∧ next.IsDeviceOf n h) r.Grows := by
  simp only [deviceOf, ensures_bind, ensures_get]
  cases hfresh : r.handleOf? n with
  | some h => exact ⟨.refl r, hsound.handleOf?_eq_some_iff.1 hfresh⟩
  | none =>
    simp only [ensures_bind, ensures_liftParse, Blob.visit_eq_ok_iff]
    refine ⟨?_, fun _ _ => .refl r⟩
    intro visit hvisit
    obtain ⟨rfl, hmet⟩ := hvisit
    exact deviceOfLine_ensures hsound hmet

theorem findDevice_ensures (hsound : r.Sound) (path : String) :
    Ensures (findDevice path) r (fun _ next => r.Grows next) r.Grows := by
  simp only [findDevice, ensures_bind, ensures_get, ensures_liftParse]
  refine ⟨fun found _ => ?_, fun _ _ => .refl r⟩
  cases found with
  | none => exact .refl r
  | some n => exact (deviceOf_ensures hsound).imp (fun _ _ h => h.1) fun _ h => h

theorem destroy_ensures (hsound : r.Sound) :
    Ensures (destroy h) r (fun _ next => Steps r next ∧ Calm r next) (· = r) := by
  simp only [destroy, ensures_bind, ensures_get, ensures_lift, device_eq_ok_iff]
  refine ⟨fun device hlive => ?_, fun _ _ => trivial⟩
  cases hparent : device.parent with
  | none => exact rfl
  | some parent =>
    by_cases hbarren : device.children = []
    · simp only [hbarren, ne_eq, not_true, if_false, ensures_set]
      refine ⟨.single (.destroy hlive hparent hbarren), fun k later hk => ?_⟩
      obtain ⟨above, habove, hlt, -⟩ := hsound.parent_live hlive hparent
      obtain ⟨-, old, hold, rfl⟩ := exists_of_device?_remove habove (by rintro rfl; omega) hk
      exact .inl ⟨old, hold, rfl⟩
    · simp [hbarren, ensures_bind, ensures_throw]

theorem exchangeIO_ensures (io : Option ι) :
    Ensures (exchangeIO h io) r (fun _ => Grows r) (Grows r) := by
  simp only [exchangeIO, ensures_bind, ensures_get, ensures_lift, ensures_set, ensures_pure]
  exact ⟨fun _ _ => .exchangeIO r h io, fun _ _ => .refl r⟩

end Registry

end DeviceTree

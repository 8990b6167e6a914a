import DeviceTree.Bus.Reference
import DeviceTree.Proofs.Bus.Discovery

/-!
# Lines of ancestors

The line of a device is the way down to it from the root. Where a connected device has connected
ancestors only, the unconnected devices of a line are its lower end, which are the ones that are
still to be connected; each of them is under a device that is connected once the ones before it are.
-/
namespace DeviceTree

namespace Registry

variable {ι : Type} {r next : Registry ι} {h p k : Handle} {device : Device ι}
  {line pending : List Handle}

def connected (r : Registry ι) (h : Handle) : Bool :=
  (r.device? h).any Device.connected

abbrev connect (r : Registry ι) (h : Handle) : Registry ι :=
  r.modify h fun device => { device with connected := true }

/-- The root is connected, and so is all that is above a connected device. -/
structure ConnectedFromTop (r : Registry ι) : Prop where
  root : r.connected rootHandle
  above : ∀ h p, r.HasParent h p → r.connected h → r.connected p

/-- The way down to `h` from the device that has no parent. -/
inductive Line (r : Registry ι) : Handle → List Handle → Prop
  | top {h : Handle} {device : Device ι} (live : r.device? h = some device)
    (top : device.parent = none) : Line r h [h]
  | down {h p : Handle} {line : List Handle} (under : r.HasParent h p) (above : Line r p line) :
    Line r h (line ++ [h])

/-- The devices can be connected in this order: each of them is under one that is connected by
then. -/
inductive Pending : Registry ι → List Handle → Prop
  | nil {r : Registry ι} : Pending r []
  | cons {r : Registry ι} {h p : Handle} {device : Device ι} {rest : List Handle}
    (live : r.device? h = some device) (unconnected : device.connected = false)
    (under : device.parent = some p) (above : r.connected p) (onward : Pending (r.connect h) rest) :
    Pending r (h :: rest)

theorem connected_of_device? (hd : r.device? h = some device) :
    r.connected h = device.connected := by
  simp [connected, hd]

/-- What is live after calm changes is connected if it was. -/
theorem Calm.connected_eq (hcalm : Calm r next) (hd : next.device? k = some device) :
    next.connected k = r.connected k := by
  rw [connected_of_device? hd]
  rcases hcalm k device hd with ⟨old, hold, hsame⟩ | ⟨hle, hnew⟩
  · rw [hsame, connected_of_device? hold]
  · cases hk : r.device? k with
    | none => simp [connected, hk, hnew]
    | some old => exact absurd (index_lt_of_device? hk) (Nat.not_lt.2 hle)

theorem connected_connect (hd : r.device? h = some device) :
    (r.connect h).connected k = (r.connected k || decide (k = h)) := by
  rw [connected, device?_modify]
  by_cases hk : k = h
  · simp [hk, hd]
  · simp [hk, connected]

theorem hasParent_connect : (r.connect h).HasParent k p ↔ r.HasParent k p := by
  constructor
  · intro hunder
    obtain ⟨device, hd, hparent⟩ := hunder
    obtain ⟨old, hold, rfl | rfl⟩ := exists_of_device?_modify hd <;> exact ⟨_, hold, hparent⟩
  · intro hunder
    obtain ⟨device, hd, hparent⟩ := hunder
    rw [HasParent, device?_modify, hd]
    split <;> exact ⟨_, rfl, hparent⟩

namespace Line

theorem mem (hline : r.Line h line) : h ∈ line := by
  cases hline <;> simp

theorem live (hline : r.Line h line) : ∀ k ∈ line, ∃ device, r.device? k = some device := by
  induction hline with
  | top live => simpa using ⟨_, live⟩
  | down under above ih =>
    obtain ⟨device, hd, -⟩ := under
    simpa [or_imp, forall_and] using ⟨ih, device, hd⟩

theorem index_le (hline : r.Line h line) (hsound : r.Sound) : ∀ k ∈ line, k.index ≤ h.index := by
  induction hline with
  | top => simp
  | down under above ih =>
    obtain ⟨device, hd, hparent⟩ := under
    obtain ⟨_, _, hlt, _⟩ := hsound.parent_live hd hparent
    intro k hk
    rcases List.mem_append.1 hk with hk | hk
    · exact Nat.le_of_lt (Nat.lt_of_le_of_lt (ih k hk) hlt)
    · obtain rfl := List.mem_singleton.1 hk
      exact Nat.le_refl _

theorem lt (habove : r.Line p line) (hunder : r.HasParent h p) (hsound : r.Sound) :
    ∀ k ∈ line, k.index < h.index := by
  obtain ⟨device, hd, hparent⟩ := hunder
  obtain ⟨_, _, hlt, _⟩ := hsound.parent_live hd hparent
  intro k hk
  exact Nat.lt_of_le_of_lt (habove.index_le hsound k hk) hlt

theorem nodup (hline : r.Line h line) (hsound : r.Sound) : line.Nodup := by
  induction hline with
  | top => simp
  | @down h p line under above ih =>
    rw [List.nodup_append]
    refine ⟨ih, by simp, ?_⟩
    rintro k hk _ hh rfl
    obtain rfl := List.mem_singleton.1 hh
    exact Nat.lt_irrefl _ (above.lt under hsound k hk)

theorem connect (hline : r.Line h line) : (r.connect k).Line h line := by
  induction hline with
  | @top h device live top =>
    cases hd : (r.connect k).device? h with
    | none =>
      rw [device?_modify, live] at hd
      split at hd <;> cases hd
    | some later =>
      refine .top hd ?_
      obtain ⟨old, hold, rfl | rfl⟩ := exists_of_device?_modify hd <;>
        obtain rfl := Option.some.inj (hold.symm.trans live) <;> exact top
  | down under above ih => exact .down (hasParent_connect.2 under) ih

end Line

theorem Sound.exists_line (hsound : r.Sound) (hd : r.device? h = some device) :
    ∃ line, r.Line h line := by
  have hup := hsound.reaches_root hd
  clear hd
  induction hup using Relation.ReflTransGen.head_induction_on with
  | refl =>
    obtain ⟨root, hroot, htop, -⟩ := hsound.root
    exact ⟨_, .top hroot htop⟩
  | head hunder _ ih =>
    obtain ⟨line, hline⟩ := ih
    exact ⟨_, .down hunder hline⟩

theorem Pending.concat (hpending : r.Pending pending) (hd : r.device? h = some device)
    (hfresh : device.connected = false) (hunder : device.parent = some p)
    (habove : r.connected p ∨ p ∈ pending) (hnew : h ∉ pending) : r.Pending (pending ++ [h]) := by
  induction hpending with
  | nil => exact .cons hd hfresh hunder (by simpa using habove) .nil
  | @cons r k _ _ rest live unconnected under above _ ih =>
    rw [List.mem_cons, not_or] at hnew
    refine .cons live unconnected under above (ih ?_ ?_ hnew.2)
    · rw [device?_modify, if_neg hnew.1]
      exact hd
    · rw [connected_connect live, Bool.or_eq_true, decide_eq_true_eq]
      simpa [or_assoc] using habove

section ConnectedFromTop

variable (hconnected : r.ConnectedFromTop)

include hconnected

/-- All that is above a connected device is connected. -/
theorem ConnectedFromTop.of_reflTransGen (hup : Relation.ReflTransGen r.HasParent h k)
    (hh : r.connected h) : r.connected k := by
  induction hup with
  | refl => exact hh
  | tail _ hunder ih => exact hconnected.above _ _ hunder ih

theorem Line.connected (hline : r.Line h line) (hh : r.connected h) :
    ∀ k ∈ line, r.connected k := by
  induction hline with
  | top => simpa using hh
  | down under above ih =>
    simpa [or_imp, forall_and] using ⟨ih (hconnected.above _ _ under hh), hh⟩

variable (hsound : r.Sound)

include hsound

theorem ConnectedFromTop.top (hd : r.device? h = some device) (htop : device.parent = none) :
    r.connected h := by
  by_cases hroot : h = rootHandle
  · rw [hroot]
    exact hconnected.root
  · obtain ⟨_, _, hparent, -⟩ := hsound.parent h device hd hroot
    simp [htop] at hparent

theorem unconnected_eq (hline : r.Line h line) :
    r.unconnected h = .ok (line.filter (!r.connected ·)) := by
  induction hline with
  | @top h device live top =>
    have hh := connected_of_device? live ▸ hconnected.top hsound live top
    rw [unconnected, device_eq_ok_iff.2 live, ok_bind, if_pos hh]
    simp [connected_of_device? live, hh, pure, Except.pure]
  | @down h p line under above ih =>
    obtain ⟨device, hd, hparent⟩ := under
    obtain ⟨_, _, hlt, _⟩ := hsound.parent_live hd hparent
    rw [unconnected, device_eq_ok_iff.2 hd, ok_bind]
    cases hh : device.connected with
    | true =>
      have hall := Line.connected hconnected (.down ⟨device, hd, hparent⟩ above)
        (connected_of_device? hd ▸ hh)
      rw [if_pos rfl, List.filter_eq_nil_iff.2 (by simpa using hall)]
      rfl
    | false =>
      simp [hparent, hlt, ih, ok_bind, List.filter_append, connected_of_device? hd, hh, pure,
        Except.pure]

theorem Line.pending_filter (hline : r.Line h line) :
    r.Pending (line.filter (!r.connected ·)) := by
  induction hline with
  | @top h device live top =>
    simpa [hconnected.top hsound live top] using Pending.nil
  | @down h p line under above ih =>
    have hnew : h ∉ line := fun hmem => Nat.lt_irrefl _ (above.lt under hsound h hmem)
    obtain ⟨device, hd, hparent⟩ := under
    have habove : r.connected p ∨ p ∈ line.filter (!r.connected ·) := by
      cases hp : r.connected p <;> simp [hp, above.mem]
    rw [List.filter_append]
    cases hh : device.connected with
    | true => simpa [connected_of_device? hd, hh] using ih
    | false =>
      have hpending := ih.concat hd hh hparent habove fun hmem => hnew (List.mem_filter.1 hmem).1
      simpa [connected_of_device? hd, hh] using hpending

end ConnectedFromTop

end Registry

end DeviceTree

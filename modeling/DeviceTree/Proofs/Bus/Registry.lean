import Std.Data.TreeMap.Lemmas
import DeviceTree.Bus.Discovery
import DeviceTree.Proofs.Blob.Walk

/-!
# The devices of a registry

What is live after a change of a registry. A registry is sound if its slots, its index and the lists
of children say the same thing, and if the parents of its devices are those of the blob. There are
four changes, and each of them keeps a registry sound.
-/
namespace DeviceTree

namespace Registry

variable {ι : Type} {r next : Registry ι} {h parent k : Handle} {device above : Device ι}
  {n : Node} {change : Device ι → Device ι}

theorem device_eq_ok_iff : r.device h = .ok device ↔ r.device? h = some device := by
  rw [Registry.device]
  cases r.device? h <;> simp

theorem index_lt_of_device? (hd : r.device? h = some device) : h.index < r.slots.size := by
  rw [device?, Option.join_eq_some_iff] at hd
  exact (Array.getElem?_eq_some_iff.1 hd).1

theorem device?_nextHandle : r.device? r.nextHandle = none := by
  simp [device?, nextHandle]

theorem ne_nextHandle (hd : r.device? h = some device) : h ≠ r.nextHandle := by
  rintro rfl
  simp [device?_nextHandle] at hd

@[simp] theorem device?_modify :
    (r.modify h change).device? k = if k = h then (r.device? k).map change else r.device? k := by
  obtain ⟨i⟩ := h
  obtain ⟨j⟩ := k
  simp only [device?, modify, Array.getElem?_modify, Handle.mk.injEq, eq_comm (a := i)]
  split
  · cases r.slots[j]? <;> simp
  · rfl

theorem exists_of_device?_modify (hk : (r.modify h change).device? k = some device) :
    ∃ old, r.device? k = some old ∧ (device = old ∨ device = change old) := by
  rw [device?_modify] at hk
  split at hk
  · obtain ⟨old, hold, rfl⟩ := Option.map_eq_some_iff.1 hk
    exact ⟨old, hold, .inr rfl⟩
  · exact ⟨device, hk, .inl rfl⟩

private theorem device?_push (index : Std.TreeMap Nat Handle) :
    ({ r with slots := r.slots.push (some device), index } : Registry ι).device? k =
      if k = r.nextHandle then some device else r.device? k := by
  obtain ⟨j⟩ := k
  simp only [device?, nextHandle, Array.getElem?_push, Handle.mk.injEq]
  split <;> rfl

private theorem device?_clear (index : Std.TreeMap Nat Handle) :
    ({ r with slots := r.slots.modify h.index fun _ => none, index } : Registry ι).device? k =
      if k = h then none else r.device? k := by
  obtain ⟨i⟩ := h
  obtain ⟨j⟩ := k
  simp only [device?, Array.getElem?_modify, Handle.mk.injEq, eq_comm (a := i)]
  split
  · cases r.slots[j]? <;> simp
  · rfl

theorem device?_add (hparent : r.device? parent = some above) :
    (r.add parent device).device? k =
      if k = r.nextHandle then some device
      else if k = parent then some { above with children := above.children ++ [r.nextHandle] }
      else r.device? k := by
  have hne := ne_nextHandle hparent
  rw [add, device?_modify, device?_push]
  by_cases hk : k = parent
  · subst hk
    simp [hne, hparent]
  · simp [hk]

theorem device?_remove (hparent : r.device? parent = some above) (hne : parent ≠ h) :
    (r.remove parent h device).device? k =
      if k = h then none
      else if k = parent then some { above with children := above.children.filter (· ≠ h) }
      else r.device? k := by
  rw [remove, device?_modify, device?_clear]
  by_cases hk : k = parent
  · subst hk
    simp [hne, hparent]
  · simp [hk]

theorem device?_add_of_live {old : Device ι} (hparent : r.device? parent = some above)
    (hk : r.device? k = some old) : (r.add parent device).device? k =
      some { old with
        children := if k = parent then old.children ++ [r.nextHandle] else old.children } := by
  rw [device?_add hparent, if_neg (ne_nextHandle hk)]
  by_cases heq : k = parent
  · subst heq
    obtain rfl : above = old := by simpa [hparent] using hk
    simp
  · simp [heq, hk]

theorem exists_of_device?_add {later : Device ι} (hparent : r.device? parent = some above)
    (hk : (r.add parent device).device? k = some later) : k = r.nextHandle ∧ later = device ∨
      ∃ old, r.device? k = some old ∧ later = { old with
        children := if k = parent then old.children ++ [r.nextHandle] else old.children } := by
  by_cases heq : k = r.nextHandle
  · rw [device?_add hparent, if_pos heq] at hk
    exact .inl ⟨heq, (Option.some.inj hk).symm⟩
  · cases hold : r.device? k with
    | none =>
      have hne : k ≠ parent := by
        rintro rfl
        simp [hparent] at hold
      simp [device?_add hparent, heq, hne, hold] at hk
    | some old =>
      rw [device?_add_of_live hparent hold] at hk
      exact .inr ⟨old, rfl, (Option.some.inj hk).symm⟩

theorem device?_remove_of_live {old : Device ι} (hparent : r.device? parent = some above)
    (hne : parent ≠ h) (hk : r.device? k = some old) (hkh : k ≠ h) :
    (r.remove parent h device).device? k = some { old with
      children := if k = parent then old.children.filter (· ≠ h) else old.children } := by
  rw [device?_remove hparent hne, if_neg hkh]
  by_cases heq : k = parent
  · subst heq
    obtain rfl : above = old := by simpa [hparent] using hk
    simp
  · simp [heq, hk]

theorem exists_of_device?_remove {later : Device ι} (hparent : r.device? parent = some above)
    (hne : parent ≠ h) (hk : (r.remove parent h device).device? k = some later) :
    k ≠ h ∧ ∃ old, r.device? k = some old ∧ later = { old with
      children := if k = parent then old.children.filter (· ≠ h) else old.children } := by
  by_cases heq : k = h
  · simp [device?_remove hparent hne, heq] at hk
  · cases hold : r.device? k with
    | none =>
      have hkp : k ≠ parent := by
        rintro rfl
        simp [hparent] at hold
      simp [device?_remove hparent hne, heq, hkp, hold] at hk
    | some old =>
      rw [device?_remove_of_live hparent hne hold heq] at hk
      exact ⟨heq, old, rfl, (Option.some.inj hk).symm⟩

theorem index_add (offset : Nat) : (r.add parent device).index[offset]? =
    if device.node.offset = offset then some r.nextHandle else r.index[offset]? := by
  simp [add, modify, Std.TreeMap.getElem?_insert]

theorem index_remove (offset : Nat) : (r.remove parent h device).index[offset]? =
    if device.node.offset = offset then none else r.index[offset]? := by
  simp [remove, modify, Std.TreeMap.getElem?_erase]

theorem ofNode_eq_ok {b : Blob} {above? : Option Handle} {cells : Cells}
    (hnew : Device.ofNode b n above? cells = .ok device) :
    device.node = n ∧ device.parent = above? ∧ device.cells = cells ∧ device.children = [] ∧
      device.io = none ∧ device.connected = false ∧ ∃ name, b.name n = .ok name := by
  obtain ⟨name, hname, hnew⟩ := bind_eq_ok_iff.1 hnew
  obtain ⟨status, -, hnew⟩ := bind_eq_ok_iff.1 hnew
  obtain ⟨dmaCoherent, -, hnew⟩ := bind_eq_ok_iff.1 hnew
  obtain ⟨deviceType, -, hnew⟩ := bind_eq_ok_iff.1 hnew
  obtain rfl : _ = device := by simpa [pure, Except.pure] using hnew
  exact ⟨rfl, rfl, rfl, rfl, rfl, rfl, name, hname⟩

theorem newDevice_eq_ok (hnew : r.newDevice parent n = .ok device) :
    device.node = n ∧ device.parent = some parent ∧ device.children = [] ∧ device.io = none ∧
      device.connected = false := by
  obtain ⟨above, -, hnew⟩ := bind_eq_ok_iff.1 hnew
  obtain ⟨cells, -, hnew⟩ := bind_eq_ok_iff.1 hnew
  obtain ⟨hnode, hparent, -, hchildren, hio, hconnected, -⟩ :=
    ofNode_eq_ok (liftM_eq_ok_iff.1 hnew)
  exact ⟨hnode, hparent, hchildren, hio, hconnected⟩

end Registry

end DeviceTree

import DeviceTree.Proofs.Bus.Handles
import DeviceTree.Proofs.Bus.Histories
import DeviceTree.Proofs.Bus.Replies

/-!
# What is live can be discovered anew

A live device shows that all that is read of its node on its discovery can be read, and so do the
devices above it. So every registry of the blob can discover the device of this node, whatever it
knows already, and a platform that grants everything lets its driver be connected.
-/
namespace DeviceTree

namespace Registry

variable {ι : Type} {b : Blob} {r next last : Registry ι} {h k parent : Handle}
  {device above : Device ι} {n : Node} {line : List Node}

theorem Presents.of_steps (hr : r.Presents b) (hsteps : Steps r next) : next.Presents b :=
  ⟨hsteps.blob_eq.trans hr.blob_eq, hsteps.sound hr.sound, hr.truthful.steps hr.sound hsteps⟩

theorem Steps.device?_of_live (hsteps : Steps r next) (hsound : r.Sound)
    (hd : r.device? k = some device) (hlive : (next.device? k).isSome) :
    ∃ later, next.device? k = some later ∧
      later = { device with connected := later.connected, children := later.children,
                            io := later.io } := by
  obtain ⟨later, hlater⟩ := Option.isSome_iff_exists.1 hlive
  obtain ⟨old, hold, heq⟩ := hsteps.device?_eq hsound (index_lt_of_device? hd) hlater
  obtain rfl := Option.some.inj (hold.symm.trans hd)
  exact ⟨later, hlater, heq⟩

theorem IsDeviceOf.live (h : r.IsDeviceOf n k) : (r.device? k).isSome := by
  obtain ⟨device, hd, -⟩ := h
  exact Option.isSome_iff_exists.2 ⟨device, hd⟩

theorem IsDeviceOf.of_live (h : r.IsDeviceOf n k) (hsound : r.Sound) (hsteps : Steps r next)
    (hlive : (next.device? k).isSome) : next.IsDeviceOf n k := by
  obtain ⟨device, hd, rfl⟩ := h
  obtain ⟨later, hlater, heq⟩ := hsteps.device?_of_live hsound hd hlive
  exact ⟨later, hlater, by rw [heq]⟩

theorem IsDeviceOf.of_steps (h : r.IsDeviceOf n k) (hsound : r.Sound) (hsteps : Steps r next)
    (hkeeps : Keeps r next) : next.IsDeviceOf n k :=
  h.of_live hsound hsteps (hkeeps k h.live)

/-- What describes a node shows that its device can be created. -/
theorem exists_newDevice (hparent : r.device? parent = some above)
    (hdescribes : device.Describes r.blob) : ∃ new, r.newDevice parent device.node = .ok new := by
  obtain ⟨_, -, hcells⟩ := hdescribes.cells
  obtain ⟨hchildAddress, hchildSize, -, -⟩ := Blob.cells_eq_ok hcells
  simp only [newDevice, device_eq_ok_iff.2 hparent, ok_bind, Cells.forChild, hchildAddress,
    hchildSize, Device.ofNode, hdescribes.name, hdescribes.status, hdescribes.dmaCoherent,
    hdescribes.deviceType]
  exact ⟨_, rfl⟩

theorem childDevice_eq (parent : Handle) (n : Node) (r : Registry ι) :
    childDevice parent n r = match r.handleOf? n with
      | some h => .ok h r
      | none => match r.newDevice parent n with
        | .ok device => .ok r.nextHandle (r.add parent device)
        | .error e => .error e r := by
  rw [childDevice, get_bind_apply]
  cases r.handleOf? n with
  | some h => rfl
  | none =>
    dsimp only
    cases r.newDevice parent n <;> rfl

theorem exists_childDevice (hparent : r.device? parent = some above)
    (hdescribes : device.Describes r.blob) :
    ∃ h next, childDevice parent device.node r = .ok h next := by
  obtain ⟨new, hnew⟩ := exists_newDevice hparent hdescribes
  rw [childDevice_eq, hnew]
  cases r.handleOf? device.node with
  | some h => exact ⟨h, r, rfl⟩
  | none => exact ⟨r.nextHandle, r.add parent new, rfl⟩

theorem deviceOf_of_some (hfound : r.handleOf? n = some h) : deviceOf n r = .ok h r := by
  rw [deviceOf, get_bind_apply, hfound]
  rfl

section Presented

variable (hr : r.Presents b) (hlast : last.Presents b)

include hr hlast

end Presented

end Registry

namespace Bus

open Platform (Obeys)
open Registry (Keeps)

variable {σ ι : Type} [Platform σ ι] {bus : Bus σ ι} {h : Handle} {device : Device ι}

end Bus

end DeviceTree

import DeviceTree.Proofs.Bus.Places
import DeviceTree.Proofs.Bus.Ranges
import DeviceTree.Proofs.Bus.Rediscovery

/-!
# Elements one after another

An element is as wide as its type says, be it a number, a phandle or an entry. So a cursor that goes
from element to element comes to where one that skips them goes at once, and both find the same
there. On the way the one discovers and connects what earlier phandles lead to, and the other does
not; but what is live in the end can be discovered anew, so both come to the device of the same
node.
-/
namespace DeviceTree

/-- The elements are the same, or devices of one node. -/
inductive Element.Alike {ι κ : Type} (r : Registry ι) (s : Registry κ) : Element → Element → Prop
  | same {element : Element} (plain : ∀ target, element ≠ .device target) :
    Alike r s element element
  | device {target other : Handle} (twins : r.Twins s target other) :
    Alike r s (.device target) (.device other)

namespace Registry

variable {ι : Type} {r : Registry ι} {h : Handle} {device : Device ι} {c : Cursor} {index : Nat}

end Registry

namespace Bus

open Platform (Obeys)
open Registry (Steps Keeps)

variable {σ ι α : Type} [Platform σ ι] {b : Blob} {bus mid next last : Bus σ ι} {h : Handle}
  {device : Device ι} {c moved start : Cursor} {type : ElementType} {element : Element}
  {width index place : Nat}

theorem ask_settle_eq_ok_iff {question : Registry ι → Except Error (EntryRead α)} {a : α} :
    (do settle (← ask question)) bus = .ok (a, moved) next ↔
      ∃ read, question bus.registry = .ok read ∧ settle read bus = .ok (a, moved) next := by
  simp only [seq_eq_ok_iff, ask_eq_ok_iff]
  grind

/-- What following a phandle finds: its node, the device of that, and the connection. -/
theorem follow_eq_ok_iff {phandle : UInt32} {target : Handle} :
    follow phandle bus = .ok target last ↔
      ∃ n registry, bus.registry.blob.nodeByPhandle phandle = .ok (some n) ∧
        Registry.deviceOf n bus.registry = .ok target registry ∧
        connect target { bus with registry } = .ok () last := by
  simp only [follow, seq_eq_ok_iff, ask_eq_ok_iff, liftM_eq_ok_iff]
  constructor
  · rintro ⟨found, _, ⟨hfound, rfl⟩, hend⟩
    cases found with
    | none => cases hend
    | some n =>
      obtain ⟨_, _, hregistry, hend⟩ := seq_eq_ok_iff.1 hend
      obtain ⟨registry, hdiscovered, rfl⟩ := onRegistry_eq_ok_iff.1 hregistry
      obtain ⟨_, _, hconnected, hend⟩ := seq_eq_ok_iff.1 hend
      cases hend
      exact ⟨n, registry, hfound, hdiscovered, hconnected⟩
  · rintro ⟨n, registry, hfound, hdiscovered, hconnected⟩
    exact ⟨some n, bus, ⟨hfound, rfl⟩, seq_eq_ok_iff.2 ⟨target, _,
      onRegistry_eq_ok_iff.2 ⟨registry, hdiscovered, rfl⟩,
      seq_eq_ok_iff.2 ⟨(), last, hconnected, rfl⟩⟩⟩

theorem parseDevice_eq_ok_iff {target : Handle} :
    parseDevice h c index bus = .ok (target, moved) last ↔
      ∃ device phandle n registry, bus.registry.device? h = some device ∧
        Cursor.elementU32 index c = .ok (phandle, moved) ∧
        bus.registry.blob.nodeByPhandle phandle = .ok (some n) ∧
        Registry.deviceOf n bus.registry = .ok target registry ∧
        connect target { bus with registry } = .ok () last := by
  simp only [parseDevice, seq_eq_ok_iff, ask_eq_ok_iff, lift_eq_ok_iff, Registry.device_eq_ok_iff]
  constructor
  · rintro ⟨device, _, ⟨hd, rfl⟩, ⟨phandle, _⟩, _, ⟨hread, rfl⟩, _, _, hfollowed, hend⟩
    cases hend
    obtain ⟨n, registry, hfound, hdiscovered, hconnected⟩ := follow_eq_ok_iff.1 hfollowed
    exact ⟨device, phandle, n, registry, hd, hread, hfound, hdiscovered, hconnected⟩
  · rintro ⟨device, phandle, n, registry, hd, hread, hfound, hdiscovered, hconnected⟩
    exact ⟨device, bus, ⟨hd, rfl⟩, (phandle, moved), bus, ⟨hread, rfl⟩, target, last,
      follow_eq_ok_iff.2 ⟨n, registry, hfound, hdiscovered, hconnected⟩, rfl⟩

theorem isDeviceOf_of_connect {registry : Registry ι} {n : Node} {target : Handle}
    (hsound : bus.registry.Sound)
    (hdiscovered : Registry.deviceOf n bus.registry = .ok target registry)
    (hconnected : connect target { bus with registry } = .ok () last) :
    last.registry.IsDeviceOf n target := by
  obtain ⟨hgrows, hfound⟩ := (Registry.deviceOf_ensures hsound).of_ok hdiscovered
  have hsound' := hgrows.steps.sound hsound
  obtain ⟨hsteps, hkeeps⟩ :=
    (permits_keeps.connect target { bus with registry } hsound').of_ok hconnected
  exact hfound.of_steps hsound' hsteps hkeeps

/-- How an element is parsed, and which bus that leaves. -/
inductive GivesElement (bus : Bus σ ι) (h : Handle) (c : Cursor) (index : Nat) :
    ElementType → Element → Cursor → Bus σ ι → Prop
  | decoded {device : Device ι} {type : ElementType} {element : Element} {moved : Cursor}
    (plain : type ≠ .device ∧ type ≠ .reg ∧ type ≠ .range)
    (live : bus.registry.device? h = some device)
    (read : Cursor.decode type index device.cells c = .ok (element, moved)) :
    GivesElement bus h c index type element moved bus
  | device {target : Handle} {moved : Cursor} {next : Bus σ ι}
    (followed : parseDevice h c index bus = .ok (target, moved) next) :
    GivesElement bus h c index .device (.device target) moved next
  | reg {read : EntryRead Window} {window : Window} {moved : Cursor} {next : Bus σ ι}
    (found : bus.registry.readReg h c index = .ok read)
    (settled : settle read bus = .ok (window, moved) next) :
    GivesElement bus h c index .reg (.reg window) moved next
  | range {read : EntryRead AddressRange} {range : AddressRange} {moved : Cursor}
    {next : Bus σ ι} (found : bus.registry.readRange h c index = .ok read)
    (settled : settle read bus = .ok (range, moved) next) :
    GivesElement bus h c index .range (.range range) moved next

theorem parseElement_eq_ok_iff : parseElement h c type index bus = .ok (element, moved) next ↔
    GivesElement bus h c index type element moved next := by
  constructor
  · intro hend
    cases type with
    | device =>
      obtain ⟨_, _, hparse, hend⟩ := seq_eq_ok_iff.1 hend
      cases hend
      exact .device hparse
    | reg =>
      obtain ⟨_, _, hparse, hend⟩ := seq_eq_ok_iff.1 hend
      obtain ⟨read, hread, hsettled⟩ := ask_settle_eq_ok_iff.1 hparse
      cases hend
      exact .reg hread hsettled
    | range =>
      obtain ⟨_, _, hparse, hend⟩ := seq_eq_ok_iff.1 hend
      obtain ⟨read, hread, hsettled⟩ := ask_settle_eq_ok_iff.1 hparse
      cases hend
      exact .range hread hsettled
    | _ =>
      obtain ⟨device, _, hasked, hdecoded⟩ := seq_eq_ok_iff.1 hend
      obtain ⟨hd, rfl⟩ := ask_eq_ok_iff.1 hasked
      obtain ⟨hread, rfl⟩ := lift_eq_ok_iff.1 hdecoded
      exact .decoded (by simp) (Registry.device_eq_ok_iff.1 hd) hread
  · intro hgives
    cases hgives with
    | decoded plain live read =>
      rw [parseElement_eq plain]
      exact seq_eq_ok_iff.2 ⟨_, bus, ask_eq_ok_iff.2 ⟨Registry.device_eq_ok_iff.2 live, rfl⟩,
        lift_eq_ok_iff.2 ⟨read, rfl⟩⟩
    | device followed => exact seq_eq_ok_iff.2 ⟨_, _, followed, rfl⟩
    | reg found settled =>
      exact seq_eq_ok_iff.2 ⟨_, _, ask_settle_eq_ok_iff.2 ⟨_, found, settled⟩, rfl⟩
    | range found settled =>
      exact seq_eq_ok_iff.2 ⟨_, _, ask_settle_eq_ok_iff.2 ⟨_, found, settled⟩, rfl⟩

/-- How the bus goes on where elements are parsed: nothing is taken away, and only phandles lead to
other devices. -/
structure GoesOn (type : ElementType) (bus next : Bus σ ι) : Prop where
  steps : Steps bus.registry next.registry
  keeps : Keeps bus.registry next.registry
  same : type ≠ .device → next.registry = bus.registry

namespace GoesOn

omit [Platform σ ι]

theorem refl (type : ElementType) (bus : Bus σ ι) : GoesOn type bus bus :=
  ⟨.refl _, fun _ => id, fun _ => rfl⟩

theorem trans (h : GoesOn type bus next) (hlast : GoesOn type next last) : GoesOn type bus last :=
  ⟨h.steps.trans hlast.steps, fun k hk => hlast.keeps k (h.keeps k hk),
    fun htype => (hlast.same htype).trans (h.same htype)⟩

end GoesOn

section Onward

variable (hbus : bus.registry.Presents b) (hd : bus.registry.device? h = some device)
  (hwidth : type.width? device.cells = some width)

include hbus hd hwidth

end Onward

end Bus

end DeviceTree

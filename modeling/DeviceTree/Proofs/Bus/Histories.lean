import Mathlib.Data.Option.Basic
import DeviceTree.Proofs.Bus.Claims
import DeviceTree.Proofs.Bus.Descriptions
import DeviceTree.Proofs.Bus.Resolution

/-!
# Two histories of one blob

Whichever way two buses came from the same blob, the live devices of a node say the same on both,
though they may have different handles. Addresses go up through devices of the same nodes then, so
they lead to the same place, as long as the same of these nodes have register I/O; and if the
platforms answer claims alike, so do the buses.
-/
namespace DeviceTree

variable {ι κ : Type} {b : Blob} {n m : Node}

section Agree

variable {α β γ δ : Type} {R : α → β → Prop} {S : γ → δ → Prop}

/-- Both fail with the same error, or both succeed and the answers are related. -/
inductive Agree (R : α → β → Prop) : Except Error α → Except Error β → Prop
  | failed (e : Error) : Agree R (.error e) (.error e)
  | answered {a : α} {b : β} (related : R a b) : Agree R (.ok a) (.ok b)

theorem Agree.bind {x : Except Error α} {y : Except Error β} {f : α → Except Error γ}
    {g : β → Except Error δ} (hxy : Agree R x y) (hfg : ∀ a b, R a b → Agree S (f a) (g b)) :
    Agree S (x >>= f) (y >>= g) := by
  cases hxy with
  | failed e => exact .failed e
  | answered hab => exact hfg _ _ hab

theorem Agree.refl (x : Except Error α) : Agree (· = ·) x x := by
  cases x with
  | error e => exact .failed e
  | ok a => exact .answered rfl

theorem Agree.bind_same (x : Except Error α) {f : α → Except Error γ} {g : α → Except Error δ}
    (hfg : ∀ a, Agree S (f a) (g a)) : Agree S (x >>= f) (x >>= g) := by
  refine (Agree.refl x).bind fun a b hab => ?_
  rw [← hab]
  exact hfg a

end Agree

namespace Blob

def Upwards (b : Blob) : Node → Node → Prop :=
  Relation.ReflTransGen fun n m => b.parent n = .ok (some m)

/-- The nodes that addresses of `n` go through: its parent and all above it, or the root itself. -/
def OnWay (b : Blob) (n m : Node) : Prop :=
  ∃ above, b.parent n = .ok above ∧ b.Upwards (above.getD n) m

end Blob

structure Device.SaysSame (device : Device ι) (twin : Device κ) : Prop where
  name : device.name = twin.name
  status : device.status = twin.status
  cells : device.cells = twin.cells
  dmaCoherent : device.dmaCoherent = twin.dmaCoherent
  deviceType : device.deviceType = twin.deviceType

theorem Device.Describes.saysSame {device : Device ι} {twin : Device κ}
    (h : device.Describes b) (htwin : twin.Describes b) (hnode : device.node = twin.node) :
    device.SaysSame twin := by
  obtain ⟨hname, hstatus, hdmaCoherent, hdeviceType, above, habove, hcells⟩ := h
  obtain ⟨hname', hstatus', hdmaCoherent', hdeviceType', above', habove', hcells'⟩ := htwin
  rw [hnode] at hname hstatus hdmaCoherent hdeviceType habove hcells
  obtain rfl : above = above' := Except.ok.inj (habove.symm.trans habove')
  exact ⟨Except.ok.inj (hname.symm.trans hname'), Except.ok.inj (hstatus.symm.trans hstatus'),
    Except.ok.inj (hcells.symm.trans hcells'),
    Except.ok.inj (hdmaCoherent.symm.trans hdmaCoherent'),
    Except.ok.inj (hdeviceType.symm.trans hdeviceType')⟩

namespace Registry

/-- The nodes whose devices have register I/O. -/
def mediators (r : Registry ι) : List Node :=
  r.slots.toList.filterMap fun slot => (slot.filter (·.io.isSome)).map Device.node

/-- The same ones of the nodes have register I/O. -/
def MediateAlike (r : Registry ι) (s : Registry κ) (nodes : Node → Prop) : Prop :=
  ∀ m, nodes m → (m ∈ r.mediators ↔ m ∈ s.mediators)

/-- A sound registry of the blob, whose devices describe their nodes. -/
structure Presents (r : Registry ι) (b : Blob) : Prop where
  blob_eq : r.blob = b
  sound : r.Sound
  truthful : r.Truthful

/-- The handles are those of devices of one node. -/
def Twins (r : Registry ι) (s : Registry κ) (h k : Handle) : Prop :=
  ∃ n, r.IsDeviceOf n h ∧ s.IsDeviceOf n k

variable {r : Registry ι} {s : Registry κ} {h k : Handle} {device : Device ι} {twin : Device κ}
  {route : Route} {address length limit index : Nat}

theorem mem_mediators_iff : n ∈ r.mediators ↔
    ∃ h device, r.device? h = some device ∧ device.node = n ∧ device.io.isSome := by
  simp only [mediators, List.mem_filterMap, Array.mem_toList_iff, Option.map_eq_some_iff,
    Option.filter_eq_some_iff]
  constructor
  · rintro ⟨slot, hslot, device, ⟨rfl, hio⟩, hn⟩
    obtain ⟨i, hi, hget⟩ := Array.mem_iff_getElem.1 hslot
    exact ⟨⟨i⟩, device, by simp [device?, hi, hget], hn, hio⟩
  · rintro ⟨h, device, hd, hn, hio⟩
    rw [device?, Option.join_eq_some_iff] at hd
    exact ⟨some device, Array.mem_of_getElem? hd, device, ⟨rfl, hio⟩, hn⟩

theorem Sound.mem_mediators_iff (hsound : r.Sound) (hd : r.device? h = some device) :
    device.node ∈ r.mediators ↔ device.io.isSome := by
  rw [Registry.mem_mediators_iff]
  constructor
  · rintro ⟨k, other, hk, hnode, hio⟩
    obtain rfl := hsound.eq_of_offset_eq hd hk (congrArg Node.offset hnode.symm)
    obtain rfl : other = device := by simpa [hd] using hk.symm
    exact hio
  · exact fun hio => ⟨h, device, hd, rfl, hio⟩

theorem Presents.describes (hr : r.Presents b) (hd : r.device? h = some device) :
    device.Describes b := by
  obtain ⟨rfl, -, htrue⟩ := hr
  exact htrue h device hd

/-- A live device is that of the root, or its parent is the device of the parent of its node. -/
theorem Presents.parent_cases (hr : r.Presents b) (hd : r.device? h = some device) :
    device.parent = none ∧ b.parent device.node = .ok none ∨
      ∃ p m, device.parent = some p ∧ b.parent device.node = .ok (some m) ∧ r.IsDeviceOf m p := by
  obtain ⟨rfl, hsound, -⟩ := hr
  by_cases hroot : h = rootHandle
  · subst hroot
    obtain ⟨root, hroot, hnone, -, htop⟩ := hsound.root
    obtain rfl : root = device := by simpa [hroot] using hd
    exact .inl ⟨hnone, htop⟩
  · obtain ⟨p, above, hparent, habove, -, hblob⟩ := hsound.parent h device hd hroot
    exact .inr ⟨p, above.node, hparent, hblob, above, habove, rfl⟩

section Presented

variable (hr : r.Presents b) (hs : s.Presents b)

include hr hs

theorem Presents.twins (hh : r.IsDeviceOf n h) (hk : s.IsDeviceOf n k) :
    ∃ device twin, r.device h = .ok device ∧ s.device k = .ok twin ∧ device.node = n ∧
      twin.node = n ∧ device.SaysSame twin ∧
      (device.parent = none ∧ twin.parent = none ∧ b.parent n = .ok none ∨
        ∃ p q m, device.parent = some p ∧ twin.parent = some q ∧ b.parent n = .ok (some m) ∧
          r.IsDeviceOf m p ∧ s.IsDeviceOf m q) := by
  obtain ⟨device, hd, rfl⟩ := hh
  obtain ⟨twin, hk, hnode⟩ := hk
  refine ⟨device, twin, device_eq_ok_iff.2 hd, device_eq_ok_iff.2 hk, rfl, hnode,
    (hr.describes hd).saysSame (hs.describes hk) hnode.symm, ?_⟩
  rcases hr.parent_cases hd with ⟨hnone, htop⟩ | ⟨p, m, hp, hm, hpm⟩ <;>
    rcases hs.parent_cases hk with ⟨hnone', htop'⟩ | ⟨q, l, hq, hl, hql⟩
  · exact .inl ⟨hnone, hnone', htop⟩
  · simp [← hnode, hl] at htop
  · simp [← hnode, htop'] at hm
  · obtain rfl : m = l := by simpa [← hnode, hl, eq_comm] using hm
    exact .inr ⟨p, q, m, hp, hq, hm, hpm, hql⟩

theorem Presents.mediates_iff (hh : r.IsDeviceOf n h) (hk : s.IsDeviceOf n k)
    (hd : r.device h = .ok device) (ht : s.device k = .ok twin)
    (halike : r.MediateAlike s (b.Upwards n)) : device.io.isSome ↔ twin.io.isSome := by
  obtain ⟨same, hsame, rfl⟩ := hh
  obtain rfl : same = device := by simpa [hsame] using device_eq_ok_iff.1 hd
  obtain ⟨same', hsame', hnode⟩ := hk
  obtain rfl : same' = twin := by simpa [hsame'] using device_eq_ok_iff.1 ht
  rw [← hr.sound.mem_mediators_iff hsame, ← hs.sound.mem_mediators_iff hsame', hnode]
  exact halike same.node .refl

end Presented

end Registry

theorem Bus.Reachable.presents {σ : Type} [Platform σ ι] {bus : Bus σ ι} (hbus : Reachable b bus) :
    bus.registry.Presents b :=
  ⟨hbus.sound.1, hbus.sound.2, hbus.truthful⟩

/-- The locations are one address, reached by the CPU on both sides or mediated by devices of one
node. -/
structure Location.Alike (r : Registry ι) (s : Registry κ) (l l' : Location) : Prop where
  address : l.address = l'.address
  bus : Option.Rel (r.Twins s) l.bus l'.bus

namespace Registry

variable {r : Registry ι} {s : Registry κ} {h k : Handle} {route : Route}
  {address length limit index : Nat}

/-- On both sides the way ends at one place, or it goes on at devices of the node above `n`. -/
inductive Hop.Alike (r : Registry ι) (s : Registry κ) (b : Blob) (n : Node) : Hop → Hop → Prop
  | arrived {l l' : Location} (alike : l.Alike r s l') : Alike r s b n (.arrived l) (.arrived l')
  | onward {p q : Handle} {m : Node} (above : b.parent n = .ok (some m)) (first : r.IsDeviceOf m p)
    (second : s.IsDeviceOf m q) (address : Nat) :
    Alike r s b n (.onward p address) (.onward q address)

section Presented

variable (hr : r.Presents b) (hs : s.Presents b)

include hr hs

private theorem Presents.hop_agree (hh : r.IsDeviceOf n h) (hk : s.IsDeviceOf n k)
    (halike : route = .ranges → r.MediateAlike s (b.Upwards n)) :
    Agree (Hop.Alike r s b n) (r.hop route length h address) (s.hop route length k address) := by
  obtain ⟨device, twin, hd, ht, hnode, hnode', hsame, hparent⟩ := hr.twins hs hh hk
  have hmediated : (route = .ranges ∧ device.io.isSome) ↔ (route = .ranges ∧ twin.io.isSome) :=
    and_congr_right fun hroute => hr.mediates_iff hs hh hk hd ht (halike hroute)
  have harrive : ∀ {bus bus'}, Option.Rel (r.Twins s) bus bus' →
      Agree (Hop.Alike r s b n) (arrive device address length bus)
        (arrive twin address length bus') := by
    intro bus bus' hbus
    rw [arrive, arrive, hsame.cells]
    exact .bind_same _ fun _ => .answered (.arrived ⟨rfl, hbus⟩)
  rw [hop, hop, hd, ht, ok_bind, ok_bind, hr.blob_eq, hs.blob_eq, hnode, hnode']
  by_cases hio : route = .ranges ∧ device.io.isSome
  · rw [if_pos hio, if_pos (hmediated.1 hio)]
    exact harrive (.some ⟨n, hh, hk⟩)
  · rw [if_neg hio, if_neg (mt hmediated.2 hio)]
    rcases hparent with ⟨hnone, hnone', -⟩ | ⟨p, q, m, hp, hq, hm, hpm, hqm⟩
    · rw [hnone, hnone']
      exact harrive .none
    · rw [hp, hq]
      refine .bind_same _ fun found => ?_
      cases found with
      | none => exact harrive .none
      | some property =>
        dsimp only
        split
        · exact .answered (.onward hm hpm hqm address)
        · rw [hsame.cells]
          exact .bind_same _ fun onward => .answered (.onward hm hpm hqm onward)

/-- Hop by hop, an address goes up through devices of the same nodes. -/
theorem Presents.resolveWithin_agree (hh : r.IsDeviceOf n h) (hk : s.IsDeviceOf n k)
    (halike : route = .ranges → r.MediateAlike s (b.Upwards n)) :
    Agree (Location.Alike r s) (r.resolveWithin route length limit h address)
      (s.resolveWithin route length limit k address) := by
  induction limit generalizing n h k address with
  | zero => exact .failed _
  | succ limit ih =>
    have hhop : Agree (Hop.Alike r s b n) (r.hop route length h address)
      (s.hop route length k address) := hr.hop_agree hs hh hk halike
    rw [resolveWithin_succ, resolveWithin_succ]
    generalize r.hop route length h address = first at hhop
    generalize s.hop route length k address = second at hhop
    cases hhop with
    | failed e => exact .failed e
    | answered related =>
      cases related with
      | arrived alike => exact .answered alike
      | onward above first second address =>
        exact ih first second fun hroute m hm => halike hroute m (.head above hm)

/-- Where an address of `n` starts its way: at the parent, or at the root itself. -/
theorem Presents.start (hh : r.IsDeviceOf n h) (hk : s.IsDeviceOf n k) {device : Device ι}
    {twin : Device κ} (hd : r.device h = .ok device) (ht : s.device k = .ok twin) :
    ∃ above, b.parent n = .ok above ∧ r.IsDeviceOf (above.getD n) (device.parent.getD h) ∧
      s.IsDeviceOf (above.getD n) (twin.parent.getD k) := by
  obtain ⟨_, _, hd', ht', -, -, -, hparent⟩ := hr.twins hs hh hk
  obtain rfl := Except.ok.inj (hd.symm.trans hd')
  obtain rfl := Except.ok.inj (ht.symm.trans ht')
  rcases hparent with ⟨hnone, hnone', htop⟩ | ⟨p, q, m, hp, hq, hm, hpm, hqm⟩
  · exact ⟨none, htop, by rwa [hnone], by rwa [hnone']⟩
  · exact ⟨some m, hm, by rwa [hp], by rwa [hq]⟩

end Presented

end Registry

structure Window.Alike (r : Registry ι) (s : Registry κ) (w w' : Window) : Prop where
  base : w.base = w'.base
  length : w.length = w'.length
  resolvedBase : w.resolvedBase = w'.resolvedBase
  bus : Option.Rel (r.Twins s) w.bus w'.bus

structure AddressRange.Alike (r : Registry ι) (s : Registry κ) (a a' : AddressRange) : Prop where
  childBase : a.childBase = a'.childBase
  parentBase : a.parentBase = a'.parentBase
  length : a.length = a'.length
  resolvedParentBase : a.resolvedParentBase = a'.resolvedParentBase
  bus : Option.Rel (r.Twins s) a.bus a'.bus

/-- What was read is alike, and so is what is to be claimed, which is nothing unless it is
`allowed`. -/
structure EntryRead.Alike {α β : Type} (R : α → β → Prop) (allowed : Prop) (read : EntryRead α)
    (read' : EntryRead β) : Prop where
  value : R read.value read'.value
  cursor : read.cursor = read'.cursor
  claim : read.claim? = read'.claim?
  allowed : read.claim?.isSome → allowed

namespace Registry

variable {r : Registry ι} {s : Registry κ} {h k : Handle} {route : Route} {cursor : Cursor}
  {address length limit index place : Nat} {name : String}

private theorem claimFor_congr (hr : r.blob = b) (hs : s.blob = b) {l l' : Location}
    (halike : l.Alike r s l') : r.claimFor n name place l length =
      s.claimFor n name place l' length := by
  have hbus : l.bus.isSome = l'.bus.isSome := by
    have hrel := halike.bus
    generalize l.bus = bus at hrel
    generalize l'.bus = bus' at hrel
    cases hrel <;> rfl
  rw [claimFor, claimFor, hr, hs, hbus, halike.address]

section Presented

variable (hr : r.Presents b) (hs : s.Presents b) (hh : r.IsDeviceOf n h) (hk : s.IsDeviceOf n k)

include hr hs hh hk

theorem Presents.property_agree : Agree (· = ·) (r.property h name) (s.property k name) := by
  obtain ⟨device, twin, hd, ht, hnode, hnode', -⟩ := hr.twins hs hh hk
  rw [property, property, hd, ht, ok_bind, ok_bind, hr.blob_eq, hs.blob_eq, hnode, hnode']
  exact .refl _

theorem Presents.resolve_agree {device : Device ι} {twin : Device κ} (hd : r.device h = .ok device)
    (ht : s.device k = .ok twin)
    (halike : route = .ranges → r.MediateAlike s (b.OnWay n)) :
    Agree (Location.Alike r s) (r.resolve route (device.parent.getD h) address length)
      (s.resolve route (twin.parent.getD k) address length) := by
  obtain ⟨above, habove, hstart, hstart'⟩ := hr.start hs hh hk hd ht
  exact hr.resolveWithin_agree hs hstart hstart' fun hroute m hm =>
    halike hroute m ⟨above, habove, hm⟩

private theorem Presents.readReg_agree
    (halike : r.MediateAlike s (b.OnWay n)) :
    Agree (EntryRead.Alike (Window.Alike r s) True) (r.readReg h cursor index)
      (s.readReg k cursor index) := by
  obtain ⟨device, twin, hd, ht, hnode, hnode', hsame, -⟩ := hr.twins hs hh hk
  rw [readReg, readReg, hd, ht, ok_bind, ok_bind, hsame.cells, hnode, hnode']
  refine .bind_same _ fun read => ?_
  obtain ⟨⟨place, base, length⟩, moved⟩ := read
  refine (hr.resolve_agree hs hh hk hd ht fun _ => halike).bind fun l l' hl => ?_
  rw [claimFor_congr hr.blob_eq hs.blob_eq hl]
  exact .bind_same _ fun claim? =>
    .answered ⟨⟨rfl, rfl, hl.address, hl.bus⟩, rfl, rfl, fun _ => trivial⟩

private theorem Presents.readRange_agree
    (halike : Route.ofPropertyName cursor.name = .ranges → r.MediateAlike s (b.OnWay n)) :
    Agree (EntryRead.Alike (AddressRange.Alike r s) (Route.ofPropertyName cursor.name = .ranges))
      (r.readRange h cursor index) (s.readRange k cursor index) := by
  obtain ⟨device, twin, hd, ht, hnode, hnode', hsame, -⟩ := hr.twins hs hh hk
  rw [readRange, readRange, hd, ht, ok_bind, ok_bind, hsame.cells, hnode, hnode']
  refine .bind_same _ fun read => ?_
  obtain ⟨⟨place, entry⟩, moved⟩ := read
  refine (hr.resolve_agree hs hh hk hd ht halike).bind fun l l' hl => ?_
  dsimp only
  have hvalue : AddressRange.Alike r s
      { childBase := entry.childBase, parentBase := entry.parentBase, length := entry.size,
        resolvedParentBase := l.address, bus := l.bus }
      { childBase := entry.childBase, parentBase := entry.parentBase, length := entry.size,
        resolvedParentBase := l'.address, bus := l'.bus } :=
    ⟨rfl, rfl, rfl, hl.address, hl.bus⟩
  cases Route.ofPropertyName cursor.name with
  | ranges =>
    dsimp only
    rw [claimFor_congr hr.blob_eq hs.blob_eq hl]
    exact .bind_same _ fun claim? => .answered ⟨hvalue, rfl, rfl, fun _ => rfl⟩
  | dmaRanges => exact .answered ⟨hvalue, rfl, rfl, by simp⟩

end Presented

end Registry

private theorem Registry.name_of_property {r : Registry ι} {h : Handle} {name : String}
    {cursor : Cursor}
    (hcursor : r.property h name = .ok cursor) : cursor.name = name := by
  obtain ⟨device, -, hcursor⟩ := bind_eq_ok_iff.1 hcursor
  obtain ⟨found, hfound, hcursor⟩ := bind_eq_ok_iff.1 hcursor
  rw [liftM_eq_ok_iff] at hfound
  cases found with
  | none => cases hcursor
  | some p =>
    cases hcursor
    obtain ⟨-, haccept⟩ := Items.mem_of_first? hfound
    exact eq_of_beq (Except.ok.inj haccept)

namespace Bus

variable {σ τ α β γ δ : Type} {bus : Bus (Recorded σ ι) ι} {other : Bus (Recorded τ κ) κ}
  {R : α → β → Prop} {S : γ → δ → Prop}

/-- Nothing was called between the two buses but for `claims`, the latest first. -/
def Issues (bus later : Bus (Recorded σ ι) ι) (claims : List Claim) : Prop :=
  later.platform.log.map Event.call =
    claims.map Call.claim ++ bus.platform.log.map Event.call

theorem Issues.refl (bus : Bus (Recorded σ ι) ι) : Issues bus bus [] :=
  rfl

/-- After the same claims both computations failed with the same error, or both succeeded and the
answers are related. -/
inductive EndsAlike (R : α → β → Prop) (bus : Bus (Recorded σ ι) ι)
    (other : Bus (Recorded τ κ) κ) : EStateM.Result Error (Bus (Recorded σ ι) ι) α →
      EStateM.Result Error (Bus (Recorded τ κ) κ) β → Prop
  | failed {claims : List Claim} {later : Bus (Recorded σ ι) ι} {last : Bus (Recorded τ κ) κ}
    (e : Error) (first : Issues bus later claims) (second : Issues other last claims) :
    EndsAlike R bus other (.error e later) (.error e last)
  | answered {claims : List Claim} {later : Bus (Recorded σ ι) ι} {last : Bus (Recorded τ κ) κ}
    {a : α} {c : β} (related : R a c) (first : Issues bus later claims)
    (second : Issues other last claims) : EndsAlike R bus other (.ok a later) (.ok c last)

theorem EndsAlike.map {x : BusM (Recorded σ ι) ι α} {y : BusM (Recorded τ κ) κ β} {f : α → γ}
    {g : β → δ} (hxy : EndsAlike R bus other (x bus) (y other))
    (hfg : ∀ a c, R a c → S (f a) (g c)) :
    EndsAlike S bus other ((x >>= fun a => pure (f a)) bus)
      ((y >>= fun c => pure (g c)) other) := by
  simp only [Bind.bind, EStateM.bind]
  generalize x bus = first at hxy
  generalize y other = second at hxy
  cases hxy with
  | failed e hfirst hsecond => exact .failed e hfirst hsecond
  | answered related hfirst hsecond => exact .answered (hfg _ _ related) hfirst hsecond

theorem endsAlike_ask_bind {question : Registry ι → Except Error α}
    {question' : Registry κ → Except Error β} {f : α → BusM (Recorded σ ι) ι γ}
    {g : β → BusM (Recorded τ κ) κ δ}
    (hask : Agree R (question bus.registry) (question' other.registry))
    (hfg : ∀ a c, R a c → question bus.registry = .ok a →
      EndsAlike S bus other (f a bus) (g c other)) :
    EndsAlike S bus other ((ask question >>= f) bus) ((ask question' >>= g) other) := by
  simp only [Bind.bind, EStateM.bind, InPlace.ask_apply]
  generalize hfirst : question bus.registry = first at hask
  generalize question' other.registry = second at hask
  cases hask with
  | failed e => exact .failed e (.refl bus) (.refl other)
  | answered related => exact hfg _ _ related hfirst

variable [Platform σ ι] [Platform τ κ]

/-- The platforms reply the same to claims. -/
def ClaimAlike (bus : Bus (Recorded σ ι) ι) (other : Bus (Recorded τ κ) κ) : Prop :=
  ∀ c, (Platform.respond (.claim c) bus.platform).1 = (Platform.respond (.claim c) other.platform).1

theorem endsAlike_settle {allowed : Prop} {read : EntryRead α} {read' : EntryRead β}
    (hread : read.Alike R allowed read') (hclaims : allowed → ClaimAlike bus other) :
    EndsAlike (fun a c => R a.1 c.1) bus other (settle read bus) (settle read' other) := by
  rw [settle, settle, ← hread.claim]
  cases hclaim : read.claim? with
  | none => exact .answered hread.value (.refl bus) (.refl other)
  | some c =>
    have halike := hclaims (hread.allowed (by simp [hclaim])) c
    simp only [Bind.bind, EStateM.bind, claim_eq, halike]
    have hfirst : Issues bus
      { bus with platform := (Platform.respond (.claim c) bus.platform).2 } [c] := rfl
    have hsecond : Issues other
      { other with platform := (Platform.respond (.claim c) other.platform).2 } [c] := rfl
    cases (Platform.respond (.claim c) other.platform).1 with
    | ok _ => exact .answered hread.value hfirst hsecond
    | error e => exact .failed e hfirst hsecond

section Presented

open Registry (Presents)

variable {h k : Handle} {index : Nat} (hr : bus.registry.Presents b)
  (hs : other.registry.Presents b) (hh : bus.registry.IsDeviceOf n h)
  (hk : other.registry.IsDeviceOf n k)

include hr hs hh hk

private theorem endsAlike_reg
    (halike : bus.registry.MediateAlike other.registry (b.OnWay n))
    (hclaims : ClaimAlike bus other) :
    EndsAlike (Window.Alike bus.registry other.registry) bus other (reg h index bus)
      (reg k index other) := by
  refine endsAlike_ask_bind (hr.property_agree hs hh hk) fun cursor _ hcursor _ => ?_
  obtain rfl := hcursor
  refine .map (R := fun a c => Window.Alike bus.registry other.registry a.1 c.1) ?_ fun _ _ => id
  exact endsAlike_ask_bind (hr.readReg_agree hs hh hk halike) fun _ _ hread _ =>
    endsAlike_settle hread fun _ => hclaims

/-- Register I/O and claims matter on one of the routes only. -/
theorem endsAlike_range {route : Route}
    (halike : route = .ranges → bus.registry.MediateAlike other.registry (b.OnWay n))
    (hclaims : route = .ranges → ClaimAlike bus other) :
    EndsAlike (AddressRange.Alike bus.registry other.registry) bus other (range route h index bus)
      (range route k index other) := by
  refine endsAlike_ask_bind (hr.property_agree hs hh hk) fun cursor _ hcursor hfound => ?_
  obtain rfl := hcursor
  have hroute : Route.ofPropertyName cursor.name = route := by
    rw [Registry.name_of_property hfound]
    cases route <;> rfl
  rw [← hroute] at halike hclaims
  refine .map (R := fun a c => AddressRange.Alike bus.registry other.registry a.1 c.1) ?_
    fun _ _ => id
  exact endsAlike_ask_bind (hr.readRange_agree hs hh hk halike) fun _ _ hread _ =>
    endsAlike_settle hread hclaims

end Presented

/-- Whatever operations led to two buses of one blob, the live devices of a node say the same of it.
If the same of the nodes that its addresses go through have register I/O, and the platforms reply
the same to claims, then `reg` and `ranges` are read with the same outcome after the same claims, up
to the handle of the device that mediates. For `dma-ranges` neither matters. -/
theorem Reachable.independent_of_history (hbus : Reachable b bus) (hother : Reachable b other)
    {h k : Handle} {device : Device ι} {twin : Device κ}
    (hd : bus.registry.device? h = some device) (hk : other.registry.device? k = some twin)
    (hnode : device.node = twin.node) :
    device.SaysSame twin ∧
    (bus.registry.MediateAlike other.registry (b.OnWay device.node) → ClaimAlike bus other →
      ∀ index,
        EndsAlike (Window.Alike bus.registry other.registry) bus other (reg h index bus)
          (reg k index other) ∧
        EndsAlike (AddressRange.Alike bus.registry other.registry) bus other
          (range .ranges h index bus) (range .ranges k index other)) ∧
    ∀ index, EndsAlike (AddressRange.Alike bus.registry other.registry) bus other
      (range .dmaRanges h index bus) (range .dmaRanges k index other) := by
  have hr := hbus.presents
  have hs := hother.presents
  have hfirst : bus.registry.IsDeviceOf device.node h := ⟨device, hd, rfl⟩
  have hsecond : other.registry.IsDeviceOf device.node k := ⟨twin, hk, hnode.symm⟩
  refine ⟨(hr.describes hd).saysSame (hs.describes hk) hnode, fun halike hclaims index => ⟨?_, ?_⟩,
    fun index => ?_⟩
  · exact endsAlike_reg hr hs hfirst hsecond halike hclaims
  · exact endsAlike_range hr hs hfirst hsecond (fun _ => halike) fun _ => hclaims
  · exact endsAlike_range hr hs hfirst hsecond (by simp) (by simp)

/-- The serial port is `h`, the bridge alone has register I/O, and no claim is refused. -/
def bridgeMediates (h : Handle) (bus : Bus (Recorded Simulated FileNumber) FileNumber) : Bool :=
  (bus.registry.device? h).any (·.node = ⟨164⟩) && bus.registry.mediators = [⟨96⟩] &&
    bus.platform.inner.refusedClaims = []

/-- The bridge mediates the serial port, also after it was destroyed and found again. -/
theorem independent_of_history_bridge :
    ∃ bus other : Bus (Recorded Simulated FileNumber) FileNumber,
      Reachable Tree.bridge.blob bus ∧ Reachable Tree.bridge.blob other ∧
      bus.registry.IsDeviceOf ⟨164⟩ ⟨2⟩ ∧ other.registry.IsDeviceOf ⟨164⟩ ⟨3⟩ ∧
      bus.registry.mediators = [⟨96⟩] ∧ other.registry.mediators = [⟨96⟩] ∧
      EndsAlike (Window.Alike bus.registry other.registry) bus other (reg ⟨2⟩ 0 bus)
        (reg ⟨3⟩ 0 other) := by
  obtain ⟨bus, hbus, hfirst⟩ : ∃ bus, Reachable Tree.bridge.blob bus ∧ bridgeMediates ⟨2⟩ bus :=
    exists_reachable { inner := { cpu := { label := "" } } }
      [.findDevice "/bridge/uart@10", .exchangeIO ⟨1⟩ (some ⟨0⟩)] (by decide +kernel)
  obtain ⟨other, hother, hsecond⟩ : ∃ other, Reachable Tree.bridge.blob other ∧
      bridgeMediates ⟨3⟩ other :=
    exists_reachable { inner := { cpu := { label := "" } } }
      [.findDevice "/bridge", .destroy ⟨1⟩, .findDevice "/bridge/uart@10",
        .exchangeIO ⟨2⟩ (some ⟨5⟩)] (by decide +kernel)
  simp only [bridgeMediates, Bool.and_eq_true, decide_eq_true_eq,
    Option.any_eq_true] at hfirst hsecond
  obtain ⟨⟨⟨device, hd, hnode⟩, hmediators⟩, hrefused⟩ := hfirst
  obtain ⟨⟨⟨twin, hk, hnode'⟩, hmediators'⟩, hrefused'⟩ := hsecond
  have halike : bus.registry.MediateAlike other.registry (Tree.bridge.blob.OnWay device.node) := by
    intro m _
    rw [hmediators, hmediators']
  have hclaims : ClaimAlike bus other := by
    intro c
    change (if c.base ∈ bus.platform.inner.refusedClaims then _ else _) =
      if c.base ∈ other.platform.inner.refusedClaims then _ else _
    rw [hrefused, hrefused']
  obtain ⟨-, hreg, -⟩ := hbus.independent_of_history hother hd hk (hnode.trans hnode'.symm)
  exact ⟨bus, other, hbus, hother, ⟨device, hd, hnode⟩, ⟨twin, hk, hnode'⟩, hmediators, hmediators',
    (hreg halike hclaims 0).1⟩

end Bus

end DeviceTree

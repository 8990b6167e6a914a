import DeviceTree.Proofs.Bus.Claims

/-!
# Reserved memory

The reservations of a tree are stored one after another and closed by a pair of zeros. A reservation
that is such a pair itself closes them early, and the ones behind it are lost. What is read back is
claimed from the platform in order, up to the first claim that it refuses.
-/
namespace DeviceTree

def Tree.reserving : Tree where
  reservations := [⟨0x1000, 0x10⟩, ⟨0x2000, 0x20⟩, ⟨0, 0⟩, ⟨0x3000, 0x30⟩]

namespace Reservation

def claim (r : Reservation) : Claim where
  base := r.address.toNat
  length := r.size.toNat
  type := .reserved
  attributes := .writeBack

def granted {ι : Type} (r : Reservation) : Event ι :=
  ⟨.claim r.claim, .ok ()⟩

def refused {ι : Type} (r : Reservation) (e : Error) : Event ι :=
  ⟨.claim r.claim, .error e⟩

@[simp] theorem length_toBytes (r : Reservation) : r.toBytes.length = entrySize := by
  simp [toBytes, entrySize]

theorem ofNat_ofBigEndian_bigEndian (n : UInt64) :
    UInt64.ofNat (ofBigEndian (bigEndian 8 n.toNat)) = n := by
  have hlt : n.toNat < 256 ^ 8 := n.toNat_lt
  rw [ofBigEndian_bigEndian, Nat.mod_eq_of_lt hlt, UInt64.ofNat_toNat]

theorem ofBytes_toBytes (r : Reservation) : ofBytes r.toBytes = r := by
  have hlength (n : UInt64) : (bigEndian 8 n.toNat).length = 8 := length_bigEndian 8 _
  have hfront : r.toBytes.take 8 = bigEndian 8 r.address.toNat :=
    List.take_left' (hlength r.address)
  have hback : r.toBytes.drop 8 = bigEndian 8 r.size.toNat := List.drop_left' (hlength r.size)
  rw [ofBytes, hfront, hback, List.take_of_length_le (Nat.le_of_eq (hlength r.size)),
    ofNat_ofBigEndian_bigEndian, ofNat_ofBigEndian_bigEndian]

end Reservation

namespace Blob

variable {b : Blob} {offset : Nat} {r : Reservation} {reservations : List Reservation}

/-- One turn of the scan: a pair of zeros ends it. -/
theorem Holds.reservationsFrom_eq (h : b.Holds offset r.toBytes) (haligned : offset % 8 = 0)
    (hstop : offset + Reservation.entrySize ≤ b.header.structOffset) :
    b.reservationsFrom offset = if r = .terminator then []
      else .ok r :: b.reservationsFrom (offset + Reservation.entrySize) := by
  have hslice := h.slice_eq
  rw [Reservation.length_toBytes] at hslice
  rw [reservationsFrom, if_neg (not_not_intro haligned), if_neg (Nat.not_lt.2 hstop)]
  simp only [hslice, Reservation.ofBytes_toBytes]

/-- Reservations that a pair of zeros closes are read back, up to the first pair of zeros. -/
theorem Holds.reservationsFrom_terminated
    (h : b.Holds offset ((reservations ++ [Reservation.terminator]).flatMap
      Reservation.toBytes)) (haligned : offset % 8 = 0)
    (hstop : offset + Reservation.entrySize * (reservations.length + 1) ≤
      b.header.structOffset) :
    b.reservationsFrom offset = (reservations.takeWhile (· ≠ .terminator)).map .ok := by
  induction reservations generalizing offset with
  | nil =>
    have hlast : b.Holds offset Reservation.terminator.toBytes := by simpa using h
    rw [hlast.reservationsFrom_eq haligned (by simpa using hstop)]
    rfl
  | cons r reservations ih =>
    rw [List.cons_append, List.flatMap_cons, holds_append_iff, Reservation.length_toBytes] at h
    obtain ⟨hfirst, hrest⟩ := h
    have hentry : Reservation.entrySize = 16 := rfl
    rw [List.length_cons, Nat.mul_succ] at hstop
    rw [hfirst.reservationsFrom_eq haligned (by omega)]
    by_cases hr : r = .terminator
    · simp [hr]
    · rw [if_neg hr, ih hrest (by omega) (by omega),
        List.takeWhile_cons_of_pos (by simpa using hr), List.map_cons]

end Blob

namespace Tree

private theorem length_reservationsBlock (t : Tree) :
    t.reservationsBlock.length = Reservation.entrySize * (t.reservations.length + 1) := by
  rw [reservationsBlock]
  induction t.reservations with
  | nil => rfl
  | cons r reservations ih =>
    rw [List.cons_append, List.flatMap_cons, List.length_append, ih, Reservation.length_toBytes,
      List.length_cons, Nat.mul_succ _ (reservations.length + 1), Nat.add_comm]

private theorem holds_reservationsBlock (t : Tree) :
    t.blob.Holds t.header.reservationsOffset t.reservationsBlock := by
  refine ⟨t.structBlock ++ t.stringsBlock, ?_⟩
  have hlength : t.header.toBytes.length = t.header.reservationsOffset := length_header_toBytes _
  change t.reservationsBlock ++ (t.structBlock ++ t.stringsBlock) =
    t.flatten.drop t.header.reservationsOffset
  rw [flatten_eq, List.append_assoc, List.append_assoc, ← hlength, List.drop_left]

/-- The reservations before the first pair of zeros are those that the blob of a tree has. -/
theorem reservations_blob (t : Tree) :
    t.blob.reservations = (t.reservations.takeWhile (· ≠ .terminator)).map .ok :=
  t.holds_reservationsBlock.reservationsFrom_terminated (show Header.size % 8 = 0 from rfl)
    (Nat.le_of_eq (by rw [← length_reservationsBlock]; rfl))

end Tree

namespace Bus

variable {σ ι : Type} {bus next : Bus (Recorded σ ι) ι} {r : Reservation}
  {reservations : List Reservation}

/-- How claiming the reservations ends: the platform accepted the claim of each, in their order, and
the answer is their number; or it accepted those in front of one that it refused, and refused that
one at last. No device changes, and nothing else is called. -/
inductive Reserved (bus : Bus (Recorded σ ι) ι) : List Reservation →
    EStateM.Result Error (Bus (Recorded σ ι) ι) Nat → Prop
  | all {reservations : List Reservation} {later : Bus (Recorded σ ι) ι}
    (devices : later.registry = bus.registry)
    (log : later.platform.log =
      (reservations.map Reservation.granted).reverse ++ bus.platform.log) :
    Reserved bus reservations (.ok reservations.length later)
  | upTo {front rest : List Reservation} {r : Reservation} {e : Error}
    {later : Bus (Recorded σ ι) ι} (devices : later.registry = bus.registry)
    (log : later.platform.log =
      r.refused e :: (front.map Reservation.granted).reverse ++ bus.platform.log) :
    Reserved bus (front ++ r :: rest) (.error e later)

theorem Reserved.cons {x : BusM (Recorded σ ι) ι Nat}
    (hcalled : Called bus next (.claim r.claim) (.ok ()))
    (hx : Reserved next reservations (x next)) :
    Reserved bus (r :: reservations) ((x >>= fun count => pure (count + 1)) next) := by
  obtain ⟨hdevices, hlog⟩ := hcalled
  simp only [bind, EStateM.bind]
  generalize x next = outcome at hx
  cases hx with
  | all devices log =>
    refine .all (devices.trans hdevices) ?_
    rw [log, hlog, List.map_cons, List.reverse_cons, List.append_assoc]
    rfl
  | @upTo front rest last e later devices log =>
    change Reserved bus ((r :: front) ++ last :: rest) _
    refine .upTo (devices.trans hdevices) ?_
    rw [log, hlog, List.map_cons, List.reverse_cons, List.cons_append, List.cons_append,
      List.append_assoc]
    rfl

variable [Platform σ ι]

private theorem claimAll_cons_of_accepted {items : Items Reservation}
    (h : claim r.claim bus = .ok () next) : claimAll (.ok r :: items) bus =
      (claimAll items >>= fun count => pure (count + 1)) next := by
  change (claim r.claim >>= fun _ => claimAll items >>= fun count => pure (count + 1)) bus = _
  simp only [bind, EStateM.bind, h]

private theorem claimAll_cons_of_refused {items : Items Reservation} {e : Error}
    (h : claim r.claim bus = .error e next) : claimAll (.ok r :: items) bus = .error e next := by
  change (claim r.claim >>= fun _ => claimAll items >>= fun count => pure (count + 1)) bus = _
  simp only [bind, EStateM.bind, h]

theorem reserved_claimAll (bus : Bus (Recorded σ ι) ι) (reservations : List Reservation) :
    Reserved bus reservations (claimAll (reservations.map .ok) bus) := by
  induction reservations generalizing bus with
  | nil => exact .all rfl rfl
  | cons r reservations ih =>
    obtain ⟨next, reply, hcalled, hclaim⟩ := exists_claim_eq bus r.claim
    rw [List.map_cons]
    cases reply with
    | ok _ =>
      rw [claimAll_cons_of_accepted hclaim]
      exact (ih next).cons hcalled
    | error e =>
      rw [claimAll_cons_of_refused hclaim]
      change Reserved bus ([] ++ r :: reservations) _
      exact .upTo hcalled.1 hcalled.2

/-- Below 4 GiB the blob of a tree has the reservations of the tree up to the first pair of zeros,
and without failures. On a bus over that blob, whatever its devices and its platform, claiming them
asks the platform for each of them in order until it refuses one. -/
theorem reserved_flatten {t : Tree} (h : t.flatten.length < UInt32.size) :
    ∃ b, Blob.parse t.flatten.toArray = .ok b ∧
      b.reservations = (t.reservations.takeWhile (· ≠ .terminator)).map .ok ∧
      ∀ {σ ι : Type} [Platform σ ι] (bus : Bus (Recorded σ ι) ι), bus.registry.blob = b →
        Reserved bus (t.reservations.takeWhile (· ≠ .terminator)) (claimReservations bus) := by
  refine ⟨t.blob, Tree.parse_flatten h, t.reservations_blob, ?_⟩
  intro σ ι _ bus hbus
  have hclaims : claimReservations bus = claimAll bus.registry.blob.reservations bus := rfl
  rw [hclaims, hbus, t.reservations_blob]
  exact reserved_claimAll bus _

/-- The platform refuses the second reservation; the third is never read. -/
theorem reserved_reserving : Tree.reserving.flatten.length < UInt32.size ∧
    Tree.reserving.blob.reservations = [.ok ⟨0x1000, 0x10⟩, .ok ⟨0x2000, 0x20⟩] ∧
      ∃ bus : Bus (Recorded Simulated FileNumber) FileNumber,
        bus.registry.blob = Tree.reserving.blob ∧
          Reserved bus [⟨0x1000, 0x10⟩, ⟨0x2000, 0x20⟩] (claimReservations bus) ∧
          (Operation.claimReservations.after bus).platform.log.map Event.call =
            [.claim (Reservation.claim ⟨0x2000, 0x20⟩),
              .claim (Reservation.claim ⟨0x1000, 0x10⟩)] := by
  have hsize : Tree.reserving.flatten.length < UInt32.size := by
    rw [Tree.length_flatten]
    decide
  obtain ⟨b, hparse, hreservations, hreserved⟩ := reserved_flatten hsize
  obtain rfl := Except.ok.inj (hparse.symm.trans (Tree.parse_flatten hsize))
  let bus : Bus (Recorded Simulated FileNumber) FileNumber :=
    { registry := { blob := Tree.reserving.blob, slots := #[], index := {} }
      platform := { inner := { cpu := { label := "" }, refusedClaims := [0x2000] } } }
  have hclaims : Operation.claimReservations.perform bus =
      claimAll Tree.reserving.blob.reservations bus := rfl
  refine ⟨hsize, hreservations, bus, rfl, hreserved bus rfl, ?_⟩
  rw [Operation.after, hclaims, hreservations]
  rfl

end Bus

end DeviceTree

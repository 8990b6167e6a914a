import DeviceTree.Bus.InPlace
import DeviceTree.Proofs.Bus.Accesses
import DeviceTree.Proofs.Bus.Entries

/-!
# Claims come last

An entry is claimed after everything about it is known. So a claim that is made is the right one,
and nothing comes after it that could fail; and if something fails before, nothing was claimed. A
program that reads the cursor in place moves it before the entry is known, and puts it back when it
fails. Such a program does the same as one that gets a new cursor with the entry, or none.
-/
namespace DeviceTree

variable {σ ι α β : Type}

namespace InPlace

variable [Platform σ ι] (bus : Bus σ ι) (cursor : Cursor) (f : α → InPlace σ ι β)

section Settled

variable {bus : Bus σ ι} {cursor c : Cursor} {question : Registry ι → Except Error α}
  {f : α → InPlace σ ι β} {found : Except Error (EntryRead β)}
  {g : α → Except Error (EntryRead β)}

omit [Platform σ ι] in
theorem ask_apply : Bus.ask question bus = match question bus.registry with
    | .ok a => .ok a bus
    | .error e => .error e bus := by
  change (liftM (question bus.registry) : BusM σ ι α) bus = _
  cases question bus.registry <;> rfl

/-- What is left once `found` is known: a claim to be made at most, or an error. -/
def settled (bus : Bus σ ι) (cursor : Cursor) :
    Except Error (EntryRead β) → EStateM.Result Error (Bus σ ι × Cursor) β
  | .ok read => taking (fun _ => Bus.settle read) (bus, cursor)
  | .error e => .error e (bus, cursor)

theorem taking_eq_settled (question : Registry ι → Cursor → Except Error (EntryRead β)) :
    taking (fun c => (Bus.ask (question · c) : BusM σ ι _) >>= Bus.settle) (bus, cursor) =
      settled bus cursor (question bus.registry cursor) := by
  simp only [taking, bind, EStateM.bind, ask_apply]
  cases question bus.registry cursor <;> rfl

private theorem settled_claim (bus : Bus σ ι) (cursor moved : Cursor) (b : β) (c : Claim) :
    settled bus cursor (.ok { value := b, cursor := moved, claim? := some c }) =
      match Bus.claim c bus with
      | .ok _ later => .ok b (later, moved)
      | .error e later => .error e (later, cursor) := by
  simp only [settled, taking, Bus.settle, bind, EStateM.bind]
  cases Bus.claim c bus <;> rfl

/-- But for the cursor that a failure leaves, `x` ends as the entry that was found. -/
def Settles (bus : Bus σ ι) (cursor : Cursor) (x : EStateM.Result Error (Bus σ ι × Cursor) β)
    (found : Except Error (EntryRead β)) : Prop :=
  restored cursor x = settled bus cursor found

private theorem ask_bind_eq_settled (h : ∀ a, f a (bus, cursor) = settled bus cursor (g a)) :
    (onBus (Bus.ask question) >>= f) (bus, cursor) =
      settled bus cursor (question bus.registry >>= g) := by
  simp only [bind, EStateM.bind, onBus, ask_apply]
  cases question bus.registry with
  | error e => rfl
  | ok a => exact h a

theorem Settles.read {reader : Reader α} {g : α × Cursor → Except Error (EntryRead β)}
    (h : ∀ a moved, Settles bus cursor (f a (bus, moved)) (g (a, moved))) :
    Settles bus cursor ((read reader >>= f) (bus, c)) (reader c >>= g) := by
  unfold Settles
  simp only [bind, EStateM.bind, InPlace.read]
  cases reader c with
  | error e => rfl
  | ok read => exact h read.1 read.2

theorem Settles.ask (h : ∀ a, Settles bus cursor (f a (bus, c)) (g a)) :
    Settles bus cursor ((onBus (Bus.ask question) >>= f) (bus, c))
      (question bus.registry >>= g) := by
  unfold Settles
  simp only [bind, EStateM.bind, onBus, ask_apply]
  cases question bus.registry with
  | error e => rfl
  | ok a => exact h a

theorem Settles.claim (claim : Claim) (b : β) :
    Settles bus cursor ((onBus (Bus.claim claim) >>= fun _ => pure b) (bus, c))
      (.ok { value := b, cursor := c, claim? := some claim }) := by
  unfold Settles
  simp only [settled_claim, onBus, bind, EStateM.bind]
  cases Bus.claim claim bus <;> rfl

theorem Settles.claimReached {n : Node} {kindProperty : String} {place : Nat}
    {location : Location} {length : Nat} {b : β} :
    Settles bus cursor
      (((MovesCursor.claimReached n kindProperty place location length : InPlace σ ι Unit) >>=
        fun _ => pure b) (bus, c))
      (bus.registry.claimFor n kindProperty place location length >>= fun claim? =>
        pure { value := b, cursor := c, claim? }) := by
  rw [MovesCursor.claimReached, Registry.claimFor]
  cases hbus : location.bus with
  | some h => rfl
  | none =>
    simp only [Option.isNone_none, Option.isSome_none, if_true, Bool.false_eq_true, if_false,
      bind_assoc]
    exact .ask fun kind => .claim _ b

end Settled

/-- A cursor that is moved in place ends where the one that is given back does. -/
theorem parseReg_eq (h : Handle) (index : Nat) :
    (parseReg h index : InPlace σ ι Window) = taking (Bus.parseReg h · index) := by
  funext ⟨bus, cursor⟩
  refine .trans ?_ (taking_eq_settled fun r c => r.readReg h c index).symm
  refine ask_bind_eq_settled fun device => ?_
  rw [Cursor.readRegEntry]
  simp only [Cursor.bind_apply, Cursor.pure_apply, bind_assoc]
  exact Settles.read fun place first => .read fun base second => .read fun length moved =>
    .ask fun location => .claimReached

theorem parseRange_eq (h : Handle) (index : Nat) :
    (parseRange h index : InPlace σ ι AddressRange) = taking (Bus.parseRange h · index) := by
  funext ⟨bus, cursor⟩
  refine .trans ?_ (taking_eq_settled fun r c => r.readRange h c index).symm
  refine ask_bind_eq_settled fun device => ?_
  rw [Cursor.readRangesEntry]
  simp only [Cursor.bind_apply, Cursor.pure_apply, bind_assoc]
  change restored cursor _ = _
  refine Settles.read fun place first => .read fun childBase second => .read fun parentBase third =>
    .read fun length moved => .ask fun location => ?_
  cases Route.ofPropertyName cursor.name with
  | ranges => exact .claimReached
  | dmaRanges => rfl

end InPlace

/-- The property with the kinds of the entries that are resolved on a route; devices access memory
on their own there, which nobody claims. -/
def Route.kindProperty? : Route → Option String
  | .ranges => some rangesKindProperty
  | .dmaRanges => none

theorem Registry.claimFor_eq_ok_iff {r : Registry ι} {n : Node} {kindProperty : String}
    {place length : Nat} {location : Location} {claim? : Option Claim} :
    r.claimFor n kindProperty place location length = .ok claim? ↔
      location.bus ≠ none ∧ claim? = none ∨ location.bus = none ∧
        ∃ type attributes, r.blob.HasKind n kindProperty place type attributes ∧
          claim? = some { base := location.address, length, type, attributes } := by
  rw [claimFor]
  cases hbus : location.bus with
  | some h => simp [pure, Except.pure, eq_comm]
  | none =>
    simp only [Option.isSome_none, Bool.false_eq_true, if_false, bind_eq_ok_iff, Prod.exists,
      Blob.memoryKind_eq_ok_iff, ne_eq, not_true, false_and, false_or, true_and]
    simp only [pure, Except.pure, Except.ok.injEq, eq_comm (a := claim?)]

namespace Bus

/-- How the entry `wanted?` of `n` is parsed, whose address is to be resolved by `resolve`, and
which is claimed as what the property `kindProperty?` says, if it is to be claimed at all. The
devices are what they were in any case, and after an error so is the cursor. -/
inductive Parsed (bus : Bus (Recorded σ ι) ι) (cursor : Cursor) (n : Node)
    (kindProperty? : Option String) (wanted? : Option (Entry α))
    (resolve : Nat → Nat → Except Error Location) :
    EStateM.Result Error (Bus (Recorded σ ι) ι × Cursor) α → Prop
  | missing {e : Error} (absent : wanted? = none) :
    Parsed bus cursor n kindProperty? wanted? resolve (.error e (bus, cursor))
  | unresolved {entry : Entry α} {e : Error} (found : wanted? = some entry)
    (lost : resolve entry.address entry.length = .error e) :
    Parsed bus cursor n kindProperty? wanted? resolve (.error e (bus, cursor))
  /-- A bus mediates the entry, or it is not one to be claimed: nothing is called. -/
  | unclaimed {entry : Entry α} {location : Location} {moved : Cursor}
    (found : wanted? = some entry) (resolved : resolve entry.address entry.length = .ok location)
    (left : location.bus ≠ none ∨ kindProperty? = none)
    (advanced : cursor.Advanced entry.count moved) :
    Parsed bus cursor n kindProperty? wanted? resolve (.ok (entry.value location) (bus, moved))
  | unknown {entry : Entry α} {location : Location} {name : String} {e : Error}
    (found : wanted? = some entry) (resolved : resolve entry.address entry.length = .ok location)
    (reached : location.bus = none) (named : kindProperty? = some name)
    (unknown : ∀ type attributes,
      ¬bus.registry.blob.HasKind n name entry.place type attributes) :
    Parsed bus cursor n kindProperty? wanted? resolve (.error e (bus, cursor))
  | refused {entry : Entry α} {location : Location} {name : String} {type : MemoryType}
    {attributes : MemoryAttributes} {e : Error} {later : Bus (Recorded σ ι) ι}
    (found : wanted? = some entry) (resolved : resolve entry.address entry.length = .ok location)
    (reached : location.bus = none) (named : kindProperty? = some name)
    (known : bus.registry.blob.HasKind n name entry.place type attributes)
    (called : Called bus later
      (.claim { base := location.address, length := entry.length, type, attributes }) (.error e)) :
    Parsed bus cursor n kindProperty? wanted? resolve (.error e (later, cursor))
  | claimed {entry : Entry α} {location : Location} {name : String} {type : MemoryType}
    {attributes : MemoryAttributes} {later : Bus (Recorded σ ι) ι} {moved : Cursor}
    (found : wanted? = some entry) (resolved : resolve entry.address entry.length = .ok location)
    (reached : location.bus = none) (named : kindProperty? = some name)
    (known : bus.registry.blob.HasKind n name entry.place type attributes)
    (called : Called bus later
      (.claim { base := location.address, length := entry.length, type, attributes }) (.ok ()))
    (advanced : cursor.Advanced entry.count moved) :
    Parsed bus cursor n kindProperty? wanted? resolve (.ok (entry.value location) (later, moved))

variable [Platform σ ι] {bus : Bus (Recorded σ ι) ι} {cursor : Cursor} {n : Node}
  {kindProperty? : Option String} {wanted? : Option (Entry α)}
  {resolve : Nat → Nat → Except Error Location}

theorem claim_eq {bus : Bus σ ι} (c : Claim) :
    claim c bus =
      match (Platform.respond (.claim c) bus.platform).1 with
      | .ok () => .ok () { bus with platform := (Platform.respond (.claim c) bus.platform).2 }
      | .error e =>
        .error e { bus with platform := (Platform.respond (.claim c) bus.platform).2 } := by
  change (liftM (Platform.respond (.claim c) bus.platform).1 : BusM σ ι Unit) _ = _
  cases (Platform.respond (.claim c) bus.platform).1 <;> rfl

theorem exists_claim_eq (bus : Bus (Recorded σ ι) ι) (c : Claim) :
    ∃ later reply, Called bus later (.claim c) reply ∧ claim c bus = match reply with
      | .ok () => .ok () later
      | .error e => .error e later :=
  ⟨{ bus with platform := (Platform.respond (.claim c) bus.platform).2 }, _, ⟨rfl, rfl⟩,
    claim_eq c⟩

/-- The claim that goes with an entry; not all entries are claimed. -/
def claimOf (bus : Bus σ ι) (n : Node) (location : Location) (entry : Entry α) :
    Option String → Except Error (Option Claim)
  | none => .ok none
  | some name => bus.registry.claimFor n name entry.place location entry.length

/-- Whatever is read of an entry, its claim comes last. -/
theorem parsed_settled (entryOf : β → Entry α) {found : Except Error (β × Cursor)}
    (hfound : ∀ read moved, found = .ok (read, moved) →
      wanted? = some (entryOf read) ∧ cursor.Advanced (entryOf read).count moved)
    (habsent : ∀ e, found = .error e → wanted? = none) :
    Parsed bus cursor n kindProperty? wanted? resolve
      (InPlace.settled bus cursor (found >>= fun read =>
        resolve (entryOf read.1).address (entryOf read.1).length >>= fun location =>
          claimOf bus n location (entryOf read.1) kindProperty? >>= fun claim? =>
            pure { value := (entryOf read.1).value location, cursor := read.2, claim? })) := by
  cases found with
  | error e => exact .missing (habsent e rfl)
  | ok read =>
    obtain ⟨read, moved⟩ := read
    obtain ⟨hentry, hmoved⟩ := hfound read moved rfl
    rw [ok_bind]
    generalize entryOf read = entry at hentry hmoved
    cases hresolve : resolve entry.address entry.length with
    | error e => exact .unresolved hentry hresolve
    | ok location =>
      rw [ok_bind]
      cases kindProperty? with
      | none => exact .unclaimed hentry hresolve (.inr rfl) hmoved
      | some name =>
        rw [claimOf]
        cases hclaim : bus.registry.claimFor n name entry.place location entry.length with
        | error e =>
          have hnever : ∀ claim?, bus.registry.claimFor n name entry.place location entry.length ≠
              .ok claim? := by simp [hclaim]
          simp only [ne_eq, Registry.claimFor_eq_ok_iff] at hnever
          by_cases hbus : location.bus = none
          · refine .unknown hentry hresolve hbus rfl fun type attributes hkind => ?_
            exact hnever _ (.inr ⟨hbus, type, attributes, hkind, rfl⟩)
          · exact absurd (.inl ⟨hbus, rfl⟩) (hnever none)
        | ok claim? =>
          rcases Registry.claimFor_eq_ok_iff.1 hclaim with
            ⟨hbus, rfl⟩ | ⟨hbus, type, attributes, hkind, rfl⟩
          · exact .unclaimed hentry hresolve (.inl hbus) hmoved
          · obtain ⟨later, reply, hcalled, hend⟩ := exists_claim_eq bus
              { base := location.address, length := entry.length, type, attributes }
            change Parsed _ _ _ _ _ _ (InPlace.settled bus cursor (.ok _))
            rw [InPlace.settled_claim, hend]
            cases reply with
            | ok _ => exact .claimed hentry hresolve hbus rfl hkind hcalled hmoved
            | error e => exact .refused hentry hresolve hbus rfl hkind hcalled

variable {h : Handle} {device : Device ι}

private theorem parsed_reg (hdevice : bus.registry.device? h = some device) (index : Nat) :
    Parsed bus cursor device.node (some regKindProperty) (cursor.regAt? device.cells index)
      (bus.registry.resolve .ranges (device.parent.getD h))
      (InPlace.taking (parseReg h · index) (bus, cursor)) := by
  have hsettled : InPlace.taking (parseReg h · index) (bus, cursor) = _ :=
    InPlace.taking_eq_settled fun r c => r.readReg h c index
  have hparsed : Parsed bus cursor device.node (some regKindProperty)
      (cursor.regAt? device.cells index)
      (bus.registry.resolve .ranges (device.parent.getD h)) _ :=
    parsed_settled (fun (place, base, length) => .ofReg device.cells index place base length)
      (fun _ _ hread => (Cursor.readRegEntry_eq_ok_iff.1 hread).symm)
      fun _ => Cursor.regAt?_eq_none
  rw [hsettled, Registry.readReg, Registry.device_eq_ok_iff.2 hdevice, ok_bind]
  exact hparsed

private theorem parsed_range (hdevice : bus.registry.device? h = some device) (index : Nat) :
    Parsed bus cursor device.node (Route.ofPropertyName cursor.name).kindProperty?
      (cursor.rangesAt? device.cells index)
      (bus.registry.resolve (.ofPropertyName cursor.name) (device.parent.getD h))
      (InPlace.taking (parseRange h · index) (bus, cursor)) := by
  have hsettled : InPlace.taking (parseRange h · index) (bus, cursor) = _ :=
    InPlace.taking_eq_settled fun r c => r.readRange h c index
  have hparsed : Parsed bus cursor device.node (Route.ofPropertyName cursor.name).kindProperty?
      (cursor.rangesAt? device.cells index)
      (bus.registry.resolve (.ofPropertyName cursor.name) (device.parent.getD h)) _ :=
    parsed_settled (fun (place, entry) => .ofRanges device.cells index place entry)
      (fun _ _ hread => ((Cursor.readRangesEntry_eq_ok_iff.1 hread).imp_right And.right).symm)
      fun _ => Cursor.rangesAt?_eq_none
  rw [hsettled, Registry.readRange, Registry.device_eq_ok_iff.2 hdevice, ok_bind]
  cases hroute : Route.ofPropertyName cursor.name <;> rw [hroute] at hparsed <;> exact hparsed

def serialReg : Cursor :=
  .start "reg" [0, 0, 0, 0x10, 0, 0, 0, 0x10]

/-- An entry of a live device is found, resolved and, if the CPU reaches it, claimed as the memory
that the node says it is. The claim is the only call and the last step that can fail; so after an
error nothing is claimed, and neither the cursor nor a device has changed. This holds of the parses
that move a cursor in place, which leave what those do that give back a cursor. -/
theorem parsed_of_live (hdevice : bus.registry.device? h = some device) (cursor : Cursor)
    (index : Nat) :
    Parsed bus cursor device.node (some regKindProperty) (cursor.regAt? device.cells index)
      (bus.registry.resolve .ranges (device.parent.getD h))
      (InPlace.parseReg h index (bus, cursor)) ∧
    Parsed bus cursor device.node (Route.ofPropertyName cursor.name).kindProperty?
      (cursor.rangesAt? device.cells index)
      (bus.registry.resolve (.ofPropertyName cursor.name) (device.parent.getD h))
      (InPlace.parseRange h index (bus, cursor)) ∧
    (InPlace.parseReg h index : InPlace (Recorded σ ι) ι Window) =
      InPlace.taking (parseReg h · index) ∧
    (InPlace.parseRange h index : InPlace (Recorded σ ι) ι AddressRange) =
      InPlace.taking (parseRange h · index) := by
  refine ⟨?_, ?_, InPlace.parseReg_eq h index, InPlace.parseRange_eq h index⟩
  · rw [InPlace.parseReg_eq]
    exact parsed_reg hdevice index
  · rw [InPlace.parseRange_eq]
    exact parsed_range hdevice index

/-- The serial port is claimed where the bridge maps it. -/
theorem parsed_bridge : ∃ (bus : Bus (Recorded Simulated FileNumber) FileNumber)
    (device : Device FileNumber), Reachable Tree.bridge.blob bus ∧
      bus.registry.device? ⟨2⟩ = some device ∧
      Parsed bus serialReg device.node (some regKindProperty) (serialReg.regAt? device.cells 0)
        (bus.registry.resolve .ranges (device.parent.getD ⟨2⟩))
        (InPlace.parseReg ⟨2⟩ 0 (bus, serialReg)) ∧
      ((Operation.parseReg ⟨2⟩ serialReg 0).after bus).platform.log.map Event.call = [.claim
        { base := 0x8010, length := 0x10, type := .memoryMappedIO, attributes := .uncached }] := by
  obtain ⟨bus, hbus, hrun⟩ : ∃ bus : Bus (Recorded Simulated FileNumber) FileNumber,
      Reachable Tree.bridge.blob bus ∧ ((bus.registry.device? ⟨2⟩).isSome &&
        decide (((Operation.parseReg ⟨2⟩ serialReg 0).after bus).platform.log.map Event.call =
          [.claim { base := 0x8010, length := 0x10, type := .memoryMappedIO,
                    attributes := .uncached }])) = true :=
    exists_reachable { inner := { cpu := { label := "" } } } [.findDevice "/bridge/uart@10"]
      (by decide +kernel)
  simp only [Bool.and_eq_true, decide_eq_true_eq] at hrun
  obtain ⟨hlive, hlog⟩ := hrun
  obtain ⟨device, hdevice⟩ := Option.isSome_iff_exists.1 hlive
  exact ⟨bus, device, hbus, hdevice, (parsed_of_live hdevice serialReg 0).1, hlog⟩

end Bus

end DeviceTree

import DeviceTree.Proofs.Bus.Claims
import DeviceTree.Proofs.Bus.Descriptions
import DeviceTree.Proofs.Bus.Resolution

/-!
# No number is too wide

A reader refuses numbers of more cells than are decoded. The cell counts of live devices are decoded
ones, so on the way to an element, an entry or a location no number is refused; an operation that
fails as if one were only hands on what the platform replied to its last call.
-/
namespace DeviceTree

variable {ι : Type} {b : Blob} {n : Node} {name : String} {cells : Cells}
  {index width : Nat} {c : Cursor}

/-- A node that counts five cells for an address, with a child, and a node that counts one. -/
def Tree.wide : Tree where
  root :=
    { name := ""
      properties := [.ofCells "#address-cells" [1], .ofCells "#size-cells" [1]]
      children :=
        [{ name := "wide", properties := [.ofCells "#address-cells" [5]]
           children := [{ name := "leaf" }] },
          { name := "narrow", properties := [.ofCells "#address-cells" [1]] }] }

abbrev tooWide {α : Type} : Except Error α :=
  .error (.invalidParameter .tooManyCells)

theorem liftM_ne_tooWide {α : Type} (x : Except ParseError α) :
    (liftM x : Except Error α) ≠ tooWide :=
  liftM_ne_error (by simp [Error.ofParse]) x

namespace Cursor.Avoids

theorem seekEntry : Avoids (.invalidParameter .tooManyCells) (seekEntry index width) := by
  rw [Cursor.seekEntry]
  split
  · exact pure index
  · refine get.bind fun c => ?_
    split
    · exact (throw (by simp)).bind fun _ => (skipElements (by simp) index width).bind fun _ =>
        get.bind fun _ => pure _
    · exact (skipElements (by simp) index width).bind fun _ => get.bind fun _ => pure _

theorem readRegEntry (h : cells.Decodable) :
    Avoids (.invalidParameter .tooManyCells) (readRegEntry index cells) :=
  seekEntry.bind fun _ => (readAddress (by simp) fun _ => h.address).bind fun _ =>
    (readElement (by simp) fun _ => h.size).bind fun _ => pure _

theorem readRangesEntry (h : cells.Decodable) :
    Avoids (.invalidParameter .tooManyCells) (readRangesEntry index cells) :=
  seekEntry.bind fun _ => (readAddress (by simp) fun _ => h.childAddress).bind fun _ =>
    (readAddress (by simp) fun _ => h.address).bind fun _ =>
      (readElement (by simp) fun _ => h.childSize).bind fun _ => pure _

theorem takeTerminated : Avoids (.invalidParameter .tooManyCells) takeTerminated := by
  refine get.bind fun c => ?_
  split
  · exact (take _ (by simp)).bind fun _ => pure _
  · exact throw (by simp)

theorem skipStrings : Avoids (.invalidParameter .tooManyCells) (skipStrings index) := by
  induction index with
  | zero => exact pure ()
  | succ index ih => exact takeTerminated.bind fun _ => ih

theorem elementString : Avoids (.invalidParameter .tooManyCells) (elementString index) := by
  refine skipStrings.bind fun _ => takeTerminated.bind fun bytes => ?_
  split
  · exact pure _
  · exact throw (by simp)

theorem decode (type : ElementType) (h : cells.Decodable) :
    Avoids (.invalidParameter .tooManyCells) (decode type index cells) := by
  cases type with
  | u32 => exact (elementU32 (by simp) index).bind fun _ => pure _
  | u64 => exact (elementU64 (by simp) index).bind fun _ => pure _
  | u128 => exact (readElement (by simp) fun _ => Nat.le_refl 4).bind fun _ => pure _
  | busAddress => exact (readAddress (by simp) fun _ => h.address).bind fun _ => pure _
  | childBusAddress => exact (readAddress (by simp) fun _ => h.childAddress).bind fun _ => pure _
  | size => exact (readElement (by simp) fun _ => h.size).bind fun _ => pure _
  | childSize => exact (readElement (by simp) fun _ => h.childSize).bind fun _ => pure _
  | string => exact elementString.bind fun _ => pure _
  | device | reg | range => exact throw (by simp)

end Cursor.Avoids

/-- All ways in which the kind of an entry is not known. -/
theorem Blob.memoryKind_ne_error {e : Error} (hparse : ∀ fault, .ofParse fault ≠ e)
    (hmalformed : .device (.malformedProperty name) ≠ e)
    (htype : .invalidParameter .unknownMemoryType ≠ e)
    (hattributes : .invalidParameter .unknownMemoryAttributes ≠ e) :
    b.memoryKind n name index ≠ .error e := by
  refine bind_ne_error (liftM_ne_error hparse _) fun found => ?_
  cases found with
  | none => exact ok_ne_error
  | some p =>
    dsimp only
    split
    · exact error_ne_error hmalformed
    split
    · exact error_ne_error hmalformed
    refine bind_ne_error ?_ fun type => ?_
    · rw [MemoryType.ofTag]
      split
      · exact ok_ne_error
      · exact error_ne_error htype
    · split
      · exact ok_ne_error
      · exact error_ne_error hattributes

theorem Registry.claimFor_ne_error {r : Registry ι} {e : Error} {location : Location} {length : Nat}
    (hkind : r.blob.memoryKind n name index ≠ .error e) :
    r.claimFor n name index location length ≠ .error e := by
  rw [claimFor]
  split
  · exact ok_ne_error
  · exact bind_ne_error hkind fun _ => ok_ne_error

theorem Registry.device_ne_tooWide {r : Registry ι} {h : Handle} : r.device h ≠ tooWide :=
  device_ne_error (by simp)

namespace Registry.Truthful

variable {r : Registry ι} {h : Handle} {device : Device ι} {route : Route}
  {address length limit : Nat} {location : Location}

variable (htrue : r.Truthful)

include htrue

private theorem device_bind_ne_tooWide {α : Type} {f : Device ι → Except Error α}
    (hf : ∀ device, device.cells.Decodable → f device ≠ tooWide) :
    (r.device h >>= f) ≠ tooWide := by
  cases hd : r.device h with
  | error e =>
    have hne : r.device h ≠ tooWide := device_ne_tooWide
    simpa [hd, error_bind] using hne
  | ok device => exact hf device (htrue h device (device_eq_ok_iff.1 hd)).decodable

theorem hop_ne_tooWide : r.hop route length h address ≠ tooWide :=
  hop_ne_error (fun device hd => .tooWide (htrue h device (device_eq_ok_iff.1 hd)).decodable)
    (by simp)

theorem resolve_ne_tooWide : r.resolve route h address length ≠ tooWide :=
  resolve_ne_error (fun _ _ => htrue.hop_ne_tooWide) (by simp) h address

omit htrue in
private theorem claimFor_ne_tooWide : r.claimFor n name index location length ≠ tooWide :=
  claimFor_ne_error
    (Blob.memoryKind_ne_error (by simp [Error.ofParse]) (by simp) (by simp) (by simp))

private theorem readReg_ne_tooWide : r.readReg h c index ≠ tooWide :=
  htrue.device_bind_ne_tooWide fun _ hcells =>
    bind_ne_error (Cursor.Avoids.readRegEntry hcells c) fun _ =>
      bind_ne_error htrue.resolve_ne_tooWide fun _ =>
        bind_ne_error claimFor_ne_tooWide fun _ => ok_ne_error

private theorem readRange_ne_tooWide : r.readRange h c index ≠ tooWide := by
  refine htrue.device_bind_ne_tooWide fun device hcells =>
    bind_ne_error (Cursor.Avoids.readRangesEntry hcells c) fun read =>
      bind_ne_error htrue.resolve_ne_tooWide fun location => ?_
  split
  · exact bind_ne_error claimFor_ne_tooWide fun _ => ok_ne_error
  · exact ok_ne_error

end Registry.Truthful

section IfFails

variable {σ α β : Type} {e other : Error} {x : EStateM Error σ α} {f : α → EStateM Error σ β}
  {s : σ} {Q : σ → Prop}

/-- If the computation from `s` on fails with `e`, then `Q` holds of the state that it leaves. -/
def IfFails (e : Error) (x : EStateM Error σ α) (s : σ) (Q : σ → Prop) : Prop :=
  ∀ t, x s = .error e t → Q t

theorem ifFails_pure {a : α} : IfFails e (pure a) s Q :=
  fun _ => nofun

theorem ifFails_get : IfFails e get s Q :=
  fun _ => nofun

private theorem ifFails_set {t : σ} : IfFails e (set t) s Q :=
  fun _ => nofun

theorem ifFails_throw (h : other ≠ e) : IfFails e (throw other : EStateM Error σ α) s Q :=
  fun _ hend => absurd (EStateM.Result.error.inj hend).1 h

theorem IfFails.bind (hx : IfFails e x s Q)
    (hf : ∀ a t, x s = .ok a t → IfFails e (f a) t Q) : IfFails e (x >>= f) s Q := by
  intro t hend
  simp only [Bind.bind, EStateM.bind] at hend
  cases hfirst : x s with
  | error first later =>
    rw [hfirst] at hend
    cases hend
    exact hx t hfirst
  | ok a next =>
    rw [hfirst] at hend
    exact hf a next hfirst t hend

theorem ifFails_liftM {x : Except Error α} (h : x ≠ .error e) :
    IfFails e (liftM x : EStateM Error σ α) s Q := by
  cases x with
  | ok a => exact ifFails_pure
  | error first => exact ifFails_throw fun heq => h (congrArg _ heq)

end IfFails

theorem Blob.cellCount_ne_tooWide {absent : UInt32} : b.cellCount n name absent ≠ tooWide := by
  have hguard : ∀ found : UInt32, (if Cells.maximum < found then
      throw (.device (.tooManyCells found)) else pure found : Except Error UInt32) ≠ tooWide := by
    intro found
    split <;> simp [throw, throwThe, MonadExceptOf.throw, pure, Except.pure]
  refine bind_ne_error (liftM_ne_tooWide _) fun found => ?_
  cases found with
  | none => exact hguard absent
  | some p => exact bind_ne_error (liftM_ne_tooWide _) hguard

namespace Registry

variable {r : Registry ι} {parent h : Handle} {Q : Registry ι → Prop}

private theorem newDevice_ne_tooWide : r.newDevice parent n ≠ tooWide :=
  bind_ne_error device_ne_tooWide fun _ =>
    bind_ne_error (bind_ne_error Blob.cellCount_ne_tooWide fun _ =>
      bind_ne_error Blob.cellCount_ne_tooWide fun _ => ok_ne_error) fun _ => liftM_ne_tooWide _

theorem childDevice_ifFails :
    IfFails (.invalidParameter .tooManyCells) (childDevice parent n) r Q := by
  refine ifFails_get.bind fun r _ _ => ?_
  split
  · exact ifFails_pure
  · exact (ifFails_liftM newDevice_ne_tooWide).bind fun _ _ _ =>
      ifFails_set.bind fun _ _ _ => ifFails_pure

theorem deviceOfLine_ifFails (line : List Node) :
    IfFails (.invalidParameter .tooManyCells) (deviceOfLine line) r Q := by
  induction line generalizing r Q with
  | nil => exact ifFails_throw (by simp)
  | cons n line ih =>
    rw [deviceOfLine]
    refine ifFails_get.bind fun r _ _ => ?_
    split
    · exact ifFails_pure
    · exact ih.bind fun _ _ _ => childDevice_ifFails

theorem deviceOf_ifFails : IfFails (.invalidParameter .tooManyCells) (deviceOf n) r Q := by
  refine ifFails_get.bind fun r _ _ => ?_
  split
  · exact ifFails_pure
  · refine IfFails.bind (ifFails_liftM (liftM_ne_tooWide _)) fun _ _ _ => deviceOfLine_ifFails _

theorem unconnected_ne_tooWide : r.unconnected h ≠ tooWide := by
  fun_induction unconnected r h with
  | case1 h ih =>
    refine bind_ne_error device_ne_tooWide fun device => ?_
    split
    · exact ok_ne_error
    split
    · exact ok_ne_error
    split
    case isTrue hlt => exact bind_ne_error (ih _ hlt) fun _ => ok_ne_error
    case isFalse => exact ok_ne_error

end Registry

/-- What the platform replied if it refused the call. -/
def Event.failure? : Event ι → Option Error
  | ⟨.read .., .error e⟩ | ⟨.write .., .error e⟩ | ⟨.claim _, .error e⟩ | ⟨.connect .., .error e⟩ =>
    some e
  | _ => none

namespace Bus

variable {σ α β : Type} {bus : Bus (Recorded σ ι) ι} {e : Error}
  {log : List (Event ι)} {h : Handle} {question : Registry ι → Except Error α}

/-- After the record `log` the platform was called, and it refused the last call with `e`. -/
def Refuses (e : Error) (log : List (Event ι)) (bus : Bus (Recorded σ ι) ι) : Prop :=
  ∃ event earlier, bus.platform.log = event :: earlier ∧ log <:+ earlier ∧ event.failure? = some e

/-- If the computation fails with `e`, it hands on what the platform replied to its last call. -/
def HandsOn (e : Error) (x : BusM (Recorded σ ι) ι α) (bus : Bus (Recorded σ ι) ι) : Prop :=
  ∀ log, log <:+ bus.platform.log → IfFails e x bus (Refuses e log)

variable {x : BusM (Recorded σ ι) ι α} {f : α → BusM (Recorded σ ι) ι β}

private theorem handsOn_pure {a : α} : HandsOn e (pure a) bus :=
  fun _ _ => ifFails_pure

theorem HandsOn.bind (hx : HandsOn e x bus)
    (hf : ∀ a next, x bus = .ok a next →
      bus.platform.log <:+ next.platform.log ∧ HandsOn e (f a) next) :
    HandsOn e (x >>= f) bus := by
  intro log hlog
  refine (hx log hlog).bind fun a next hend => ?_
  obtain ⟨hnext, hf⟩ := hf a next hend
  exact hf log (hlog.trans hnext)

theorem HandsOn.map (hx : HandsOn e x bus) (f : α → β) :
    HandsOn e (x >>= fun a => pure (f a)) bus :=
  fun log hlog => (hx log hlog).bind fun _ _ _ => ifFails_pure

private theorem handsOn_ask (h : question bus.registry ≠ .error e) :
    HandsOn e (ask question : BusM (Recorded σ ι) ι α) bus := by
  intro log hlog later hend
  rw [InPlace.ask_apply] at hend
  split at hend
  case h_1 => cases hend
  case h_2 first hfirst =>
    cases hend
    exact absurd hfirst h

private theorem handsOn_liftM {x : Except Error α} (h : x ≠ .error e) :
    HandsOn e (liftM x : BusM (Recorded σ ι) ι α) bus :=
  fun _ _ => ifFails_liftM h

theorem HandsOn.liftM_bind {x : Except Error α} (h : x ≠ .error e)
    (hf : ∀ a, HandsOn e (f a) bus) : HandsOn e (liftM x >>= f) bus := by
  refine (handsOn_liftM h).bind fun a next hend => ?_
  cases x with
  | error first => cases hend
  | ok b =>
    cases hend
    exact ⟨List.suffix_rfl, hf _⟩

theorem HandsOn.onRegistry_bind {operation : RegistryM ι α}
    (h : ∀ Q, IfFails e operation bus.registry Q)
    (hf : ∀ a registry, HandsOn e (f a) { bus with registry }) :
    HandsOn e (onRegistry operation >>= f) bus := by
  have hnever : ∀ error registry, operation bus.registry = .error error registry → error ≠ e := by
    rintro error registry hend rfl
    exact h (fun _ => False) registry hend
  refine HandsOn.bind (fun log hlog later hend => ?_) fun a next hend => ?_
  · simp only [onRegistry] at hend
    split at hend
    case h_1 => cases hend
    case h_2 first registry hfirst =>
      cases hend
      exact absurd rfl (hnever _ _ hfirst)
  · simp only [onRegistry] at hend
    split at hend
    case h_1 first registry hfirst =>
      cases hend
      exact ⟨List.suffix_rfl, hf a registry⟩
    case h_2 => cases hend

theorem HandsOn.ask_bind (h : question bus.registry ≠ .error e)
    (hf : ∀ a, question bus.registry = .ok a → HandsOn e (f a) bus) :
    HandsOn e (ask question >>= f) bus := by
  refine (handsOn_ask h).bind fun a next hend => ?_
  rw [InPlace.ask_apply] at hend
  split at hend
  case h_1 first hfirst =>
    cases hend
    exact ⟨List.suffix_rfl, hf a hfirst⟩
  case h_2 => cases hend

variable [Platform σ ι]

theorem handsOn_claim (c : Claim) : HandsOn e (claim c : BusM (Recorded σ ι) ι Unit) bus := by
  intro log hlog later hend
  obtain ⟨next, reply, ⟨-, hcalled⟩, hclaim⟩ := exists_claim_eq bus c
  rw [hclaim] at hend
  cases reply with
  | ok _ => cases hend
  | error first =>
    cases hend
    exact ⟨_, _, hcalled, hlog, rfl⟩

theorem handsOn_settle (read : EntryRead α) :
    HandsOn e (settle read : BusM (Recorded σ ι) ι (α × Cursor)) bus := by
  rw [settle]
  cases read.claim? with
  | none => exact handsOn_pure
  | some c => exact (handsOn_claim c).map _

theorem connectDriver_grows : Leads (fun _ => True)
    (fun bus later : Bus (Recorded σ ι) ι => bus.platform.log <:+ later.platform.log)
    (connectDriver h) := by
  have hR : Carries (fun _ => True)
      fun bus later : Bus (Recorded σ ι) ι => bus.platform.log <:+ later.platform.log :=
    ⟨fun _ _ => List.suffix_rfl, fun _ _ _ => List.IsSuffix.trans, fun _ _ _ _ => trivial⟩
  exact hR.connectDriver (fun _ _ _ => List.suffix_cons _ _) fun _ _ _ => List.suffix_rfl

theorem handsOn_connectDriver :
    HandsOn (.invalidParameter .tooManyCells) (connectDriver h) bus := by
  refine HandsOn.ask_bind Registry.device_ne_tooWide fun device _ => ?_
  intro log hlog later hend
  let answer := Platform.respond (.connect h device.node device.name) bus.platform
  change (liftM answer.1 >>= fun _ => onRegistry _ : BusM (Recorded σ ι) ι PUnit)
    { bus with platform := answer.2 } = _ at hend
  cases hreply : answer.1 with
  | ok _ =>
    rw [hreply] at hend
    cases hend
  | error first =>
    rw [hreply] at hend
    cases hend
    refine ⟨⟨.connect h device.node device.name, .error _⟩, bus.platform.log, ?_, hlog, rfl⟩
    rw [← hreply]
    rfl

theorem handsOn_forM_connectDriver (pending : List Handle) :
    HandsOn (.invalidParameter .tooManyCells) (pending.forM connectDriver) bus := by
  induction pending generalizing bus with
  | nil => exact handsOn_pure
  | cons k rest ih =>
    refine handsOn_connectDriver.bind fun _ next hend => ⟨?_, ih⟩
    exact (connectDriver_grows bus trivial).of_ok hend

theorem handsOn_connect : HandsOn (.invalidParameter .tooManyCells) (connect h) bus :=
  HandsOn.ask_bind Registry.unconnected_ne_tooWide fun pending _ =>
    handsOn_forM_connectDriver pending

theorem handsOn_follow (phandle : UInt32) :
    HandsOn (.invalidParameter .tooManyCells) (follow phandle) bus := by
  refine HandsOn.ask_bind (liftM_ne_tooWide _) fun found _ => ?_
  cases found with
  | none => exact fun _ _ => ifFails_throw (by simp)
  | some n =>
    refine HandsOn.onRegistry_bind (fun _ => Registry.deviceOf_ifFails) fun target registry => ?_
    exact handsOn_connect.map fun _ => target

theorem handsOn_parseDevice :
    HandsOn (.invalidParameter .tooManyCells) (parseDevice h c index) bus :=
  HandsOn.ask_bind Registry.device_ne_tooWide fun _ _ =>
    HandsOn.liftM_bind (Cursor.Avoids.elementU32 (by simp) _ c) fun read =>
      (handsOn_follow read.1).map fun target => (target, read.2)

section Live

variable {device : Device ι} {cursor : Cursor} (htrue : bus.registry.Truthful)

include htrue

theorem handsOn_parseReg :
    HandsOn (.invalidParameter .tooManyCells) (parseReg h cursor index) bus :=
  .ask_bind htrue.readReg_ne_tooWide fun read _ => handsOn_settle read

theorem handsOn_parseRange :
    HandsOn (.invalidParameter .tooManyCells) (parseRange h cursor index) bus :=
  .ask_bind htrue.readRange_ne_tooWide fun read _ => handsOn_settle read

theorem handsOn_parseElement (type : ElementType) :
    HandsOn (.invalidParameter .tooManyCells) (parseElement h cursor type index) bus := by
  cases type with
  | device => exact handsOn_parseDevice.map _
  | reg => exact (handsOn_parseReg htrue).map _
  | range => exact (handsOn_parseRange htrue).map _
  | _ =>
    refine HandsOn.ask_bind Registry.device_ne_tooWide fun device hdevice => ?_
    have hcells := (htrue h device (Registry.device_eq_ok_iff.1 hdevice)).decodable
    exact handsOn_liftM (Cursor.Avoids.decode _ hcells cursor)

end Live

variable {b : Blob}

/-- The cell counts of a live device are those that the blob has for its node and the parent of
that, and each of them is one that is decoded; so a node for which a larger count is declared, by
itself or by its parent, has no device, and no number is too wide to be read for a live one. -/
theorem Reachable.cells_of_tree (hbus : Reachable b bus) :
    (∀ h device, bus.registry.device? h = some device → device.cells.Decodable ∧
      ∃ above, b.parent device.node = .ok above ∧ (above = none ↔ b.root = .ok device.node) ∧
        b.cells device.node above = .ok device.cells) ∧
    (∀ n m name count, (m = n ∨ b.parent n = .ok (some m)) →
      (name = "#address-cells" ∨ name = "#size-cells") → b.Declares m name count →
      Cells.maximum < count → ∀ h, ¬bus.registry.IsDeviceOf n h) ∧
    (∀ route h address length, bus.registry.resolve route h address length ≠ tooWide) ∧
    ∀ h cursor index,
      HandsOn (.invalidParameter .tooManyCells) (parseReg h cursor index) bus ∧
      HandsOn (.invalidParameter .tooManyCells) (parseRange h cursor index) bus ∧
      ∀ type, HandsOn (.invalidParameter .tooManyCells) (parseElement h cursor type index) bus := by
  obtain ⟨rfl, hsound⟩ := hbus.sound
  have htrue := hbus.truthful
  refine ⟨fun h device hd => ⟨(htrue h device hd).decodable, ?_⟩, ?_,
    fun _ _ _ _ => htrue.resolve_ne_tooWide, fun _ _ _ =>
    ⟨handsOn_parseReg htrue, handsOn_parseRange htrue, handsOn_parseElement htrue⟩⟩
  · obtain ⟨above, habove, hcells⟩ := (htrue h device hd).cells
    exact ⟨above, habove, hsound.parent_eq_none_iff hd habove, hcells⟩
  · rintro n m name count hm hname hcount hmany h ⟨device, hd, rfl⟩
    have hle := (htrue h device hd).count_le hm hname hcount
    exact absurd (UInt32.lt_iff_toNat_lt.1 hmany) (Nat.not_lt.2 hle)

/-- The root cannot be enumerated and the leaf cannot be found, but the narrow node can. -/
theorem cells_of_wide : ∃ bus : Bus (Recorded Simulated FileNumber) FileNumber,
    Reachable Tree.wide.blob bus ∧ bus.registry.slots.size = 2 ∧
      Tree.wide.blob.Declares ⟨96⟩ "#address-cells" 5 ∧
      Tree.wide.blob.parent ⟨124⟩ = .ok (some ⟨96⟩) ∧
      ∀ h, ¬bus.registry.IsDeviceOf ⟨96⟩ h ∧ ¬bus.registry.IsDeviceOf ⟨124⟩ h := by
  obtain ⟨bus, hbus, hsize⟩ : ∃ bus : Bus (Recorded Simulated FileNumber) FileNumber,
      Reachable Tree.wide.blob bus ∧ decide (bus.registry.slots.size = 2) = true :=
    exists_reachable { inner := { cpu := { label := "" } } }
      [.children Registry.rootHandle, .findDevice "/wide/leaf", .findDevice "/narrow"]
      (by decide +kernel)
  obtain ⟨found, hfound, hany⟩ := exists_of_any
    (x := Tree.wide.blob.property ⟨96⟩ "#address-cells")
    (p := fun found => found.any fun p => p.asCell.toOption.any (· = 5)) (by decide +kernel)
  obtain ⟨p, rfl, hcell⟩ := (Option.any_eq_true _ _).1 hany
  have hdeclares : Tree.wide.blob.Declares ⟨96⟩ "#address-cells" 5 :=
    ⟨p, hfound, eq_ok_of_any hcell⟩
  have hparent : Tree.wide.blob.parent ⟨124⟩ = .ok (some ⟨96⟩) := eq_ok_of_any (by decide +kernel)
  have hnone := hbus.cells_of_tree.2.1
  exact ⟨bus, hbus, of_decide_eq_true hsize, hdeclares, hparent, fun h =>
    ⟨hnone _ _ _ _ (.inl rfl) (.inl rfl) hdeclares (by decide) h,
      hnone _ _ _ _ (.inr hparent) (.inl rfl) hdeclares (by decide) h⟩⟩

end Bus

end DeviceTree

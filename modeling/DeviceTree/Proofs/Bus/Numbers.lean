import Mathlib.Tactic.Ring
import DeviceTree.Proofs.Bus.Claims
import DeviceTree.Proofs.Bus.Ranges
import DeviceTree.Proofs.Machine.Tape

/-!
# Numbers in property values

An element of a number type is as many cells as its type is wide, read as one number. The
`index`-th one from a cursor on can be decoded if it lies in the value as a whole, and, if it is an
address, has cells at all; otherwise there is none, and the cursor stays.
-/
namespace DeviceTree

variable {cells : Cells} {c moved : Cursor} {type : ElementType} {index width : Nat}

namespace ElementType

def numbers : List ElementType :=
  [u32, u64, u128, busAddress, childBusAddress, size, childSize]

/-- Addresses have cells. -/
def Allows (type : ElementType) (width : Nat) : Prop :=
  type = busAddress ∨ type = childBusAddress → 0 < width

end ElementType

/-- The element of a type that is the number `n`. -/
inductive Element.Numbers : ElementType → Nat → Element → Prop
  | u32 (value : UInt32) : Numbers .u32 value.toNat (.u32 value)
  | u64 (value : UInt64) : Numbers .u64 value.toNat (.u64 value)
  | u128 (n : Nat) : Numbers .u128 n (.u128 n)
  | busAddress (n : Nat) : Numbers .busAddress n (.busAddress n)
  | childBusAddress (n : Nat) : Numbers .childBusAddress n (.childBusAddress n)
  | size (n : Nat) : Numbers .size n (.size n)
  | childSize (n : Nat) : Numbers .childSize n (.childSize n)

namespace Cursor

/-- The `index`-th element of `width` cells lies in the value as a whole. -/
def Fits (c : Cursor) (width index : Nat) : Prop :=
  4 * width * (index + 1) ≤ c.value.length - c.position

/-- How the `index`-th number of a type that is `width` cells wide is decoded. -/
inductive DecodesNumber (c : Cursor) (type : ElementType) (width index : Nat) :
    Except Error Element × Cursor → Prop
  | found {element : Element} {moved : Cursor} (allowed : type.Allows width)
    (fits : c.Fits width index)
    (numbers : element.Numbers type
      (ofBigEndian ((c.value.drop (c.position + 4 * width * index)).take (4 * width))))
    (advanced : c.Advanced (4 * width * (index + 1)) moved) :
    DecodesNumber c type width index (.ok element, moved)
  | missing (absent : ¬(type.Allows width ∧ c.Fits width index)) :
    DecodesNumber c type width index (.error .notFound, c)

theorem number_eq_ofBigEndian {bytes : List UInt8} (h : width * Cell.size ≤ bytes.length) :
    Cell.number width bytes = ofBigEndian (bytes.take (width * Cell.size)) :=
  Cell.join_ofBytes (List.length_take_of_le h)

theorem number_lt {bytes : List UInt8} (h : width * Cell.size ≤ bytes.length) :
    Cell.number width bytes < 256 ^ (width * Cell.size) := by
  have hlt := ofBigEndian_lt (bytes.take (width * Cell.size))
  rwa [List.length_take_of_le h, ← number_eq_ofBigEndian h] at hlt

theorem allows_of_ne (haddress : type ≠ .busAddress) (hchild : type ≠ .childBusAddress)
    (width : Nat) : type.Allows width := by
  rintro (rfl | rfl)
  · exact absurd rfl haddress
  · exact absurd rfl hchild

theorem allows_iff {count : UInt32} (h : type = .busAddress ∨ type = .childBusAddress)
    (hcount : count.toNat ≤ maximumCells) :
    type.Allows count.toNat ↔ count ≠ 0 ∧ count.toNat ≤ maximumCells := by
  refine ⟨fun hpos => ⟨?_, hcount⟩, fun hpos _ => Cell.toNat_pos hpos.1⟩
  rintro rfl
  exact Nat.lt_irrefl 0 (hpos h)

private theorem exists_reads_decode (hcells : cells.Decodable) (htype : type ∈ ElementType.numbers)
    (hwidth : type.width? cells = some width) :
    ∃ element : Nat → Element, (∀ n < 256 ^ (width * Cell.size), (element n).Numbers type n) ∧
      ∀ index, Reads (decode type index cells) (type.Allows width)
        (fun bytes => element (Cell.number width (bytes.drop (index * width * Cell.size))))
        (index * width * Cell.size + width * Cell.size) := by
  cases type with
  | u32 =>
    cases hwidth
    refine ⟨fun n => .u32 (UInt32.ofNat n), fun n hn => ?_, fun index =>
      ((reads_elementU32 index).map Element.u32).congr
        (iff_of_true trivial (allows_of_ne (by simp) (by simp) _)) (fun _ => rfl) fun _ => rfl⟩
    have hvalue := Element.Numbers.u32 (UInt32.ofNat n)
    rwa [UInt32.toNat_ofNat_of_lt' hn] at hvalue
  | u64 =>
    cases hwidth
    refine ⟨fun n => .u64 (UInt64.ofNat n), fun n hn => ?_, fun index =>
      ((reads_elementU64 index).map Element.u64).congr
        (iff_of_true trivial (allows_of_ne (by simp) (by simp) _)) (fun _ => rfl) fun _ => rfl⟩
    have hvalue := Element.Numbers.u64 (UInt64.ofNat n)
    rwa [UInt64.toNat_ofNat_of_lt' hn] at hvalue
  | u128 =>
    cases hwidth
    exact ⟨.u128, fun n _ => .u128 n, fun index =>
      ((reads_readElementAt index 4).map Element.u128).congr
        (iff_of_true (Nat.le_refl 4) (allows_of_ne (by simp) (by simp) _)) (fun _ => rfl)
        fun _ => rfl⟩
  | busAddress =>
    cases hwidth
    exact ⟨.busAddress, fun n _ => .busAddress n, fun index =>
      ((reads_readAddressAt index cells.address).map Element.busAddress).congr
        (allows_iff (.inl rfl) hcells.address).symm (fun _ => rfl) fun _ => rfl⟩
  | childBusAddress =>
    cases hwidth
    exact ⟨.childBusAddress, fun n _ => .childBusAddress n, fun index =>
      ((reads_readAddressAt index cells.childAddress).map Element.childBusAddress).congr
        (allows_iff (.inr rfl) hcells.childAddress).symm (fun _ => rfl) fun _ => rfl⟩
  | size =>
    cases hwidth
    exact ⟨.size, fun n _ => .size n, fun index =>
      ((reads_readElementAt index cells.size.toNat).map Element.size).congr
        (iff_of_true hcells.size (allows_of_ne (by simp) (by simp) _)) (fun _ => rfl) fun _ => rfl⟩
  | childSize =>
    cases hwidth
    exact ⟨.childSize, fun n _ => .childSize n, fun index =>
      ((reads_readElementAt index cells.childSize.toNat).map Element.childSize).congr
        (iff_of_true hcells.childSize (allows_of_ne (by simp) (by simp) _)) (fun _ => rfl)
        fun _ => rfl⟩
  | string | device | reg | range => simp [ElementType.numbers] at htype

theorem avoids_decode (hcells : cells.Decodable) (htype : type ∈ ElementType.numbers) {e : Error}
    (hfound : .notFound ≠ e) (index : Nat) : Avoids e (decode type index cells) := by
  cases type with
  | u32 => exact (Avoids.elementU32 hfound index).bind fun _ => .pure _
  | u64 => exact (Avoids.elementU64 hfound index).bind fun _ => .pure _
  | u128 => exact (Avoids.readElement hfound fun _ => Nat.le_refl 4).bind fun _ => .pure _
  | busAddress => exact (Avoids.readAddress hfound fun _ => hcells.address).bind fun _ => .pure _
  | childBusAddress =>
    exact (Avoids.readAddress hfound fun _ => hcells.childAddress).bind fun _ => .pure _
  | size => exact (Avoids.readElement hfound fun _ => hcells.size).bind fun _ => .pure _
  | childSize => exact (Avoids.readElement hfound fun _ => hcells.childSize).bind fun _ => .pure _
  | string | device | reg | range => simp [ElementType.numbers] at htype

theorem stride_eq (width index : Nat) :
    index * width * Cell.size + width * Cell.size = 4 * width * (index + 1) := by
  rw [Cell.size]
  ring

theorem decodesNumber_decode (hcells : cells.Decodable) (htype : type ∈ ElementType.numbers)
    (hwidth : type.width? cells = some width) (c : Cursor) (index : Nat) :
    c.DecodesNumber type width index (c.attempt (decode type index cells)) := by
  obtain ⟨element, hnumbers, hreads⟩ := exists_reads_decode hcells htype hwidth
  rw [attempt]
  cases hread : decode type index cells c with
  | ok read =>
    obtain ⟨a, moved⟩ := read
    obtain ⟨hallowed, rfl, hmoved⟩ := (hreads index c a moved).1 hread
    have hle := hmoved.le
    have hlength : width * Cell.size ≤ (c.remaining.drop (index * width * Cell.size)).length := by
      rw [remaining, List.drop_drop, List.length_drop]
      omega
    have hspelled : Cell.number width (c.remaining.drop (index * width * Cell.size)) =
        ofBigEndian ((c.value.drop (c.position + 4 * width * index)).take (4 * width)) := by
      have hbefore : index * width * Cell.size = 4 * width * index := by rw [Cell.size]; ring
      rw [number_eq_ofBigEndian hlength, remaining, List.drop_drop, hbefore, Cell.size,
        Nat.mul_comm width]
    rw [stride_eq] at hmoved hle
    refine .found hallowed (Nat.le_sub_of_add_le' hle) ?_ hmoved
    rw [← hspelled]
    exact hnumbers _ (number_lt hlength)
  | error e =>
    obtain rfl : .notFound = e := by
      by_contra hfound
      exact avoids_decode hcells htype hfound index c hread
    refine .missing ?_
    rintro ⟨hallowed, hfits⟩
    have hle := c.position_le
    obtain ⟨moved, hmoved⟩ := exists_advanced
      (show c.position + 4 * width * (index + 1) ≤ c.value.length by rw [Fits] at hfits; omega)
    rw [← stride_eq] at hmoved
    simp [(hreads index c _ moved).2 ⟨hallowed, rfl, hmoved⟩] at hread

/-- Readers that read alike and fail alike are the same. -/
theorem Reads.eq_of_avoids {α : Type} {read other : Reader α} {allowed : Prop}
    {value : List UInt8 → α} {count : Nat} {e : Error} (h : Reads read allowed value count)
    (hother : Reads other allowed value count) (hread : ∀ e', e ≠ e' → Avoids e' read)
    (hfails : ∀ e', e ≠ e' → Avoids e' other) : read = other := by
  have honly {reader : Reader α} (hreader : ∀ e', e ≠ e' → Avoids e' reader) {c : Cursor}
      {e' : Error} (hend : reader c = .error e') : e = e' := by
    by_contra hne
    exact hreader e' hne c hend
  funext c
  cases hfirst : read c with
  | ok last => exact ((hother c last.1 last.2).2 ((h c _ _).1 hfirst)).symm
  | error e' =>
    cases hlast : other c with
    | ok last => simp [(h c last.1 last.2).2 ((hother c _ _).1 hlast)] at hfirst
    | error e'' => rw [← honly hread hfirst, ← honly hfails hlast]

/-- To go on after an element is to count it. -/
theorem decode_decode (hcells : cells.Decodable) (htype : type ∈ ElementType.numbers)
    (hwidth : type.width? cells = some width) (i j : Nat) :
    (do let _ ← decode type i cells; decode type j cells) = decode type (i + j + 1) cells := by
  obtain ⟨element, -, hreads⟩ := exists_reads_decode hcells htype hwidth
  refine (((hreads i).bind fun _ => hreads j).congr (and_self_iff) (fun bytes => ?_) fun _ => ?_
    ).eq_of_avoids (hreads (i + j + 1)) (fun e hfound => ?_)
      fun e hfound => avoids_decode hcells htype hfound _
  · rw [List.drop_drop]
    congr 3
    ring
  · ring
  · exact (avoids_decode hcells htype hfound i).bind fun _ => avoids_decode hcells htype hfound j

end Cursor

namespace Bus

variable {σ ι α : Type} [Platform σ ι]

def elementOf (h : Handle) (name : String) (type : ElementType) (index : Nat) :
    BusM σ ι Element := do
  let cursor ← ask (·.property h name)
  return (← parseElement h cursor type index).1

theorem parseElement_eq (hplain : type ≠ .device ∧ type ≠ .reg ∧ type ≠ .range) (h : Handle)
    (cursor : Cursor) : (parseElement h cursor type index : BusM σ ι _) = (do
      let device ← ask (·.device h)
      (Cursor.decode type index device.cells cursor : Except Error (Element × Cursor))) := by
  obtain ⟨hdevice, hreg, hrange⟩ := hplain
  cases type <;> first | rfl | contradiction

theorem elementOf_eq {read : Reader α} {element : α → Element}
    (hplain : type ≠ .device ∧ type ≠ .reg ∧ type ≠ .range)
    (hdecode : ∀ cells, Cursor.decode type index cells = (do return element (← read)))
    (h : Handle) (name : String) : (elementOf h name type index : BusM σ ι Element) =
      do return element (← ask (·.readProperty h name read)) := by
  funext bus
  simp only [elementOf, bind, EStateM.bind, InPlace.ask_apply, parseElement_eq hplain]
  cases hproperty : bus.registry.property h name with
  | error e => simp only [Registry.readProperty, hproperty, error_bind]
  | ok cursor =>
    obtain ⟨device, property, hdevice, -, -⟩ := Registry.property_eq_ok hproperty
    simp only [Registry.readProperty, hproperty, Registry.device_eq_ok_iff.2 hdevice, ok_bind,
      hdecode, Cursor.bind_apply, StateT.run']
    cases read cursor <;> rfl

/-- The number at `index` is decoded if it lies in the value as a whole and is not an address
without cells. It is the one that its bytes spell, and the cursor is left behind it; otherwise
nothing is found and the cursor stays. A machine that moves the cursor in place does the same. To go
on after a number is to count it, and a number that is looked up is the one that is parsed from the
front. -/
theorem decodes_numbers (hcells : cells.Decodable) (htype : type ∈ ElementType.numbers)
    (hwidth : type.width? cells = some width) (hc : c.Countable) (index : Nat) :
    c.DecodesNumber type width index (c.attempt (Cursor.decode type index cells)) ∧
    (∀ rest : σ, (TapeM.decode type index cells).Ends (rest, c.tape)
      (c.attempt (Cursor.decode type index cells)).1
      (rest, (c.attempt (Cursor.decode type index cells)).2.tape)) ∧
    (∀ next, (do let _ ← Cursor.decode type index cells; Cursor.decode type next cells) =
      Cursor.decode type (index + next + 1) cells) ∧
    ∀ h name,
      (elementOf h name .u32 index : BusM σ ι Element) =
        (do return .u32 (← ask (·.u32 h name index))) ∧
      (elementOf h name .u64 index : BusM σ ι Element) =
        (do return .u64 (← ask (·.u64 h name index))) ∧
      (elementOf h name .u128 index : BusM σ ι Element) =
        (do return .u128 (← ask (·.u128 h name index))) := by
  refine ⟨Cursor.decodesNumber_decode hcells htype hwidth c index,
    fun rest => (TapeM.attempts_decode type index cells rest c hc).2,
    fun next => Cursor.decode_decode hcells htype hwidth index next, fun h name => ⟨?_, ?_, ?_⟩⟩
  · exact elementOf_eq (by simp) (fun _ => rfl) h name
  · exact elementOf_eq (by simp) (fun _ => rfl) h name
  · exact elementOf_eq (by simp) (fun _ => rfl) h name

/-- A cursor behind the first cell of five, and addresses of two. -/
def fiveCells : Cursor where
  name := "reg"
  value := [0, 0, 0, 1, 0, 0, 0, 2, 0, 0, 0, 3, 0, 0, 0, 4, 0, 0, 0, 5]
  position := 4
  position_le := by decide

def twoCells : Cells :=
  { address := 2, size := 1, childAddress := 2, childSize := 1 }

/-- Two addresses follow the first cell, and the second of them ends the value. -/
theorem decodes_numbers_fiveCells : twoCells.Decodable ∧ fiveCells.Countable ∧
    fiveCells.DecodesNumber .busAddress 2 1
      (fiveCells.attempt (Cursor.decode .busAddress 1 twoCells)) ∧
    (fiveCells.attempt (Cursor.decode .busAddress 1 twoCells)).1.toOption =
      some (.busAddress 0x400000005) ∧
    fiveCells.DecodesNumber .busAddress 2 2
      (fiveCells.attempt (Cursor.decode .busAddress 2 twoCells)) := by
  have hcells : twoCells.Decodable := ⟨by decide, by decide, by decide, by decide⟩
  have hc : fiveCells.Countable := (by decide : fiveCells.value.length < UInt64.size)
  have htype : ElementType.busAddress ∈ ElementType.numbers := by decide
  have hwidth : ElementType.busAddress.width? twoCells = some 2 := rfl
  have hnumbers (index : Nat) := decodes_numbers (σ := Simulated) (ι := FileNumber) hcells htype
    hwidth hc index
  exact ⟨hcells, hc, (hnumbers 1).1, by decide, (hnumbers 2).1⟩

end Bus

end DeviceTree

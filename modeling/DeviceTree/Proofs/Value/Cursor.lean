import DeviceTree.Proofs.Outcome
import DeviceTree.Value.Element

/-!
# Where readers leave a cursor

A reader that succeeds leaves a cursor over the same value, further on by what it has read; and
what it has read is a function of the bytes that were left. A reader that fails does so for want of
bytes, or because a number has more cells than are decoded.
-/
namespace DeviceTree

/-- The number in the first `cells` cells of `bytes`. -/
def Cell.number (cells : Nat) (bytes : List UInt8) : Nat :=
  join (ofBytes (bytes.take (cells * size)))

/-- Each of the counts is one that is decoded. -/
structure Cells.Decodable (cells : Cells) : Prop where
  address : cells.address.toNat ≤ Cursor.maximumCells
  size : cells.size.toNat ≤ Cursor.maximumCells
  childAddress : cells.childAddress.toNat ≤ Cursor.maximumCells
  childSize : cells.childSize.toNat ≤ Cursor.maximumCells

namespace Cells.Decodable

variable {cells : Cells} (h : cells.Decodable)

include h

theorem regWidth_lt : cells.regWidth < UInt32.size := by
  have haddress := h.address
  have hsize := h.size
  simp only [Cursor.maximumCells] at haddress hsize
  simp only [regWidth, UInt32.size]
  omega

theorem rangeWidth_lt : cells.rangeWidth < UInt32.size := by
  have haddress := h.address
  have hchildAddress := h.childAddress
  have hchildSize := h.childSize
  simp only [Cursor.maximumCells] at haddress hchildAddress hchildSize
  simp only [rangeWidth, UInt32.size]
  omega

/-- With counts that are decoded every width is a word. -/
theorem width_eq (type : ElementType) : type.width cells = .ok (type.width? cells) := by
  have hlt : ∀ width, type.width? cells = some width → width < UInt32.size := by
    intro width hwidth
    cases type <;> cases hwidth
    case reg => exact h.regWidth_lt
    case range => exact h.rangeWidth_lt
    all_goals first | decide | exact UInt32.toNat_lt _
  rw [ElementType.width]
  cases hwidth : type.width? cells with
  | none => rfl
  | some width => exact if_pos (hlt width hwidth)

end Cells.Decodable

namespace Cursor

section Apply

variable {α β : Type} {c : Cursor}

theorem pure_apply (a : α) : (pure a : Reader α) c = .ok (a, c) :=
  rfl

theorem get_bind_apply (f : Cursor → Reader α) : (get >>= f) c = f c c :=
  rfl

theorem bind_apply (reader : Reader α) (f : α → Reader β) :
    (reader >>= f) c = reader c >>= fun read => f read.1 read.2 :=
  rfl

end Apply

variable {c moved last : Cursor} {count more : Nat}

/-- `moved` is `c`, `count` bytes further on. -/
structure Advanced (c : Cursor) (count : Nat) (moved : Cursor) : Prop where
  name : moved.name = c.name
  value : moved.value = c.value
  position : moved.position = c.position + count

theorem Advanced.trans (hfirst : c.Advanced count moved) (hlast : moved.Advanced more last) :
    c.Advanced (count + more) last :=
  ⟨hlast.name.trans hfirst.name, hlast.value.trans hfirst.value,
    by rw [hlast.position, hfirst.position, Nat.add_assoc]⟩

theorem Advanced.remaining (h : c.Advanced count moved) :
    moved.remaining = c.remaining.drop count := by
  rw [Cursor.remaining, Cursor.remaining, h.value, h.position, List.drop_drop]

theorem Advanced.le (h : c.Advanced count moved) : c.position + count ≤ c.value.length := by
  rw [← h.position, ← h.value]
  exact moved.position_le

theorem Advanced.unique {other : Cursor} (h : c.Advanced count moved)
    (hother : c.Advanced count other) : moved = other := by
  obtain ⟨name, value, position, _⟩ := moved
  obtain ⟨hname, hvalue, hposition⟩ := h
  obtain ⟨hname', hvalue', hposition'⟩ := hother
  simp only at hname hvalue hposition
  subst hname hvalue hposition
  cases other
  simp_all

theorem exists_advanced (h : c.position + count ≤ c.value.length) :
    ∃ moved, c.Advanced count moved :=
  ⟨{ c with position := c.position + count, position_le := h }, rfl, rfl, rfl⟩

/-- Going on by two counts is going on by one after the other. -/
theorem advanced_add_iff :
    c.Advanced (count + more) last ↔
      ∃ moved, c.Advanced count moved ∧ moved.Advanced more last := by
  constructor
  · intro h
    have hle := h.le
    obtain ⟨moved, hmoved⟩ := exists_advanced (show c.position + count ≤ c.value.length by omega)
    refine ⟨moved, hmoved, h.name.trans hmoved.name.symm, h.value.trans hmoved.value.symm, ?_⟩
    rw [h.position, hmoved.position, Nat.add_assoc]
  · rintro ⟨moved, hfirst, hlast⟩
    exact hfirst.trans hlast

theorem run'_eq_ok_iff {α : Type} {read : Reader α} {a : α} :
    read.run' c = .ok a ↔ ∃ moved, read c = .ok (a, moved) := by
  simp only [StateT.run', Functor.map]
  cases read c with
  | error e => simp [Except.map]
  | ok result => simp [Except.map, Prod.ext_iff]

section Reads

variable {α β : Type} {read : Reader α} {next : α → Reader β} {allowed ok : Prop}
  {value : List UInt8 → α} {result : α → List UInt8 → β}

/-- The reader succeeds where it is `allowed` to read and `count` bytes are left. It gives `value`
of the bytes that are left and goes on by `count` of them. -/
def Reads (read : Reader α) (allowed : Prop) (value : List UInt8 → α) (count : Nat) : Prop :=
  ∀ c a moved, read c = .ok (a, moved) ↔
    allowed ∧ a = value c.remaining ∧ c.Advanced count moved

theorem Reads.bind (hfirst : Reads read allowed value count)
    (hnext : ∀ a, Reads (next a) ok (result a) more) :
    Reads (read >>= next) (allowed ∧ ok) (fun bytes => result (value bytes) (bytes.drop count))
      (count + more) := by
  intro c b last
  constructor
  · intro h
    obtain ⟨⟨a, moved⟩, hread, h⟩ := bind_eq_ok_iff.1 h
    obtain ⟨hallowed, rfl, hmoved⟩ := (hfirst _ _ _).1 hread
    obtain ⟨hok, rfl, hlast⟩ := (hnext _ _ _ _).1 h
    rw [hmoved.remaining]
    exact ⟨⟨hallowed, hok⟩, rfl, hmoved.trans hlast⟩
  · rintro ⟨⟨hallowed, hok⟩, rfl, hlast⟩
    obtain ⟨moved, hmoved, hlast⟩ := advanced_add_iff.1 hlast
    have hread := (hfirst _ _ _).2 ⟨hallowed, rfl, hmoved⟩
    refine bind_eq_ok_iff.2 ⟨_, hread, (hnext _ _ _ _).2 ⟨hok, ?_, hlast⟩⟩
    rw [hmoved.remaining]

theorem Reads.map (h : Reads read allowed value count) (f : α → β) :
    Reads (read >>= fun a => pure (f a)) allowed (fun bytes => f (value bytes)) count := by
  intro c b last
  constructor
  · intro hmap
    obtain ⟨⟨a, moved⟩, hread, hlast⟩ := bind_eq_ok_iff.1 hmap
    obtain ⟨rfl, rfl⟩ := Prod.mk.inj (Except.ok.inj hlast)
    obtain ⟨hallowed, rfl, hmoved⟩ := (h _ _ _).1 hread
    exact ⟨hallowed, rfl, hmoved⟩
  · rintro ⟨hallowed, rfl, hmoved⟩
    exact bind_eq_ok_iff.2 ⟨_, (h _ _ _).2 ⟨hallowed, rfl, hmoved⟩, rfl⟩

/-- What is read may be said in other words, and how much of it only where reading is allowed. -/
theorem Reads.congr {other : List UInt8 → α} (h : Reads read allowed value count)
    (hallowed : allowed ↔ ok) (hvalue : ∀ bytes, value bytes = other bytes)
    (hcount : ok → count = more) : Reads read ok other more := by
  intro c a moved
  rw [h c a moved, hallowed, hvalue]
  refine and_congr_right fun hok => ?_
  rw [hcount hok]

end Reads

theorem reads_take (count : Nat) (short : Error) :
    Reads (take count short) True (.take count) count := by
  intro c bytes moved
  have hle := c.position_le
  rw [take, true_and]
  split
  case isTrue fits =>
    simp only [Except.ok.injEq, Prod.mk.injEq]
    constructor
    · rintro ⟨rfl, rfl⟩
      exact ⟨rfl, rfl, rfl, rfl⟩
    · rintro ⟨rfl, hmoved⟩
      exact ⟨rfl, Advanced.unique (c := c) ⟨rfl, rfl, rfl⟩ hmoved⟩
  case isFalse short =>
    constructor
    · exact nofun
    · rintro ⟨-, hmoved⟩
      have hfits := hmoved.le
      omega

theorem reads_skipElements (index width : Nat) :
    Reads (skipElements index width) True (fun _ => ()) (index * width * Cell.size) :=
  (reads_take _ .notFound).map fun _ => ()

theorem reads_readCells (cells : Nat) : Reads (readCells cells) True
    (fun bytes => Cell.ofBytes (bytes.take (cells * Cell.size))) (cells * Cell.size) :=
  (reads_take _ .notFound).map Cell.ofBytes

theorem reads_readU32 :
    Reads readU32 True (fun bytes => UInt32.ofNat (Cell.number 1 bytes)) Cell.size :=
  (reads_readCells 1).map fun read => UInt32.ofNat (Cell.join read)

theorem reads_readU64 :
    Reads readU64 True (fun bytes => UInt64.ofNat (Cell.number 2 bytes)) (2 * Cell.size) :=
  (reads_readCells 2).map fun read => UInt64.ofNat (Cell.join read)

theorem reads_readUint (cells : Nat) :
    Reads (readUint cells) (cells ≤ maximumCells) (Cell.number cells) (cells * Cell.size) := by
  intro c n moved
  rw [readUint]
  split
  case isTrue hmany => exact ⟨nofun, fun h => absurd h.1 (Nat.not_le.2 hmany)⟩
  case isFalse hfew =>
    have hread : Reads (readCells cells >>= fun read => pure (Cell.join read)) True
      (Cell.number cells) (cells * Cell.size) := (reads_readCells cells).map Cell.join
    exact (hread c n moved).trans (and_congr_left' (iff_of_true trivial (Nat.not_lt.1 hfew)))

theorem reads_readElementAt (index width : Nat) :
    Reads (readElement index width) (width ≤ maximumCells)
      (fun bytes => Cell.number width (bytes.drop (index * width * Cell.size)))
      (index * width * Cell.size + width * Cell.size) :=
  ((reads_skipElements index width).bind fun _ => reads_readUint width).congr
    (by rw [true_and]) (fun _ => rfl) fun _ => rfl

theorem reads_readElement (width : Nat) :
    Reads (readElement 0 width) (width ≤ maximumCells) (Cell.number width) (width * Cell.size) :=
  (reads_readElementAt 0 width).congr Iff.rfl
    (fun _ => by rw [Nat.zero_mul, Nat.zero_mul, List.drop_zero])
    fun _ => by rw [Nat.zero_mul, Nat.zero_mul, Nat.zero_add]

theorem reads_readAddressAt (index : Nat) (address : UInt32) :
    Reads (readAddress index address) (address ≠ 0 ∧ address.toNat ≤ maximumCells)
      (fun bytes => Cell.number address.toNat (bytes.drop (index * address.toNat * Cell.size)))
      (index * address.toNat * Cell.size + address.toNat * Cell.size) := by
  intro c n moved
  rw [readAddress, and_assoc]
  split
  case isTrue hzero => exact ⟨nofun, fun h => absurd hzero h.1⟩
  case isFalse hne => exact (reads_readElementAt index _ c n moved).trans (and_iff_right hne).symm

theorem reads_readAddress (address : UInt32) :
    Reads (readAddress 0 address) (address ≠ 0 ∧ address.toNat ≤ maximumCells)
      (Cell.number address.toNat) (address.toNat * Cell.size) :=
  (reads_readAddressAt 0 address).congr Iff.rfl
    (fun _ => by rw [Nat.zero_mul, Nat.zero_mul, List.drop_zero])
    fun _ => by rw [Nat.zero_mul, Nat.zero_mul, Nat.zero_add]

theorem reads_elementU32 (index : Nat) : Reads (elementU32 index) True
    (fun bytes => UInt32.ofNat (Cell.number 1 (bytes.drop (index * 1 * Cell.size))))
    (index * 1 * Cell.size + 1 * Cell.size) :=
  ((reads_skipElements index 1).bind fun _ => reads_readU32).congr
    (by rw [true_and]) (fun _ => rfl) fun _ => by rw [Nat.one_mul]

theorem reads_elementU64 (index : Nat) : Reads (elementU64 index) True
    (fun bytes => UInt64.ofNat (Cell.number 2 (bytes.drop (index * 2 * Cell.size))))
    (index * 2 * Cell.size + 2 * Cell.size) :=
  ((reads_skipElements index 2).bind fun _ => reads_readU64).congr
    (by rw [true_and]) (fun _ => rfl) fun _ => rfl

section Avoids

variable {α β : Type} {read : Reader α} {next : α → Reader β} {e other : Error} {index width : Nat}
  {count : UInt32}

def Avoids (e : Error) (read : Reader α) : Prop :=
  ∀ c, read c ≠ .error e

namespace Avoids

theorem pure (a : α) : Avoids e (pure a : Reader α) :=
  fun _ => ok_ne_error

theorem bind (hread : Avoids e read) (hnext : ∀ a, Avoids e (next a)) :
    Avoids e (read >>= next) :=
  fun c => bind_ne_error (hread c) fun first => hnext first.1 first.2

theorem throw (h : other ≠ e) : Avoids e (throw other : Reader α) :=
  fun _ => error_ne_error h

theorem get : Avoids e get :=
  fun _ => ok_ne_error

theorem run' (hread : Avoids e read) (c : Cursor) : read.run' c ≠ .error e := by
  have hread := hread c
  simp only [StateT.run', Functor.map]
  cases hend : read c with
  | error other => simpa [hend, Except.map] using hread
  | ok moved => exact ok_ne_error

theorem take (count : Nat) {short : Error} (h : short ≠ e) : Avoids e (take count short) := by
  intro c
  rw [Cursor.take]
  split
  · exact ok_ne_error
  · exact error_ne_error h

variable (hfound : .notFound ≠ e)

include hfound

theorem skipElements (index width : Nat) : Avoids e (skipElements index width) :=
  (take _ hfound).bind fun _ => pure ()

theorem readCells (count : Nat) : Avoids e (readCells count) :=
  (take _ hfound).bind fun _ => pure _

theorem readUint (h : .invalidParameter .tooManyCells = e → width ≤ maximumCells) :
    Avoids e (readUint width) := by
  have hread : Avoids e (do return Cell.join (← Cursor.readCells width) : Reader Nat) :=
    (readCells hfound width).bind fun _ => pure _
  rw [Cursor.readUint]
  split
  case isTrue hwide => exact (throw fun heq => Nat.not_lt.2 (h heq) hwide).bind fun _ => hread
  case isFalse => exact hread

theorem readElement (h : .invalidParameter .tooManyCells = e → width ≤ maximumCells) :
    Avoids e (readElement index width) :=
  (skipElements hfound index width).bind fun _ => readUint hfound h

theorem readAddress (h : .invalidParameter .tooManyCells = e → count.toNat ≤ maximumCells) :
    Avoids e (readAddress index count) := by
  rw [Cursor.readAddress]
  split
  · exact (throw hfound).bind fun _ => readElement hfound h
  · exact readElement hfound h

theorem elementU32 (index : Nat) : Avoids e (elementU32 index) :=
  (skipElements hfound index 1).bind fun _ => (readCells hfound 1).bind fun _ => pure _

theorem elementU64 (index : Nat) : Avoids e (elementU64 index) :=
  (skipElements hfound index 2).bind fun _ => (readCells hfound 2).bind fun _ => pure _

end Avoids

end Avoids

end Cursor

end DeviceTree

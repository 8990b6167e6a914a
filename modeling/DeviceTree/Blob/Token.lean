import DeviceTree.Blob.Header

/-!
# Tokens of the structure block

What can be read at an offset: a cell, a token, a terminated string, and how far a token reaches.
Every step forward is a strict one, which is what lets the scans of the block end: see
`add_le_of_token`, `lt_of_contents`, `lt_of_afterProperty` and `lt_of_afterNode`.
-/
namespace DeviceTree

inductive Token
  | beginNode
  | endNode
  | property
  | nop
  | finish
deriving DecidableEq, Repr

namespace Token

def toCell : Token → Cell
  | beginNode => 1
  | endNode => 2
  | property => 3
  | nop => 4
  | finish => 9

def ofCell? (cell : Cell) : Option Token :=
  [beginNode, endNode, property, nop, finish].find? (·.toCell = cell)

end Token

def aligned (offset : Nat) : Nat :=
  (offset + 3) / 4 * 4

theorem le_aligned (offset : Nat) : offset ≤ aligned offset := by
  unfold aligned
  omega

/-- What stands between a property's token and its value. -/
structure PropertyHeader where
  length : Nat
  nameOffset : Nat
deriving DecidableEq, Repr

namespace Blob

def cellAt (b : Blob) (offset : Nat) : Except ParseError Cell :=
  if b.size < offset + Cell.size then .error ⟨.invalidOffset, offset⟩
  else .ok (UInt32.ofNat (ofBigEndian (b.slice offset (offset + Cell.size))))

def token (b : Blob) (offset : Nat) : Except ParseError Token :=
  if b.structEnd < offset + Cell.size then .error ⟨.invalidOffset, offset⟩
  else do
    let cell ← b.cellAt offset
    match Token.ofCell? cell with
    | some token => return token
    | none => throw ⟨.badToken cell, offset⟩

/-- The string that starts at `offset` and whose terminator comes before `stop`. -/
def textAt (b : Blob) (offset stop : Nat) : Except ParseError String :=
  if stop < offset then .error ⟨.invalidOffset, offset⟩
  else
    match (Text.untilNul? (b.slice offset stop)).bind fun (text, _) => Text.decode? text with
    | some text => .ok text
    | none => .error ⟨.invalidString, offset⟩

def propertyName (b : Blob) (offset : Nat) : Except ParseError String :=
  let start := b.header.stringsOffset + offset
  if b.header.stringsEnd ≤ start then .error ⟨.invalidOffset, start⟩
  else b.textAt start b.header.stringsEnd

/-- The name of the node whose token is at `offset`. -/
def nodeName (b : Blob) (offset : Nat) : Except ParseError String :=
  b.textAt (offset + Cell.size) b.structEnd

/-- Where the first token inside the node at `offset` stands. -/
def contents (b : Blob) (offset : Nat) : Except ParseError Nat := do
  let name ← b.nodeName offset
  return aligned (offset + Cell.size + name.utf8ByteSize + 1)

def propertyHeader (b : Blob) (offset : Nat) : Except ParseError PropertyHeader := do
  let length ← b.cellAt (offset + Cell.size)
  let nameOffset ← b.cellAt (offset + 2 * Cell.size)
  return ⟨length.toNat, nameOffset.toNat⟩

/-- Where the token after the property at `offset` stands. -/
def afterProperty (b : Blob) (offset : Nat) : Except ParseError Nat := do
  let header ← b.propertyHeader offset
  let next := aligned (offset + 3 * Cell.size + header.length)
  if b.structEnd < next then throw ⟨.invalidOffset, offset⟩
  return next

variable {b : Blob} {offset next : Nat}

theorem add_le_of_token {token : Token} (h : b.token offset = .ok token) :
    offset + Cell.size ≤ b.structEnd := by
  unfold Blob.token at h
  split at h
  · contradiction
  · omega

theorem lt_of_contents (h : b.contents offset = .ok next) : offset < next := by
  unfold contents at h
  cases hn : b.nodeName offset with
  | error e => simp [hn, bind, Except.bind] at h
  | ok name =>
    simp only [hn, bind, Except.bind, pure, Except.pure, Except.ok.injEq] at h
    have := le_aligned (offset + Cell.size + name.utf8ByteSize + 1)
    omega

theorem lt_of_afterProperty (h : b.afterProperty offset = .ok next) : offset < next := by
  unfold afterProperty at h
  cases hp : b.propertyHeader offset with
  | error e => simp [hp, bind, Except.bind] at h
  | ok header =>
    simp only [hp, bind, Except.bind, pure, Except.pure] at h
    have := le_aligned (offset + 3 * Cell.size + header.length)
    have : Cell.size = 4 := rfl
    split at h
    · contradiction
    · simp only [Except.ok.injEq] at h
      omega

/-- Where the token after a node stands, from `offset` inside it with `depth` further nodes open. -/
def skip (b : Blob) (offset depth : Nat) : Except ParseError Nat :=
  match at_ : b.token offset with
  | .error e => .error e
  | .ok .beginNode =>
    match inside : b.contents offset with
    | .error e => .error e
    | .ok next =>
      have := add_le_of_token at_
      have := lt_of_contents inside
      b.skip next (depth + 1)
  | .ok .property =>
    match after : b.afterProperty offset with
    | .error e => .error e
    | .ok next =>
      have := add_le_of_token at_
      have := lt_of_afterProperty after
      b.skip next depth
  | .ok .nop =>
    have := add_le_of_token at_
    b.skip (offset + Cell.size) depth
  | .ok .endNode =>
    have := add_le_of_token at_
    match depth with
    | 0 => .ok (offset + Cell.size)
    | depth + 1 => b.skip (offset + Cell.size) depth
  | .ok .finish => .error ⟨.badToken Token.finish.toCell, offset⟩
termination_by b.structEnd - offset
decreasing_by all_goals simp only [Cell.size] at *; omega

/-- Where the token after the node at `offset`, its descendants included, stands. -/
def afterNode (b : Blob) (offset : Nat) : Except ParseError Nat := do
  b.skip (← b.contents offset) 0

theorem lt_of_skip {depth : Nat} (h : b.skip offset depth = .ok next) : offset < next := by
  fun_induction skip b offset depth with
  | case1 | case2 | case4 | case9 => contradiction
  | case3 | case5 => grind
  | case6 | case7 | case8 => grind [Cell.size]

theorem lt_of_afterNode (h : b.afterNode offset = .ok next) : offset < next := by
  unfold afterNode at h
  cases hc : b.contents offset with
  | error e => simp [hc, bind, Except.bind] at h
  | ok inside =>
    simp only [hc, bind, Except.bind] at h
    exact Nat.lt_trans (lt_of_contents hc) (lt_of_skip h)

end Blob

end DeviceTree

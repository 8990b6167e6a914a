/-!
# Text inside byte strings

Names and string values are stored as UTF-8, each followed by a NUL. `untilNul?` is the one place
that looks for the terminator.
-/
namespace DeviceTree.Text

def encode (text : String) : List UInt8 :=
  text.toUTF8.data.toList

def decode? (bytes : List UInt8) : Option String :=
  String.fromUTF8? ⟨bytes.toArray⟩

def terminated (text : String) : List UInt8 :=
  encode text ++ [0]

/-- Splits `bytes` around the first NUL. -/
def untilNul? : List UInt8 → Option (List UInt8 × List UInt8)
  | [] => none
  | byte :: rest =>
    if byte = 0 then some ([], rest)
    else (untilNul? rest).map fun (text, tail) => (byte :: text, tail)

theorem eq_of_untilNul? {bytes text tail : List UInt8} (h : untilNul? bytes = some (text, tail)) :
    bytes = text ++ 0 :: tail := by
  induction bytes generalizing text with
  | nil => simp [untilNul?] at h
  | cons byte rest ih =>
    unfold untilNul? at h
    split at h
    · next hz => simp_all
    · obtain ⟨⟨text', tail'⟩, hr, he⟩ := Option.map_eq_some_iff.1 h
      simp only [Prod.mk.injEq] at he
      obtain ⟨rfl, rfl⟩ := he
      simp [ih hr]

theorem length_lt_of_untilNul? {bytes text tail : List UInt8}
    (h : untilNul? bytes = some (text, tail)) : tail.length < bytes.length := by
  have := congrArg List.length (eq_of_untilNul? h)
  simp at this
  omega

/-- The non-empty components of a path written with slashes. -/
def components (path : String) : List String :=
  ((path.toList.splitOn '/').filter (· ≠ [])).map String.ofList

def isAbsolute (path : String) : Bool :=
  path.toList.head? = some '/'

/-- What precedes the first `@` of a node's name, which separates it from the unit address. -/
def withoutUnit (name : String) : String :=
  String.ofList (name.toList.takeWhile (· ≠ '@'))

def hasUnit (name : String) : Bool :=
  name.toList.contains '@'

/-- Hexadecimal digits in lower case after `0x`. -/
def hex (n : Nat) : String :=
  "0x" ++ String.ofList (Nat.toDigits 16 n)

end DeviceTree.Text

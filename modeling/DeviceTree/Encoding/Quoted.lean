import DeviceTree.Encoding.Text
import DeviceTree.Encoding.Visible

/-!
# Quoted text

Text between double quotes, in which a backslash announces a quote, another backslash, or a
character that would not be seen.
-/
namespace DeviceTree.Text

def quotedChar (c : Char) : String :=
  if c = '\x00' then "\\0"
  else if c = '\t' then "\\t"
  else if c = '\r' then "\\r"
  else if c = '\n' then "\\n"
  else if c = '"' then "\\\""
  else if c = '\\' then "\\\\"
  else if isVisible c then String.singleton c
  else "\\u\x7b" ++ String.ofList (Nat.toDigits 16 c.toNat) ++ "\x7d"

def quoted (text : String) : String :=
  "\"" ++ String.join (text.toList.map quotedChar) ++ "\""

end DeviceTree.Text

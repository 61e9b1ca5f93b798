/-
Quoted text: a string between double quotes, in which a quote and a backslash are escaped, line breaks, tabs and the
null character have short escapes, and every other character that has no glyph of its own is written by its number.
-/
import Stencil.Text.Glyph

namespace Stencil.Quoted

/-- one character inside quotes -/
def escape (c : Char) : String :=
  if c = '"' then "\\\""
  else if c = '\\' then "\\\\"
  else if c = '\n' then "\\n"
  else if c = '\r' then "\\r"
  else if c = '\t' then "\\t"
  else if c = '\x00' then "\\0"
  else if hasGlyph c then c.toString
  else "\\u\x7b" ++ String.ofList (Nat.toDigits 16 c.toNat) ++ "\x7d"

/-- the text between quotes, with every character escaped that needs it -/
def quote (s : String) : String := "\"" ++ String.join (s.toList.map escape) ++ "\""

end Stencil.Quoted

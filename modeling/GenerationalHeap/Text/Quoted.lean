import GenerationalHeap.Text.Unprintable

namespace GenerationalHeap.Quoted

def codeEscape (c : Char) : String :=
  "\\u\x7b" ++ String.ofList (Nat.toDigits 16 c.toNat) ++ "\x7d"

/-- Spelling of a character between quotes: common controls, the backslash and the quote itself
behind a backslash, what cannot be seen by its code. -/
def escape (quote c : Char) : String :=
  if c = '\x00' then "\\0"
  else if c = '\t' then "\\t"
  else if c = '\r' then "\\r"
  else if c = '\n' then "\\n"
  else if c = '\\' then "\\\\"
  else if c = quote then "\\" ++ c.toString
  else if Unprintable.contains c then codeEscape c
  else c.toString

def char (c : Char) : String := "'" ++ escape '\x27' c ++ "'"

def string (text : String) : String :=
  "\"" ++ String.join (text.toList.map (escape '\x22')) ++ "\""

end GenerationalHeap.Quoted

import MetricQuery.Text.Printable

/-!
# Texts in messages

A message shows a value in double quotation marks.  Quotation marks, backslashes
and the usual control characters have escapes of two characters; all else that is
not printable is written `\u{…}` with the code point in hexadecimal digits.
-/

namespace MetricQuery.Text

/-- One character as it is shown between quotation marks. -/
def shownChar (c : Char) : List Char :=
  if c = '"' then ['\\', '"']
  else if c = '\\' then ['\\', '\\']
  else if c = '\n' then ['\\', 'n']
  else if c = '\r' then ['\\', 'r']
  else if c = '\t' then ['\\', 't']
  else if c = Char.ofNat 0 then ['\\', '0']
  else if isPrintable c then [c]
  else ['\\', 'u', '{'] ++ Nat.toDigits 16 c.toNat ++ ['}']

/-- A text as it is shown in messages. -/
def shown (text : String) : String :=
  String.ofList ('"' :: (text.toList.flatMap shownChar ++ ['"']))

end MetricQuery.Text

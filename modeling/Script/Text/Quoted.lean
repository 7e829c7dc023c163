import Script.Text.Combining
import Script.Text.Printable

/-!
# Quoted text

A text between double quotes, with an escape for every character that would not show as itself.
-/

namespace Script.Text

/-- A character inside double quotes. -/
def escape (c : Char) : List Char :=
  if c = '\x00' then ['\\', '0']
  else if c = '\t' then ['\\', 't']
  else if c = '\r' then ['\\', 'r']
  else if c = '\n' then ['\\', 'n']
  else if c = '\x22' ∨ c = '\\' then ['\\', c]
  else if isCombining c || !isPrintable c then
    '\\' :: 'u' :: '\x7b' :: (Nat.toDigits 16 c.toNat ++ ['\x7d'])
  else [c]

/-- A text between double quotes. -/
def quoted (text : String) : String :=
  String.ofList ('\x22' :: (text.toList.flatMap escape ++ ['\x22']))

end Script.Text

import ChainFs.Text.Hidden

/-!
# Quoted names

A refused name is shown between double quotes, so that an empty name or one with control
characters can still be told from others.

* `quoted` — the quoted form;
* `quotedChar` — one character of it: the quote, the backslash and the common control characters
  have short escapes, every other control character and every character that shows nothing of its
  own is written by its code point, and anything else stands for itself.
-/

namespace ChainFs.Text

/-- Control characters: the two blocks below the space and behind the ASCII letters. -/
def isControl (c : Char) : Bool :=
  c.val < 0x20 || (0x7f ≤ c.val && c.val < 0xa0)

/-- One character as it stands between the quotes. -/
def quotedChar (c : Char) : List Char :=
  match c with
  | '"' => ['\\', '"']
  | '\\' => ['\\', '\\']
  | '\n' => ['\\', 'n']
  | '\r' => ['\\', 'r']
  | '\t' => ['\\', 't']
  | '\x00' => ['\\', '0']
  | c =>
    if isControl c || isHidden c then
      ['\\', 'u', '\x7b'] ++ Nat.toDigits 16 c.toNat ++ ['\x7d']
    else [c]

/-- A text between double quotes, escaped so that the quotes are its only bare ones. -/
def quoted (s : String) : String :=
  String.ofList ('"' :: s.toList.flatMap quotedChar ++ ['"'])

end ChainFs.Text

import SerialContract.Number.Digits

/-!
# Quoted texts

A text as it stands between the quotes of a string literal of the host's language: line breaks, quotes and
the like are marked, and what is no printable ASCII character is written as its code point.
-/

namespace SerialContract.Host

/-- A character between quotes. -/
def quotedChar : Char → List Char
  | '\t' => ['\\', 't']
  | '\r' => ['\\', 'r']
  | '\n' => ['\\', 'n']
  | '\x27' => ['\\', '\x27']
  | '"' => ['\\', '"']
  | '\\' => ['\\', '\\']
  | c =>
    if 0x20 ≤ c.toNat ∧ c.toNat ≤ 0x7E then [c]
    else ['\\', 'u', '{'] ++ Nat.toDigits 16 c.toNat ++ ['}']

/-- A text between quotes. -/
def quoted (text : String) : String :=
  String.ofList (text.toList.flatMap quotedChar)

end SerialContract.Host

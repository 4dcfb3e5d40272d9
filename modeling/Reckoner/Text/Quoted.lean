import Reckoner.Text.Visible

namespace Reckoner.Text

def apostrophe : Char := Char.ofNat 39

def doubleQuote : Char := Char.ofNat 34

def backslash : Char := Char.ofNat 92

def hexDigits : Nat → Nat → List Char
  | 0, _ => []
  | width + 1, n => hexDigits width (n / 16) ++ [Nat.digitChar (n % 16)]

/-- Quotes are apostrophes, unless the text holds one and no double quote. -/
def quoteFor (cs : List Char) : Char :=
  if cs.contains apostrophe && !cs.contains doubleQuote then doubleQuote else apostrophe

def escapeChar (quote c : Char) : List Char :=
  if c == quote || c == backslash then [backslash, c]
  else if c == '\t' then [backslash, 't']
  else if c == '\n' then [backslash, 'n']
  else if c == '\r' then [backslash, 'r']
  else if isVisible c then [c]
  else
    let n := c.toNat
    if n < 0x100 then backslash :: 'x' :: hexDigits 2 n
    else if n < 0x10000 then backslash :: 'u' :: hexDigits 4 n
    else backslash :: 'U' :: hexDigits 8 n

def quoted (s : String) : String :=
  let cs := s.toList
  let q := quoteFor cs
  String.ofList (q :: cs.flatMap (escapeChar q) ++ [q])

end Reckoner.Text

namespace Reckoner.Text

/-- The code points of characters that only separate: the blanks of every script, and the separators
of files, groups, records and units. -/
def isBlankCode (n : Nat) : Bool :=
  (9 ≤ n && n ≤ 13) || (28 ≤ n && n ≤ 32) || n == 0x85 || n == 0xA0 || n == 0x1680 ||
    (0x2000 ≤ n && n ≤ 0x200A) || n == 0x2028 || n == 0x2029 || n == 0x202F || n == 0x205F ||
    n == 0x3000

def isBlank (c : Char) : Bool :=
  isBlankCode c.toNat

def dropBlanks (cs : List Char) : List Char :=
  cs.dropWhile isBlank

def trimChars (cs : List Char) : List Char :=
  (dropBlanks (dropBlanks cs).reverse).reverse

def trim (s : String) : String :=
  String.ofList (trimChars s.toList)

def words (s : String) : List String :=
  ((s.toList.splitOnP isBlank).filter (fun w => !w.isEmpty)).map String.ofList

end Reckoner.Text

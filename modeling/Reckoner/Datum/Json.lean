import Reckoner.Datum

namespace Reckoner.Datum

def isJsonBlank (c : Char) : Bool :=
  c == ' ' || c == '\t' || c == '\n' || c == '\r'

def skipBlanks (cs : List Char) : List Char :=
  cs.dropWhile isJsonBlank

def hexValue? (c : Char) : Option Nat :=
  if '0' ≤ c && c ≤ '9' then some (c.toNat - 48)
  else if 'a' ≤ c && c ≤ 'f' then some (c.toNat - 87)
  else if 'A' ≤ c && c ≤ 'F' then some (c.toNat - 55)
  else none

def takeHex : List Char → Option (Nat × List Char)
  | a :: b :: c :: d :: rest => do
    let a ← hexValue? a
    let b ← hexValue? b
    let c ← hexValue? c
    let d ← hexValue? d
    some (((a * 16 + b) * 16 + c) * 16 + d, rest)
  | _ => none

/-- The character of a code unit, joined with a second one if the two form a pair. A text has whole
characters only, so half of a pair that stands alone is read as U+FFFD. -/
def takeUnit (n : Nat) (cs : List Char) : Char × List Char :=
  if 0xD800 ≤ n && n < 0xDC00 then
    match cs with
    | b :: 'u' :: rest =>
      if b == Text.backslash then
        match takeHex rest with
        | some (m, rest') =>
          if 0xDC00 ≤ m && m < 0xE000 then
            (Char.ofNat (0x10000 + (n - 0xD800) * 0x400 + (m - 0xDC00)), rest')
          else (Char.ofNat 0xFFFD, cs)
        | none => (Char.ofNat 0xFFFD, cs)
      else (Char.ofNat 0xFFFD, cs)
    | _ => (Char.ofNat 0xFFFD, cs)
  else if 0xDC00 ≤ n && n < 0xE000 then (Char.ofNat 0xFFFD, cs)
  else (Char.ofNat n, cs)

def takeEscape : List Char → Option (Char × List Char)
  | 'n' :: cs => some ('\n', cs)
  | 't' :: cs => some ('\t', cs)
  | 'r' :: cs => some ('\r', cs)
  | 'b' :: cs => some (Char.ofNat 8, cs)
  | 'f' :: cs => some (Char.ofNat 12, cs)
  | '/' :: cs => some ('/', cs)
  | 'u' :: cs => (takeHex cs).map (fun (n, rest) => takeUnit n rest)
  | c :: cs => if c == Text.backslash || c == Text.doubleQuote then some (c, cs) else none
  | [] => none

def takeText : Nat → List Char → Option (List Char × List Char)
  | 0, _ => none
  | _ + 1, [] => none
  | fuel + 1, c :: cs =>
    if c == Text.doubleQuote then some ([], cs)
    else if c == Text.backslash then do
      let (d, rest) ← takeEscape cs
      let (ds, rest) ← takeText fuel rest
      some (d :: ds, rest)
    else if c.toNat < 0x20 then none
    else do
      let (ds, rest) ← takeText fuel cs
      some (c :: ds, rest)

def isAsciiDigit (c : Char) : Bool :=
  '0' ≤ c && c ≤ '9'

/-- The whole digits of a number: a zero alone, or digits that start with none. -/
def takeWhole : List Char → Option (List Char × List Char)
  | '0' :: cs => some (['0'], cs)
  | c :: cs =>
    if isAsciiDigit c then
      some (c :: cs.takeWhile isAsciiDigit, cs.dropWhile isAsciiDigit)
    else none
  | [] => none

def takeFraction (cs : List Char) : List Char × List Char :=
  match cs with
  | '.' :: rest =>
    match rest.takeWhile isAsciiDigit with
    | [] => ([], cs)
    | ds => ('.' :: ds, rest.dropWhile isAsciiDigit)
  | _ => ([], cs)

def takePower (cs : List Char) : List Char × List Char :=
  match cs with
  | c :: rest =>
    if c == 'e' || c == 'E' then
      let (sign, rest) :=
        match rest with
        | '+' :: r => (['+'], r)
        | '-' :: r => (['-'], r)
        | r => ([], r)
      match rest.takeWhile isAsciiDigit with
      | [] => ([], cs)
      | ds => ('e' :: sign ++ ds, rest.dropWhile isAsciiDigit)
    else ([], cs)
  | [] => ([], cs)

/-- Integers with more digits than this are not read. -/
def maxDigits : Nat := 4300

def takeNumber (cs : List Char) : Option (Datum × List Char) := do
  let (negative, cs) := Numeral.takeSign cs
  let (whole, cs) ← takeWhole cs
  let (places, cs) := takeFraction cs
  let (power, cs) := takePower cs
  if places.isEmpty && power.isEmpty then
    if maxDigits < whole.length then none
    else
      let n := digitsValue (whole.map (fun c => c.toNat - 48))
      some (int (if negative then -(n : Int) else n), cs)
  else
    let x ← Double.read? (String.ofList (whole ++ places ++ power))
    some (float (if negative then -x else x), cs)

def takeWord (cs : List Char) : Option (Datum × List Char) :=
  let words : List (String × Datum) :=
    [("null", absent), ("true", bool true), ("false", bool false), ("NaN", float Double.notANumber),
      ("Infinity", float Double.infinity), ("-Infinity", float (-Double.infinity))]
  (words.find? (fun w => w.1.toList.isPrefixOf cs)).map (fun w => (w.2, cs.drop w.1.length))

mutual
def takeValue : Nat → List Char → Option (Datum × List Char)
  | 0, _ => none
  | fuel + 1, cs =>
    match cs with
    | '[' :: rest =>
      match skipBlanks rest with
      | ']' :: rest => some (list [], rest)
      | rest => (takeItems fuel rest).map (fun (ds, r) => (list ds, r))
    | c :: rest =>
      if c == Text.doubleQuote then
        (takeText rest.length rest).map (fun (t, r) => (text (String.ofList t), r))
      else if c == Char.ofNat 0x7B then
        match skipBlanks rest with
        | [] => none
        | d :: after =>
          if d == Char.ofNat 0x7D then some (dict [], after)
          else (takeEntries fuel [] (d :: after)).map (fun (es, r) => (dict es, r))
      else
        match takeWord cs with
        | some found => some found
        | none => if c == '+' then none else takeNumber cs
    | [] => none

def takeItems : Nat → List Char → Option (List Datum × List Char)
  | 0, _ => none
  | fuel + 1, cs => do
    let (d, rest) ← takeValue fuel cs
    match skipBlanks rest with
    | ']' :: rest => some ([d], rest)
    | ',' :: rest =>
      let (ds, rest) ← takeItems fuel (skipBlanks rest)
      some (d :: ds, rest)
    | _ => none

def takeEntries : Nat → List (String × Datum) → List Char →
    Option (List (String × Datum) × List Char)
  | 0, _, _ => none
  | fuel + 1, found, cs =>
    match cs with
    | q :: rest =>
      if q != Text.doubleQuote then none
      else do
        let (key, rest) ← takeText rest.length rest
        match skipBlanks rest with
        | ':' :: rest =>
          let (d, rest) ← takeValue fuel (skipBlanks rest)
          let found := insert (String.ofList key) d found
          match skipBlanks rest with
          | ',' :: rest => takeEntries fuel found (skipBlanks rest)
          | c :: rest => if c == Char.ofNat 0x7D then some (found, rest) else none
          | [] => none
        | _ => none
    | [] => none
end

/-- The datum that a JSON text stands for. -/
def ofJson? (s : String) : Option Datum :=
  let cs := skipBlanks s.toList
  match takeValue (2 * cs.length + 2) cs with
  | some (d, rest) => if (skipBlanks rest).isEmpty then some d else none
  | none => none

def jsonEscape (c : Char) : List Char :=
  if c == Text.doubleQuote || c == Text.backslash then [Text.backslash, c]
  else if c == '\n' then [Text.backslash, 'n']
  else if c == '\r' then [Text.backslash, 'r']
  else if c == '\t' then [Text.backslash, 't']
  else if c.toNat == 8 then [Text.backslash, 'b']
  else if c.toNat == 12 then [Text.backslash, 'f']
  else if c.toNat < 0x20 then Text.backslash :: 'u' :: Text.hexDigits 4 c.toNat
  else [c]

def jsonText (s : String) : String :=
  String.ofList (Text.doubleQuote :: s.toList.flatMap jsonEscape ++ [Text.doubleQuote])

def jsonFloat (x : Float) : String :=
  if x.isNaN then "NaN"
  else if Double.isInfinite x then (if Double.isNegative x then "-Infinity" else "Infinity")
  else Decimal.text x

mutual
def toJson : Datum → String
  | absent => "null"
  | bool b => if b then "true" else "false"
  | int n => toString n
  | float x => jsonFloat x
  | text s => jsonText s
  | tuple items => "[" ++ commaList (toJsonItems items) ++ "]"
  | list items => "[" ++ commaList (toJsonItems items) ++ "]"
  | dict entries => "\x7b" ++ commaList (toJsonEntries entries) ++ "\x7d"

def toJsonItems : List Datum → List String
  | [] => []
  | d :: ds => toJson d :: toJsonItems ds

def toJsonEntries : List (String × Datum) → List String
  | [] => []
  | (k, d) :: es => (jsonText k ++ ": " ++ toJson d) :: toJsonEntries es
end

end Reckoner.Datum

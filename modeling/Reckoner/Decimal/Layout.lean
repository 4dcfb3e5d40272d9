import Reckoner.Decimal.Shortest

namespace Reckoner.Decimal
open Double

structure Layout where
  /-- Leading powers of ten that are written without an exponent. -/
  least : Int
  most : Int
  /-- What stands between the digits and the exponent. -/
  mark : String
  /-- Least number of digits of the exponent. -/
  width : Nat

def padLeft (width : Nat) (cs : List Char) : List Char :=
  List.replicate (width - cs.length) '0' ++ cs

def Layout.exponent (l : Layout) (e : Int) : String :=
  l.mark ++ (if e < 0 then "-" else "+") ++
    String.ofList (padLeft l.width (Nat.toDigits 10 e.natAbs))

def positional (d : Digits) : String :=
  if d.leading < 0 then
    String.ofList (['0', '.'] ++ List.replicate (-d.leading - 1).toNat '0' ++ d.digits)
  else
    let n := d.leading.toNat + 1
    let whole := d.digits.take n ++ List.replicate (n - d.digits.length) '0'
    let rest := d.digits.drop n
    String.ofList (whole ++ ['.'] ++ if rest.isEmpty then ['0'] else rest)

def Layout.write (l : Layout) (d : Digits) : String :=
  if l.least ≤ d.leading && d.leading ≤ l.most then positional d
  else
    match d.digits with
    | [] => ""
    | [c] => String.ofList [c] ++ l.exponent d.leading
    | c :: cs => String.ofList (c :: '.' :: cs) ++ l.exponent d.leading

/-- Doubles are positional from a ten-thousandth to sixteen digits, and an exponent has a sign and
two digits. -/
def doubleLayout : Layout :=
  { least := -4, most := 15, mark := "e", width := 2 }

def text (x : Float) : String :=
  if x.isNaN then "nan"
  else
    let body :=
      if isInfinite x then "inf"
      else
        let s := scaled x
        if s.mantissa == 0 then "0.0" else doubleLayout.write (shortest s)
    if isNegative x then "-" ++ body else body

end Reckoner.Decimal

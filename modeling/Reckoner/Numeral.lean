import Reckoner.Text.Blank
import Reckoner.Text.Digit

namespace Reckoner

/-- The number that decimal digits spell, most significant first. -/
def digitsValue (ds : List Nat) : Nat :=
  ds.foldl (fun n d => 10 * n + d) 0

namespace Numeral
open Text

def takeDigits : List Char → List Nat × List Char
  | [] => ([], [])
  | c :: cs =>
    match digit? c with
    | none => ([], c :: cs)
    | some d =>
      match cs with
      | '_' :: c' :: cs' =>
        if isDigit c' then
          let (ds, rest) := takeDigits (c' :: cs')
          (d :: ds, rest)
        else ([d], '_' :: c' :: cs')
      | cs =>
        let (ds, rest) := takeDigits cs
        (d :: ds, rest)

def takeSign : List Char → Bool × List Char
  | '-' :: cs => (true, cs)
  | '+' :: cs => (false, cs)
  | cs => (false, cs)

/-- A signed run of digits. -/
structure IntegerText where
  negative : Bool
  digits : List Nat

def IntegerText.value (t : IntegerText) : Int :=
  if t.negative then -(digitsValue t.digits : Int) else digitsValue t.digits

def integer? (s : String) : Option IntegerText :=
  let (negative, cs) := takeSign (trimChars s.toList)
  match takeDigits cs with
  | (d :: ds, []) => some ⟨negative, d :: ds⟩
  | _ => none

def takeExponent (cs : List Char) : Option (Option IntegerText × List Char) :=
  match cs with
  | c :: r =>
    if c == 'e' || c == 'E' then
      let (negative, r) := takeSign r
      match takeDigits r with
      | ([], _) => none
      | (ds, rest) => some (some ⟨negative, ds⟩, rest)
    else some (none, cs)
  | [] => some (none, [])

inductive FractionTail where
  | over (denominator : List Nat)
  | decimal (places : List Nat) (exponent : Option IntegerText)

structure FractionText where
  negative : Bool
  whole : List Nat
  tail : FractionTail

/-- A numeral has a digit at its front, or a point and a digit. -/
def startsNumber : List Char → Bool
  | '.' :: c :: _ => isDigit c
  | c :: _ => isDigit c
  | [] => false

def takePlaces : List Char → List Nat × List Char
  | '.' :: cs => takeDigits cs
  | cs => ([], cs)

def fraction? (s : String) : Option FractionText :=
  let (negative, cs) := takeSign (trimChars s.toList)
  if !startsNumber cs then none
  else
    let (whole, rest) := takeDigits cs
    match rest with
    | '/' :: r =>
      match takeDigits r with
      | (d :: ds, []) => some ⟨negative, whole, .over (d :: ds)⟩
      | _ => none
    | _ =>
      let (places, rest) := takePlaces rest
      match takeExponent rest with
      | some (exponent, []) => some ⟨negative, whole, .decimal places exponent⟩
      | _ => none

/-- What a decimal numeral names: `±m · 10^e`, an infinity, or no number. -/
inductive DecimalText where
  | finite (negative : Bool) (mantissa : Nat) (exponent : Int)
  | infinite (negative : Bool)
  | notANumber

def decimal? (s : String) : Option DecimalText :=
  let (negative, cs) := takeSign (trimChars s.toList)
  let word := String.ofList (cs.map Char.toLower)
  if word == "inf" || word == "infinity" then some (.infinite negative)
  else if word == "nan" then some .notANumber
  else if !startsNumber cs then none
  else
    let (whole, rest) := takeDigits cs
    let (places, rest) := takePlaces rest
    match takeExponent rest with
    | some (exponent, []) =>
      let e := (exponent.map IntegerText.value).getD 0
      some (.finite negative (digitsValue (whole ++ places)) (e - places.length))
    | _ => none

end Numeral
end Reckoner

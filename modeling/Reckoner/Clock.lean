import Reckoner.Decimal.Layout

namespace Reckoner.Clock

/-- Year, month and day of a day counted from the first of January 1970. Years are counted from
March, in spans of 400 years, so that a leap day is the last of its year. -/
def date (day : Int) : Int × Int × Int :=
  let z := day + 719468
  let era := Int.fdiv z 146097
  let doe := Int.fmod z 146097
  let yoe := (doe - doe / 1460 + doe / 36524 - doe / 146096) / 365
  let doy := doe - (365 * yoe + yoe / 4 - yoe / 100)
  let mp := (5 * doy + 2) / 153
  let d := doy - (153 * mp + 2) / 5 + 1
  let m := if mp < 10 then mp + 3 else mp - 9
  let y := yoe + era * 400 + (if m ≤ 2 then 1 else 0)
  (y, m, d)

def padded (width : Nat) (n : Int) : String :=
  String.ofList (Decimal.padLeft width (toString n).toList)

/-- Date and time in universal time, given in microseconds since the start of 1970. Microseconds are
left out if there are none. -/
def text (micros : Int) : String :=
  let seconds := Int.fdiv micros 1000000
  let rest := Int.fmod micros 1000000
  let (y, m, d) := date (Int.fdiv seconds 86400)
  let s := Int.fmod seconds 86400
  let fraction := if rest = 0 then "" else "." ++ padded 6 rest
  padded 4 y ++ "-" ++ padded 2 m ++ "-" ++ padded 2 d ++ "T" ++ padded 2 (s / 3600) ++ ":"
    ++ padded 2 (s / 60 % 60) ++ ":" ++ padded 2 (s % 60) ++ fraction ++ "Z"

end Reckoner.Clock

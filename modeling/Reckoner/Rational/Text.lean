namespace Reckoner.Rational

def text (q : Rat) : String :=
  if q.den = 1 then toString q.num else toString q.num ++ "/" ++ toString q.den

/-- More than 4300 decimal digits. -/
def isLong (n : Nat) : Bool :=
  14284 ≤ n.log2 && Nat.pow 10 4300 ≤ n

def tooLong (q : Rat) : Bool :=
  isLong q.num.natAbs || isLong q.den

end Reckoner.Rational

namespace Reckoner.Rational

def powNat (q : Rat) (n : Nat) : Rat :=
  mkRat (Int.pow q.num n) (Nat.pow q.den n)

def pow? (q : Rat) (n : Int) : Option Rat :=
  if 0 ≤ n then some (powNat q n.toNat)
  else if q = 0 then none
  else some (powNat q⁻¹ n.natAbs)

end Reckoner.Rational

namespace Reckoner.Rational

/-- The convergents of a continued fraction as far as their denominators stay within `bound`. From
`n / d`, with the last two convergents `p₀ / q₀` and `p₁ / q₁`, the next partial quotient is the
floor of `n / d`. -/
def convergents (bound : Nat) (n : Int) (d : Nat) (p₀ : Int) (q₀ : Nat) (p₁ : Int) (q₁ : Nat) :
    Int × Nat × Int × Nat :=
  if _h : d = 0 then (p₀, q₀, p₁, q₁)
  else
    let a := n / (d : Int)
    let q₂ := (q₀ : Int) + a * q₁
    if (bound : Int) < q₂ then (p₀, q₀, p₁, q₁)
    else convergents bound d (n % (d : Int)).toNat p₁ q₁ (p₀ + a * p₁) q₂.toNat
termination_by d
decreasing_by
  have hd : (0 : Int) < d := by omega
  have h1 := Int.emod_lt_of_pos n hd
  have h0 := Int.emod_nonneg n (by omega : (d : Int) ≠ 0)
  omega

/-- The rational closest to `q` whose denominator is at most `bound`. Of two that are equally close
the one with the smaller denominator is taken. -/
def approximate (bound : Nat) (q : Rat) : Rat :=
  if q.den ≤ bound then q
  else
    let (p₀, q₀, p₁, q₁) := convergents bound q.num q.den 0 1 1 0
    let k := (bound - q₀) / q₁
    let far := mkRat (p₀ + k * p₁) (q₀ + k * q₁)
    let near := mkRat p₁ q₁
    if (near - q).abs ≤ (far - q).abs then near else far

/-- Denominators of numbers that come from outside the rationals are at most a million. -/
def settle (q : Rat) : Rat :=
  approximate 1000000 q

end Reckoner.Rational

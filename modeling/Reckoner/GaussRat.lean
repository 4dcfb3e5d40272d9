import Reckoner.Rational.Text

namespace Reckoner

structure GaussRat where
  re : Rat
  im : Rat
  deriving DecidableEq

namespace GaussRat

def ofRat (q : Rat) : GaussRat :=
  ⟨q, 0⟩

def add (a b : GaussRat) : GaussRat :=
  ⟨a.re + b.re, a.im + b.im⟩

def sub (a b : GaussRat) : GaussRat :=
  ⟨a.re - b.re, a.im - b.im⟩

def mul (a b : GaussRat) : GaussRat :=
  ⟨a.re * b.re - a.im * b.im, a.re * b.im + a.im * b.re⟩

def neg (a : GaussRat) : GaussRat :=
  ⟨-a.re, -a.im⟩

def normSq (a : GaussRat) : Rat :=
  a.re * a.re + a.im * a.im

def div? (a b : GaussRat) : Option GaussRat :=
  let d := b.normSq
  if d = 0 then none
  else some ⟨(a.re * b.re + a.im * b.im) / d, (a.im * b.re - a.re * b.im) / d⟩

def inv? (a : GaussRat) : Option GaussRat :=
  let d := a.normSq
  if d = 0 then none else some ⟨a.re / d, -a.im / d⟩

def imaginaryText (q : Rat) : String :=
  if q.abs = 1 then "i" else Rational.text q.abs ++ "i"

/-- Parts that are zero are left out, unless both are. -/
def text (a : GaussRat) : String :=
  if a.im = 0 then Rational.text a.re
  else if a.re = 0 then (if a.im < 0 then "-" else "") ++ imaginaryText a.im
  else Rational.text a.re ++ (if a.im < 0 then " - " else " + ") ++ imaginaryText a.im

def tooLong (a : GaussRat) : Bool :=
  Rational.tooLong a.re || Rational.tooLong a.im

end GaussRat
end Reckoner

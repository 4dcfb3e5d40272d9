import Reckoner.Rational.Text

namespace Reckoner

structure RatMatrix where
  height : Nat
  width : Nat
  rows : List (List Rat)
  height_pos : 0 < height
  width_pos : 0 < width
  length_rows : rows.length = height
  length_row : ∀ r ∈ rows, r.length = width
  deriving DecidableEq

namespace RatMatrix

def get (m : RatMatrix) (i j : Nat) : Rat :=
  (m.rows.getD i []).getD j 0

def table (h w : Nat) (f : Nat → Nat → Rat) : List (List Rat) :=
  (List.range h).map (fun i => (List.range w).map (f i))

def build (h w : Nat) (f : Nat → Nat → Rat) (hh : 0 < h) (hw : 0 < w) : RatMatrix where
  height := h
  width := w
  rows := table h w f
  height_pos := hh
  width_pos := hw
  length_rows := by simp [table]
  length_row := by
    intro r hr
    obtain ⟨i, _, rfl⟩ := List.mem_map.mp hr
    simp

def like (m : RatMatrix) (f : Nat → Nat → Rat) : RatMatrix :=
  build m.height m.width f m.height_pos m.width_pos

inductive ShapeError where
  | empty
  | ragged

def ofRows (rows : List (List Rat)) : Except ShapeError RatMatrix :=
  match rows with
  | [] => .error .empty
  | r :: rs =>
    if hw : 0 < r.length then
      if h : ∀ s ∈ rs, s.length = r.length then
        .ok
          { height := rs.length + 1
            width := r.length
            rows := r :: rs
            height_pos := Nat.succ_pos _
            width_pos := hw
            length_rows := rfl
            length_row := by
              intro s hs
              rcases List.mem_cons.mp hs with rfl | hs
              · rfl
              · exact h s hs }
      else .error .ragged
    else .error .empty

def sameShape (a b : RatMatrix) : Bool :=
  a.height == b.height && a.width == b.width

def isSquare (m : RatMatrix) : Bool :=
  m.height == m.width

def isVector (m : RatMatrix) : Bool :=
  m.height == 1 || m.width == 1

/-- Entry by entry, for two matrices of one shape. -/
def pointwise (f : Rat → Rat → Rat) (a b : RatMatrix) : RatMatrix :=
  a.like (fun i j => f (a.get i j) (b.get i j))

def scale (q : Rat) (a : RatMatrix) : RatMatrix :=
  a.like (fun i j => a.get i j * q)

def dot (a b : RatMatrix) (i j : Nat) : Rat :=
  (List.range a.width).foldl (fun s k => s + a.get i k * b.get k j) 0

def mul (a b : RatMatrix) : RatMatrix :=
  build a.height b.width (dot a b) a.height_pos b.width_pos

def mul? (a b : RatMatrix) : Option RatMatrix :=
  if a.width = b.height then some (a.mul b) else none

/-- Ones on the diagonal, in the shape of `m`. -/
def identityLike (m : RatMatrix) : RatMatrix :=
  m.like (fun i j => if i = j then 1 else 0)

/-- The product of `r` and `n` factors `a`, from left to right. -/
def mulTimes (a : RatMatrix) : Nat → RatMatrix → RatMatrix
  | 0, r => r
  | n + 1, r => mulTimes a n (r.mul a)

def powNat (a : RatMatrix) : Nat → RatMatrix
  | 0 => a.identityLike
  | n + 1 => mulTimes a n a

def rowText (r : List Rat) : String :=
  "[ " ++ String.intercalate " , " (r.map Rational.text) ++ " ]"

def text (m : RatMatrix) : String :=
  String.intercalate "\n" (m.rows.map rowText)

def tooLong (m : RatMatrix) : Bool :=
  m.rows.any (fun r => r.any Rational.tooLong)

end RatMatrix
end Reckoner

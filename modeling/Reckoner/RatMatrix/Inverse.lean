import Reckoner.RatMatrix

namespace Reckoner.RatMatrix

abbrev Row := List Rat

/-- The first of the rows with an entry in column `c`, and the rows with `r` in its place. -/
def exchange (c : Nat) (r : Row) : List Row → Option (Row × List Row)
  | [] => none
  | q :: qs =>
    if q.getD c 0 ≠ 0 then some (q, r :: qs)
    else (exchange c r qs).map (fun (p, rest) => (p, q :: rest))

/-- The pivot of column `c`, and the other rows. If the first row cannot serve, it changes places
with the one that does. -/
def takePivot (c : Nat) : List Row → Option (Row × List Row)
  | [] => none
  | r :: rs => if r.getD c 0 ≠ 0 then some (r, rs) else exchange c r rs

def normalize (c : Nat) (r : Row) : Row :=
  r.map (fun x => x / r.getD c 0)

def clear (c : Nat) (pivot r : Row) : Row :=
  List.zipWith (fun x y => x - r.getD c 0 * y) r pivot

/-- Eliminates `k` columns from column `c` on. Rows that have served as pivots come first, in the
order of their columns. -/
def eliminate : Nat → Nat → List Row → List Row → Option (List Row)
  | 0, _, done, _ => some done
  | k + 1, c, done, todo =>
    match takePivot c todo with
    | none => none
    | some (p, rest) =>
      let p := normalize c p
      eliminate k (c + 1) (done.map (clear c p) ++ [p]) (rest.map (clear c p))

def augmented (m : RatMatrix) : List Row :=
  table m.height (2 * m.height) (fun i j =>
    if j < m.height then m.get i j else if j - m.height = i then 1 else 0)

/-- The inverse of a square matrix, by elimination with the identity beside it. -/
def inverse? (m : RatMatrix) : Option RatMatrix :=
  (eliminate m.height 0 [] m.augmented).map (fun rows =>
    m.like (fun i j => (rows.getD i []).getD (m.height + j) 0))

end Reckoner.RatMatrix

namespace Reckoner.Text

def partsAt (c : Char) : List Char → List (List Char)
  | [] => [[]]
  | d :: ds =>
    if d = c then [] :: partsAt c ds
    else
      match partsAt c ds with
      | [] => [[d]]
      | p :: ps => (d :: p) :: ps

theorem partsAt_ne_nil (c : Char) (cs : List Char) : partsAt c cs ≠ [] := by
  cases cs with
  | nil => simp [partsAt]
  | cons d ds =>
    simp only [partsAt]
    split
    · simp
    · split <;> simp

def split (c : Char) (s : String) : List String :=
  (partsAt c s.toList).map String.ofList

end Reckoner.Text

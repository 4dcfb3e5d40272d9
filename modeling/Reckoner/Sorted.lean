namespace Reckoner.Sorted

def insert (le : α → α → Bool) (a : α) : List α → List α
  | [] => [a]
  | b :: bs => if le a b then a :: b :: bs else b :: insert le a bs

/-- Elements of one rank keep their order. -/
def sort (le : α → α → Bool) : List α → List α
  | [] => []
  | a :: as => insert le a (sort le as)

theorem perm_insert (le : α → α → Bool) (a : α) (bs : List α) :
    (insert le a bs).Perm (a :: bs) := by
  induction bs with
  | nil => exact .refl _
  | cons b bs ih =>
    simp only [insert]
    split
    · exact .refl _
    · exact (ih.cons b).trans (.swap a b bs)

/-- Sorting moves elements and does nothing else. -/
theorem perm_sort (le : α → α → Bool) (as : List α) : (sort le as).Perm as := by
  induction as with
  | nil => exact .refl _
  | cons a as ih => exact (perm_insert le a (sort le as)).trans (ih.cons a)

end Reckoner.Sorted

import Mathlib
import Reckoner.Proofs.Reachable
import Reckoner.Proofs.Relevance
import Reckoner.Proofs.Spelling

namespace Reckoner

/-- A value that is there is found under its name. -/
theorem Scope.lookup?_bind {v : Value} (hv : v.isAbsent = false) (s : Scope) (x : String) :
    (s.bind x v).lookup? x = some v := by
  simp only [lookup?, lookup_bind, if_true, hv, Bool.false_eq_true, if_false]

/-- Values of a session are never missing. -/
theorem Value.IsProper.isAbsent {v : Value} (h : v.IsProper) : v.isAbsent = false := by
  cases v with
  | plain => exact h.elim
  | rational | complex | matrix | function | builtin => rfl

namespace Session
open Text Token

section Name
variable {x : String}

end Name

end Session
end Reckoner

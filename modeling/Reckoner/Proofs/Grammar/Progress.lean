import Reckoner.Proofs.Grammar.Programs

namespace Reckoner.Parser
open Grammar

namespace Call

/-- How many tokens a reading takes at least. The loops may end before they take one. -/
def size : Call → Nat
  | expression | term | power | factor | matrix => 1
  | sumTail _ | productTail _ | items _ | rowItems => 0

def rank : Call → Nat
  | sumTail _ | matrix => 1
  | factor => 2
  | power => 3
  | term | productTail _ => 4
  | expression => 5
  | items _ | rowItems => 6

/-- This falls from each call to those that it makes: a token is taken, or the rank falls. -/
def measure (c : Call) (ts : List Token) : Nat :=
  8 * ts.length + c.rank

variable {c c' : Call} {ts mid : List Token}

theorem rank_le (c : Call) : c.rank ≤ 6 := by
  cases c <;> simp [rank]

/-- A call after a token was taken has a lower measure, whichever it is. -/
theorem measure_lt_of_length (h : mid.length < ts.length) : c'.measure mid < c.measure ts := by
  have := c'.rank_le
  unfold measure
  omega

theorem measure_lt_of_rank (h : c'.rank < c.rank) : c'.measure ts < c.measure ts :=
  Nat.add_lt_add_left h _

/-- No call uses up the depth of a reading. -/
theorem measure_lt_depth (c : Call) (ts : List Token) : c.measure ts < depth ts := by
  have := c.rank_le
  unfold measure depth
  omega

end Call

section Logic
variable {α : Type} {k n : Nat} {ts mid rest : List Token}

/-- What is left are the last of the tokens, and if the reading succeeds, at least `k` are taken. -/
def Moved (k : Nat) (ts : List Token) (r : Except SyntaxError α) (rest : List Token) : Prop :=
  rest <:+ ts ∧ ∀ a, r = .ok a → rest.length + k ≤ ts.length

theorem moved_error {e : SyntaxError} (h : rest <:+ ts) :
    Moved k ts (.error e : Except SyntaxError α) rest :=
  ⟨h, fun _ ha => absurd ha (by simp)⟩

/-- A program has a run, and a reading at depth `n` or deeper carries it out. -/
def Ends (n : Nat) (p : Program α) (ts : List Token)
    (Q : Except SyntaxError α → List Token → Prop) : Prop :=
  ∃ r rest, Runs p ts r rest ∧ (∀ m, n ≤ m → (p.read (reading m)).from ts = (r, rest)) ∧ Q r rest

/-- The calls of lower measure come to an end. -/
def Founded (n : Nat) : Prop :=
  ∀ (c : Call) (ts : List Token), c.measure ts < n →
    Ends (c.measure ts) c.program ts (Moved c.size ts)

namespace Ends
variable {Q : Except SyntaxError α → List Token → Prop}

theorem done {a : α} (h : rest <:+ ts) (hlen : rest.length + k ≤ ts.length) :
    Ends n (.done a) rest (Moved k ts) :=
  ⟨_, _, .done, fun _ _ => rfl, h, fun _ _ => hlen⟩

theorem fail {e : SyntaxError} (h : rest <:+ ts) :
    Ends n (.fail e : Program α) rest (Moved k ts) :=
  ⟨_, _, .fail, fun _ _ => rfl, moved_error h⟩

theorem look {go : Option Token → Program α} (h : Ends n (go ts.head?) ts Q) :
    Ends n (.look go) ts Q := by
  obtain ⟨r, rest, hrun, hread, hQ⟩ := h
  exact ⟨r, rest, .look hrun, hread, hQ⟩

theorem lookKind {go : Option TokenKind → Program α} (h : Ends n (go (kind? ts)) ts Q) :
    Ends n (.lookKind go) ts Q :=
  look h

/-- A token that is there can be taken, and one token less is left. -/
theorem take {go : Token → Program α} {j : TokenKind} (hj : kind? mid = some j) (hmid : mid <:+ ts)
    (h : ∀ t rest, rest <:+ ts → rest.length + 1 = mid.length → Ends n (go t) rest Q) :
    Ends n (.take go) mid Q := by
  obtain ⟨t, rest, rfl, -⟩ := kind?_eq_some.mp hj
  obtain ⟨r, left, hrun, hread, hQ⟩ := h t rest ((List.suffix_cons t rest).trans hmid) rfl
  exact ⟨r, left, .take hrun, hread, hQ⟩

theorem expect {p : Program α} {j : TokenKind} (hmid : mid <:+ ts)
    (h : ∀ rest, rest <:+ ts → rest.length + 1 = mid.length → Ends n p rest (Moved k ts)) :
    Ends n (.expect j p) mid (Moved k ts) := by
  refine look ?_
  cases mid with
  | nil => exact fail hmid
  | cons t rest =>
    show Ends n (if t.kind = j then Program.take fun _ => p else .fail _) _ _
    split
    · exact take rfl hmid fun _ => h
    · exact fail hmid

/-- A call comes to an end, and then what follows it does. -/
theorem call {c : Call} {go : c.Result → Program α} (ih : Founded n) (hmid : mid <:+ ts)
    (hn : c.measure mid < n)
    (h : ∀ a rest, rest <:+ ts → rest.length + c.size ≤ mid.length →
      Ends n (go a) rest (Moved k ts)) :
    Ends n (.call c go) mid (Moved k ts) := by
  obtain ⟨r, left, hrun, hread, hleft, hlen⟩ := ih c mid hn
  have hcall (m : Nat) (hm : n ≤ m) : (reading m c).from mid = (r, left) := by
    obtain ⟨m, rfl⟩ : ∃ j, m = j + 1 := ⟨m - 1, by omega⟩
    rw [reading_succ, hread m (by omega)]
  cases r with
  | error e =>
    refine ⟨.error e, left, .callFail hrun, fun m hm => ?_, moved_error (hleft.trans hmid)⟩
    rw [Program.read, from_bind, hcall m hm]
  | ok a =>
    obtain ⟨r, rest, hrun', hread', hQ⟩ := h a left (hleft.trans hmid) (hlen a rfl)
    refine ⟨r, rest, .call hrun hrun', fun m hm => ?_, hQ⟩
    rw [Program.read, from_bind, hcall m hm]
    exact hread' m hm

end Ends
end Logic

namespace Call
variable {ts : List Token}

/-- A call as the last step, after a token was taken. -/
theorem ends_last {α : Type} {k : Nat} {c c' : Call} {mid : List Token}
    (ih : Founded (c.measure ts)) (hmid : mid <:+ ts) (hlen : mid.length < ts.length) (hk : k ≤ 1)
    (f : c'.Result → α) :
    Ends (c.measure ts) (.call c' fun a => .done (f a)) mid (Moved k ts) :=
  .call ih hmid (measure_lt_of_length hlen) fun _ _ hrest _ => .done hrest (by omega)

theorem ends_expression (ih : Founded (expression.measure ts)) :
    Ends (expression.measure ts) expression.program ts (Moved 1 ts) := by
  refine .call ih (List.suffix_refl ts) (measure_lt_of_rank (Nat.lt_succ_self _))
    fun left mid hmid hlen => ?_
  exact ends_last ih hmid hlen (Nat.le_refl 1) id

theorem ends_sumTail (left : Expr) (ih : Founded ((sumTail left).measure ts)) :
    Ends ((sumTail left).measure ts) (sumTail left).program ts (Moved 0 ts) := by
  rw [program]
  refine .lookKind ?_
  cases hop : (kind? ts).bind sumOp? with
  | none => exact .done (List.suffix_refl ts) (Nat.le_refl _)
  | some op =>
    obtain ⟨j, hj, -⟩ := Option.bind_eq_some_iff.mp hop
    refine .take hj (List.suffix_refl ts) fun _ mid hmid hlen => .lookKind ?_
    split
    · exact .fail hmid
    refine .call ih hmid (measure_lt_of_length (by omega))
      fun right mid' hmid' (hlen' : _ + 1 ≤ _) => ?_
    exact ends_last ih hmid' (by omega) (Nat.zero_le 1) id

theorem ends_term (ih : Founded (term.measure ts)) :
    Ends (term.measure ts) term.program ts (Moved 1 ts) := by
  refine .call ih (List.suffix_refl ts) (measure_lt_of_rank (Nat.lt_succ_self _))
    fun left mid hmid hlen => ?_
  exact ends_last ih hmid hlen (Nat.le_refl 1) id

theorem ends_productTail (left : Expr) (ih : Founded ((productTail left).measure ts)) :
    Ends ((productTail left).measure ts) (productTail left).program ts (Moved 0 ts) := by
  -- A power and the next pass of the loop, after the sign of a product or without one.
  have hnext {mid : List Token} (op : BinOp) (hmid : mid <:+ ts)
      (hpower : power.measure mid < (productTail left).measure ts) :
      Ends ((productTail left).measure ts)
        (.call .power fun right => .call (.productTail (.binary op left right)) .done) mid
        (Moved 0 ts) := by
    have hlen := hmid.length_le
    refine .call ih hmid hpower fun right mid' hmid' (hlen' : _ + 1 ≤ _) => ?_
    exact ends_last ih hmid' (by omega) (Nat.zero_le 1) id
  rw [program]
  refine .lookKind ?_
  cases hk : kind? ts with
  | none => exact .done (List.suffix_refl ts) (Nat.le_refl _)
  | some k =>
    show Ends _ (productProgram left k) ts (Moved 0 ts)
    unfold productProgram
    split
    · exact .take hk (List.suffix_refl ts) fun _ mid hmid hlen =>
        hnext _ hmid (measure_lt_of_length (by omega))
    · split
      · exact hnext .mul (List.suffix_refl ts) (measure_lt_of_rank (Nat.lt_succ_self _))
      · exact .done (List.suffix_refl ts) (Nat.le_refl _)

theorem ends_power (ih : Founded (power.measure ts)) :
    Ends (power.measure ts) power.program ts (Moved 1 ts) := by
  refine .call ih (List.suffix_refl ts) (measure_lt_of_rank (Nat.lt_succ_self _))
    fun base mid hmid (hlen : _ + 1 ≤ _) => .lookKind ?_
  split
  next hk =>
    exact .take hk hmid fun _ mid' hmid' hlen' =>
      ends_last ih hmid' (by omega) (Nat.le_refl 1) _
  next => exact .done hmid hlen

/-- A sum in parentheses, after the opening one. -/
theorem ends_parens {mid : List Token} (ih : Founded (factor.measure ts)) (hmid : mid <:+ ts)
    (hlen : mid.length < ts.length) (f : Expr → Expr) :
    Ends (factor.measure ts) (.call .expression fun e => .expect .rparen (.done (f e))) mid
      (Moved 1 ts) := by
  refine .call ih hmid (measure_lt_of_length hlen) fun e mid' hmid' (hlen' : _ + 1 ≤ _) => ?_
  exact .expect hmid' fun rest hrest hlen'' => .done hrest (by omega)

theorem ends_factor (ih : Founded (factor.measure ts)) :
    Ends (factor.measure ts) factor.program ts (Moved 1 ts) := by
  refine .look ?_
  cases hts : ts.head? with
  | none => exact .fail (List.suffix_refl ts)
  | some t =>
    have hk : kind? ts = some t.kind := congrArg (Option.map Token.kind) hts
    show Ends _ (factorProgram t) ts (Moved 1 ts)
    unfold factorProgram
    cases t.kind with
    | minus =>
      exact .take hk (List.suffix_refl ts) fun _ mid hmid hlen =>
        ends_last ih hmid (by omega) (Nat.le_refl 1) _
    | lparen =>
      exact .take hk (List.suffix_refl ts) fun _ mid hmid hlen =>
        ends_parens ih hmid (by omega) id
    | lbracket =>
      exact .call ih (List.suffix_refl ts) (measure_lt_of_rank (Nat.lt_succ_self _))
        fun e rest hrest (hlen : _ + 1 ≤ _) => .done hrest hlen
    | number =>
      exact .take hk (List.suffix_refl ts) fun _ mid hmid hlen => .done hmid (Nat.le_of_eq hlen)
    | identifier =>
      refine .take hk (List.suffix_refl ts) fun _ mid hmid hlen => ?_
      split
      · exact .done hmid (Nat.le_of_eq hlen)
      · refine .lookKind ?_
        split
        next hparen =>
          exact .take hparen hmid fun _ mid' hmid' hlen' =>
            ends_parens ih hmid' (by omega) (Expr.call t.text)
        next => exact .done hmid (Nat.le_of_eq hlen)
    | _ => exact .fail (List.suffix_refl ts)

theorem ends_matrix (ih : Founded (matrix.measure ts)) :
    Ends (matrix.measure ts) matrix.program ts (Moved 1 ts) := by
  refine .expect (List.suffix_refl ts) fun mid hmid hlen => ?_
  refine .call ih hmid (measure_lt_of_length (by omega))
    fun rows mid' hmid' (hlen' : _ + 0 ≤ _) => ?_
  refine .expect hmid' fun rest hrest hlen'' => ?_
  split
  · exact .fail hrest
  · exact .done hrest (by omega)

section Items
variable {pending : List Expr}

/-- A row in brackets of its own, after the opening one. -/
theorem ends_nested {mid : List Token} (ih : Founded ((items pending).measure ts))
    (hmid : mid <:+ ts) (hlen : mid.length < ts.length) :
    Ends ((items pending).measure ts) (.call .rowItems fun row => .expect .rbracket (.skipSeparator
      (.call (.items pending) fun rows => .done (row :: rows)))) mid (Moved 0 ts) := by
  refine .call ih hmid (measure_lt_of_length hlen) fun row mid' hmid' (hlen' : _ + 0 ≤ _) => ?_
  refine .expect hmid' fun mid'' hmid'' hlen'' => .lookKind ?_
  split
  next hsep =>
    obtain ⟨j, hj⟩ : ∃ j, kind? mid'' = some j := hsep.elim (⟨_, ·⟩) (⟨_, ·⟩)
    exact .take hj hmid'' fun _ left hleft hlt => ends_last ih hleft (by omega) (Nat.zero_le 1) _
  next => exact ends_last ih hmid'' (by omega) (Nat.zero_le 1) _

/-- After an element the loop goes on, also where no separator is taken: the element itself has
taken a token. -/
theorem ends_element (ih : Founded ((items pending).measure ts)) :
    Ends ((items pending).measure ts)
      (.call .expression fun e => .lookKind (elementProgram (pending ++ [e]))) ts (Moved 0 ts) := by
  refine .call ih (List.suffix_refl ts) (measure_lt_of_rank (Nat.lt_succ_self _))
    fun e mid hmid (hlen : _ + 1 ≤ _) => .lookKind ?_
  unfold elementProgram
  split
  next hk =>
    exact .take hk hmid fun _ left hleft hlt => ends_last ih hleft (by omega) (Nat.zero_le 1) _
  next hk =>
    exact .take hk hmid fun _ left hleft hlt => ends_last ih hleft (by omega) (Nat.zero_le 1) id
  next => exact ends_last ih hmid hlen (Nat.zero_le 1) id

/-- Each pass of the loop over items takes a token, unless it is the last. -/
theorem ends_items (ih : Founded ((items pending).measure ts)) :
    Ends ((items pending).measure ts) (items pending).program ts (Moved 0 ts) := by
  rw [program]
  refine .lookKind ?_
  unfold itemsProgram
  split
  next => exact .done (List.suffix_refl ts) (Nat.le_refl _)
  next => exact .done (List.suffix_refl ts) (Nat.le_refl _)
  next hk =>
    exact .take hk (List.suffix_refl ts) fun _ mid hmid hlen => ends_nested ih hmid (by omega)
  next => exact ends_element ih

end Items

theorem ends_rowItems (ih : Founded (rowItems.measure ts)) :
    Ends (rowItems.measure ts) rowItems.program ts (Moved 0 ts) := by
  rw [program]
  refine .lookKind ?_
  unfold rowItemsProgram
  split
  next => exact .done (List.suffix_refl ts) (Nat.le_refl _)
  next => exact .done (List.suffix_refl ts) (Nat.le_refl _)
  next =>
    refine .call ih (List.suffix_refl ts) (measure_lt_of_rank (Nat.lt_succ_self _))
      fun e mid hmid (hlen : _ + 1 ≤ _) => .lookKind ?_
    split
    next hk =>
      exact .take hk hmid fun _ mid' hmid' hlen' =>
        ends_last ih hmid' (by omega) (Nat.zero_le 1) _
    next => exact .done hmid (by omega)

/-- Every call comes to an end, by induction on its measure. -/
theorem ends_program (c : Call) (ts : List Token) :
    Ends (c.measure ts) c.program ts (Moved c.size ts) := by
  induction hm : c.measure ts using Nat.strongRecOn generalizing c ts with
  | ind n ih =>
    subst hm
    have hfounded : Founded (c.measure ts) := fun c' ts' h => ih _ h c' ts' rfl
    cases c with
    | expression => exact ends_expression hfounded
    | sumTail left => exact ends_sumTail left hfounded
    | term => exact ends_term hfounded
    | productTail left => exact ends_productTail left hfounded
    | power => exact ends_power hfounded
    | factor => exact ends_factor hfounded
    | matrix => exact ends_matrix hfounded
    | items pending => exact ends_items hfounded
    | rowItems => exact ends_rowItems hfounded

end Call

/-- From every place of a line, each reading has one finite run, and at every depth that the tokens
left allow it carries this run out. It does not go back, nor beyond the end of the line, and if it
succeeds, it has taken at least one token, unless it is a loop. -/
theorem reading_progress (line : List Token) (pos : Nat) (hpos : pos ≤ line.length) (c : Call) :
    ∃ r pos', (∀ n, depth (line.drop pos) ≤ n →
        (reading n c).from (line.drop pos) = (r, line.drop pos')) ∧
      (∀ r' rest, Runs c.program (line.drop pos) r' rest ↔ r' = r ∧ rest = line.drop pos') ∧
      pos ≤ pos' ∧ pos' ≤ line.length ∧ ∀ a, r = .ok a → pos + c.size ≤ pos' := by
  obtain ⟨r, rest, hrun, hread, hrest, hlen⟩ := c.ends_program (line.drop pos)
  have hle := hrest.length_le
  rw [List.length_drop] at hle hlen
  have hdrop : rest = line.drop (line.length - rest.length) :=
    List.suffix_iff_eq_drop.mp (hrest.trans (List.drop_suffix pos line))
  refine ⟨r, line.length - rest.length, fun n hn => ?_, fun r' rest' => ?_, by omega, by omega,
    fun a ha => by have := hlen a ha; omega⟩
  · have hdepth := c.measure_lt_depth (line.drop pos)
    obtain ⟨n, rfl⟩ : ∃ j, n = j + 1 := ⟨n - 1, by omega⟩
    rw [reading_succ, ← hdrop, hread n (by omega)]
  · rw [← hdrop]
    constructor
    · intro h
      exact h.unique hrun
    · rintro ⟨rfl, rfl⟩
      exact hrun

/-- In `[1 )` no separator follows the element. The loop over the items goes on all the same, and is
refused at the parenthesis. -/
theorem reading_progress_unseparated :
    let line : List Token := [⟨.lbracket, "[", 0⟩, ⟨.number, "1", 1⟩, ⟨.rparen, ")", 3⟩]
    1 ≤ line.length ∧
      ∀ r rest, Runs (Call.items []).program (line.drop 1) r rest ↔
        r = .error (.unexpectedToken .rparen) ∧ rest = line.drop 2 := by
  intro line
  have hpos : 1 ≤ line.length := by decide
  obtain ⟨r, pos', hread, hruns, -⟩ := reading_progress line 1 hpos (.items [])
  have hfrom : (reading (depth (line.drop 1)) (.items [])).from (line.drop 1) =
      (.error (.unexpectedToken .rparen), line.drop 2) := rfl
  obtain ⟨rfl, hrest⟩ := Prod.mk.inj ((hread _ (Nat.le_refl _)).symm.trans hfrom)
  rw [hrest] at hruns
  exact ⟨hpos, hruns⟩

end Reckoner.Parser

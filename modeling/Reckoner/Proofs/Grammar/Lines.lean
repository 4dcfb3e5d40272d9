import Mathlib.Logic.IsEmpty.Basic
import Reckoner.Proofs.Grammar.Reading

namespace Reckoner.Grammar
open Reckoner.Parser

def opensWithName (ts : List Token) : Bool :=
  match ts.map Token.kind with
  | .identifier :: .assign :: _ => true
  | _ => false

/-- A line that is no sum has one equals sign, or an equals sign and a question mark; these tell the
kinds of statements apart. -/
inductive Line : List Token → Type where
  | expression {ts : List Token} (d : Derivation .sum ts []) : Line ts
  | assign {eq : Token} {ts : List Token} (x : Token) (hx : x.kind = .identifier)
      (hi : Text.lower x.text ≠ "i") (heq : eq.kind = .assign) (value : Derivation .sum ts []) :
      Line (x :: eq :: ts)
  | define {l r eq : Token} {ts : List Token} (f x : Token) (hf : f.kind = .identifier)
      (hfi : Text.lower f.text ≠ "i") (hl : l.kind = .lparen) (hx : x.kind = .identifier)
      (hxi : Text.lower x.text ≠ "i") (hr : r.kind = .rparen) (heq : eq.kind = .assign)
      (body : Derivation .sum ts []) : Line (f :: l :: x :: r :: eq :: ts)
  /-- One side to be worked out. -/
  | request {eq q : Token} {ts : List Token} (left : Derivation .sum ts [eq, q])
      (heq : eq.kind = .assign) (hq : q.kind = .question) (hts : opensWithName ts = false) : Line ts
  | equation {eq q : Token} {ts mid : List Token} (left : Derivation .sum ts (eq :: mid))
      (heq : eq.kind = .assign) (right : Derivation .sum mid [q]) (hq : q.kind = .question)
      (hts : opensWithName ts = false) : Line ts

namespace Line
variable {ts : List Token}

def statement {ts : List Token} : Line ts → Statement
  | expression d => .expression d.meaning
  | assign x _ _ _ value => .assign x.text value.meaning
  | define f x _ _ _ _ _ _ _ body => .define f.text x.text body.meaning
  | request left _ _ _ => .equation left.meaning none
  | equation left _ right _ _ => .equation left.meaning (some right.meaning)

def marks {ts : List Token} : Line ts → List TokenKind
  | expression _ => []
  | assign .. | define .. => [.assign]
  | request .. | equation .. => [.assign, .question]

theorem filter_isMark_nil {ts : List Token} (d : Derivation .sum ts []) : ts.filter isMark = [] :=
  d.filter_isMark_eq

theorem filter_isMark_mark {t : Token} {k : TokenKind} (ht : t.kind = k)
    (hk : k = .assign ∨ k = .question) (ts : List Token) :
    (t :: ts).filter isMark = t :: ts.filter isMark := by
  rcases hk with rfl | rfl <;> simp [isMark, ht]

/-- The signs of statements in a line are those of its derivation. -/
theorem map_filter_isMark (d : Line ts) : (ts.filter isMark).map Token.kind = d.marks := by
  cases d with
  | expression d => rw [filter_isMark_nil d]; rfl
  | assign x hx hi heq value =>
    rw [filter_isMark_cons hx _ (by decide), filter_isMark_mark heq (.inl rfl),
      filter_isMark_nil value]
    simp [marks, heq]
  | define f x hf hfi hl hx hxi hr heq body =>
    rw [filter_isMark_cons hf _ (by decide), filter_isMark_cons hl _ (by decide),
      filter_isMark_cons hx _ (by decide), filter_isMark_cons hr _ (by decide),
      filter_isMark_mark heq (.inl rfl), filter_isMark_nil body]
    simp [marks, heq]
  | request left heq hq hts =>
    rw [left.filter_isMark_eq, filter_isMark_mark heq (.inl rfl), filter_isMark_mark hq (.inr rfl)]
    simp [marks, heq, hq]
  | equation left heq right hq hts =>
    rw [left.filter_isMark_eq, filter_isMark_mark heq (.inl rfl), right.filter_isMark_eq,
      filter_isMark_mark hq (.inr rfl)]
    simp [marks, heq, hq]

/-- A line has one derivation. -/
theorem unique (d d' : Line ts) : d = d' := by
  have hmarks : d.marks = d'.marks := d.map_filter_isMark.symm.trans d'.map_filter_isMark
  have hnil : Symbol.sum.Ends [] := fun k hk => nomatch hk
  cases d with
  | expression d =>
    cases d' with
    | expression d' =>
      cases d.unique d' hnil hnil
      rfl
    | assign | define | request | equation => cases hmarks
  | assign x hx hi heq value =>
    cases d' with
    | assign _ _ _ _ value' =>
      cases value.unique value' hnil hnil
      rfl
    | define f x hf hfi hl => cases heq.symm.trans hl
    | expression | request | equation => cases hmarks
  | define f x hf hfi hl hx hxi hr heq body =>
    cases d' with
    | assign _ _ _ heq' => cases heq'.symm.trans hl
    | define _ _ _ _ _ _ _ _ _ body' =>
      cases body.unique body' hnil hnil
      rfl
    | expression | request | equation => cases hmarks
  | request left heq hq hts =>
    cases d' with
    | request left' heq' =>
      cases left.unique left' (Derivation.ends_sum heq rfl _) (Derivation.ends_sum heq' rfl _)
      rfl
    | equation left' heq' right' =>
      cases left.unique left' (Derivation.ends_sum heq rfl _) (Derivation.ends_sum heq' rfl _)
      obtain ⟨k, hk, hs⟩ := right'.begins
      cases hq.symm.trans (Option.some.inj hk)
      cases hs
    | expression | assign | define => cases hmarks
  | equation left heq right hq hts =>
    cases d' with
    | request left' heq' hq' =>
      cases left.unique left' (Derivation.ends_sum heq rfl _) (Derivation.ends_sum heq' rfl _)
      obtain ⟨k, hk, hs⟩ := right.begins
      cases hq'.symm.trans (Option.some.inj hk)
      cases hs
    | equation left' heq' right' hq' =>
      cases left.unique left' (Derivation.ends_sum heq rfl _) (Derivation.ends_sum heq' rfl _)
      cases right.unique right' (Derivation.ends_sum hq rfl _) (Derivation.ends_sum hq' rfl _)
      rfl
    | expression | assign | define => cases hmarks

theorem contains_filter_isMark {k : TokenKind} (hk : k = .assign ∨ k = .question)
    (ts : List Token) :
    (ts.map Token.kind).contains k = ((ts.filter isMark).map Token.kind).contains k := by
  induction ts with
  | nil => rfl
  | cons t ts ih =>
    by_cases ht : t.kind = .assign ∨ t.kind = .question
    · rw [filter_isMark_mark rfl ht]
      simp only [List.map_cons, List.contains_cons, ih]
    · have hne : (k == t.kind) = false := by
        refine beq_eq_false_iff_ne.mpr fun h => ht ?_
        rwa [← h]
      rw [filter_isMark_cons rfl _ (not_or.mp ht), List.map_cons, List.contains_cons, hne, ih,
        Bool.false_or]

theorem contains_marks {k : TokenKind} (hk : k = .assign ∨ k = .question) (d : Line ts) :
    (ts.map Token.kind).contains k = d.marks.contains k := by
  rw [contains_filter_isMark hk, d.map_filter_isMark]

end Line

theorem opensWithName_append {ts : List Token} (d : Derivation .sum ts [])
    (hn : ∀ t, ts = [t] → t.kind ≠ .identifier) (w : List Token) :
    opensWithName (ts ++ w) = false := by
  have hmarks := Line.filter_isMark_nil d
  unfold opensWithName
  split
  next ks hk =>
    match ts, d with
    | [], d => exact absurd rfl (d.ne_nil (by simp [Symbol.size]))
    | [t], _ =>
      simp only [List.cons_append, List.map_cons, List.cons.injEq] at hk
      exact absurd hk.1 (hn t rfl)
    | t :: u :: ts, _ =>
      simp only [List.cons_append, List.map_cons, List.cons.injEq] at hk
      simp [isMark, hk.1, hk.2.1] at hmarks
  next => rfl

theorem isEquation_eq (ts : List Token) :
    isEquation ts = (!opensWithName ts &&
      ((ts.map Token.kind).contains .assign && (ts.map Token.kind).contains .question)) := by
  unfold isEquation opensWithName
  split <;> simp_all

theorem contains_of_isAssignment {ts : List Token} (h : isAssignment ts = true) :
    (ts.map Token.kind).contains .assign = true := by
  unfold isAssignment at h
  split at h <;> simp_all

def chosen (ts : List Token) : Read Statement :=
  if isEquation ts then Parser.equation
  else if isAssignment ts then assignment
  else .expression <$> whole Parser.expression

/-- A reading after which no token is left. -/
theorem reads_ended {r : Read Statement} {ts rest : List Token} {o : Option Statement} :
    Reads (do
      let s ← r
      match ← next? with
      | none => return some s
      | some t => fail (.leftover t.text t.pos)) ts o rest ↔
      ∃ st, Reads r ts st [] ∧ some st = o ∧ rest = [] := by
  rw [reads_bind]
  refine exists_congr fun st => ?_
  constructor
  · rintro ⟨mid, hst, hend⟩
    rw [reads_next?_bind] at hend
    cases mid with
    | nil =>
      obtain ⟨ho, hr⟩ := reads_pure.mp hend
      exact ⟨hst, ho, hr.symm⟩
    | cons t mid => exact absurd hend reads_fail
  · rintro ⟨hst, rfl, rfl⟩
    exact ⟨[], hst, reads_pure.mpr ⟨rfl, rfl⟩⟩

theorem reads_statement {ts rest : List Token} {o : Option Statement} (h : ts ≠ []) :
    Reads (statement ts) ts o rest ↔
      ∃ st, Reads (chosen ts) ts st [] ∧ some st = o ∧ rest = [] := by
  have hts : ts.isEmpty = false := by simpa using h
  unfold statement chosen
  simp only [hts, Bool.false_eq_true, if_false]
  split
  · exact reads_ended
  · split
    · exact reads_ended
    · exact reads_ended

/-- A question mark right after the equals sign asks for a value. -/
theorem reads_equation {ts rest : List Token} {st : Statement} :
    Reads Parser.equation ts st rest ↔
      ∃ left eq mid, Reads (whole Parser.expression) ts left (eq :: mid) ∧ eq.kind = .assign ∧
        (kind? mid = some .question ∧ .equation left none = st ∧ mid.tail = rest ∨
          kind? mid ≠ some .question ∧ ∃ right q,
            Reads (whole Parser.expression) mid right (q :: rest) ∧ q.kind = .question ∧
              .equation left (some right) = st) := by
  unfold Parser.equation
  rw [reads_bind_takeKind]
  refine exists_congr fun left => exists_congr fun eq => exists_congr fun mid =>
    and_congr_right fun _ => and_congr_right fun _ => ?_
  rw [reads_nextKind?_bind]
  by_cases hq : kind? mid = some .question
  · obtain ⟨q, mid', rfl, -⟩ := kind?_eq_some.mp hq
    simp only [hq, if_true, reads_take_bind, reads_pure, List.tail_cons, true_and, ne_eq,
      not_true_eq_false, false_and, or_false]
  · simp only [hq, if_false, reads_bind_takeKind, reads_pure, false_and, false_or, ne_eq,
      not_false_eq_true, true_and]
    refine exists_congr fun right => exists_congr fun q => ?_
    constructor
    · rintro ⟨_, hr, hk, hst, rfl⟩
      exact ⟨hr, hk, hst⟩
    · rintro ⟨hr, hk, hst⟩
      exact ⟨rest, hr, hk, hst, rfl⟩

/-- An assignment is refused if its name is that of the imaginary unit. -/
theorem reads_assign {x eq : Token} {ts rest : List Token} {st : Statement}
    (hx : x.kind = .identifier) (heq : eq.kind = .assign) :
    Reads assignment (x :: eq :: ts) st rest ↔ Text.lower x.text ≠ "i" ∧
      ∃ e, Reads (whole Parser.expression) ts e rest ∧ .assign x.text e = st := by
  unfold assignment
  rw [reads_takeKind_cons hx]
  by_cases hi : Text.lower x.text = "i"
  · simp [hi, reads_bind]
  · simp only [hi, if_false, reads_nextKind?_bind, kind?_cons, heq, Option.some.injEq, reduceCtorEq,
      ne_eq, not_false_eq_true, true_and]
    rw [reads_takeKind_cons heq, reads_bind_pure]

theorem reads_define {f l x r eq : Token} {ts rest : List Token} {st : Statement}
    (hf : f.kind = .identifier) (hl : l.kind = .lparen) (hx : x.kind = .identifier)
    (hr : r.kind = .rparen) (heq : eq.kind = .assign) :
    Reads assignment (f :: l :: x :: r :: eq :: ts) st rest ↔
      (Text.lower f.text ≠ "i" ∧ Text.lower x.text ≠ "i") ∧
      ∃ e, Reads (whole Parser.expression) ts e rest ∧ .define f.text x.text e = st := by
  unfold assignment
  rw [reads_takeKind_cons hf]
  by_cases hi : Text.lower f.text = "i"
  · simp [hi, reads_bind]
  · simp only [hi, if_false, reads_nextKind?_bind, kind?_cons, hl, if_true, reads_take_bind,
      ne_eq, not_false_eq_true, true_and]
    rw [reads_takeKind_cons hx]
    by_cases hxi : Text.lower x.text = "i"
    · simp [hxi, reads_bind]
    · simp only [hxi, if_false, not_false_eq_true, true_and]
      rw [reads_takeKind_cons hr, reads_takeKind_cons heq, reads_bind_pure]

/-- A line that is taken for an assignment begins as one. -/
theorem isAssignment_cases {ts : List Token} (h : isAssignment ts = true) :
    (∃ x eq ts', ts = x :: eq :: ts' ∧ x.kind = .identifier ∧ eq.kind = .assign) ∨
    (∃ f l x r eq ts', ts = f :: l :: x :: r :: eq :: ts' ∧ f.kind = .identifier ∧
      l.kind = .lparen ∧ x.kind = .identifier ∧ r.kind = .rparen ∧ eq.kind = .assign) := by
  unfold isAssignment at h
  split at h
  · rename_i hk
    simp only [List.map_eq_cons_iff] at hk
    obtain ⟨x, _, rfl, hx, eq, ts', rfl, heq, -⟩ := hk
    exact .inl ⟨x, eq, ts', rfl, hx, heq⟩
  · rename_i hk
    simp only [List.map_eq_cons_iff] at hk
    obtain ⟨f, _, rfl, hf, l, _, rfl, hl, x, _, rfl, hx, r, _, rfl, hr, eq, ts', rfl, heq, -⟩ := hk
    exact .inr ⟨f, l, x, r, eq, ts', rfl, hf, hl, hx, hr, heq⟩
  · cases h

/-- What the chosen reading finds is a derivation of the line. -/
theorem line_of_reads {ts : List Token} {st : Statement} (h : Reads (chosen ts) ts st []) :
    ∃ d : Line ts, d.statement = st := by
  unfold chosen at h
  split at h
  next heqn =>
    rw [isEquation_eq, Bool.and_eq_true, Bool.not_eq_true'] at heqn
    obtain ⟨left, eq, mid, hl, heq, hmid⟩ := reads_equation.mp h
    obtain ⟨⟨left, rfl⟩, -⟩ := reads_whole_expression.mp hl
    rcases hmid with ⟨hq, rfl, hrest⟩ | ⟨-, right, q, hr, hq, rfl⟩
    · obtain ⟨q, _, rfl, hk⟩ := kind?_eq_some.mp hq
      cases hrest
      exact ⟨.request left heq hk heqn.1, rfl⟩
    · obtain ⟨⟨right, rfl⟩, -⟩ := reads_whole_expression.mp hr
      exact ⟨.equation left heq right hq heqn.1, rfl⟩
  next =>
    split at h
    next hasg =>
      rcases isAssignment_cases hasg with
        ⟨x, eq, ts', rfl, hx, heq⟩ | ⟨f, l, x, r, eq, ts', rfl, hf, hl, hx, hr, heq⟩
      · obtain ⟨hi, e, he, rfl⟩ := (reads_assign hx heq).mp h
        obtain ⟨⟨value, rfl⟩, -⟩ := reads_whole_expression.mp he
        exact ⟨.assign x hx hi heq value, rfl⟩
      · obtain ⟨⟨hfi, hxi⟩, e, he, rfl⟩ := (reads_define hf hl hx hr heq).mp h
        obtain ⟨⟨body, rfl⟩, -⟩ := reads_whole_expression.mp he
        exact ⟨.define f x hf hfi hl hx hxi hr heq body, rfl⟩
    next =>
      obtain ⟨e, he, rfl⟩ := reads_map.mp h
      obtain ⟨⟨d, rfl⟩, -⟩ := reads_whole_expression.mp he
      exact ⟨.expression d, rfl⟩

/-- A line is an equation if it has both signs. -/
theorem isEquation_of_line {ts : List Token} (d : Line ts) :
    isEquation ts = d.marks.contains .question := by
  rw [isEquation_eq, d.contains_marks (.inl rfl), d.contains_marks (.inr rfl)]
  cases d with
  | expression | assign | define => simp [Line.marks]
  | request _ _ _ hts | equation _ _ _ _ hts => simp [Line.marks, hts]

/-- A derivation of the line is found. -/
theorem reads_of_line {ts : List Token} (d : Line ts) : Reads (chosen ts) ts d.statement [] := by
  have hnil : Symbol.sum.Ends [] := fun k hk => nomatch hk
  have heqn := isEquation_of_line d
  unfold chosen
  cases d with
  | expression d =>
    have hasg : isAssignment ts = false := by
      refine Bool.eq_false_iff.mpr fun h => ?_
      have hc := contains_of_isAssignment h
      rw [(Line.expression d).contains_marks (.inl rfl)] at hc
      cases hc
    rw [if_neg (by simp [heqn, Line.marks]), if_neg (by simp [hasg])]
    exact reads_map.mpr ⟨_, reads_whole_expression.mpr ⟨⟨d, rfl⟩, hnil⟩, rfl⟩
  | assign x hx hi heq value =>
    rw [if_neg (by simp [heqn, Line.marks]), if_pos (by simp [isAssignment, hx, heq])]
    exact (reads_assign hx heq).mpr ⟨hi, _, reads_whole_expression.mpr ⟨⟨value, rfl⟩, hnil⟩, rfl⟩
  | define f x hf hfi hl hx hxi hr heq body =>
    rw [if_neg (by simp [heqn, Line.marks]), if_pos (by simp [isAssignment, hf, hl, hx, hr, heq])]
    exact (reads_define hf hl hx hr heq).mpr
      ⟨⟨hfi, hxi⟩, _, reads_whole_expression.mpr ⟨⟨body, rfl⟩, hnil⟩, rfl⟩
  | request left heq hq hts =>
    rw [if_pos (by simp [heqn, Line.marks])]
    have hleft := reads_whole_expression.mpr ⟨⟨left, rfl⟩, Derivation.ends_sum heq rfl _⟩
    exact reads_equation.mpr ⟨_, _, _, hleft, heq, .inl ⟨congrArg some hq, rfl, rfl⟩⟩
  | equation left heq right hq hts =>
    rw [if_pos (by simp [heqn, Line.marks])]
    have hleft := reads_whole_expression.mpr ⟨⟨left, rfl⟩, Derivation.ends_sum heq rfl _⟩
    have hright := reads_whole_expression.mpr ⟨⟨right, rfl⟩, Derivation.ends_sum hq rfl _⟩
    refine reads_equation.mpr ⟨_, _, _, hleft, heq, .inr ⟨?_, _, _, hright, hq, rfl⟩⟩
    intro hk
    obtain ⟨k, hk', hs⟩ := right.begins
    cases hk.symm.trans hk'
    cases hs

theorem parse_eq_ok {ts : List Token} {o : Option Statement} :
    parse ts = .ok o ↔ ∃ rest, Reads (statement ts) ts o rest := by
  unfold parse Reads
  rcases (statement ts).from ts with ⟨r, rest⟩
  cases r <;> simp

/-- A line makes the statement of its derivation, if it has one. -/
theorem parse_eq_some_iff {ts : List Token} (h : ts ≠ []) {st : Statement} :
    parse ts = .ok (some st) ↔ ∃ d : Line ts, d.statement = st := by
  simp only [parse_eq_ok, reads_statement h, Option.some.injEq]
  constructor
  · rintro ⟨_, _, hst, rfl, -⟩
    exact line_of_reads hst
  · rintro ⟨d, rfl⟩
    exact ⟨[], _, reads_of_line d, rfl, rfl⟩

/-- A sum with an equals sign and a question mark after it is a request, unless it is a lone
name. -/
theorem parse_request {ts : List Token} {eq q : Token} {e : Expr} (hts : ts ≠ [])
    (h : parse ts = .ok (some (.expression e))) (hn : ∀ t, ts = [t] → t.kind ≠ .identifier)
    (heq : eq.kind = .assign) (hq : q.kind = .question) :
    parse (ts ++ [eq, q]) = .ok (some (.equation e none)) := by
  obtain ⟨d, hd⟩ := (parse_eq_some_iff hts).mp h
  cases d with
  | expression d =>
    cases hd
    have hw : kind? [eq, q] ≠ some .lparen := by simp [heq]
    refine (parse_eq_some_iff (by simp)).mpr
      ⟨.request (d.extend hw) heq hq (opensWithName_append d hn _), ?_⟩
    exact congrArg (Statement.equation · none) (d.meaning_extend hw)
  | assign | define | request | equation => cases hd

/-- Only a line without tokens makes no statement. -/
theorem parse_eq_none {ts : List Token} : parse ts = .ok none ↔ ts = [] := by
  constructor
  · intro h
    by_contra hts
    obtain ⟨rest, hrest⟩ := parse_eq_ok.mp h
    simp [reads_statement hts] at hrest
  · rintro rfl
    rfl

/-- A line that has tokens makes the statement of its only derivation, or it has none and is
refused. -/
theorem parse_derives (ts : List Token) (h : ts ≠ []) :
    (∃ d : Line ts, (∀ d' : Line ts, d' = d) ∧ parse ts = .ok (some d.statement)) ∨
      (IsEmpty (Line ts) ∧ ∃ err, parse ts = .error err) := by
  cases hp : parse ts with
  | ok o =>
    obtain ⟨rest, hr⟩ := parse_eq_ok.mp hp
    obtain ⟨st, -, rfl, -⟩ := (reads_statement h).mp hr
    obtain ⟨d, rfl⟩ := (parse_eq_some_iff h).mp hp
    exact .inl ⟨d, fun d' => d'.unique d, rfl⟩
  | error err =>
    refine .inr ⟨⟨fun d => ?_⟩, err, rfl⟩
    have hok := (parse_eq_some_iff h).mpr ⟨d, rfl⟩
    rw [hp] at hok
    cases hok

/-- In `2 x - 1` the two factors side by side are read as a product. -/
theorem parse_derives_adjacent :
    [Token.mk .number "2" 0, ⟨.identifier, "x", 2⟩, ⟨.minus, "-", 4⟩, ⟨.number, "1", 6⟩] ≠ [] ∧
      ∃ d : Line [⟨.number, "2", 0⟩, ⟨.identifier, "x", 2⟩, ⟨.minus, "-", 4⟩, ⟨.number, "1", 6⟩],
        (∀ d', d' = d) ∧
        parse [⟨.number, "2", 0⟩, ⟨.identifier, "x", 2⟩, ⟨.minus, "-", 4⟩, ⟨.number, "1", 6⟩] =
          .ok (some d.statement) := by
  have hne : [Token.mk .number "2" 0, ⟨.identifier, "x", 2⟩, ⟨.minus, "-", 4⟩,
      ⟨.number, "1", 6⟩] ≠ [] := List.cons_ne_nil _ _
  refine ⟨hne, (parse_derives _ hne).resolve_right fun h => h.1.false ?_⟩
  refine .expression (.sum (.term (.base (.numeral _ rfl)) (.adjacent rfl
    (.base (.name _ rfl (by decide) (by decide))) .termEnd)) (.sumNext .sub rfl (by decide)
    (.term (.base (.numeral _ rfl)) .termEnd) .sumEnd))

end Reckoner.Grammar

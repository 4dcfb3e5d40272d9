import Mathlib
import Reckoner.Proofs.Grammar.Lines
import Reckoner.Proofs.Inlining
import Reckoner.Proofs.Lexing
import Reckoner.Session

namespace Reckoner

namespace Text

/-- What is put after a text comes after its blanks. -/
theorem trimChars_append {cs : List Char} (h : trimChars cs ≠ []) (w : List Char) {c : Char}
    (hc : isBlank c = false) :
    trimChars (cs ++ (w ++ [c])) =
      trimChars cs ++ ((dropBlanks cs).rtakeWhile isBlank ++ (w ++ [c])) := by
  have hne : dropBlanks cs ≠ [] := fun he => h (by rw [trimChars, he]; rfl)
  have hdrop : dropBlanks (cs ++ (w ++ [c])) = dropBlanks cs ++ (w ++ [c]) := by
    simp only [dropBlanks, List.dropWhile_append] at hne ⊢
    rw [if_neg (by simpa using hne)]
  calc trimChars (cs ++ (w ++ [c]))
      = (dropBlanks (cs ++ (w ++ [c]))).rdropWhile isBlank := rfl
    _ = dropBlanks cs ++ (w ++ [c]) := by
      rw [hdrop, ← List.append_assoc, List.rdropWhile_concat_neg _ _ _ (by simp [hc])]
    _ = (dropBlanks cs).rdropWhile isBlank ++ (dropBlanks cs).rtakeWhile isBlank ++ (w ++ [c]) := by
      rw [List.rdropWhile_append_rtakeWhile]
    _ = trimChars cs ++ ((dropBlanks cs).rtakeWhile isBlank ++ (w ++ [c])) := List.append_assoc ..

theorem rdropWhile_append {p : Char → Bool} {cs : List Char} (h : cs.rdropWhile p ≠ [])
    (w : List Char) : (w ++ cs).rdropWhile p = w ++ cs.rdropWhile p := by
  have hne : (cs.reverse.dropWhile p).isEmpty = false := by
    simpa [List.rdropWhile] using h
  simp only [List.rdropWhile, List.reverse_append, List.dropWhile_append, hne, Bool.false_eq_true,
    if_false, List.reverse_reverse]

/-- What is put before a text comes before its blanks. -/
theorem trimChars_append_left {c : Char} {cs : List Char} (hc : isBlank c = false)
    (h : trimChars cs ≠ []) (w : List Char) :
    trimChars (c :: w ++ cs) = c :: w ++ (cs.takeWhile isBlank ++ trimChars cs) := by
  have hdrop : dropBlanks (c :: w ++ cs) = c :: w ++ cs := by simp [dropBlanks, hc]
  calc trimChars (c :: w ++ cs)
      = (c :: w ++ cs).rdropWhile isBlank := by rw [trimChars, hdrop]; rfl
    _ = (c :: w ++ cs.takeWhile isBlank ++ dropBlanks cs).rdropWhile isBlank := by
      rw [List.append_assoc, dropBlanks, List.takeWhile_append_dropWhile]
    _ = c :: w ++ cs.takeWhile isBlank ++ trimChars cs := rdropWhile_append h _
    _ = c :: w ++ (cs.takeWhile isBlank ++ trimChars cs) := List.append_assoc ..

/-- The small letters that come from letters only. The others are in the small forms of the dotted
capital I and of the Kelvin sign. -/
def isPlainSmall (d : Char) : Bool :=
  let n := d.toNat
  0x61 ≤ n && n ≤ 0x7A && n != 0x69 && n != 0x6B

theorem lowerChar_ne_nil (c : Char) : lowerChar c ≠ [] := by
  unfold lowerChar
  dsimp only
  split
  · simp
  split
  · simp
  split <;> simp

/-- The small forms of the capitals beyond `Z` are beyond `z`, except that of the Kelvin sign. -/
theorem caseRanges_beyond : ∀ r ∈ caseRanges,
    0x7A < (r.first : Int) + r.shift ∨ (r.first = r.last ∧ (r.first : Int) + r.shift = 0x6B) := by
  decide +kernel

theorem isLetter_toLower {c : Char} (h : c.toNat < 0x80) :
    Token.isLetter c.toLower = Token.isLetter c := by
  have hall : ∀ n < 0x80,
      Token.isLetter (Char.ofNat n).toLower = Token.isLetter (Char.ofNat n) := by
    decide +kernel
  simpa using hall c.toNat h

theorem toNat_ofNat_cases (n : Nat) : (Char.ofNat n).toNat = n ∨ (Char.ofNat n).toNat = 0 := by
  unfold Char.ofNat
  split
  · exact .inl rfl
  · exact .inr rfl

/-- A plain small letter is the small form of a letter only. -/
theorem isLetter_of_mem_lowerChar {c d : Char} (h : d ∈ lowerChar c)
    (hd : isPlainSmall d = true) : Token.isLetter c = true := by
  simp only [isPlainSmall, Bool.and_eq_true, decide_eq_true_eq, bne_iff_ne] at hd
  unfold lowerChar at h
  dsimp only at h
  split at h
  next hn =>
    obtain rfl := List.mem_singleton.mp h
    rw [← isLetter_toLower hn]
    exact Token.isLetter_iff.mpr (.inr hd.1.1)
  split at h
  next =>
    simp only [List.mem_cons, List.not_mem_nil, or_false] at h
    rcases h with rfl | rfl <;> exact absurd hd (by decide)
  split at h
  next r hr =>
    have hcovers := List.find?_some hr
    simp only [CaseRange.covers, Bool.and_eq_true, decide_eq_true_eq] at hcovers
    obtain rfl := List.mem_singleton.mp h
    have hrange := caseRanges_beyond r (List.mem_of_find?_eq_some hr)
    rcases toNat_ofNat_cases (c.toNat + r.shift).toNat with he | he <;> omega
  next hn _ _ =>
    obtain rfl := List.mem_singleton.mp h
    omega

/-- A word of plain letters that a text begins with ends before its first blank. -/
theorem prefix_of_prefix_append {word cs w : List Char} {b : Char}
    (hword : word.all isPlainSmall = true) (hb : isBlank b = true)
    (h : word <+: cs.flatMap lowerChar ++ (b :: w).flatMap lowerChar) :
    word <+: cs.flatMap lowerChar := by
  rcases List.prefix_or_prefix_of_prefix h (List.prefix_append ..) with hp | ⟨more, rfl⟩
  · exact hp
  rw [List.prefix_append_right_inj, List.flatMap_cons] at h
  cases more with
  | nil => simp
  | cons d more =>
    obtain ⟨d', ds, hlow⟩ := List.exists_cons_of_ne_nil (lowerChar_ne_nil b)
    rw [hlow, List.cons_append, List.cons_prefix_cons] at h
    obtain ⟨rfl, -⟩ := h
    have hplain : isPlainSmall d = true := List.all_eq_true.mp hword d (by simp)
    have hletter := isLetter_of_mem_lowerChar (by rw [hlow]; simp) hplain
    rw [Token.not_isLetter_of_isBlank hb] at hletter
    cases hletter

/-- Without a capital sigma the small form of a text is made up of those of its characters. -/
theorem toList_lower {cs : List Char} (h : ∀ c ∈ cs, Token.isUsed c = true) :
    (lower (String.ofList cs)).toList = cs.flatMap lowerChar := by
  have hsigma : ∀ c ∈ cs, c.toNat ≠ 0x3A3 := by
    intro c hc hn
    have : c = Char.ofNat 0x3A3 := by rw [← hn, Char.ofNat_toNat]
    subst this
    exact absurd (h _ hc) (by decide)
  rw [lower, String.toList_ofList, String.toList_ofList, lowerAfter_eq_flatMap hsigma]

end Text

namespace Session
open Text Token

def isCommand (line : String) : Bool :=
  let low := lower line
  low = "vars" || low = "display" || low = "show" || low.startsWith "angles" ||
    low.startsWith "plot "

def isName (line : String) : Bool :=
  match tokens line with
  | .ok [t] => t.kind = .identifier
  | _ => false

/-- A line whose small form is a word of plain letters is a lone name. -/
theorem isName_of_lower {line word : String} {ts : List Token} (hts : lex line = .ok ts)
    (h : lower line = word) (hword : word.toList.all isPlainSmall = true) (hne : word ≠ "") :
    isName line = true := by
  have hlow : word.toList = line.toList.flatMap lowerChar := by
    rw [← h, ← toList_lower (isUsed_lexFrom hts), String.ofList_toList]
  have hline : line.toList ≠ [] := by
    intro hnil
    rw [hnil] at hlow
    exact hne (String.toList_eq_nil_iff.mp hlow)
  have hletters : ∀ c ∈ line.toList, isLetter c = true := by
    intro c hc
    obtain ⟨d, hd⟩ := List.exists_mem_of_ne_nil _ (lowerChar_ne_nil c)
    rw [hlow] at hword
    exact isLetter_of_mem_lowerChar hd
      (List.all_eq_true.mp hword d (List.mem_flatMap.mpr ⟨c, hc, hd⟩))
  have htokens : tokens line = .ok [⟨.identifier, line, 0⟩] := by
    rw [tokens, lex, lexFrom_letters hline hletters, String.ofList_toList]
    rfl
  simp [isName, htokens]

/-- What is put after a blank makes no command of a line, unless the line is the word of one. -/
theorem isCommand_append {cs w : List Char} {b : Char} (hb : isBlank b = true) (hw : '=' ∈ w)
    (hused : ∀ c ∈ cs ++ b :: w, isUsed c = true)
    (hangles : (lower (String.ofList cs)).startsWith "angles" = false)
    (hplot : (lower (String.ofList cs)).startsWith "plot " = false)
    (hword : lower (String.ofList cs) ≠ "plot") :
    isCommand (String.ofList (cs ++ b :: w)) = false := by
  have hlow := toList_lower (List.forall_mem_append.mp hused).1
  have hlow' := toList_lower hused
  rw [List.flatMap_append] at hlow'
  have heq : '=' ∈ (lower (String.ofList (cs ++ b :: w))).toList := by
    rw [hlow']
    refine List.mem_append_right _ (List.mem_flatMap.mpr ⟨'=', by simp [hw], by decide⟩)
  have hne {word : String} (hnot : '=' ∉ word.toList) :
      lower (String.ofList (cs ++ b :: w)) ≠ word := by
    rintro rfl
    exact hnot heq
  simp only [isCommand, Bool.or_eq_false_iff, decide_eq_false_iff_not,
    String.startsWith_string_eq_false_iff, hlow, hlow'] at hangles hplot ⊢
  refine ⟨⟨⟨⟨hne (by decide), hne (by decide)⟩, hne (by decide)⟩, fun hp => ?_⟩, fun hp => ?_⟩
  · exact hangles (prefix_of_prefix_append rfl hb hp)
  · -- The word of this command has a blank after it, which may be the one that is put there.
    have hshort : "plot".toList <+: "plot ".toList := ⟨[' '], rfl⟩
    obtain ⟨more, hmore⟩ := prefix_of_prefix_append rfl hb (hshort.trans hp)
    cases more with
    | nil =>
      apply hword
      rw [← String.toList_inj, hlow, ← hmore, List.append_nil]
    | cons d more =>
      have hblank : ' ' = d := by
        rw [← hmore] at hp
        simpa using hp
      refine hplot ⟨more, ?_⟩
      rw [← hmore, ← hblank]
      rfl

/-- A line that is carried out as the expression `e`. -/
structure Expresses (text : String) (e : Expr) : Prop where
  isCommand_eq : isCommand (trim text) = false
  read_eq : read (trim text) = .ok (some (.expression e))

theorem read_eq_ok {line : String} {o : Option Statement} :
    read line = .ok o ↔ ∃ ts, lex line = .ok ts ∧ Parser.parse ts = .ok o := by
  unfold read tokens
  cases lex line with
  | error err => simp [Except.mapError, Outcome.error_bind]
  | ok ts =>
    cases hp : Parser.parse ts <;> simp [Except.mapError, Outcome.ok_bind, hp]

theorem ne_empty_of_read {line : String} {st : Statement} (h : read line = .ok (some st)) :
    line ≠ "" := by
  rintro rfl
  obtain ⟨ts, hts, hp⟩ := read_eq_ok.mp h
  rw [lex, String.toList_empty, lexFrom] at hts
  cases hts
  cases hp

/-- A line that is no command is carried out as its statement. -/
theorem execute_eq_perform {s : Scope} {text : String} {st : Statement}
    (hc : isCommand (trim text) = false) (h : read (trim text) = .ok (some st)) :
    execute s text = perform s st := by
  have hne := ne_empty_of_read h
  simp only [isCommand, Bool.or_eq_false_iff, decide_eq_false_iff_not] at hc
  obtain ⟨⟨⟨⟨hvars, hdisplay⟩, hshow⟩, hangles⟩, hplot⟩ := hc
  simp [execute, hne, hvars, hdisplay, hshow, hangles, hplot, statement, h]

/-- The equals sign and the question mark of a request, after the blanks of a line. -/
theorem lexFrom_marks {bs : List Char} (hb : ∀ b ∈ bs, isBlank b = true) (pos : Nat) :
    ∃ eq q, lexFrom pos (bs ++ [' ', '=', ' ', '?']) = .ok [eq, q] ∧
      eq.kind = .assign ∧ q.kind = .question := by
  have heq : lexeme? '=' [' ', '?'] = some ⟨some .assign, [], [' ', '?']⟩ := rfl
  have hq : lexeme? '?' [] = some ⟨some .question, [], []⟩ := rfl
  rw [lexFrom_blanks hb, lexFrom_blank (by decide), lexFrom_cons heq, lexFrom_blank (by decide),
    lexFrom_cons hq, lexFrom]
  exact ⟨_, _, rfl, rfl, rfl⟩

/-- The blanks at the end of a line stay in front of the marks. -/
theorem trim_request {text : String} (h : trim text ≠ "") :
    ∃ bs, (∀ b ∈ bs, isBlank b = true) ∧
      trim (text ++ " = ?") =
        String.ofList ((trim text).toList ++ (bs ++ [' ', '=', ' ', '?'])) := by
  have hne : trimChars text.toList ≠ [] := by
    intro he
    rw [trim, he] at h
    exact h rfl
  refine ⟨(dropBlanks text.toList).rtakeWhile isBlank, fun b => List.mem_rtakeWhile_imp, ?_⟩
  have hmarks : " = ?".toList = [' ', '=', ' '] ++ ['?'] := by decide
  rw [trim, String.toList_append, hmarks, trimChars_append hne _ (by decide), trim,
    String.toList_ofList]
  rfl

/-- A line that is an expression is carried out as a request when the marks of one follow it. The
expression is evaluated as it is, the request with its calls written out. -/
theorem execute_request {text : String} {e : Expr} (he : Expresses text e)
    (hn : isName (trim text) = false) (s : Scope) :
    execute s (text ++ " = ?") = (some <$> request s e, s) := by
  obtain ⟨ts, hts, hp⟩ := read_eq_ok.mp he.read_eq
  have htsne : ts ≠ [] := by
    rintro rfl
    cases hp
  obtain ⟨bs, hbs, htrim⟩ := trim_request (ne_empty_of_read he.read_eq)
  obtain ⟨eq, q, hmarks, heq, hq⟩ := lexFrom_marks hbs (0 + (trim text).toList.length)
  -- A blank of the text or the one before the equals sign ends the last token of the line.
  obtain ⟨b, w, hbw, hb, hw⟩ :
      ∃ b w, bs ++ [' ', '=', ' ', '?'] = b :: w ∧ isBlank b = true ∧ '=' ∈ w := by
    cases bs with
    | nil => exact ⟨_, _, rfl, by decide, by simp⟩
    | cons b bs => exact ⟨_, _, rfl, hbs b (by simp), by simp⟩
  rw [hbw] at htrim hmarks
  have hlex : lexFrom 0 ((trim text).toList ++ b :: w) = .ok (ts ++ [eq, q]) := by
    rw [lexFrom_append hts hb, hmarks]
    rfl
  have hcommand : isCommand (trim (text ++ " = ?")) = false := by
    have hnone := he.isCommand_eq
    simp only [isCommand, Bool.or_eq_false_iff] at hnone
    rw [htrim]
    apply isCommand_append hb hw (isUsed_lexFrom hlex) <;> rw [String.ofList_toList]
    · exact hnone.1.2
    · exact hnone.2
    · intro hword
      exact Bool.eq_false_iff.mp hn (isName_of_lower hts hword rfl (by decide))
  have hread : read (trim (text ++ " = ?")) = .ok (some (.equation e none)) := by
    refine read_eq_ok.mpr ⟨ts ++ [eq, q], by rw [htrim, lex, String.toList_ofList, hlex], ?_⟩
    refine Grammar.parse_request htsne hp (fun t ht hk => ?_) heq hq
    have htokens : tokens (trim text) = .ok [t] := by
      rw [tokens, hts, ht]
      rfl
    simp [isName, htokens, hk] at hn
  exact execute_eq_perform hcommand hread

theorem execute_expression {text : String} {e : Expr} (he : Expresses text e) (s : Scope) :
    execute s text = (do return some (← (← s.eval e).result), s) :=
  execute_eq_perform he.isCommand_eq he.read_eq

/-- Where a builtin function is at home does not show. -/
theorem result_congr {v w : Value} (h : w.bare = v.bare) : w.result = v.result := by
  cases v <;> cases w <;> cases h <;> rfl

theorem eval_of_execute {text t : String} {e : Expr} {s : Scope} (he : Expresses text e)
    (h : (execute s text).1 = .ok (some t)) : ∃ v, s.eval e = .ok v ∧ v.result = .ok t := by
  rw [execute_expression he] at h
  obtain ⟨v, hv, h⟩ := Outcome.bind_eq_ok.mp h
  obtain ⟨u, hu, h⟩ := Outcome.bind_eq_ok.mp h
  cases h
  exact ⟨v, hv, hu⟩

def squaring : Scope where
  bindings := [("f", .function ⟨"x", .binary .mul (.var "x") (.var "x"), some "f"⟩)]
  mode := .radians
  home := .session

theorem squaring_callsFree (e : Expr) : CallsFree (squaring.Reaches e) := by
  intro f hf g hg
  have hmem : ∃ name, squaring.function? name = some f := by
    cases hf with
    | called _ h | inBody _ _ h => exact ⟨_, h⟩
  obtain ⟨name, hname⟩ := hmem
  have hf' := Scope.mem_of_function? hname
  simp only [squaring, List.mem_cons, Prod.mk.injEq, Value.function.injEq, List.not_mem_nil,
    or_false] at hf'
  rw [hf'.2] at hg
  simp [Expr.calls] at hg

/-- Where writing calls out keeps their meaning and leaves no variable, a request is answered as the
expression is. -/
theorem request_eq_ok {s : Scope} {e : Expr} {v : Value} {t : String}
    (hc : CallsFree (s.Reaches e)) (ha : Inline.AnglesKept (s.Reaches e) s)
    (hvars : ∀ e', s.inline e = .ok e' → e'.hasVariables = false)
    (hv : s.eval e = .ok v) (ht : v.result = .ok t) : request s e = .ok t := by
  obtain ⟨e', hi, hw⟩ :=
    Inline.stands_of_evalDeep ⟨s.closed_reaches e, hc, ha⟩ (fun g f hg hf => .called hg hf) hv
  rcases hi.inlineDeep_eq maxDepth with h | h
  · have hnone := hvars e' h
    obtain ⟨w, hev, hb⟩ := hw (.inl hnone)
    have hwv : s.eval e' = .ok w := (Eval.evalDeep_cut (by decide) s e').eq_ok hev
    have hout : writtenOut s e = .ok t := by
      simp [writtenOut, Scope.inline, h, hnone, hwv, result_congr hb, ht]
    rw [request, hout]
  · -- Calls nested too deep to be written out are evaluated as they stand.
    have hout : writtenOut s e = .error .recursion := by simp [writtenOut, Scope.inline, h]
    simp [request, hout, hv, ht]

/-- A request for an expression that has a value is answered with the expression itself if it has
variables once its calls are written out, and with the value if it has none. -/
theorem request_agrees (s : Scope) (text : String) (e : Expr) (t : String)
    (he : Expresses text e) (hn : isName (trim text) = false)
    (ht : (execute s text).1 = .ok (some t)) :
    (∀ e', s.inline e = .ok e' → e'.hasVariables = true →
      execute s (text ++ " = ?") = (.ok (some e'.text), s)) ∧
    (CallsFree (s.Reaches e) → Inline.AnglesKept (s.Reaches e) s →
      (∀ e', s.inline e = .ok e' → e'.hasVariables = false) →
      execute s (text ++ " = ?") = execute s text) := by
  obtain ⟨v, hv, hvt⟩ := eval_of_execute he ht
  rw [execute_request he hn]
  constructor
  · intro e' hi hvars
    have hout : writtenOut s e = .ok e'.text := by simp [writtenOut, hi, hvars]
    rw [request, hout]
    rfl
  · intro hc ha hvars
    rw [request_eq_ok hc ha hvars hv hvt, execute_expression he, hv]
    simp [hvt]

/-- A call within a call, with blanks around it. -/
theorem request_agrees_squared :
    (Expresses " f(f(2)) " (.call "f" (.call "f" (.number "2"))) ∧
      isName (trim " f(f(2)) ") = false ∧
      (execute squaring " f(f(2)) ").1 = .ok (some "16")) ∧
    execute squaring (" f(f(2)) " ++ " = ?") = execute squaring " f(f(2)) " := by
  have he : Expresses " f(f(2)) " (.call "f" (.call "f" (.number "2"))) := ⟨by cbv, by cbv⟩
  have hn : isName (trim " f(f(2)) ") = false := by cbv
  have ht : (execute squaring " f(f(2)) ").1 = .ok (some "16") := by
    rw [execute_expression he]
    with_unfolding_all rfl
  have hi : squaring.inline (.call "f" (.call "f" (.number "2"))) =
      .ok (.binary .mul (.binary .mul (.number "2") (.number "2"))
        (.binary .mul (.number "2") (.number "2"))) := by
    with_unfolding_all rfl
  refine ⟨⟨he, hn, ht⟩, (request_agrees _ _ _ _ he hn ht).2 (squaring_callsFree _) (.inl rfl) ?_⟩
  intro e' he'
  cases hi.symm.trans he'
  rfl

def five : Scope where
  bindings := [("x", .rational 5)]
  mode := .radians
  home := .session

/-- After `x = 5` the value of `x + 1` is 6, but a request for it is answered with `x + 1`. -/
theorem request_of_variable :
    execute .empty "x = 5" = (.ok (some "5"), five) ∧
    Expresses "x + 1" (.binary .add (.var "x") (.number "1")) ∧ isName (trim "x + 1") = false ∧
    execute five "x + 1" = (.ok (some "6"), five) ∧
    execute five ("x + 1" ++ " = ?") = (.ok (some "x + 1"), five) := by
  have hassign : read (trim "x = 5") = .ok (some (.assign "x" (.number "5"))) := by cbv
  have he : Expresses "x + 1" (.binary .add (.var "x") (.number "1")) := ⟨by cbv, by cbv⟩
  have hn : isName (trim "x + 1") = false := by cbv
  refine ⟨?_, he, hn, ?_, ?_⟩
  · rw [execute_eq_perform (by cbv) hassign]
    with_unfolding_all rfl
  · rw [execute_expression he]
    with_unfolding_all rfl
  · rw [execute_request he hn]
    with_unfolding_all rfl

end Session
end Reckoner

import Reckoner.SyntaxError
import Reckoner.Text.Blank
import Reckoner.Text.Digit

namespace Reckoner.Token
open Text

def isLetter (c : Char) : Bool :=
  ('A' ≤ c && c ≤ 'Z') || ('a' ≤ c && c ≤ 'z')

def symbolKind? : Char → Option TokenKind
  | '=' => some .assign
  | '%' => some .modulo
  | '?' => some .question
  | '+' => some .plus
  | '-' => some .minus
  | '*' => some .multiply
  | '/' => some .divide
  | '^' => some .power
  | '(' => some .lparen
  | ')' => some .rparen
  | '[' => some .lbracket
  | ']' => some .rbracket
  | ';' => some .semicolon
  | ',' => some .comma
  | _ => none

/-- The characters of a number after its first digit: digits, a point, digits. -/
def numberTail (cs : List Char) : List Char × List Char :=
  let ds := cs.takeWhile isDigit
  match cs.dropWhile isDigit with
  | '.' :: rest => (ds ++ '.' :: rest.takeWhile isDigit, rest.dropWhile isDigit)
  | rest => (ds, rest)

/-- What a text begins with: its kind unless it is blank, its characters after the first, and the
rest of the text. -/
structure Lexeme where
  kind : Option TokenKind
  tail : List Char
  rest : List Char

def lexeme? (c : Char) (cs : List Char) : Option Lexeme :=
  if isDigit c then
    let (tail, rest) := numberTail cs
    some ⟨some .number, tail, rest⟩
  else if isLetter c then some ⟨some .identifier, cs.takeWhile isLetter, cs.dropWhile isLetter⟩
  else if isBlank c then some ⟨none, cs.takeWhile isBlank, cs.dropWhile isBlank⟩
  else if c = '*' ∧ cs.head? = some '*' then some ⟨some .matMul, cs.take 1, cs.drop 1⟩
  else (symbolKind? c).map (fun k => ⟨some k, [], cs⟩)

theorem numberTail_append (cs : List Char) : (numberTail cs).1 ++ (numberTail cs).2 = cs := by
  simp only [numberTail]
  split
  · rename_i rest h
    have hr := List.takeWhile_append_dropWhile (p := isDigit) (l := rest)
    have hc := List.takeWhile_append_dropWhile (p := isDigit) (l := cs)
    simp only [List.append_assoc, List.cons_append, hr]
    rw [← h, hc]
  · exact List.takeWhile_append_dropWhile

/-- A lexeme and the rest make up the text. -/
theorem lexeme?_append {c : Char} {cs : List Char} {l : Lexeme} (h : lexeme? c cs = some l) :
    l.tail ++ l.rest = cs := by
  unfold lexeme? at h
  split at h
  · obtain rfl := Option.some.inj h
    exact numberTail_append cs
  split at h
  · obtain rfl := Option.some.inj h
    exact List.takeWhile_append_dropWhile
  split at h
  · obtain rfl := Option.some.inj h
    exact List.takeWhile_append_dropWhile
  split at h
  · obtain rfl := Option.some.inj h
    exact List.take_append_drop 1 cs
  · obtain ⟨k, _, rfl⟩ := Option.map_eq_some_iff.mp h
    rfl

theorem length_rest_le {c : Char} {cs : List Char} {l : Lexeme} (h : lexeme? c cs = some l) :
    l.rest.length ≤ cs.length := by
  have := congrArg List.length (lexeme?_append h)
  simp only [List.length_append] at this
  omega

/-- The tokens of the characters from position `pos` on, each as long as it can be. -/
def lexFrom (pos : Nat) (cs : List Char) : Except SyntaxError (List Token) :=
  match cs with
  | [] => .ok []
  | c :: cs =>
    match _h : lexeme? c cs with
    | none => .error (.unexpectedCharacter c pos)
    | some l =>
      match lexFrom (pos + 1 + l.tail.length) l.rest with
      | .error e => .error e
      | .ok ts =>
        match l.kind with
        | none => .ok ts
        | some k => .ok (⟨k, String.ofList (c :: l.tail), pos⟩ :: ts)
termination_by cs.length
decreasing_by
  have := length_rest_le _h
  simp only [List.length_cons]
  omega

def lex (line : String) : Except SyntaxError (List Token) :=
  lexFrom 0 line.toList

end Reckoner.Token

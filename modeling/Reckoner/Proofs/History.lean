import Mathlib
import Reckoner.Console
import Reckoner.Proofs.Request

namespace Reckoner
namespace History

def Entry.line (e : Entry) : String :=
  e.toDatum.toJson

namespace Store

@[simp] theorem linesText_nil : linesText [] = "" := rfl

theorem linesText_cons (l : String) (ls : List String) :
    linesText (l :: ls) = l ++ "\n" ++ linesText ls := by
  rw [linesText, List.map_cons, String.join_cons, linesText]

theorem linesText_append (ls ms : List String) :
    linesText (ls ++ ms) = linesText ls ++ linesText ms := by
  rw [linesText, List.map_append, String.join_append, linesText, linesText]

theorem linesText_eq_empty {ls : List String} : linesText ls = "" ↔ ls = [] := by
  cases ls with
  | nil => simp
  | cons l ls => simp [linesText_cons]

/-- Taking a text apart at a character loses nothing of it. -/
theorem partsAt_joined (c : Char) (cs : List Char) :
    (Text.partsAt c cs).dropLast.flatMap (· ++ [c]) ++ (Text.partsAt c cs).getLastD [] = cs := by
  induction cs with
  | nil => rfl
  | cons d ds ih =>
    obtain ⟨p, ps, hparts⟩ := List.exists_cons_of_ne_nil (Text.partsAt_ne_nil c ds)
    simp only [Text.partsAt, hparts] at ih ⊢
    split
    · next hd => simpa [hd] using ih
    · cases ps with
      | nil => simpa using ih
      | cons q ps => simpa using ih

theorem text?_ofText (text : String) : (ofText text).text? = some text := by
  obtain ⟨init, last, hparts⟩ : ∃ init last,
      Text.partsAt (Char.ofNat 10) text.toList = init ++ [last] :=
    ⟨_, _, (List.dropLast_append_getLast (Text.partsAt_ne_nil _ _)).symm⟩
  have hjoined := partsAt_joined (Char.ofNat 10) text.toList
  rw [hparts, List.dropLast_concat, List.getLastD_concat] at hjoined
  refine congrArg some (String.toList_injective ?_)
  simpa [Text.split, hparts, linesText, List.flatMap_map] using hjoined

/-- The text in a place that can be written to. A file that is still to be made has none. -/
def content? : Store → Option String
  | file ls unfinished => some (linesText ls ++ unfinished)
  | missing => some ""
  | noDirectory | directory => none

theorem content?_ofText (text : String) : (ofText text).content? = some text :=
  text?_ofText text

/-- More lines come after all that was there, whether its last line had an end or not. -/
theorem content?_appended {s : Store} {content : String} (h : s.content? = some content)
    (new : List String) : (s.appended new).content? = some (content ++ linesText new) := by
  cases s with
  | file ls unfinished =>
    obtain rfl := Option.some.inj h
    cases new with
    | nil => simp [appended, append?, content?]
    | cons l new =>
      simp [appended, append?, content?, linesText_append, linesText_cons, String.append_assoc]
  | missing =>
    obtain rfl := Option.some.inj h
    simp [appended, append?, content?]
  | noDirectory => simp [content?] at h
  | directory => simp [content?] at h

/-- The end of a run writes all entries again, those that were read at its start among them. -/
theorem text?_closed {s : Store} {content : String} (h : s.content? = some content)
    (new : List String) : (s.closed new).text? = some (content ++ linesText new) := by
  have happended := content?_appended h new
  cases s with
  | file ls unfinished => cases new <;> exact happended
  | missing => exact happended
  | noDirectory => simp [content?] at h
  | directory => simp [content?] at h

theorem cleared?_of_content? {s : Store} {content : String} (h : s.content? = some content) :
    s.cleared? = some (file []) := by
  cases s with
  | file ls unfinished => rfl
  | missing => rfl
  | noDirectory => simp [content?] at h
  | directory => simp [content?] at h

end Store
end History

namespace Console
open History (Entry load)
open History.Store (linesText linesText_append linesText_eq_empty)

inductive Request where
  | nothing
  | stop
  | history (command : History.Command)
  | calculation (line : String)
  deriving DecidableEq

def request (text : String) : Request :=
  let line := Text.trim text
  if line = "" then .nothing
  else if Text.lower line = "exit" ∨ Text.lower line = "quit" then .stop
  else
    match History.command? line with
    | some command => .history command
    | none => .calculation line

def answered : List Key → List String
  | [] | .interrupt :: _ => []
  | .line text :: keys => if request text = .stop then [] else text :: answered keys

/-- The result of a line, if it has one. -/
def recorded? (s : Scope) (now text : String) : Option Entry :=
  match request text with
  | .calculation line =>
    match (Session.execute s line).1 with
    | .ok (some result) => some ⟨now, line, result⟩
    | _ => none
  | _ => none

def scopeAfter (s : Scope) (text : String) : Scope :=
  match request text with
  | .calculation line => (Session.execute s line).2
  | _ => s

/-- The results of lines that are carried out one after the other. -/
def entriesOf (clock : Nat → String) (s : Scope) : List String → List Entry
  | [] => []
  | text :: texts =>
    (recorded? s (clock 0) text).toList ++
      entriesOf (fun n => clock (n + 1)) (scopeAfter s text) texts

def isClear (text : String) : Bool :=
  request text = .history .clear

def untilClear (texts : List String) : List String :=
  texts.rdropWhile (!isClear ·)

def sinceClear (texts : List String) : List String :=
  texts.rtakeWhile (!isClear ·)

/-- What a console holds when its file can be written to. -/
structure Holds (c : Console) (s : Scope) (content : String) (entries : List Datum) : Prop where
  scope : c.scope = s
  content : c.store.content? = some content
  entries : c.entries = entries

namespace Holds
variable {c : Console} {s : Scope} {content : String} {entries : List Datum}

theorem start {store : History.Store} (h : store.content? = some content) (typed : List String) :
    (Console.start store typed).Holds .empty content (load store) :=
  ⟨rfl, h, rfl⟩

theorem remember (h : c.Holds s content entries) (line : String) :
    (c.remember line).Holds s content entries := by
  unfold Console.remember
  split
  · exact h
  · exact ⟨h.scope, h.content, h.entries⟩

/-- A result is put into the file at once. -/
theorem record (h : c.Holds s content entries) (e : Entry) :
    (c.record e).Holds s (content ++ linesText [e.line]) (entries ++ [e.toDatum]) :=
  ⟨h.scope, History.Store.content?_appended h.content _, congrArg (· ++ _) h.entries⟩

theorem clear (h : c.Holds s content entries) : c.clear.1.Holds s "" [] := by
  rw [Console.clear, History.Store.cleared?_of_content? h.content]
  exact ⟨h.scope, rfl, rfl⟩

/-- Only clearing it changes the history. -/
theorem history (h : c.Holds s content entries) {command : History.Command}
    (hc : command ≠ .clear) : (c.history command).1.Holds s content entries := by
  cases command with
  | clear => exact absurd rfl hc
  | commands => exact h
  | results => exact h
  | usage => exact h

theorem calculate (h : c.Holds s content entries) {text line : String}
    (hr : request text = .calculation line) (now : String) :
    (c.calculate now line).1.Holds (scopeAfter s text)
      (content ++ linesText ((recorded? s now text).toList.map Entry.line))
      (entries ++ (recorded? s now text).toList.map Entry.toDatum) := by
  obtain ⟨rfl, hcontent, rfl⟩ := h
  have hafter : ({ c with scope := (Session.execute c.scope line).2 } : Console).Holds
      (scopeAfter c.scope text) content c.entries := by
    refine ⟨?_, hcontent, rfl⟩
    simp only [scopeAfter, hr]
  simp only [Console.calculate, recorded?, hr]
  split
  · next hx => simpa [hx] using hafter
  · next hx => simpa [hx] using hafter
  · next t hx => simpa [hx] using hafter.record ⟨now, line, t⟩

end Holds

/-- A line in terms of what it asks for. -/
theorem answer_eq (c : Console) (now text : String) :
    c.answer now text =
      let c' := c.remember (Text.trim text)
      match request text with
      | .nothing => ⟨c, "", false⟩
      | .stop => ⟨c', "", true⟩
      | .history command => ⟨(c'.history command).1, (c'.history command).2, false⟩
      | .calculation line => ⟨(c'.calculate now line).1, (c'.calculate now line).2, false⟩ := by
  unfold answer request
  by_cases hline : Text.trim text = ""
  · simp only [hline, if_true]
  · by_cases hstop : Text.lower (Text.trim text) = "exit" ∨ Text.lower (Text.trim text) = "quit"
    · simp only [hline, hstop, if_true, if_false]
    · simp only [hline, hstop, if_false]
      cases History.command? (Text.trim text) with
      | none => rfl
      | some command => rfl

/-- Only the words that end a run end it. -/
theorem stop_answer (c : Console) (now text : String) :
    (c.answer now text).stop = decide (request text = .stop) := by
  rw [answer_eq]
  cases request text <;> rfl

namespace Holds
variable {c : Console} {s : Scope} {content : String} {entries : List Datum}

theorem answer_stop (h : c.Holds s content entries) {text : String} (hr : request text = .stop)
    (now : String) : (c.answer now text).console.Holds s content entries := by
  simp only [answer_eq, hr]
  exact h.remember (Text.trim text)

theorem answer_clear (h : c.Holds s content entries) {text : String} (hr : isClear text)
    (now : String) : (c.answer now text).console.Holds s "" [] := by
  have hq : request text = .history .clear := of_decide_eq_true hr
  simp only [answer_eq, hq]
  exact (h.remember (Text.trim text)).clear

/-- Other lines leave what there is, and add their result. -/
theorem answer (h : c.Holds s content entries) {text : String} (hr : isClear text = false)
    (now : String) :
    (c.answer now text).console.Holds (scopeAfter s text)
      (content ++ linesText ((recorded? s now text).toList.map Entry.line))
      (entries ++ (recorded? s now text).toList.map Entry.toDatum) := by
  simp only [answer_eq]
  cases hq : request text with
  | calculation line => exact (h.remember (Text.trim text)).calculate hq now
  | nothing => simpa [scopeAfter, recorded?, hq] using h
  | stop => simpa [scopeAfter, recorded?, hq] using h.remember (Text.trim text)
  | history command =>
    have hc : command ≠ .clear := by
      intro he
      simp [isClear, hq, he] at hr
    simpa [scopeAfter, recorded?, hq] using (h.remember (Text.trim text)).history hc

end Holds

theorem scopeAfter_of_isClear {text : String} (h : isClear text) (s : Scope) :
    scopeAfter s text = s := by
  rw [scopeAfter, of_decide_eq_true h]

/-- A run in which the history is not cleared. -/
theorem Holds.converse {c : Console} {s : Scope} {content : String} {entries : List Datum}
    (h : c.Holds s content entries) (clock : Nat → String) (ask : String) {keys : List Key}
    (hclear : ∀ text ∈ answered keys, isClear text = false) :
    (c.converse clock ask keys).1.Holds ((answered keys).foldl scopeAfter s)
      (content ++ linesText ((entriesOf clock s (answered keys)).map Entry.line))
      (entries ++ (entriesOf clock s (answered keys)).map Entry.toDatum) := by
  induction keys generalizing c s content entries clock with
  | nil => simpa [Console.converse, answered, entriesOf] using h
  | cons key keys ih =>
    cases key with
    | interrupt => simpa [Console.converse, answered, entriesOf] using h
    | line text =>
      by_cases hstop : request text = .stop
      · simpa [Console.converse, answered, entriesOf, stop_answer, hstop] using
          h.answer_stop hstop (clock 0)
      · simp only [answered, hstop, if_false, List.forall_mem_cons] at hclear
        have hstep := h.answer hclear.1 (clock 0)
        have hrun := ih hstep (fun n => clock (n + 1)) hclear.2
        simpa [Console.converse, answered, entriesOf, stop_answer, hstop, linesText_append,
          String.append_assoc] using hrun

/-- After the last line that clears it, the history is as if it had been empty at the start. -/
theorem Holds.converse_cleared {c : Console} {s : Scope} {content : String}
    {entries : List Datum} (h : c.Holds s content entries) (clock : Nat → String) (ask : String)
    {keys : List Key} {before after : List String} {text : String}
    (hkeys : answered keys = before ++ text :: after) (htext : isClear text)
    (hclear : ∀ text ∈ after, isClear text = false) :
    let new :=
      entriesOf (fun n => clock (n + (before.length + 1))) (before.foldl scopeAfter s) after
    (c.converse clock ask keys).1.Holds ((answered keys).foldl scopeAfter s)
      (linesText (new.map Entry.line)) (new.map Entry.toDatum) := by
  induction keys generalizing c s content entries clock before with
  | nil => simp [answered] at hkeys
  | cons key keys ih =>
    cases key with
    | interrupt => simp [answered] at hkeys
    | line first =>
      by_cases hstop : request first = .stop
      · simp [answered, hstop] at hkeys
      · simp only [answered, hstop, if_false] at hkeys ⊢
        cases before with
        | nil =>
          obtain ⟨rfl, rfl⟩ := List.cons.inj hkeys
          have hstep := h.answer_clear htext (clock 0)
          have hrun := hstep.converse (fun n => clock (n + 1)) ask hclear
          simpa [Console.converse, stop_answer, hstop, scopeAfter_of_isClear htext] using hrun
        | cons other before =>
          obtain ⟨rfl, hlater⟩ := List.cons.inj hkeys
          obtain ⟨content', entries', hstep⟩ : ∃ content' entries',
              (c.answer (clock 0) first).console.Holds (scopeAfter s first) content' entries' := by
            cases hfirst : isClear first with
            | false => exact ⟨_, _, h.answer hfirst (clock 0)⟩
            | true =>
              rw [scopeAfter_of_isClear hfirst]
              exact ⟨_, _, h.answer_clear hfirst (clock 0)⟩
          have hrun := ih hstep (fun n => clock (n + 1)) hlater
          simpa [Console.converse, stop_answer, hstop, add_assoc] using hrun

theorem sinceClear_not_isClear {texts : List String} :
    ∀ text ∈ sinceClear texts, isClear text = false := by
  intro text htext
  simpa using List.mem_rtakeWhile_imp htext

theorem untilClear_append_sinceClear (texts : List String) :
    untilClear texts ++ sinceClear texts = texts :=
  List.rdropWhile_append_rtakeWhile

/-- The last of those lines is one that clears the history. -/
theorem exists_isClear_of_untilClear {texts : List String} (h : untilClear texts ≠ []) :
    ∃ before text, untilClear texts = before ++ [text] ∧ isClear text := by
  refine ⟨_, _, (List.dropLast_append_getLast h).symm, ?_⟩
  simpa [untilClear] using List.rdropWhile_last_not (!isClear ·) texts h

/-- What is held when lines are no longer answered. -/
theorem holds_converse {store : History.Store} {content : String}
    (h : store.content? = some content) (typed : List String) (clock : Nat → String) (ask : String)
    (keys : List Key) :
    let before := untilClear (answered keys)
    let new := entriesOf (fun n => clock (n + before.length)) (before.foldl scopeAfter .empty)
      (sinceClear (answered keys))
    ((start store typed).converse clock ask keys).1.Holds
      ((answered keys).foldl scopeAfter .empty)
      ((if before = [] then content else "") ++ linesText (new.map Entry.line))
      ((if before = [] then load store else []) ++ new.map Entry.toDatum) := by
  intro before new
  have hstart := Holds.start h typed
  have hall : before ++ sinceClear (answered keys) = answered keys :=
    untilClear_append_sinceClear _
  by_cases hbefore : before = []
  · rw [hbefore, List.nil_append] at hall
    have hrun := hstart.converse clock ask (hall ▸ sinceClear_not_isClear)
    simpa [new, hbefore, hall] using hrun
  · obtain ⟨first, text, hfirst, htext⟩ := exists_isClear_of_untilClear hbefore
    have hkeys : answered keys = first ++ text :: sinceClear (answered keys) := by
      rw [List.append_cons, ← hfirst]
      exact hall.symm
    have hrun := hstart.converse_cleared clock ask hkeys htext sinceClear_not_isClear
    have hnew : new = entriesOf (fun n => clock (n + (first.length + 1)))
        (first.foldl scopeAfter .empty) (sinceClear (answered keys)) := by
      simp only [new, before, hfirst, List.length_append, List.length_singleton, List.foldl_append,
        List.foldl_cons, List.foldl_nil, scopeAfter_of_isClear htext]
    simpa only [hbefore, if_false, hnew, String.empty_append, List.nil_append] using hrun

/-- In a file that can be written to, a run leaves what was there before, or nothing if the history
was cleared, then one line for each result since. At its end all entries are written again, so the
file has each entry once only if there is none. -/
theorem stored_after_run {store : History.Store} {content : String}
    (h : store.content? = some content) (typed : List String) (clock : Nat → String) (ask : String)
    (keys : List Key) :
    let before := untilClear (answered keys)
    let kept := if before = [] then content else ""
    let loaded := if before = [] then load store else []
    let new := entriesOf (fun n => clock (n + before.length)) (before.foldl scopeAfter .empty)
      (sinceClear (answered keys))
    let c := ((start store typed).interact clock ask keys).console
    c.store.content? = some (kept ++ linesText (new.map Entry.line)) ∧
      c.close.store.text? = some (kept ++ linesText (new.map Entry.line) ++
        linesText (loaded.map Datum.toJson ++ new.map Entry.line)) ∧
      (c.close.store.text? = some (kept ++ linesText (new.map Entry.line)) ↔
        loaded = [] ∧ new = []) := by
  intro before kept loaded new c
  have hholds : c.Holds _ (kept ++ linesText (new.map Entry.line))
      (loaded ++ new.map Entry.toDatum) := holds_converse h typed clock ask keys
  have hlines : c.entries.map Datum.toJson = loaded.map Datum.toJson ++ new.map Entry.line := by
    rw [hholds.entries, List.map_append, List.map_map]
    rfl
  have hclosed : c.close.store.text? = _ :=
    History.Store.text?_closed hholds.content (c.entries.map Datum.toJson)
  rw [hlines] at hclosed
  refine ⟨hholds.content, hclosed, ?_⟩
  rw [hclosed, Option.some.injEq, String.append_eq_left_iff, linesText_eq_empty]
  simp

/-- A file with one entry and a piece of another line, before a sum. -/
theorem stored_after_run_sum :
    let e : Entry := ⟨"noon", "1 + 1", "2"⟩
    let c := ((start (.ofText "5\nx") []).interact (fun _ => "noon") prompt
      [.line "1 + 1", .line "quit", .line "2 + 2"]).console
    (History.Store.ofText "5\nx").content? = some "5\nx" ∧
      c.store.content? = some ("5\nx" ++ linesText [e.line]) ∧
      c.close.store.text? = some ("5\nx" ++ linesText [e.line] ++ linesText ["5", e.line]) := by
  have hread : Session.read (Text.trim "1 + 1") =
      .ok (some (.expression (.binary .add (.number "1") (.number "1")))) := by cbv
  have hsum : (Session.execute .empty "1 + 1").1 = .ok (some "2") := by
    rw [Session.execute_eq_perform (by decide +kernel) hread]
    with_unfolding_all rfl
  have hrequest : request "1 + 1" = .calculation "1 + 1" := by decide +kernel
  have hquit : request "quit" = .stop := by decide +kernel
  have hload : (load (.ofText "5\nx")).map Datum.toJson = ["5"] := by cbv
  have hcontent : (History.Store.ofText "5\nx").content? = some "5\nx" :=
    History.Store.content?_ofText "5\nx"
  have hanswered : answered [.line "1 + 1", .line "quit", .line "2 + 2"] = ["1 + 1"] := by
    simp [answered, hrequest, hquit]
  have hrun := stored_after_run hcontent [] (fun _ => "noon") prompt
    [.line "1 + 1", .line "quit", .line "2 + 2"]
  have huntil : untilClear ["1 + 1"] = [] := by simp [untilClear, isClear, hrequest]
  have hsince : sinceClear ["1 + 1"] = ["1 + 1"] := by simp [sinceClear, isClear, hrequest]
  simp only [hanswered, huntil, hsince, entriesOf, recorded?, hrequest, List.foldl_nil, hsum,
    if_true, Option.toList_some, List.append_nil, List.map_cons, List.map_nil, hload] at hrun
  exact ⟨hcontent, hrun.1, hrun.2.1⟩

end Console
end Reckoner

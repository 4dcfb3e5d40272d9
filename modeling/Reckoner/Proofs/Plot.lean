import Mathlib
import Reckoner.Plot
import Reckoner.Proofs.Double.Arithmetic
import Reckoner.Proofs.Double.Neighbours

namespace Reckoner.Plot
open Double

section Shares
variable {x y : Float} {q : Rat}

/-- A double from zero to one. -/
structure Share (x : Float) : Prop where
  finite : isFinite x = true
  nonneg : 0 ≤ value x
  le_one : value x ≤ 1

theorem representable_natCast {n : Nat} (h : n ≤ 2 ^ 53) : Representable (n : Rat) := by
  have hrep : Representable ((n : Int) : Rat) := representable_integer (by
    rw [Nat.abs_cast]
    exact_mod_cast h)
  rwa [Int.cast_natCast] at hrep

/-- What lies between zero and a small integer is rounded to a double there. -/
theorem between_of_roundedTo {n : Nat} (h : RoundedTo x q) (hn : n ≤ 59) (h₀ : 0 ≤ q)
    (h₁ : q ≤ n) : isFinite x = true ∧ 0 ≤ value x ∧ value x ≤ n := by
  have hlimit : (59 : Rat) < limit := by decide +kernel
  have hn' : (n : Rat) ≤ 59 := by exact_mod_cast hn
  have hzero : Representable 0 := by exact_mod_cast representable_natCast (Nat.zero_le _)
  exact h.between hzero (representable_natCast (by omega)) (by linarith) (by linarith) h₀ h₁

theorem share_of_roundedTo (h : RoundedTo x q) (h₀ : 0 ≤ q) (h₁ : q ≤ 1) : Share x := by
  obtain ⟨hfinite, hlow, hhigh⟩ :=
    between_of_roundedTo (n := 1) h (by decide) h₀ (by simpa using h₁)
  exact ⟨hfinite, hlow, by simpa using hhigh⟩

theorem value_one : isFinite 1.0 = true ∧ value 1.0 = 1 := by
  decide +kernel

theorem Share.complement (h : Share x) : Share (1.0 - x) := by
  have hround := roundedTo_sub value_one.1 h.finite
  rw [value_one.2] at hround
  exact share_of_roundedTo hround (by linarith [h.le_one]) (by linarith [h.nonneg])

/-- A share of a small integer lies between zero and it. -/
theorem Share.times (h : Share x) {z : Float} {n : Nat} (hz : isFinite z = true ∧ value z = n)
    (hn : n ≤ 59) : isFinite (x * z) = true ∧ 0 ≤ value (x * z) ∧ value (x * z) ≤ n := by
  have hround := roundedTo_mul h.finite hz.1
  rw [hz.2] at hround
  exact between_of_roundedTo hround hn (mul_nonneg h.nonneg (Nat.cast_nonneg n))
    (mul_le_of_le_one_left (Nat.cast_nonneg n) h.le_one)

/-- A share is between zero and one however it is rounded. -/
theorem share_div (hx : isFinite x = true) (hy : isFinite y = true) (h₀ : 0 ≤ value x)
    (h₁ : value x ≤ value y) (hpos : 0 < value y) : Share (x / y) :=
  share_of_roundedTo (roundedTo_div hx hy hpos.ne') (div_nonneg h₀ hpos.le)
    ((div_le_one hpos).mpr h₁)

theorem cut_of_isFinite (h : isFinite x = true) :
    cut x = .ok (Int.tdiv (value x).num (value x).den) := by
  obtain ⟨hnan, hinf⟩ := isFinite_iff.mp h
  simp only [cut, hnan, hinf, Bool.false_eq_true, if_false]

/-- A share of the height is a line. -/
theorem Share.cut_complement (h : Share x) : ∃ k, cut ((1.0 - x) * 19.0) = .ok k :=
  ⟨_, cut_of_isFinite (h.complement.times (n := 19) (by decide +kernel) (by decide)).1⟩

/-- The share of the points up to one of them is a column. -/
theorem column_of_lt {i n : Nat} (hn : 2 ≤ n) (hi : i < n) :
    ∃ c, column i n = .ok c ∧ 0 ≤ c ∧ c ≤ 59 := by
  have hshare : Share (ofRat (mkRat i (n - 1))) := by
    have hlast : (0 : Rat) < (n - 1 : Nat) := by exact_mod_cast (by omega : 0 < n - 1)
    have hle : (i : Rat) ≤ (n - 1 : Nat) := by exact_mod_cast (by omega : i ≤ n - 1)
    refine share_of_roundedTo (roundedTo_ofRat _) ?_ ?_
    · rw [Rat.mkRat_eq_div]
      positivity
    · rw [Rat.mkRat_eq_div, Int.cast_natCast]
      exact (div_le_one hlast).mpr hle
  obtain ⟨hfinite, hlow, hhigh⟩ := hshare.times (z := 59.0) (n := 59) (by decide +kernel) le_rfl
  rw [column, if_neg (by omega), cut_of_isFinite hfinite]
  generalize value (ofRat (mkRat i (n - 1)) * 59.0) = v at hlow hhigh
  have hfloor : Int.tdiv v.num v.den = ⌊v⌋ := by
    rw [Rat.floor_def', Int.tdiv_eq_ediv_of_nonneg (Rat.num_nonneg.mpr hlow)]
  rw [hfloor]
  refine ⟨_, rfl, Int.floor_nonneg.mpr hlow, ?_⟩
  exact_mod_cast (Int.floor_le v).trans hhigh

end Shares

section Lines
variable {x y low high : Float}

/-- A difference that does not overflow, or the overflow. -/
theorem sub_of_lt (hx : isFinite x = true) (hy : isFinite y = true) (hle : value x ≤ value y)
    (hlt : value y - value x < limit) :
    isFinite (y - x) = true ∧ value (y - x) = rounded (value y - value x) := by
  apply (roundedTo_sub hy hx).finite
  rwa [abs_of_nonneg (by linarith)]

theorem sub_of_le (hx : isFinite x = true) (hy : isFinite y = true)
    (hle : limit ≤ value y - value x) : y - x = infinity := by
  have hpos : 0 < value y - value x := lt_of_lt_of_le (by decide +kernel) hle
  rw [(roundedTo_sub hy hx).infinite (by rwa [abs_of_pos hpos]), if_neg hpos.not_gt]

/-- The height is zero just where the lowest and the highest value are the same. -/
theorem sub_beq_zero_iff (hl : isFinite low = true) (hh : isFinite high = true)
    (hle : value low ≤ value high) (hlt : value high - value low < limit) :
    (high - low == 0.0) = true ↔ value low = value high := by
  have hzero : isFinite 0.0 = true ∧ value 0.0 = 0 := by decide +kernel
  obtain ⟨hfinite, hvalue⟩ := sub_of_lt hl hh hle hlt
  rw [beq_iff hfinite hzero.1, hvalue, hzero.2]
  constructor
  · intro hround
    by_contra hne
    have hpos := rounded_sub_pos (representable_value low) (representable_value high)
      (hle.lt_of_ne hne)
    exact hpos.ne' hround
  · intro heq
    rw [heq, sub_self, rounded_zero]

/-- Values at one height have no lines. -/
theorem line_of_flat (hl : isFinite low = true) (hh : isFinite high = true)
    (heq : value low = value high) : line low high y = .error .flat := by
  have hlt : value high - value low < limit := by
    rw [heq, sub_self]
    decide +kernel
  rw [line, if_pos ((sub_beq_zero_iff hl hh heq.le hlt).mpr heq)]

/-- A line is found from a share of the height. -/
theorem line_of_share (hne : (high - low == 0.0) = false)
    (h : Share ((y - low) / (high - low))) :
    ∃ l, line low high y = .ok l ∧ 0 ≤ l ∧ l ≤ 19 := by
  obtain ⟨k, hk⟩ := h.cut_complement
  refine ⟨max 0 (min 19 k), ?_, by omega, by omega⟩
  rw [line, hne, if_neg Bool.false_ne_true, hk]
  rfl

/-- A value between the lowest and the highest is on a line of the grid. -/
theorem line_of_between (hl : isFinite low = true) (hh : isFinite high = true)
    (hy : isFinite y = true) (hlow : value low ≤ value y) (hhigh : value y ≤ value high)
    (hlt : value low < value high) (hrange : value high - value low < limit) :
    ∃ l, line low high y = .ok l ∧ 0 ≤ l ∧ l ≤ 19 := by
  obtain ⟨hfinite, hvalue⟩ := sub_of_lt hl hh hlt.le hrange
  obtain ⟨hfinite', hvalue'⟩ := sub_of_lt hl hy hlow (by linarith)
  have hne : (high - low == 0.0) = false := by
    rw [Bool.eq_false_iff, Ne, sub_beq_zero_iff hl hh hlt.le hrange]
    exact hlt.ne
  apply line_of_share hne
  apply share_div hfinite' hfinite
  · rw [hvalue']
    exact rounded_nonneg (by linarith)
  · rw [hvalue', hvalue]
    exact rounded_mono (by linarith)
  · rw [hvalue]
    exact rounded_sub_pos (representable_value low) (representable_value high) hlt

/-- Over a range that overflows, values that are near the lowest are drawn. The others have no
share. -/
theorem line_of_overflow (hl : isFinite low = true) (hh : isFinite high = true)
    (hy : isFinite y = true) (hlow : value low ≤ value y)
    (hrange : limit ≤ value high - value low) :
    (value y - value low < limit ∧ ∃ l, line low high y = .ok l) ∨
      (limit ≤ value y - value low ∧ line low high y = .error .notANumber) := by
  have hinf := sub_of_le hl hh hrange
  have hne : (infinity == 0.0) = false := by with_unfolding_all rfl
  rcases lt_or_ge (value y - value low) limit with hlt | hle
  · obtain ⟨hfinite, -⟩ := sub_of_lt hl hy hlow hlt
    obtain ⟨hfinite', hvalue'⟩ := div_infinity hfinite
    rw [← hinf] at hne hfinite' hvalue'
    obtain ⟨l, hl, -⟩ := line_of_share hne ⟨hfinite', hvalue'.ge, hvalue'.le.trans zero_le_one⟩
    exact .inl ⟨hlt, l, hl⟩
  · right
    have hnan : cut ((1.0 - infinity / infinity) * 19.0) = .error .notANumber := by
      with_unfolding_all rfl
    rw [line, hinf, sub_of_le hl hy hle, hne, if_neg Bool.false_ne_true, hnan]
    exact ⟨hle, rfl⟩

end Lines

section Places
variable {low high : Float} {n : Nat}

/-- All values have lines, so all have places. -/
theorem places_of_lines (hn : 2 ≤ n) {ys : List Float} (i : Nat) (hi : i + ys.length ≤ n)
    (hline : ∀ y ∈ ys, ∃ l, line low high y = .ok l ∧ 0 ≤ l ∧ l ≤ 19) :
    ∃ marks, places low high n i ys = .ok marks ∧ marks.length = ys.length ∧
      ∀ m ∈ marks, (0 ≤ m.1 ∧ m.1 ≤ 59) ∧ 0 ≤ m.2 ∧ m.2 ≤ 19 := by
  induction ys generalizing i with
  | nil => exact ⟨[], rfl, rfl, by simp⟩
  | cons y ys ih =>
    rw [List.length_cons] at hi
    obtain ⟨c, hc, hcols⟩ := column_of_lt hn (by omega : i < n)
    obtain ⟨l, hl, hlines⟩ := hline y List.mem_cons_self
    obtain ⟨rest, hrest, hlength, hmarks⟩ := ih (i + 1) (by omega)
      (fun z hz => hline z (List.mem_cons_of_mem y hz))
    refine ⟨(c, l) :: rest, ?_, by simp [hlength], ?_⟩
    · simp only [places, hc, hl, hrest, bind, Except.bind]
      rfl
    · intro m hm
      rcases List.mem_cons.mp hm with rfl | hm
      · exact ⟨hcols, hlines⟩
      · exact hmarks m hm

/-- A value without a line leaves all without places. -/
theorem places_of_error (hn : 2 ≤ n) {ys : List Float} {e : Failure} (i : Nat)
    (hi : i + ys.length ≤ n)
    (hline : ∀ y ∈ ys, (∃ l, line low high y = .ok l) ∨ line low high y = .error e)
    (hsome : ∃ y ∈ ys, line low high y = .error e) : places low high n i ys = .error e := by
  induction ys generalizing i with
  | nil =>
    obtain ⟨y, hy, -⟩ := hsome
    cases hy
  | cons y ys ih =>
    rw [List.length_cons] at hi
    obtain ⟨c, hc, -⟩ := column_of_lt hn (by omega : i < n)
    rcases hline y List.mem_cons_self with ⟨l, hl⟩ | herror
    · have hsome' : ∃ z ∈ ys, line low high z = .error e := by
        obtain ⟨z, hz, herror⟩ := hsome
        rcases List.mem_cons.mp hz with rfl | hz
        · rw [hl] at herror
          cases herror
        · exact ⟨z, hz, herror⟩
      have hrest := ih (i + 1) (by omega) (fun z hz => hline z (List.mem_cons_of_mem y hz)) hsome'
      simp only [places, hc, hl, hrest, bind, Except.bind]
    · simp only [places, hc, herror, bind, Except.bind]

end Places

section Grid

/-- A text of twenty lines of sixty blanks and stars, with a star in it. -/
def IsGrid (text : String) : Prop :=
  ∃ rows : List String, text = String.intercalate "\n" rows ∧ rows.length = 20 ∧
    (∀ row ∈ rows, row.length = 60 ∧ ∀ c ∈ row.toList, c = ' ' ∨ c = '*') ∧
    ∃ row ∈ rows, '*' ∈ row.toList

theorem lineText_spec (marked : List Int) :
    (lineText marked).length = 60 ∧ ∀ c ∈ (lineText marked).toList, c = ' ' ∨ c = '*' := by
  constructor
  · simp [lineText, columns]
  · intro c hc
    simp only [lineText, String.toList_ofList, List.mem_map] at hc
    obtain ⟨i, -, rfl⟩ := hc
    split
    · exact .inr rfl
    · exact .inl rfl

theorem star_mem_lineText {marked : List Int} {c : Int} (hc : c ∈ marked) (h₀ : 0 ≤ c)
    (h₁ : c ≤ 59) : '*' ∈ (lineText marked).toList := by
  obtain ⟨k, rfl⟩ := Int.eq_ofNat_of_zero_le h₀
  simp only [lineText, String.toList_ofList, List.mem_map]
  refine ⟨k, List.mem_range.mpr (show k < 60 by omega), ?_⟩
  rw [if_pos (List.contains_iff_mem.mpr hc)]

/-- A mark within the bounds leaves a star on the grid. -/
theorem isGrid_drawing {marks : List (Int × Int)} {m : Int × Int} (hm : m ∈ marks)
    (hc : 0 ≤ m.1 ∧ m.1 ≤ 59) (hl : 0 ≤ m.2 ∧ m.2 ≤ 19) : IsGrid (drawing marks) := by
  refine ⟨_, rfl, by simp [lines], ?_, ?_⟩
  · intro row hrow
    obtain ⟨l, -, rfl⟩ := List.mem_map.mp hrow
    exact lineText_spec _
  · obtain ⟨c, l⟩ := m
    obtain ⟨k, rfl⟩ := Int.eq_ofNat_of_zero_le hl.1
    refine ⟨_, List.mem_map_of_mem (List.mem_range.mpr (show k < 20 by omega)), ?_⟩
    apply star_mem_lineText _ hc.1 hc.2
    simpa using hm

/-- A grid begins with a blank or a star. -/
theorem IsGrid.head {text : String} (h : IsGrid text) :
    ∃ c cs, text.toList = c :: cs ∧ (c = ' ' ∨ c = '*') := by
  obtain ⟨rows, rfl, hrows, hshape, -⟩ := h
  cases rows with
  | nil => simp at hrows
  | cons row rows =>
    obtain ⟨hlength, hchars⟩ := hshape row List.mem_cons_self
    rw [← String.length_toList] at hlength
    cases hrow : row.toList with
    | nil => simp [hrow] at hlength
    | cons c cs =>
      refine ⟨c, ?_, ?_, hchars c (by simp [hrow])⟩
      · exact (String.intercalate "\n" (row :: rows)).toList.tail
      · cases rows <;> simp [hrow]

end Grid

section Extremes
variable {y : Float} {ys : List Float}

/-- Going through a list, the element with the least key is kept. -/
theorem foldl_least (key : Float → Rat) (pick : Float → Float → Float)
    (hpick : ∀ m z, isFinite m = true → isFinite z = true →
      pick m z = if key z < key m then z else m)
    (h : ∀ z ∈ y :: ys, isFinite z = true) :
    ys.foldl pick y ∈ y :: ys ∧ ∀ z ∈ y :: ys, key (ys.foldl pick y) ≤ key z := by
  induction ys generalizing y with
  | nil => simp
  | cons z zs ih =>
    have hy := h y List.mem_cons_self
    have hz := h z (List.mem_cons_of_mem y List.mem_cons_self)
    have hzs (w : Float) (hw : w ∈ zs) : isFinite w = true :=
      h w (List.mem_cons_of_mem y (List.mem_cons_of_mem z hw))
    have hkeys : key (pick y z) ≤ key y ∧ key (pick y z) ≤ key z := by
      rw [hpick y z hy hz]
      split <;> constructor <;> linarith
    have hmem : pick y z = y ∨ pick y z = z := by
      rw [hpick y z hy hz]
      split
      · exact .inr rfl
      · exact .inl rfl
    have hfinite : ∀ w ∈ pick y z :: zs, isFinite w = true := by
      intro w hw
      rcases List.mem_cons.mp hw with rfl | hw
      · rcases hmem with he | he <;> rw [he] <;> assumption
      · exact hzs w hw
    obtain ⟨hin, hle⟩ := ih hfinite
    have hfirst := hle _ List.mem_cons_self
    rw [List.foldl_cons]
    constructor
    · rcases List.mem_cons.mp hin with he | hin
      · rw [he]
        rcases hmem with he | he <;> simp [he]
      · exact List.mem_cons_of_mem y (List.mem_cons_of_mem z hin)
    · intro w hw
      rcases List.mem_cons.mp hw with rfl | hw
      · exact hfirst.trans hkeys.1
      · rcases List.mem_cons.mp hw with rfl | hw
        · exact hfirst.trans hkeys.2
        · exact hle w (List.mem_cons_of_mem _ hw)

theorem least_spec (h : ∀ z ∈ y :: ys, isFinite z = true) :
    least y ys ∈ y :: ys ∧ ∀ z ∈ y :: ys, value (least y ys) ≤ value z := by
  refine foldl_least value _ (fun m z hm hz => ?_) h
  simp only [lt_iff hz hm]

theorem greatest_spec (h : ∀ z ∈ y :: ys, isFinite z = true) :
    greatest y ys ∈ y :: ys ∧ ∀ z ∈ y :: ys, value z ≤ value (greatest y ys) := by
  obtain ⟨hmem, hle⟩ := foldl_least (fun z => -value z) (fun m z => if m < z then z else m)
    (fun m z hm hz => by simp only [lt_iff hm hz, neg_lt_neg_iff]) h
  exact ⟨hmem, fun z hz => neg_le_neg_iff.mp (hle z hz)⟩

end Extremes

section Bounds
variable {y : Float} {ys : List Float}

/-- All heights are one number, and one less and one more are rounded to it. -/
def Cramped (hs : List Rat) : Prop :=
  ∃ v, (∀ h ∈ hs, h = v) ∧ 2 ^ 53 < |v| ∧ ∃ k : Int, v = 4 * k

def Apart (hs : List Rat) : Prop :=
  ∃ x ∈ hs, ∃ y ∈ hs, limit ≤ y - x

/-- Heights that can be drawn. -/
structure Drawable (hs : List Rat) : Prop where
  several : 2 ≤ hs.length
  room : ¬ Cramped hs
  range : ¬ Apart hs

/-- Where all values are the same, there is room of one above and below, as far as it is not
rounded off. -/
theorem bounds_of_eq (h : ∀ z ∈ y :: ys, isFinite z = true) {v : Rat}
    (hv : ∀ z ∈ y :: ys, value z = v) :
    isFinite (bounds y ys).1 = true ∧ value (bounds y ys).1 = rounded (v - 1) ∧
      isFinite (bounds y ys).2 = true ∧ value (bounds y ys).2 = rounded (v + 1) := by
  have hlow := (least_spec h).1
  have hhigh := (greatest_spec h).1
  have hsame : (least y ys == greatest y ys) = true := by
    rw [beq_iff (h _ hlow) (h _ hhigh), hv _ hlow, hv _ hhigh]
  have hlt := abs_value_add_one_lt (h _ hlow)
  rw [hv _ hlow] at hlt
  obtain ⟨hbelow, habove⟩ := abs_lt.mp (lt_sub_iff_add_lt.mpr hlt)
  have hminus := roundedTo_sub (h _ hlow) value_one.1
  have hplus := roundedTo_add (h _ hhigh) value_one.1
  rw [hv _ hlow, value_one.2] at hminus
  rw [hv _ hhigh, value_one.2] at hplus
  obtain ⟨hfinite, hvalue⟩ := hminus.finite (abs_lt.mpr ⟨by linarith, by linarith⟩)
  obtain ⟨hfinite', hvalue'⟩ := hplus.finite (abs_lt.mpr ⟨by linarith, by linarith⟩)
  simp only [bounds, hsame, if_true]
  exact ⟨hfinite, hvalue, hfinite', hvalue'⟩

theorem bounds_of_ne (h : ∀ z ∈ y :: ys, isFinite z = true)
    (hne : value (least y ys) ≠ value (greatest y ys)) :
    bounds y ys = (least y ys, greatest y ys) := by
  have hdiffer : (least y ys == greatest y ys) = false := by
    rw [Bool.eq_false_iff, Ne, beq_iff (h _ (least_spec h).1) (h _ (greatest_spec h).1)]
    exact hne
  simp only [bounds, hdiffer, Bool.false_eq_true, if_false]

/-- All values are the same, or the lowest is below the highest. -/
theorem eq_or_lt (h : ∀ z ∈ y :: ys, isFinite z = true) :
    (∀ z ∈ y :: ys, value z = value y) ∨ value (least y ys) < value (greatest y ys) := by
  obtain ⟨hlow, hleast⟩ := least_spec h
  obtain ⟨hhigh, hgreatest⟩ := greatest_spec h
  rcases (hleast _ hhigh).eq_or_lt with heq | hlt
  · left
    intro z hz
    have hy := List.mem_cons_self (a := y) (l := ys)
    linarith [hleast z hz, hgreatest z hz, hleast y hy, hgreatest y hy]
  · exact .inr hlt

/-- Every value has a place on the grid, unless the height itself is rounded to nothing or
overflows. -/
theorem lines_of_room (h : ∀ z ∈ y :: ys, isFinite z = true)
    (hroom : ¬ Cramped ((y :: ys).map value)) (hrange : ¬ Apart ((y :: ys).map value)) :
    ∀ z ∈ y :: ys, ∃ l, line (bounds y ys).1 (bounds y ys).2 z = .ok l ∧ 0 ≤ l ∧ l ≤ 19 := by
  intro z hz
  obtain ⟨hlow, hleast⟩ := least_spec h
  obtain ⟨hhigh, hgreatest⟩ := greatest_spec h
  rcases eq_or_lt h with heq | hlt
  · obtain ⟨hfinite, hvalue, hfinite', hvalue'⟩ := bounds_of_eq h heq
    have hrep := representable_value y
    have hdiffer : rounded (value y - 1) ≠ rounded (value y + 1) := by
      rw [Ne, rounded_sub_one_eq_iff hrep]
      rintro ⟨hlarge, hfour⟩
      exact hroom ⟨value y, by simpa using heq, hlarge, hfour⟩
    have hbelow : rounded (value y - 1) ≤ value y := by
      conv_rhs => rw [← hrep.rounded_eq]
      exact rounded_mono (by linarith)
    have habove : value y ≤ rounded (value y + 1) := by
      conv_lhs => rw [← hrep.rounded_eq]
      exact rounded_mono (by linarith)
    apply line_of_between hfinite hfinite' (h z hz)
    · rwa [hvalue, heq z hz]
    · rwa [hvalue', heq z hz]
    · rw [hvalue, hvalue']
      exact (hbelow.trans habove).lt_of_ne hdiffer
    · rw [hvalue, hvalue']
      exact rounded_add_one_sub_lt hrep hdiffer
  · rw [bounds_of_ne h hlt.ne]
    refine line_of_between (h _ hlow) (h _ hhigh) (h z hz) (hleast z hz) (hgreatest z hz) hlt ?_
    by_contra hle
    exact hrange ⟨_, List.mem_map_of_mem hlow, _, List.mem_map_of_mem hhigh, not_lt.mp hle⟩

theorem lines_of_cramped (h : ∀ z ∈ y :: ys, isFinite z = true)
    (hcramped : Cramped ((y :: ys).map value)) (z : Float) :
    line (bounds y ys).1 (bounds y ys).2 z = .error .flat := by
  obtain ⟨v, hv, hlarge⟩ := hcramped
  have hv' : ∀ w ∈ y :: ys, value w = v := fun w hw => hv _ (List.mem_map_of_mem hw)
  obtain ⟨hfinite, hvalue, hfinite', hvalue'⟩ := bounds_of_eq h hv'
  have hrep : Representable v := hv' y List.mem_cons_self ▸ representable_value y
  apply line_of_flat hfinite hfinite'
  rw [hvalue, hvalue']
  exact (rounded_sub_one_eq_iff hrep).mpr hlarge

/-- Where the height overflows, some value has no line, and the others have one or fail alike. -/
theorem lines_of_apart (h : ∀ z ∈ y :: ys, isFinite z = true)
    (hapart : Apart ((y :: ys).map value)) :
    (∀ z ∈ y :: ys, (∃ l, line (bounds y ys).1 (bounds y ys).2 z = .ok l) ∨
        line (bounds y ys).1 (bounds y ys).2 z = .error .notANumber) ∧
      ∃ z ∈ y :: ys, line (bounds y ys).1 (bounds y ys).2 z = .error .notANumber := by
  obtain ⟨hlow, hleast⟩ := least_spec h
  obtain ⟨hhigh, hgreatest⟩ := greatest_spec h
  have hrange : limit ≤ value (greatest y ys) - value (least y ys) := by
    obtain ⟨p, hp, q, hq, hle⟩ := hapart
    obtain ⟨w, hw, rfl⟩ := List.mem_map.mp hp
    obtain ⟨z, hz, rfl⟩ := List.mem_map.mp hq
    linarith [hleast w hw, hgreatest z hz]
  have hpos : 0 < limit := by decide +kernel
  have hlt : value (least y ys) < value (greatest y ys) := by linarith
  rw [bounds_of_ne h hlt.ne]
  constructor
  · intro z hz
    rcases line_of_overflow (h _ hlow) (h _ hhigh) (h z hz) (hleast z hz) hrange with hok | herror
    · exact .inl hok.2
    · exact .inr herror.2
  · refine ⟨_, hhigh, ?_⟩
    rcases line_of_overflow (h _ hlow) (h _ hhigh) (h _ hhigh) (hleast _ hhigh) hrange with
      hok | herror
    · exact absurd hrange (not_le.mpr hok.1)
    · exact herror.2

end Bounds

section Drawing
variable {samples : List (Float × Float)}

/-- The finite values among the samples, as numbers. -/
def heights (samples : List (Float × Float)) : List Rat :=
  ((samples.map Prod.snd).filter isFinite).map value

/-- What can be drawn has a first value. The drawing depends on the places. -/
theorem exists_places (h : 0 < (heights samples).length) :
    ∃ y ys, (∀ z ∈ y :: ys, isFinite z = true) ∧ heights samples = (y :: ys).map value ∧
      draw samples = (do
        let marks ← places (bounds y ys).1 (bounds y ys).2 (ys.length + 1) 0 (y :: ys)
        return (drawing marks, ys.length + 1)) := by
  rw [heights] at h ⊢
  have hfinite : ∀ z ∈ (samples.map Prod.snd).filter isFinite, isFinite z = true :=
    fun z hz => (List.mem_filter.mp hz).2
  unfold draw
  generalize (samples.map Prod.snd).filter isFinite = zs at h hfinite ⊢
  cases zs with
  | nil => simp at h
  | cons y ys => exact ⟨y, ys, hfinite, rfl, rfl⟩

theorem draw_of_nil (h : heights samples = []) : draw samples = .error .noPoints := by
  rw [heights, List.map_eq_nil_iff] at h
  simp only [draw, h]

theorem draw_of_single (h : (heights samples).length = 1) : draw samples = .error .singlePoint := by
  obtain ⟨y, ys, -, hheights, hdraw⟩ := exists_places (by omega : 0 < (heights samples).length)
  rw [hheights, List.length_map, List.length_cons] at h
  rw [hdraw, List.length_eq_zero_iff.mp (by omega : ys.length = 0)]
  rfl

/-- Where some values have no line, all for the same reason, that reason is given. -/
theorem draw_of_error {e : Failure} {y : Float} {ys : List Float}
    (hdraw : draw samples = (do
        let marks ← places (bounds y ys).1 (bounds y ys).2 (ys.length + 1) 0 (y :: ys)
        return (drawing marks, ys.length + 1)))
    (hn : 2 ≤ ys.length + 1)
    (hline : ∀ z ∈ y :: ys, (∃ l, line (bounds y ys).1 (bounds y ys).2 z = .ok l) ∨
      line (bounds y ys).1 (bounds y ys).2 z = .error e)
    (hsome : ∃ z ∈ y :: ys, line (bounds y ys).1 (bounds y ys).2 z = .error e) :
    draw samples = .error e := by
  rw [hdraw, places_of_error hn 0 (by simp) hline hsome]
  rfl

theorem draw_of_cramped (hseveral : 2 ≤ (heights samples).length) (h : Cramped (heights samples)) :
    draw samples = .error .flat := by
  obtain ⟨y, ys, hfinite, hheights, hdraw⟩ :=
    exists_places (by omega : 0 < (heights samples).length)
  rw [hheights] at hseveral h
  have hline := lines_of_cramped hfinite h
  exact draw_of_error hdraw (by simpa using hseveral) (fun z _ => .inr (hline z))
    ⟨y, List.mem_cons_self, hline y⟩

theorem draw_of_apart (hseveral : 2 ≤ (heights samples).length) (h : Apart (heights samples)) :
    draw samples = .error .notANumber := by
  obtain ⟨y, ys, hfinite, hheights, hdraw⟩ :=
    exists_places (by omega : 0 < (heights samples).length)
  rw [hheights] at hseveral h
  obtain ⟨hline, hsome⟩ := lines_of_apart hfinite h
  exact draw_of_error hdraw (by simpa using hseveral) hline hsome

theorem draw_of_drawable (h : Drawable (heights samples)) :
    ∃ grid, IsGrid grid ∧ draw samples = .ok (grid, (heights samples).length) := by
  obtain ⟨hseveral, hroom, hrange⟩ := h
  obtain ⟨y, ys, hfinite, hheights, hdraw⟩ :=
    exists_places (by omega : 0 < (heights samples).length)
  rw [hheights] at hseveral hroom hrange ⊢
  rw [List.length_map, List.length_cons] at hseveral ⊢
  obtain ⟨marks, hplaces, hlength, hmarks⟩ := places_of_lines hseveral 0 (by simp)
    (lines_of_room hfinite hroom hrange)
  obtain ⟨m, hm⟩ : ∃ m, m ∈ marks := List.exists_mem_of_length_pos (by simp [hlength])
  refine ⟨drawing marks, isGrid_drawing hm (hmarks m hm).1 (hmarks m hm).2, ?_⟩
  rw [hdraw, hplaces]
  rfl

/-- What cannot be drawn is refused. -/
theorem draw_of_not_drawable (h : ¬ Drawable (heights samples)) :
    ∃ e, draw samples = .error e := by
  rcases (heights samples).length.lt_or_ge 2 with hfew | hseveral
  · rcases (by omega : (heights samples).length = 0 ∨ (heights samples).length = 1) with h₀ | h₁
    · exact ⟨_, draw_of_nil (List.length_eq_zero_iff.mp h₀)⟩
    · exact ⟨_, draw_of_single h₁⟩
  · by_cases hcramped : Cramped (heights samples)
    · exact ⟨_, draw_of_cramped hseveral hcramped⟩
    · by_cases hapart : Apart (heights samples)
      · exact ⟨_, draw_of_apart hseveral hapart⟩
      · exact absurd ⟨hseveral, hcramped, hapart⟩ h

end Drawing

section Run
variable {f : UserFunction} {start stop : Float} {points : Int}

theorem length_samples (r : Request) (s : Scope) : (r.samples s).length = r.points.toNat := by
  simp [Request.samples, Request.arguments]

theorem ofRat?_isNone (q : Rat) : (ofRat? q).isNone = decide (limit ≤ |q|) := by
  by_cases h : limit ≤ |q|
  · simp [ofRat?, (tooLarge_iff q).mpr h, h]
  · simp [ofRat?, tooLarge_eq_false (not_le.mp h), h]

/-- A function is sampled unless its points are too many to be a double. -/
theorem run_eq (s : Scope) (f : UserFunction) (hne : (start == stop) = false)
    (hpoints : 2 ≤ points) :
    run s (.function f) start stop points =
      if (points - 1 : Rat) < limit then .ok ((Request.mk f start stop points).picture s)
      else .error .integerTooLarge := by
  have hpos : (0 : Rat) ≤ points - 1 := by
    have : (2 : Rat) ≤ points := by exact_mod_cast hpoints
    linarith
  simp only [run, request, Request.check, if_neg (not_lt.mpr hpoints), hne, Bool.false_eq_true,
    if_false, ofRat?_isNone, abs_of_nonneg hpos, decide_eq_true_eq]
  by_cases h : limit ≤ (points - 1 : Rat)
  · rw [if_pos h, if_neg (not_lt.mpr h)]
    rfl
  · rw [if_neg h, if_pos (not_le.mp h)]
    rfl

/-- A grid and the line under it. -/
def IsPicture (text foot : String) : Prop :=
  ∃ grid, IsGrid grid ∧ text = grid ++ "\n" ++ foot

/-- Messages are no pictures: they begin with a letter. -/
theorem not_isPicture_message (e : Failure) (foot : String) : ¬ IsPicture e.message foot := by
  rintro ⟨grid, hgrid, htext⟩
  obtain ⟨c, cs, hhead, hc⟩ := hgrid.head
  have hfirst : e.message.toList.head? = some c := by
    rw [htext]
    simp [hhead]
  cases e <;> rcases hc with rfl | rfl <;> exact absurd hfirst (by decide)

theorem picture_of_error {r : Request} {s : Scope} {e : Failure}
    (h : draw (r.samples s) = .error e) : r.picture s = e.message := by
  simp only [Request.picture, h]

theorem picture_of_drawable {r : Request} {s : Scope} (h : Drawable (heights (r.samples s))) :
    IsPicture (r.picture s) (footer r (heights (r.samples s)).length r.points.toNat) := by
  obtain ⟨grid, hgrid, hdraw⟩ := draw_of_drawable h
  refine ⟨grid, hgrid, ?_⟩
  simp only [Request.picture, hdraw, length_samples]

/-- A function is drawn on a grid if and only if at least two values are finite, they are not all
the same multiple of four beyond `2 ^ 53`, and no difference of two of them overflows. Otherwise a
message says what failed. -/
theorem run_isPicture_iff (s : Scope) (f : UserFunction) (start stop : Float) (points : Int)
    (hne : (start == stop) = false) (hpoints : 2 ≤ points) :
    (limit ≤ (points - 1 : Rat) →
      run s (.function f) start stop points = .error .integerTooLarge) ∧
    ((points - 1 : Rat) < limit →
      let r : Request := ⟨f, start, stop, points⟩
      let hs := heights (r.samples s)
      ∃ text, run s (.function f) start stop points = .ok text ∧
        (IsPicture text (footer r hs.length points.toNat) ↔ Drawable hs) ∧
        (hs = [] → text = "No plottable numeric points were produced") ∧
        (hs.length = 1 → text = "Plot failed: division by zero") ∧
        (2 ≤ hs.length → Cramped hs → text = "Plot failed: float division by zero") ∧
        (2 ≤ hs.length → Apart hs →
          text = "Plot failed: cannot convert float NaN to integer")) := by
  rw [run_eq s f hne hpoints]
  refine ⟨fun hle => if_neg (not_lt.mpr hle), fun hlt => ⟨_, if_pos hlt, ⟨?_, ?_⟩, ?_, ?_, ?_, ?_⟩⟩
  · intro hpicture
    by_contra hnot
    obtain ⟨e, he⟩ := draw_of_not_drawable hnot
    rw [picture_of_error he] at hpicture
    exact not_isPicture_message e _ hpicture
  · exact picture_of_drawable
  · intro hnone
    exact picture_of_error (draw_of_nil hnone)
  · intro hsingle
    exact picture_of_error (draw_of_single hsingle)
  · intro hseveral hcramped
    exact picture_of_error (draw_of_cramped hseveral hcramped)
  · intro hseveral hapart
    exact picture_of_error (draw_of_apart hseveral hapart)

def diagonal : UserFunction :=
  ⟨"x", .var "x", some "f"⟩

def reciprocal : UserFunction :=
  ⟨"x", .binary .div (.number "1") (.var "x"), some "f"⟩

/-- From zero to one with two points, the diagonal is drawn. The reciprocal has one value only, and
the one point fails. -/
theorem run_isPicture_iff_reciprocal :
    (∃ text, run .empty (.function diagonal) 0.0 1.0 2 = .ok text ∧
      IsPicture text (footer ⟨diagonal, 0.0, 1.0, 2⟩ 2 2)) ∧
    run .empty (.function reciprocal) 0.0 1.0 2 = .ok "Plot failed: division by zero" := by
  have hne : ((0.0 : Float) == 1.0) = false := by decide +kernel
  have hlt : (((2 : Int) : Rat) - 1) < limit := by decide +kernel
  have hdiagonal : heights ((Request.mk diagonal 0.0 1.0 2).samples .empty) = [0, 1] := by
    decide +kernel
  have hreciprocal : heights ((Request.mk reciprocal 0.0 1.0 2).samples .empty) = [1] := by
    decide +kernel
  have hdrawable : Drawable [0, 1] := by
    refine ⟨by decide, ?_, ?_⟩
    · rintro ⟨v, hv, -⟩
      have h₀ := hv 0 (by simp)
      have h₁ := hv 1 (by simp)
      exact zero_ne_one (h₀.trans h₁.symm)
    · rintro ⟨p, hp, q, hq, hle⟩
      have hone : (1 : Rat) < limit := by decide +kernel
      simp only [List.mem_cons, List.not_mem_nil, or_false] at hp hq
      rcases hp with rfl | rfl <;> rcases hq with rfl | rfl <;> linarith
  constructor
  · obtain ⟨text, hrun, hiff, -⟩ :=
      (run_isPicture_iff .empty diagonal 0.0 1.0 2 hne (by decide)).2 hlt
    rw [hdiagonal] at hiff
    exact ⟨text, hrun, hiff.mpr hdrawable⟩
  · obtain ⟨text, hrun, -, -, hsingle, -⟩ :=
      (run_isPicture_iff .empty reciprocal 0.0 1.0 2 hne (by decide)).2 hlt
    rw [hrun, hsingle (by rw [hreciprocal]; rfl)]

end Run

end Reckoner.Plot

import Mathlib.Algebra.GroupWithZero.Nat
import PipelineIQ.Pipeline.Parser

namespace PipelineIQ.Pipeline.DiffMarkers

open PipelineIQ.Lib.Strings PipelineIQ.Lib.Yaml PipelineIQ.Pipeline.Parser

/-! ### Lines -/

abbrev joinLines (lines : List Text) : Text := ['\n'].intercalate lines

/-- The number of characters that are not white space. -/
def weight (text : Text) : Nat := text.countP fun c => !isSpace c

section Lines

variable {text line : Text} {lines : List Text}

theorem weight_append (text text' : Text) : weight (text ++ text') = weight text + weight text' :=
  List.countP_append

theorem weight_cons (c : Char) (text : Text) :
    weight (c :: text) = weight text + if isSpace c then 0 else 1 := by
  rw [weight, List.countP_cons]
  cases isSpace c <;> rfl

theorem isSpace_of_lineBreak {c : Char} (h : lineBreak c = true) : isSpace c = true := by
  rw [lineBreak, List.contains_iff_mem] at h
  simp only [List.mem_cons, List.not_mem_nil, or_false] at h
  rcases h with rfl | rfl | rfl | rfl | rfl | rfl | rfl | rfl | rfl | rfl <;> rfl

theorem weight_of_isSpace (h : ∀ c ∈ text, isSpace c = true) : weight text = 0 := by
  rw [weight, List.countP_eq_zero]
  intro c hc
  rw [h c hc]
  decide

theorem weight_strip (text : Text) : weight (strip text) = weight text := by
  obtain ⟨before, after, htext, hbefore, hafter⟩ := strip_eq text
  conv_rhs => rw [htext, weight_append, weight_append]
  rw [weight_of_isSpace hbefore, weight_of_isSpace hafter, Nat.zero_add, Nat.add_zero]

/-- The line breaks of a text are white space. -/
theorem sum_weight_splitLines (text : Text) :
    ((splitLines text).map weight).sum = weight text := by
  fun_induction splitLines text with
  | case1 => rfl
  | case2 text ih =>
    rw [List.map_cons, List.sum_cons, ih, weight_cons, weight_cons]
    exact Nat.zero_add _
  | case3 c text hcr hbreak ih =>
    rw [List.map_cons, List.sum_cons, ih, weight_cons, isSpace_of_lineBreak hbreak]
    exact Nat.zero_add _
  | case4 c text hcr hbreak hnil ih =>
    rw [hnil] at ih
    rw [List.map_singleton, List.sum_singleton, weight_cons, weight_cons, ← ih]
    rfl
  | case5 c text hcr hbreak line lines hlines ih =>
    rw [hlines, List.map_cons, List.sum_cons] at ih
    rw [List.map_cons, List.sum_cons, weight_cons, weight_cons, ← ih]
    omega

theorem sum_weight_joinLines (lines : List Text) :
    weight (joinLines lines) = (lines.map weight).sum := by
  induction lines with
  | nil => rfl
  | cons line lines ih =>
    cases lines with
    | nil => simp [joinLines, List.intercalate, weight]
    | cons line' lines =>
      have hbreak : weight ['\n'] = 0 := rfl
      rw [joinLines, List.intercalate_cons_cons, weight_append, weight_append, hbreak, ih,
        Nat.add_zero, List.map_cons, List.sum_cons]
      rfl

theorem splitLines_cons {c : Char} (hc : lineBreak c = false) :
    splitLines (c :: text) = match splitLines text with
      | [] => [[c]]
      | line :: lines => (c :: line) :: lines := by
  have hcr : ∀ rest, c = '\r' → text = '\n' :: rest → False := by
    rintro rest rfl
    cases hc
  refine (splitLines.eq_3 _ _ hcr).trans ((if_neg (Bool.eq_false_iff.mp hc)).trans ?_)
  cases splitLines text <;> rfl

theorem lineBreak_of_mem_splitLines (text : Text) :
    ∀ line ∈ splitLines text, ∀ c ∈ line, lineBreak c = false := by
  fun_induction splitLines text with
  | case1 => nofun
  | case2 text ih => exact List.forall_mem_cons.mpr ⟨nofun, ih⟩
  | case3 c text hcr hbreak ih => exact List.forall_mem_cons.mpr ⟨nofun, ih⟩
  | case4 c text hcr hbreak hnil ih =>
    intro line hline d hd
    rw [List.mem_singleton.mp hline, List.mem_singleton] at hd
    exact hd ▸ Bool.eq_false_iff.mpr hbreak
  | case5 c text hcr hbreak line lines hlines ih =>
    rw [hlines, List.forall_mem_cons] at ih
    refine List.forall_mem_cons.mpr ⟨?_, ih.2⟩
    exact List.forall_mem_cons.mpr ⟨Bool.eq_false_iff.mpr hbreak, ih.1⟩

theorem splitLines_append_break (h : ∀ c ∈ line, lineBreak c = false) (text : Text) :
    splitLines (line ++ '\n' :: text) = line :: splitLines text := by
  induction line with
  | nil => rfl
  | cons c line ih =>
    obtain ⟨hc, hline⟩ := List.forall_mem_cons.mp h
    rw [List.cons_append, splitLines_cons hc, ih hline]

theorem splitLines_of_ne_nil (h : ∀ c ∈ line, lineBreak c = false) (hne : line ≠ []) :
    splitLines line = [line] := by
  induction line with
  | nil => exact absurd rfl hne
  | cons c line ih =>
    obtain ⟨hc, hline⟩ := List.forall_mem_cons.mp h
    rw [splitLines_cons hc]
    cases line with
    | nil => rfl
    | cons d line => rw [ih hline (List.cons_ne_nil d line)]

/-- Lines that are not empty are found again. -/
theorem splitLines_joinLines
    (h : ∀ line ∈ lines, line ≠ [] ∧ ∀ c ∈ line, lineBreak c = false) :
    splitLines (joinLines lines) = lines := by
  induction lines with
  | nil => rfl
  | cons line lines ih =>
    obtain ⟨⟨hne, hline⟩, hlines⟩ := List.forall_mem_cons.mp h
    cases lines with
    | nil => rw [joinLines, List.intercalate_singleton, splitLines_of_ne_nil hline hne]
    | cons line' lines =>
      rw [joinLines, List.intercalate_cons_cons, List.append_assoc, List.singleton_append,
        splitLines_append_break hline, ih hlines]

/-- A marked line is not blank. -/
theorem weight_pos_of_marked (h : marked line = true) : 1 ≤ weight line := by
  cases line with
  | nil => cases h
  | cons c line =>
    have hc : isSpace c = false := by
      simp only [marked, startsWith, Bool.or_eq_true] at h
      rcases h with (h | h) | h
      · obtain ⟨rest, hrest⟩ := List.isPrefixOf_iff_prefix.mp h
        cases hrest
        rfl
      · obtain ⟨rest, hrest⟩ := List.isPrefixOf_iff_prefix.mp h
        cases hrest
        rfl
      · obtain ⟨rest, hrest⟩ := List.isPrefixOf_iff_prefix.mp h
        cases hrest
        rfl
    rw [weight_cons, hc]
    exact Nat.le_add_left 1 _

/-- A line that is kept loses a marker, and a marked one loses that or all of it. -/
theorem weight_keptLine (line : Text) :
    ((keptLine line).map weight).getD 0 + (if marked line then 1 else 0) ≤ weight line := by
  have hnone : 0 + (if marked line then 1 else 0) ≤ weight line := by
    split
    next h => exact weight_pos_of_marked h
    next => exact Nat.zero_le _
  rw [keptLine]
  split
  next => exact hnone
  next hheader =>
    split
    next => exact hnone
    next hminus =>
      split
      next hmarker =>
        rcases Bool.or_eq_true _ _ ▸ hmarker with hplus | hblank
        · obtain ⟨rest, rfl⟩ := List.isPrefixOf_iff_prefix.mp hplus
          exact (weight_cons '+' rest).ge
        · obtain ⟨rest, rfl⟩ := List.isPrefixOf_iff_prefix.mp hblank
          exact (weight_cons ' ' rest).ge
      next hplain =>
        have hmarked : marked line = false := by
          simp only [Bool.or_eq_true, not_or, Bool.not_eq_true] at hheader hminus hplain
          rw [marked, hplain.1, hminus, hheader.2]
          rfl
        rw [hmarked]
        exact le_rfl

theorem weight_filterMap_keptLine (lines : List Text) :
    ((lines.filterMap keptLine).map weight).sum + lines.countP marked ≤
      (lines.map weight).sum := by
  induction lines with
  | nil => exact le_rfl
  | cons line lines ih =>
    have hline := weight_keptLine line
    rw [List.countP_cons, List.map_cons, List.sum_cons, List.filterMap_cons]
    cases hkept : keptLine line with
    | none =>
      rw [hkept] at hline
      dsimp only [Option.map_none, Option.getD_none] at hline ⊢
      omega
    | some kept =>
      rw [hkept] at hline
      dsimp only [Option.map_some, Option.getD_some] at hline
      rw [List.map_cons, List.sum_cons]
      omega

/-- A text with a marked line comes out with less in it. -/
theorem weight_stripDiffMarkers_lt (h : (splitLines text).any marked = true) :
    weight (stripDiffMarkers text) < weight text := by
  have hlines := weight_filterMap_keptLine (splitLines text)
  have hpos : 0 < (splitLines text).countP marked := List.countP_pos_iff.mpr (List.any_eq_true.mp h)
  rw [stripDiffMarkers, h, Bool.not_true, if_neg Bool.false_ne_true, ← joinLines,
    sum_weight_joinLines]
  rw [sum_weight_splitLines] at hlines
  omega

end Lines

/-- What the parser reads is the text itself, whoever reads it, exactly when no line has a marker of
a diff, a sequence entry at the start of a line included. -/
theorem transparent_iff (text : Text) :
    (∀ yaml : PyYaml, yaml.safeLoad (strip (stripDiffMarkers text)) = yaml.safeLoad (strip text)) ↔
      ∀ line ∈ splitLines text, marked line = false := by
  constructor
  · intro h
    by_contra hmarked
    push Not at hmarked
    obtain ⟨line, hline, hmarked⟩ := hmarked
    have hany : (splitLines text).any marked = true :=
      List.any_eq_true.mpr ⟨line, hline, Bool.not_eq_false _ ▸ hmarked⟩
    have hlt := weight_stripDiffMarkers_lt hany
    have hne : strip (stripDiffMarkers text) ≠ strip text := by
      intro heq
      rw [← weight_strip (stripDiffMarkers text), heq, weight_strip] at hlt
      exact Nat.lt_irrefl _ hlt
    have hread := h ⟨fun t => if t = strip text then some .null else none, fun _ => []⟩
    exact nomatch (if_neg hne).symm.trans (hread.trans (if_pos rfl))
  · intro h yaml
    have hany : (splitLines text).any marked = false := List.any_eq_false.mpr fun line hline =>
      Bool.eq_false_iff.mp (h line hline)
    rw [stripDiffMarkers, hany, Bool.not_false, if_pos rfl]

/-- A list of steps at the start of its lines. -/
def flatSteps : Text := "steps:\n- load\n".toList

/-- A reader of the text and of what is left of it. -/
def flatYaml : PyYaml where
  safeLoad text :=
    if text = "steps:\n- load".toList then some (.map [(key "steps", .seq [str "load"])])
    else if text = "steps:".toList then some (.map [(key "steps", .null)])
    else none
  safeDump _ := []

theorem flatSteps_not_transparent :
    ¬ ∀ (yaml : PyYaml) (text : Text),
      yaml.safeLoad (strip (stripDiffMarkers text)) = yaml.safeLoad (strip text) := by
  intro h
  have hsteps := congrArg (fun raw : Option Node => raw.any fun document =>
    (document.asMap.getD []).any fun entry => entry.2.isSeq) (h flatYaml flatSteps)
  revert hsteps
  decide +kernel

end PipelineIQ.Pipeline.DiffMarkers

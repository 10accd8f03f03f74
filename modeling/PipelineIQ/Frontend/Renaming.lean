import PipelineIQ.Frontend.PipelineName

namespace PipelineIQ.Frontend.Renaming

open PipelineIQ.Lib.Strings PipelineIQ.Frontend.StepNames PipelineIQ.Frontend.FieldKinds
open PipelineIQ.Frontend.PipelineName

variable {name line held rest t : Text} {lines before after : List Text} {state : Option Nat}

/-! ### Lines that are joined and split again -/

/-- A line whose break was written with the line feed that follows it. -/
def dropReturn (line : Text) : Text :=
  if line.getLast? = some '\r' then line.dropLast else line

/-- Every line but the last can lose a carriage return to its break. -/
def unreturned : List Text → List Text
  | [] => []
  | [line] => [line]
  | line :: next :: rest => dropReturn line :: unreturned (next :: rest)

theorem dropReturn_cons {c : Char} {line : Text} (h : line ≠ []) :
    dropReturn (c :: line) = c :: dropReturn line := by
  cases line with
  | nil => exact absurd rfl h
  | cons d line =>
    rw [dropReturn, dropReturn, List.getLast?_cons_cons, List.dropLast_cons_cons]
    split <;> rfl

theorem splitLines_append_break (h : '\n' ∉ line) :
    splitLines (line ++ '\n' :: rest) = dropReturn line :: splitLines rest := by
  induction line with
  | nil =>
    rw [List.nil_append, splitLines, if_pos rfl]
    rfl
  | cons c line ih =>
    rw [List.mem_cons, not_or] at h
    rw [List.cons_append, splitLines, if_neg (Ne.symm h.1), ih h.2]
    cases line with
    | nil =>
      by_cases hc : c = '\r'
      · subst hc
        rw [if_pos ⟨rfl, rfl⟩]
        rfl
      · rw [if_neg fun hboth => hc hboth.1, dropReturn, dropReturn, if_neg (by decide), if_neg]
        · rfl
        · rwa [List.getLast?_singleton, Option.some.injEq]
    | cons d line =>
      rw [dropReturn_cons (List.cons_ne_nil d line), if_neg]
      · rfl
      · rintro ⟨-, hd⟩
        rw [List.cons_append, List.head?_cons, Option.some.injEq] at hd
        exact h.2 (hd ▸ List.mem_cons_self)

theorem splitLines_of_not_mem (h : '\n' ∉ line) : splitLines line = [line] := by
  induction line with
  | nil => rfl
  | cons c line ih =>
    rw [List.mem_cons, not_or] at h
    rw [splitLines, if_neg (Ne.symm h.1), ih h.2, if_neg]
    · rfl
    · rintro ⟨-, hhead⟩
      exact h.2 (List.mem_of_head? hhead)

theorem splitLines_ne_nil (text : Text) : splitLines text ≠ [] := by
  induction text with
  | nil => exact List.cons_ne_nil _ _
  | cons c text ih =>
    rw [splitLines]
    split
    · exact List.cons_ne_nil _ _
    · split
      · exact ih
      · cases hlines : splitLines text with
        | nil => exact absurd hlines ih
        | cons line lines => exact List.cons_ne_nil _ _

theorem not_mem_of_mem_splitLines {text : Text} (h : line ∈ splitLines text) : '\n' ∉ line := by
  induction text generalizing line with
  | nil =>
    rw [splitLines, List.mem_singleton] at h
    rw [h]
    exact List.not_mem_nil
  | cons c text ih =>
    rw [splitLines] at h
    split at h
    · obtain rfl | h := List.mem_cons.mp h
      · exact List.not_mem_nil
      · exact ih h
    · next hc =>
      split at h
      · exact ih h
      · cases hlines : splitLines text with
        | nil => exact absurd hlines (splitLines_ne_nil text)
        | cons first others =>
          rw [hlines, List.modifyHead_cons, List.mem_cons] at h
          obtain rfl | h := h
          · rw [List.mem_cons, not_or]
            exact ⟨Ne.symm hc, ih (hlines ▸ List.mem_cons_self)⟩
          · exact ih (hlines ▸ List.mem_cons_of_mem first h)

theorem splitLines_joinLines (hne : lines ≠ []) (h : ∀ line ∈ lines, '\n' ∉ line) :
    splitLines (joinLines lines) = unreturned lines := by
  induction lines with
  | nil => exact absurd rfl hne
  | cons line lines ih =>
    have hline := h line List.mem_cons_self
    cases lines with
    | nil =>
      rw [joinLines, List.intercalate_singleton]
      exact splitLines_of_not_mem hline
    | cons next lines =>
      have hnext := ih (List.cons_ne_nil next lines) fun l hl => h l (List.mem_cons_of_mem line hl)
      rw [joinLines, List.intercalate_cons_cons, List.append_assoc, List.singleton_append,
        splitLines_append_break hline]
      exact congrArg _ hnext

theorem trim_sublist (t : Text) : (trim t).Sublist t :=
  (List.rdropWhile_prefix jsSpace _).sublist.trans (List.dropWhile_sublist _)

theorem mem_of_mem_trim {c : Char} (h : c ∈ trim t) : c ∈ t := (trim_sublist t).subset h

/-! ### A carriage return at the end of a line -/

theorem jsSpace_return : jsSpace '\r' = true := by decide

theorem dropWhile_return (t : Text) : (t ++ ['\r']).dropWhile jsSpace =
    if t.dropWhile jsSpace = [] then [] else t.dropWhile jsSpace ++ ['\r'] := by
  rw [List.dropWhile_append]
  cases t.dropWhile jsSpace with
  | nil => rfl
  | cons c rest => rfl

theorem trim_return (t : Text) : trim (t ++ ['\r']) = trim t := by
  rw [trim, trim, dropWhile_return]
  split
  · next h => rw [h]
  · exact List.rdropWhile_concat_pos _ _ _ jsSpace_return

/-- A key without a carriage return is in a line whatever its end. -/
theorem afterKey_return {key : String} (hne : key.toList ≠ []) (hkey : '\r' ∉ key.toList) (t : Text) :
    afterKey key (t ++ ['\r']) = (afterKey key t).map (· ++ ['\r']) := by
  have hinitial : ∀ body : Text, key.toList <+: body ++ ['\r'] ↔ key.toList <+: body := by
    intro body
    rw [List.prefix_concat_iff]
    refine or_iff_right ?_
    intro heq
    rw [heq] at hkey
    exact hkey (List.mem_append_right _ (List.mem_singleton_self _))
  rw [afterKey, afterKey, dropWhile_return]
  split
  · next h =>
    rw [h, if_neg fun hp => hne (List.prefix_nil.mp hp)]
    rfl
  · by_cases hp : key.toList <+: t.dropWhile jsSpace
    · rw [if_pos hp, if_pos ((hinitial _).mpr hp), List.drop_append_of_le_length hp.length_le]
      rfl
    · rw [if_neg hp, if_neg fun h => hp ((hinitial _).mp h)]
      rfl

theorem indentOf_return (h : trim t ≠ []) : indentOf (t ++ ['\r']) = indentOf t := by
  have hne : t.dropWhile jsSpace ≠ [] := by
    intro hnil
    rw [trim, hnil] at h
    exact h rfl
  rw [indentOf, indentOf, List.takeWhile_append, if_neg]
  intro hlen
  apply hne
  rw [← List.length_eq_zero_iff]
  have hsum := congrArg List.length (List.takeWhile_append_dropWhile (p := jsSpace) (l := t))
  rw [List.length_append] at hsum
  omega

theorem trim_ne_nil_of_afterKey {key : String} (hne : key.toList ≠ [])
    (h : afterKey key line = some rest) : trim line ≠ [] := by
  intro hblank
  have hnil : line.dropWhile jsSpace = [] := by
    rw [trim, List.rdropWhile_eq_nil_iff] at hblank
    cases hbody : line.dropWhile jsSpace with
    | nil => rfl
    | cons c body =>
      have hhead := List.head?_dropWhile_not jsSpace line
      rw [hbody, List.head?_cons] at hhead
      have hspace := hblank c (hbody ▸ List.mem_cons_self)
      rw [hhead] at hspace
      cases hspace
  rw [afterKey, hnil, if_neg fun hp => hne (List.prefix_nil.mp hp)] at h
  cases h

theorem pipelineMatch_return (t : Text) : pipelineMatch (t ++ ['\r']) = pipelineMatch t := by
  rw [pipelineMatch, pipelineMatch, afterKey_return (by decide) (by decide)]
  cases hkey : afterKey "pipeline:" t with
  | none => rfl
  | some rest =>
    rw [Option.map_some]
    dsimp only
    rw [List.all_append, List.all_cons, List.all_nil, jsSpace_return, Bool.true_and, Bool.and_true,
      indentOf_return (trim_ne_nil_of_afterKey (by decide) hkey)]

theorem captured_return (rest : Text) : captured (rest ++ ['\r']) = captured rest := by
  have hreturn : (['\r'].filter fun c => !lineEnd c) = [] := by decide
  rw [captured, captured, trim_return, List.filter_append, hreturn, List.append_nil]

theorem nameMatch_return (t : Text) : nameMatch (t ++ ['\r']) = nameMatch t := by
  rw [nameMatch, nameMatch, afterKey_return (by decide) (by decide)]
  cases afterKey "name:" t with
  | none => rfl
  | some rest => exact captured_return rest

theorem extractNameFrom_return (state : Option Nat) (line : Text) (rest : List Text) :
    extractNameFrom state ((line ++ ['\r']) :: rest) = extractNameFrom state (line :: rest) := by
  cases state with
  | none => rw [extractNameFrom, extractNameFrom, pipelineMatch_return]
  | some k =>
    rw [extractNameFrom, extractNameFrom, trim_return]
    by_cases hblank : trim line = []
    · rw [if_pos hblank, if_pos hblank]
    · rw [if_neg hblank, if_neg hblank, indentOf_return hblank, nameMatch_return]

theorem extractNameFrom_congr {ls ls' : List Text} (line : Text)
    (h : ∀ state, extractNameFrom state ls = extractNameFrom state ls') (state : Option Nat) :
    extractNameFrom state (line :: ls) = extractNameFrom state (line :: ls') := by
  cases state with
  | none => rw [extractNameFrom, extractNameFrom, h]
  | some k => rw [extractNameFrom, extractNameFrom, h]

/-- The name does not depend on the kind of the line breaks. -/
theorem extractNameFrom_unreturned (lines : List Text) (state : Option Nat) :
    extractNameFrom state (unreturned lines) = extractNameFrom state lines := by
  induction lines generalizing state with
  | nil => rfl
  | cons line lines ih =>
    cases lines with
    | nil => rfl
    | cons next lines =>
      rw [unreturned, extractNameFrom_congr _ ih, dropReturn]
      split
      · next hlast =>
        obtain ⟨line, rfl⟩ := List.getLast?_eq_some_iff.mp hlast
        rw [List.dropLast_concat, extractNameFrom_return]
      · rfl

/-! ### The loops -/

theorem withNameFrom_slot (h : Slot state lines before held after) (name : Text) :
    withNameFrom name state lines = before ++ renamed name held :: after := by
  induction h with
  | outside _ ih => rw [withNameFrom, ih, List.cons_append]
  | blank hblank _ ih => rw [withNameFrom, if_pos hblank, ih, List.cons_append]
  | passed hblank hinside hname _ ih =>
    rw [withNameFrom, if_neg hblank, if_neg (Nat.not_le.mpr hinside), hname, Option.isSome_none,
      if_neg Bool.false_ne_true, ih,
      List.cons_append]
  | here hblank hinside hname =>
    rw [withNameFrom, if_neg hblank, if_neg (Nat.not_le.mpr hinside), if_pos hname, List.nil_append]

theorem extractNameFrom_slot (h : Slot state lines before held after) :
    extractNameFrom state lines = (nameMatch held).bind readName := by
  induction h with
  | outside _ ih => rw [extractNameFrom, ih]
  | blank hblank _ ih => rw [extractNameFrom, if_pos hblank, ih]
  | passed hblank hinside hname _ ih =>
    rw [extractNameFrom, if_neg hblank, if_neg (Nat.not_le.mpr hinside), hname]
    exact ih
  | here hblank hinside hname =>
    obtain ⟨group, hgroup⟩ := Option.isSome_iff_exists.mp hname
    rw [extractNameFrom, if_neg hblank, if_neg (Nat.not_le.mpr hinside), hgroup]
    rfl

/-- Where there is no place for a name, none is written and none is read. -/
theorem without_slot (h : ∀ before held after, ¬ Slot state lines before held after) :
    (∀ name, withNameFrom name state lines = lines) ∧ extractNameFrom state lines = none := by
  induction lines generalizing state with
  | nil => cases state <;> exact ⟨fun _ => rfl, rfl⟩
  | cons line lines ih =>
    cases state with
    | none =>
      obtain ⟨hwith, hextract⟩ := ih fun before held after hslot =>
        h (line :: before) held after (.outside hslot)
      exact ⟨fun name => by rw [withNameFrom, hwith], by rw [extractNameFrom, hextract]⟩
    | some k =>
      by_cases hblank : trim line = []
      · obtain ⟨hwith, hextract⟩ := ih fun before held after hslot =>
          h (line :: before) held after (.blank hblank hslot)
        exact ⟨fun name => by rw [withNameFrom, if_pos hblank, hwith],
          by rw [extractNameFrom, if_pos hblank, hextract]⟩
      · by_cases hinside : indentOf line ≤ k
        · exact ⟨fun name => by rw [withNameFrom, if_neg hblank, if_pos hinside],
            by rw [extractNameFrom, if_neg hblank, if_pos hinside]⟩
        · cases hname : nameMatch line with
          | some group =>
            refine absurd (.here hblank (Nat.not_le.mp hinside) ?_) (h [] line lines)
            rw [hname]
            rfl
          | none =>
            obtain ⟨hwith, hextract⟩ := ih fun before held after hslot =>
              h (line :: before) held after (.passed hblank (Nat.not_le.mp hinside) hname hslot)
            refine ⟨fun name => ?_, ?_⟩
            · rw [withNameFrom, if_neg hblank, if_neg hinside, hname, Option.isSome_none,
      if_neg Bool.false_ne_true, hwith]
            · rw [extractNameFrom, if_neg hblank, if_neg hinside, hname]
              exact hextract

/-! ### The renamed line -/

theorem dropWhile_renamed (name line : Text) :
    (renamed name line).dropWhile jsSpace = "name: ".toList ++ name := by
  rw [renamed, spaces, List.append_assoc, List.dropWhile_append_of_pos]
  · exact List.dropWhile_cons_of_neg (by decide)
  · intro c hc
    rw [List.eq_of_mem_replicate hc]
    decide

theorem afterKey_renamed (name line : Text) :
    afterKey "name:" (renamed name line) = some (' ' :: name) := by
  rw [afterKey, dropWhile_renamed, if_pos ⟨' ' :: name, rfl⟩]
  rfl

theorem indentOf_renamed (name line : Text) : indentOf (renamed name line) = indentOf line := by
  have hspaces : ∀ c ∈ spaces (indentOf line), jsSpace c = true := by
    intro c hc
    rw [List.eq_of_mem_replicate hc]
    decide
  have hkey : ("name: ".toList ++ name).takeWhile jsSpace = [] :=
    List.takeWhile_cons_of_neg (by decide)
  rw [indentOf, renamed, List.append_assoc, List.takeWhile_append_of_pos hspaces, hkey,
    List.append_nil, spaces, List.length_replicate]

theorem trim_renamed (name line : Text) : trim (renamed name line) ≠ [] :=
  trim_ne_nil_of_afterKey (by decide) (afterKey_renamed name line)

theorem nameMatch_renamed (name line : Text) :
    nameMatch (renamed name line) = captured (' ' :: name) := by
  rw [nameMatch, afterKey_renamed]

theorem trim_space (name : Text) : trim (' ' :: name) = trim name := by
  rw [trim, List.dropWhile_cons_of_pos (by decide), trim]

theorem captured_oneLine (h : ∀ c ∈ name, lineEnd c = false) : (captured (' ' :: name)).isSome := by
  rw [captured, trim_space]
  split
  · rw [Option.isSome_map, List.getLast?_isSome, List.filter_cons_of_pos (by decide)]
    exact List.cons_ne_nil _ _
  · rw [if_neg]
    · rfl
    · rw [List.any_eq_true]
      rintro ⟨c, hc, hend⟩
      rw [h c (mem_of_mem_trim hc)] at hend
      cases hend

/-- The new line is where the next loop finds the name. -/
theorem slot_renamed (h : Slot state lines before held after)
    (hname : (nameMatch (renamed name held)).isSome) :
    Slot state (before ++ renamed name held :: after) before (renamed name held) after := by
  induction h with
  | outside _ ih => exact .outside (ih hname)
  | blank hblank _ ih => exact .blank hblank (ih hname)
  | passed hblank hinside hother _ ih => exact .passed hblank hinside hother (ih hname)
  | @here k line rest hblank hinside =>
    refine .here (trim_renamed name line) ?_ hname
    rwa [indentOf_renamed]

/-! ### What is read of a name -/

theorem captured_oneLine_of_eq (h : captured rest = some t) : ∀ c ∈ t, lineEnd c = false := by
  intro c hc
  rw [captured] at h
  split at h
  · obtain ⟨d, hd, rfl⟩ := Option.map_eq_some_iff.mp h
    have hmem := (List.mem_filter.mp (List.mem_of_getLast? hd)).2
    rw [List.mem_singleton.mp hc]
    rwa [Bool.not_eq_true'] at hmem
  · split at h
    · cases h
    · next hany =>
      cases h
      rw [Bool.not_eq_true, List.any_eq_false] at hany
      exact Bool.eq_false_iff.mpr (hany c hc)

theorem beforeComment_initial (t : Text) : beforeComment t <+: t := by
  induction t with
  | nil => exact List.prefix_refl _
  | cons c t ih =>
    rw [beforeComment]
    split
    · exact List.nil_prefix
    · exact (List.prefix_cons_inj c).mpr ih

theorem unquoteEnds_sublist (t : Text) : (unquoteEnds t).Sublist t := by
  rw [unquoteEnds]
  split
  · split
    · exact (List.dropLast_sublist _).trans (List.tail_sublist t)
    · exact List.tail_sublist t
  · split
    · exact List.dropLast_sublist t
    · exact .refl t

theorem readName_sublist (h : readName t = some name) :
    name.Sublist (trim (beforeComment t)) := by
  rw [readName] at h
  split at h
  · cases h
  · cases h
    exact unquoteEnds_sublist _

/-- Nothing is cut where no hash follows a space. -/
theorem beforeComment_eq_self : beforeComment t = t ↔
    ∀ before c after, t = before ++ c :: '#' :: after → jsSpace c = false := by
  constructor
  · rintro h before c after rfl
    by_contra hspace
    rw [Bool.not_eq_false] at hspace
    have hlen : (beforeComment (before ++ c :: '#' :: after)).length ≤ before.length := by
      clear h
      induction before with
      | nil =>
        rw [List.nil_append, beforeComment, if_pos ⟨hspace, rfl⟩]
      | cons d before ih =>
        rw [List.cons_append, beforeComment]
        split
        · exact Nat.zero_le _
        · exact Nat.succ_le_succ ih
    rw [h, List.length_append, List.length_cons] at hlen
    omega
  · intro h
    induction t with
    | nil => rfl
    | cons c t ih =>
      rw [beforeComment, if_neg, ih]
      · rintro before d after rfl
        exact h (c :: before) d after rfl
      · rintro ⟨hspace, hhash⟩
        obtain ⟨rest, hrest⟩ := List.head?_eq_some_iff.mp hhash
        have hsplit := List.takeWhile_append_dropWhile (p := jsSpace) (l := t)
        rw [hrest] at hsplit
        obtain hnil | ⟨blanks, d, hd⟩ := List.eq_nil_or_concat (t.takeWhile jsSpace)
        · rw [hnil, List.nil_append] at hsplit
          rw [h [] c rest (by rw [← hsplit]; rfl)] at hspace
          cases hspace
        · rw [List.concat_eq_append] at hd
          have hdspace : jsSpace d = true := by
            apply List.mem_takeWhile_imp (l := t)
            rw [hd]
            exact List.mem_append_right _ (List.mem_singleton_self d)
          rw [hd, List.append_assoc, List.singleton_append] at hsplit
          rw [h (c :: blanks) d rest (by rw [← hsplit]; rfl)] at hdspace
          cases hdspace

theorem unquoteEnds_eq_self : unquoteEnds t = t ↔
    t.head?.any isQuote = false ∧ t.getLast?.any isQuote = false := by
  constructor
  · intro h
    have hhead : t.head?.any isQuote = false := by
      by_contra hquote
      rw [Bool.not_eq_false] at hquote
      rw [unquoteEnds, if_pos hquote] at h
      cases t with
      | nil => cases hquote
      | cons c t =>
        have hlen : (unquoteEnds (c :: t)).length ≤ t.length := by
          rw [unquoteEnds, if_pos hquote]
          split
          · exact (List.dropLast_sublist t).length_le
          · exact Nat.le_refl _
        rw [unquoteEnds, if_pos hquote, h, List.length_cons] at hlen
        omega
    refine ⟨hhead, ?_⟩
    by_contra hquote
    rw [Bool.not_eq_false] at hquote
    rw [unquoteEnds, hhead, if_neg Bool.false_ne_true, if_pos hquote] at h
    cases t with
    | nil => cases hquote
    | cons c t =>
      have hlen := congrArg List.length h
      rw [List.length_dropLast, List.length_cons] at hlen
      omega
  · rintro ⟨hhead, hlast⟩
    rw [unquoteEnds, hhead, if_neg Bool.false_ne_true, hlast, if_neg Bool.false_ne_true]

theorem readName_blank {c : Char} (h : jsSpace c = true) : readName [c] = none := by
  have hblank : trim (beforeComment [c]) = [] := by
    rw [trim, List.rdropWhile_eq_nil_iff]
    intro d hd
    have hmem := (beforeComment_initial [c]).subset ((List.dropWhile_suffix jsSpace).subset hd)
    rwa [List.mem_singleton.mp hmem]
  rw [readName, if_pos hblank]

theorem trim_eq_nil (h : trim t = []) : ∀ c ∈ t, jsSpace c = true := by
  intro c hc
  rw [trim, List.rdropWhile_eq_nil_iff] at h
  rw [← List.takeWhile_append_dropWhile (p := jsSpace) (l := t)] at hc
  obtain hc | hc := List.mem_append.mp hc
  · exact List.mem_takeWhile_imp hc
  · exact h c hc

/-- A name is read as it was written exactly where it is plain. -/
theorem readName_written (hline : ∀ c ∈ name, lineEnd c = false) :
    (captured (' ' :: name)).bind readName = some name ↔ Plain name := by
  rw [captured, trim_space]
  by_cases hblank : trim name = []
  · rw [if_pos hblank]
    constructor
    · intro h
      obtain ⟨group, hgroup, hread⟩ := Option.bind_eq_some_iff.mp h
      obtain ⟨c, hc, rfl⟩ := Option.map_eq_some_iff.mp hgroup
      have hmem := (List.mem_filter.mp (List.mem_of_getLast? hc)).1
      have hspace : jsSpace c = true := by
        obtain rfl | hmem := List.mem_cons.mp hmem
        · decide
        · exact trim_eq_nil hblank c hmem
      rw [readName_blank hspace] at hread
      cases hread
    · intro h
      exact absurd (h.trimmed.symm.trans hblank) h.nonempty
  · have hany : ¬ (trim name).any lineEnd = true := by
      rw [List.any_eq_true]
      rintro ⟨c, hc, hend⟩
      rw [hline c (mem_of_mem_trim hc)] at hend
      cases hend
    rw [if_neg hblank, if_neg hany, Option.bind_some]
    constructor
    · intro h
      have hsub := readName_sublist h
      have hcut := (trim_sublist _).trans (beforeComment_initial (trim name)).sublist
      have htrim : trim name = name :=
        (trim_sublist name).antisymm (hsub.trans hcut)
      have hcomment : beforeComment name = name := by
        apply (beforeComment_initial name).sublist.antisymm
        have hall := hsub.trans (trim_sublist _)
        rwa [htrim] at hall
      rw [readName, htrim, hcomment, htrim, if_neg (htrim ▸ hblank), Option.some.injEq,
        unquoteEnds_eq_self] at h
      exact ⟨htrim ▸ hblank, hline, htrim, beforeComment_eq_self.mp hcomment, h.1, h.2⟩
    · intro h
      rw [readName, h.trimmed, beforeComment_eq_self.mpr h.uncommented, h.trimmed,
        if_neg h.nonempty, unquoteEnds_eq_self.mpr ⟨h.unquotedStart, h.unquotedEnd⟩]

theorem oneLine_of_extract (h : extractNameFrom state lines = some name) :
    ∀ c ∈ name, lineEnd c = false := by
  by_cases hslot : ∃ before held after, Slot state lines before held after
  · obtain ⟨before, held, after, hslot⟩ := hslot
    rw [extractNameFrom_slot hslot] at h
    obtain ⟨group, hgroup, hread⟩ := Option.bind_eq_some_iff.mp h
    intro c hc
    have hmem := (beforeComment_initial group).subset
      (mem_of_mem_trim ((readName_sublist hread).subset hc))
    rw [nameMatch] at hgroup
    split at hgroup
    · exact captured_oneLine_of_eq hgroup c hmem
    · cases hgroup
  · rw [(without_slot fun before held after hs => hslot ⟨before, held, after, hs⟩).2] at h
    cases h

/-- The lines around the place for the name are the lines of the text. -/
theorem lines_of_slot (h : Slot state lines before held after) :
    lines = before ++ held :: after := by
  induction h with
  | outside _ ih => rw [ih, List.cons_append]
  | blank _ _ ih => rw [ih, List.cons_append]
  | passed _ _ _ _ ih => rw [ih, List.cons_append]
  | here => rfl

theorem not_mem_renamed (h : '\n' ∉ name) : '\n' ∉ renamed name held := by
  rw [renamed, List.mem_append, List.mem_append, not_or, not_or]
  refine ⟨⟨?_, by decide⟩, h⟩
  intro hspace
  have hbreak := List.eq_of_mem_replicate hspace
  revert hbreak
  decide

theorem not_mem_of_mem_renamed_lines (hname : '\n' ∉ name) (hlines : ∀ line ∈ lines, '\n' ∉ line)
    (hslot : Slot state lines before held after) :
    ∀ line ∈ before ++ renamed name held :: after, '\n' ∉ line := by
  intro line hline
  rw [lines_of_slot hslot] at hlines
  obtain hbefore | rfl | hafter := by simpa only [List.mem_append, List.mem_cons] using hline
  · exact hlines line (List.mem_append_left _ hbefore)
  · exact not_mem_renamed hname
  · exact hlines line (List.mem_append_right _ (List.mem_cons_of_mem held hafter))

/-- A name that is written reads back as it was written exactly where the text has a place for it
and the name is plain. -/
theorem pipelineName_iff (yamlConfig name : Text) :
    extractPipelineName (withPipelineName yamlConfig name) = some name ↔
      HasSlot yamlConfig ∧ Plain name := by
  have hbreaks : ∀ line ∈ splitLines yamlConfig, '\n' ∉ line := fun _ => not_mem_of_mem_splitLines
  by_cases hslot : HasSlot yamlConfig
  · rw [and_iff_right hslot]
    obtain ⟨before, held, after, hslot⟩ := hslot
    -- With the name on one line, the new text has the lines of the loop and its place is the same.
    have hread (hline : ∀ c ∈ name, lineEnd c = false) :
        extractPipelineName (withPipelineName yamlConfig name) =
          (captured (' ' :: name)).bind readName := by
      have hname : '\n' ∉ name := fun hmem => absurd (hline '\n' hmem) (by decide)
      have hmatch : (nameMatch (renamed name held)).isSome := by
        rw [nameMatch_renamed]
        exact captured_oneLine hline
      rw [extractPipelineName, withPipelineName, withNameFrom_slot hslot, splitLines_joinLines
        (List.append_ne_nil_of_right_ne_nil before (List.cons_ne_nil _ after))
        (not_mem_of_mem_renamed_lines hname hbreaks hslot), extractNameFrom_unreturned,
        extractNameFrom_slot (slot_renamed hslot hmatch), nameMatch_renamed]
    constructor
    · intro h
      have hline := oneLine_of_extract h
      exact (readName_written hline).mp ((hread hline).symm.trans h)
    · intro h
      exact (hread h.oneLine).trans ((readName_written h.oneLine).mpr h)
  · refine iff_of_false ?_ (fun h => hslot h.1)
    intro h
    have hnone := without_slot fun before held after hs => hslot ⟨before, held, after, hs⟩
    rw [extractPipelineName, withPipelineName, hnone.1,
      splitLines_joinLines (splitLines_ne_nil yamlConfig) hbreaks, extractNameFrom_unreturned,
      hnone.2] at h
    cases h

end PipelineIQ.Frontend.Renaming

import Mathlib.Algebra.GroupWithZero.Nat
import PipelineIQ.Pipeline.DiffMarkers

namespace PipelineIQ.Ai.YamlDiff

open PipelineIQ.Lib.Strings PipelineIQ.Pipeline.Parser PipelineIQ.Pipeline.DiffMarkers

/-! ### The diff -/

inductive Tag where
  | equal | insert | delete | replace
  deriving DecidableEq, Repr

/-- An entry of `get_opcodes`. -/
structure Opcode where
  tag : Tag
  i1 : Nat
  i2 : Nat
  j1 : Nat
  j2 : Nat
  deriving DecidableEq, Repr

inductive LineType where
  | added | removed | unchanged
  deriving DecidableEq, Repr

structure DiffLine where
  type : LineType
  content : Text
  deriving DecidableEq, Repr

/-- `lines[start:stop]`. -/
def slice (lines : List Text) (start stop : Nat) : List Text := (lines.take stop).drop start

section Diff

variable (a b : List Text)

def opcodeLines (op : Opcode) : List DiffLine :=
  let removed := (slice a op.i1 op.i2).map (DiffLine.mk .removed)
  let added := (slice b op.j1 op.j2).map (DiffLine.mk .added)
  match op.tag with
  | .equal => (slice a op.i1 op.i2).map (DiffLine.mk .unchanged)
  | .insert => added
  | .delete => removed
  | .replace => removed ++ added

/-- What `get_opcodes` is documented to give, from an index of each list on: blocks that follow one
another up to the ends, none of them empty. -/
def Partition : Nat → Nat → List Opcode → Prop
  | i, j, [] => i = a.length ∧ j = b.length
  | i, j, op :: ops => (op.i1 = i ∧ op.j1 = j ∧ op.i2 ≤ a.length ∧ op.j2 ≤ b.length) ∧
    (match op.tag with
      | .equal => i < op.i2 ∧ j < op.j2 ∧ slice a i op.i2 = slice b j op.j2
      | .insert => op.i2 = i ∧ j < op.j2
      | .delete => i < op.i2 ∧ op.j2 = j
      | .replace => i < op.i2 ∧ j < op.j2) ∧ Partition op.i2 op.j2 ops

end Diff

/-- `get_opcodes` of a matcher of two lists. -/
abbrev Opcodes := List Text → List Text → List Opcode

def computeYamlDiff (opcodes : Opcodes) (original corrected : Text) : List DiffLine :=
  let a := splitLines original
  let b := splitLines corrected
  (opcodes a b).flatMap (opcodeLines a b)

def marker : LineType → Char
  | .added => '+'
  | .removed => '-'
  | .unchanged => ' '

def renderLine (line : DiffLine) : Text := marker line.type :: line.content

def render (diff : List DiffLine) : Text := joinLines (diff.map renderLine)

/-- The lines of a diff but those of one type. -/
def contents (type : LineType) (diff : List DiffLine) : List Text :=
  (diff.filter (·.type ≠ type)).map (·.content)

/-- The diff holds both texts, and stripping it of its markers gives the second one. -/
structure RoundTrips (opcodes : Opcodes) (a b : Text) : Prop where
  original : contents .added (computeYamlDiff opcodes a b) = splitLines a
  corrected : contents .removed (computeYamlDiff opcodes a b) = splitLines b
  stripped : stripDiffMarkers (render (computeYamlDiff opcodes a b)) = b

/-- A line that `+` turns into a header of a unified diff. -/
def headed (line : Text) : Bool := startsWith "++" line

/-- Something has changed, the second text is its lines with a line feed between any two, and no
line of a new block begins with two plus signs; or the second text is empty. -/
def Renderable (opcodes : Opcodes) (a b : Text) : Prop :=
  let ops := opcodes (splitLines a) (splitLines b)
  if ∃ op ∈ ops, op.tag ≠ .equal then
    joinLines (splitLines b) = b ∧ ∀ op ∈ ops, op.tag = .insert ∨ op.tag = .replace →
      ∀ line ∈ slice (splitLines b) op.j1 op.j2, headed line = false
  else b = []

/-! ### Both texts are in the diff -/

section Partitions

variable {a b : List Text} {i j : Nat} {ops : List Opcode}

theorem slice_append_drop {lines : List Text} {start stop : Nat} (h : start ≤ stop) :
    slice lines start stop ++ lines.drop stop = lines.drop start := by
  rw [slice, List.drop_take]
  have hdrop : lines.drop stop = (lines.drop start).drop (stop - start) := by
    rw [List.drop_drop, Nat.add_sub_cancel' h]
  rw [hdrop, List.take_append_drop]

theorem contents_append (type : LineType) (diff diff' : List DiffLine) :
    contents type (diff ++ diff') = contents type diff ++ contents type diff' := by
  rw [contents, List.filter_append, List.map_append, contents, contents]

theorem contents_map (type type' : LineType) (lines : List Text) :
    contents type (lines.map (DiffLine.mk type')) = if type' = type then [] else lines := by
  rw [contents, List.filter_map]
  by_cases h : type' = type
  · simp [h, Function.comp_def]
  · simp [h, Function.comp_def]

theorem contents_added (h : Partition a b i j ops) :
    contents .added (ops.flatMap (opcodeLines a b)) = a.drop i := by
  induction ops generalizing i j with
  | nil =>
    rw [h.1, List.drop_length]
    rfl
  | cons op ops ih =>
    obtain ⟨⟨rfl, rfl, hi, hj⟩, htag, hrest⟩ := h
    rw [List.flatMap_cons, contents_append, ih hrest, opcodeLines]
    cases hop : op.tag with
    | equal =>
      simp only [hop] at htag
      rw [contents_map, if_neg nofun]
      exact slice_append_drop htag.1.le
    | insert =>
      simp only [hop] at htag
      rw [contents_map, if_pos rfl, htag.1, List.nil_append]
    | delete =>
      simp only [hop] at htag
      rw [contents_map, if_neg nofun]
      exact slice_append_drop htag.1.le
    | replace =>
      simp only [hop] at htag
      rw [contents_append, contents_map, contents_map, if_neg nofun, if_pos rfl, List.append_nil]
      exact slice_append_drop htag.1.le

theorem contents_removed (h : Partition a b i j ops) :
    contents .removed (ops.flatMap (opcodeLines a b)) = b.drop j := by
  induction ops generalizing i j with
  | nil =>
    rw [h.2, List.drop_length]
    rfl
  | cons op ops ih =>
    obtain ⟨⟨rfl, rfl, hi, hj⟩, htag, hrest⟩ := h
    rw [List.flatMap_cons, contents_append, ih hrest, opcodeLines]
    cases hop : op.tag with
    | equal =>
      simp only [hop] at htag
      rw [contents_map, if_neg nofun, htag.2.2]
      exact slice_append_drop htag.2.1.le
    | insert =>
      simp only [hop] at htag
      rw [contents_map, if_neg nofun]
      exact slice_append_drop htag.2.le
    | delete =>
      simp only [hop] at htag
      rw [contents_map, if_pos rfl, htag.2, List.nil_append]
    | replace =>
      simp only [hop] at htag
      rw [contents_append, contents_map, contents_map, if_pos rfl, if_neg nofun, List.nil_append]
      exact slice_append_drop htag.2.le

theorem mem_added_iff {line : Text} : ⟨.added, line⟩ ∈ ops.flatMap (opcodeLines a b) ↔
    ∃ op ∈ ops, (op.tag = .insert ∨ op.tag = .replace) ∧ line ∈ slice b op.j1 op.j2 := by
  rw [List.mem_flatMap]
  refine exists_congr fun op => and_congr_right fun _ => ?_
  rw [opcodeLines]
  cases op.tag <;> simp

/-- Every block but an equal one changes something. -/
theorem exists_changed_iff (h : Partition a b i j ops) :
    (∃ line ∈ ops.flatMap (opcodeLines a b), line.type ≠ .unchanged) ↔
      ∃ op ∈ ops, op.tag ≠ .equal := by
  induction ops generalizing i j with
  | nil => simp
  | cons op ops ih =>
    obtain ⟨⟨rfl, rfl, hi, hj⟩, htag, hrest⟩ := h
    simp only [List.flatMap_cons, List.mem_append, List.mem_cons, or_and_right, exists_or,
      exists_eq_left, ih hrest]
    refine or_congr_left ?_
    have hslice : ∀ {lines : List Text} {start stop : Nat}, start < stop → stop ≤ lines.length →
        ∃ line, line ∈ slice lines start stop := by
      intro lines start stop hlt hle
      refine List.exists_mem_of_length_pos ?_
      rw [slice, List.length_drop, List.length_take]
      omega
    rw [opcodeLines]
    cases hop : op.tag with
    | equal => simp
    | insert =>
      simp only [hop] at htag
      obtain ⟨line, hline⟩ := hslice htag.2 hj
      exact iff_of_true ⟨_, List.mem_map_of_mem hline, nofun⟩ nofun
    | delete =>
      simp only [hop] at htag
      obtain ⟨line, hline⟩ := hslice htag.1 hi
      exact iff_of_true ⟨_, List.mem_map_of_mem hline, nofun⟩ nofun
    | replace =>
      simp only [hop] at htag
      obtain ⟨line, hline⟩ := hslice htag.1 hi
      exact iff_of_true ⟨_, List.mem_append_left _ (List.mem_map_of_mem hline), nofun⟩ nofun

end Partitions

/-! ### Rendering and stripping -/

section Rendering

variable {diff : List DiffLine} {line : DiffLine}

theorem marked_renderLine : marked (renderLine line) = true ↔ line.type ≠ .unchanged := by
  obtain ⟨type, content⟩ := line
  cases type with
  | added => exact iff_of_true rfl nofun
  | removed => exact iff_of_true rfl nofun
  | unchanged => exact iff_of_false nofun fun h => h rfl

/-- What is left of a rendered line: a new line that begins with two plus signs goes, since it looks
like a header. -/
theorem keptLine_renderLine : keptLine (renderLine line) =
    if line.type = .removed ∨ (line.type = .added ∧ headed line.content = true) then none
    else some line.content := by
  obtain ⟨type, content⟩ := line
  cases type with
  | removed =>
    rw [if_pos (.inl rfl), keptLine]
    split
    · rfl
    · exact if_pos rfl
  | unchanged =>
    rw [if_neg (by rintro (h | ⟨h, -⟩) <;> cases h)]
    rfl
  | added =>
    have hheader : (startsWith "---" (renderLine ⟨.added, content⟩) ||
        startsWith "+++" (renderLine ⟨.added, content⟩) ||
        startsWith "@@" (renderLine ⟨.added, content⟩)) = headed content := Bool.or_false _
    rw [keptLine, hheader]
    cases headed content with
    | true => simp
    | false => rfl

theorem contents_cons (type : LineType) : contents type (line :: diff) =
    if line.type = type then contents type diff else line.content :: contents type diff := by
  rw [contents, List.filter_cons]
  by_cases h : line.type = type
  · simp [h, contents]
  · simp [h, contents]

/-- Without a line that looks like a header all but the removed lines are left. -/
theorem filterMap_keptLine_render
    (h : ∀ line ∈ diff, line.type = .added → headed line.content = false) :
    (diff.map renderLine).filterMap keptLine = contents .removed diff := by
  induction diff with
  | nil => rfl
  | cons line diff ih =>
    obtain ⟨hline, hdiff⟩ := List.forall_mem_cons.mp h
    rw [List.map_cons, List.filterMap_cons, keptLine_renderLine, ih hdiff, contents_cons]
    by_cases hremoved : line.type = .removed
    · rw [if_pos hremoved, if_pos (.inl hremoved)]
    · have hkept : ¬ (line.type = .removed ∨ (line.type = .added ∧ headed line.content = true)) := by
        rintro (hr | ⟨hadded, hheaded⟩)
        · exact hremoved hr
        · rw [hline hadded] at hheaded
          cases hheaded
      rw [if_neg hremoved, if_neg hkept]

theorem weight_pos_of_headed {content : Text} (h : headed content = true) : 1 ≤ weight content := by
  obtain ⟨rest, rfl⟩ := List.isPrefixOf_iff_prefix.mp h
  rw [weight_append]
  exact Nat.le_add_right_of_le (by decide)

/-- Lines that look like headers are missed. -/
theorem weight_filterMap_render (diff : List DiffLine) :
    (((diff.map renderLine).filterMap keptLine).map weight).sum +
        diff.countP (fun line => line.type = .added && headed line.content) ≤
      ((contents .removed diff).map weight).sum := by
  induction diff with
  | nil => exact le_rfl
  | cons line diff ih =>
    rw [List.map_cons, List.filterMap_cons, keptLine_renderLine, contents_cons, List.countP_cons]
    by_cases hremoved : line.type = .removed
    · have hnot : (line.type = .added && headed line.content) = false := by simp [hremoved]
      rw [if_pos (.inl hremoved), if_pos hremoved, hnot, if_neg Bool.false_ne_true]
      exact ih
    · rw [if_neg hremoved, List.map_cons, List.sum_cons]
      by_cases hheaded : line.type = .added ∧ headed line.content = true
      · have hpos := weight_pos_of_headed hheaded.2
        have hcount : (line.type = .added && headed line.content) = true := by simpa using hheaded
        rw [if_pos (.inr hheaded), hcount, if_pos rfl]
        dsimp only
        omega
      · have hnot : (line.type = .added && headed line.content) = false := by simpa using hheaded
        rw [if_neg (not_or.mpr ⟨hremoved, hheaded⟩), hnot, if_neg Bool.false_ne_true, List.map_cons,
          List.sum_cons]
        omega

theorem splitLines_render (h : ∀ line ∈ diff, ∀ c ∈ line.content, lineBreak c = false) :
    splitLines (render diff) = diff.map renderLine := by
  refine splitLines_joinLines ?_
  rw [List.forall_mem_map]
  intro line hline
  refine ⟨nofun, List.forall_mem_cons.mpr ⟨?_, h line hline⟩⟩
  cases line.type <;> rfl

theorem any_marked_render_iff : (diff.map renderLine).any marked = true ↔
    ∃ line ∈ diff, line.type ≠ .unchanged := by
  simp [marked_renderLine]

end Rendering

section RoundTrip

variable {opcodes : Opcodes} {a b : Text}

theorem lineBreak_of_mem_diff
    (h : Partition (splitLines a) (splitLines b) 0 0 (opcodes (splitLines a) (splitLines b))) :
    ∀ line ∈ computeYamlDiff opcodes a b, ∀ c ∈ line.content, lineBreak c = false := by
  intro line hline
  by_cases hadded : line.type = .added
  · have hmem : line.content ∈ contents .removed (computeYamlDiff opcodes a b) :=
      List.mem_map_of_mem (List.mem_filter.mpr ⟨hline, by simp [hadded]⟩)
    rw [computeYamlDiff, contents_removed h] at hmem
    exact lineBreak_of_mem_splitLines b _ (List.mem_of_mem_drop hmem)
  · have hmem : line.content ∈ contents .added (computeYamlDiff opcodes a b) :=
      List.mem_map_of_mem (List.mem_filter.mpr ⟨hline, by simpa using hadded⟩)
    rw [computeYamlDiff, contents_added h] at hmem
    exact lineBreak_of_mem_splitLines a _ (List.mem_of_mem_drop hmem)

theorem forall_added_iff {ops : List Opcode} {lines lines' : List Text} :
    (∀ line ∈ ops.flatMap (opcodeLines lines lines'), line.type = .added →
        headed line.content = false) ↔
      ∀ op ∈ ops, op.tag = .insert ∨ op.tag = .replace →
        ∀ line ∈ slice lines' op.j1 op.j2, headed line = false := by
  constructor
  · intro h op hop htag line hline
    exact h ⟨.added, line⟩ (mem_added_iff.mpr ⟨op, hop, htag, hline⟩) rfl
  · rintro h ⟨_, content⟩ hline rfl
    obtain ⟨op, hop, htag, hcontent⟩ := mem_added_iff.mp hline
    exact h op hop htag content hcontent

/-- A diff in which something has changed. -/
theorem stripped_iff_of_changed
    (h : Partition (splitLines a) (splitLines b) 0 0 (opcodes (splitLines a) (splitLines b)))
    (hchanged : ∃ line ∈ computeYamlDiff opcodes a b, line.type ≠ .unchanged) :
    stripDiffMarkers (render (computeYamlDiff opcodes a b)) = b ↔
      joinLines (splitLines b) = b ∧ ∀ line ∈ computeYamlDiff opcodes a b, line.type = .added →
        headed line.content = false := by
  have hcontents : contents .removed (computeYamlDiff opcodes a b) = splitLines b :=
    contents_removed h
  rw [stripDiffMarkers, splitLines_render (lineBreak_of_mem_diff h),
    any_marked_render_iff.mpr hchanged, Bool.not_true, if_neg Bool.false_ne_true]
  by_cases hheaded : ∀ line ∈ computeYamlDiff opcodes a b, line.type = .added →
      headed line.content = false
  · rw [filterMap_keptLine_render hheaded, hcontents]
    exact ⟨fun hjoin => ⟨hjoin, hheaded⟩, fun hjoin => hjoin.1⟩
  · refine iff_of_false (fun heq => ?_) fun hjoin => hheaded hjoin.2
    push Not at hheaded
    obtain ⟨line, hline, hadded, hline'⟩ := hheaded
    have hpos : 0 < (computeYamlDiff opcodes a b).countP
        fun line => line.type = .added && headed line.content :=
      List.countP_pos_iff.mpr ⟨line, hline, by simp [hadded, hline']⟩
    have hweight := weight_filterMap_render (computeYamlDiff opcodes a b)
    have hjoin := sum_weight_joinLines
      (((computeYamlDiff opcodes a b).map renderLine).filterMap keptLine)
    rw [joinLines, heq] at hjoin
    rw [hcontents, sum_weight_splitLines, ← hjoin] at hweight
    omega

/-- A diff in which nothing has changed keeps the blanks that mark its lines. -/
theorem stripped_iff_of_unchanged
    (h : Partition (splitLines a) (splitLines b) 0 0 (opcodes (splitLines a) (splitLines b)))
    (hunchanged : ¬ ∃ line ∈ computeYamlDiff opcodes a b, line.type ≠ .unchanged) :
    stripDiffMarkers (render (computeYamlDiff opcodes a b)) = b ↔ b = [] := by
  have hcontents : contents .removed (computeYamlDiff opcodes a b) = splitLines b :=
    contents_removed h
  have hlines := splitLines_render (lineBreak_of_mem_diff h)
  have hmarked : (splitLines (render (computeYamlDiff opcodes a b))).any marked = false := by
    rw [hlines]
    exact Bool.eq_false_iff.mpr fun hany => hunchanged (any_marked_render_iff.mp hany)
  rw [stripDiffMarkers, hmarked, Bool.not_false, if_pos rfl]
  have hunchanged : ∀ line ∈ computeYamlDiff opcodes a b, line.type = .unchanged := by
    push Not at hunchanged
    exact hunchanged
  constructor
  · intro heq
    rw [heq, ← hcontents] at hlines
    cases hdiff : computeYamlDiff opcodes a b with
    | nil => rw [← heq, hdiff]; rfl
    | cons line diff =>
      rw [hdiff] at hlines hunchanged
      have hline := hunchanged line (List.mem_cons_self ..)
      rw [contents_cons, if_neg (by rw [hline]; rintro ⟨⟩), List.map_cons] at hlines
      exact absurd (List.cons.inj hlines).1.symm (List.cons_ne_self _ _)
  · rintro rfl
    cases hdiff : computeYamlDiff opcodes a [] with
    | nil => rfl
    | cons line diff =>
      rw [hdiff] at hcontents hunchanged
      have hline := hunchanged line (List.mem_cons_self ..)
      rw [contents_cons, if_neg (by rw [hline]; rintro ⟨⟩)] at hcontents
      cases hcontents

/-- The diff of two texts always holds both of them, and gives the second one back when it is
renderable. -/
theorem round_trips_iff
    (h : ∀ lines lines', Partition lines lines' 0 0 (opcodes lines lines')) (a b : Text) :
    RoundTrips opcodes a b ↔ Renderable opcodes a b := by
  have hpartition := h (splitLines a) (splitLines b)
  have hstripped : RoundTrips opcodes a b ↔
      stripDiffMarkers (render (computeYamlDiff opcodes a b)) = b := by
    refine ⟨fun ht => ht.stripped, fun ht => ⟨?_, ?_, ht⟩⟩
    · exact contents_added hpartition
    · exact contents_removed hpartition
  have hops := exists_changed_iff hpartition
  rw [hstripped, Renderable]
  split
  next hchanged =>
    rw [stripped_iff_of_changed hpartition (hops.mpr hchanged), ← forall_added_iff]
    rfl
  next hunchanged =>
    exact stripped_iff_of_unchanged hpartition fun hchanged => hunchanged (hops.mp hchanged)

end RoundTrip

/-- A matcher that finds no blocks but the whole lists. -/
def wholeOpcodes : Opcodes
  | [], [] => []
  | [], b => [⟨.insert, 0, 0, 0, b.length⟩]
  | a, [] => [⟨.delete, 0, a.length, 0, 0⟩]
  | a, b => [⟨if a = b then .equal else .replace, 0, a.length, 0, b.length⟩]

theorem partition_wholeOpcodes (a b : List Text) : Partition a b 0 0 (wholeOpcodes a b) := by
  cases a with
  | nil =>
    cases b with
    | nil => exact ⟨rfl, rfl⟩
    | cons line b => exact ⟨⟨rfl, rfl, le_rfl, le_rfl⟩, ⟨rfl, Nat.succ_pos _⟩, rfl, rfl⟩
  | cons line a =>
    cases b with
    | nil => exact ⟨⟨rfl, rfl, le_rfl, le_rfl⟩, ⟨Nat.succ_pos _, rfl⟩, rfl, rfl⟩
    | cons line' b =>
      refine ⟨⟨rfl, rfl, le_rfl, le_rfl⟩, ?_, rfl, rfl⟩
      by_cases h : line :: a = line' :: b
      · simp only [h, if_true]
        exact ⟨Nat.succ_pos _, Nat.succ_pos _, trivial⟩
      · simp only [h, if_false]
        exact ⟨Nat.succ_pos _, Nat.succ_pos _⟩

theorem round_trips_changed :
    RoundTrips wholeOpcodes "name: p".toList "name: q".toList ↔
      Renderable wholeOpcodes "name: p".toList "name: q".toList :=
  round_trips_iff partition_wholeOpcodes _ _

/-- The diff of a text with itself is no diff for the stripper. -/
theorem unchanged_not_round_trips :
    ¬ ∀ opcodes : Opcodes, (∀ lines lines', Partition lines lines' 0 0 (opcodes lines lines')) →
      ∀ a b, RoundTrips opcodes a b := by
  intro h
  have hstripped := (h wholeOpcodes partition_wholeOpcodes "name: p".toList "name: p".toList).stripped
  revert hstripped
  decide +kernel

end PipelineIQ.Ai.YamlDiff

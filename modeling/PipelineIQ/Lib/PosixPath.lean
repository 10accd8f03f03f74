import Mathlib.Data.List.Basic
import PipelineIQ.Lib.Strings

namespace PipelineIQ.Lib.PosixPath

open PipelineIQ.Lib.Strings

def dot : Text := ['.']

def dotdot : Text := ['.', '.']

/-! ### Normalising a path -/

/-- The slashes that an absolute path begins with, of which two stay two, and what follows. -/
def splitroot : Text → Text × Text
  | '/' :: '/' :: '/' :: path => (['/'], '/' :: '/' :: path)
  | '/' :: '/' :: path => (['/', '/'], path)
  | '/' :: path => (['/'], path)
  | path => ([], path)

def addComp (rooted : Bool) (comps : List Text) (comp : Text) : List Text :=
  if comp = [] ∨ comp = dot then comps
  else if comp ≠ dotdot ∨ (rooted = false ∧ comps = []) ∨ comps.getLast? = some dotdot then
    comps ++ [comp]
  else comps.dropLast

def normpath (path : Text) : Text :=
  if path = [] then dot
  else
    let (root, rest) := splitroot path
    let comps := (rest.splitOn '/').foldl (addComp !root.isEmpty) []
    let path := root ++ ['/'].intercalate comps
    if path = [] then dot else path

/-! ### Walking down from a root -/

/-- One segment further; nothing is above the root. -/
def descend (dir : List Text) (segment : Text) : Option (List Text) :=
  if segment = [] ∨ segment = dot then some dir
  else if segment = dotdot then if dir = [] then none else some dir.dropLast
  else some (dir ++ [segment])

def resolve (segments : List Text) : Option (List Text) := segments.foldlM descend []

/-- A segment that is the name of something below. -/
def Proper (segment : Text) : Prop := segment ≠ [] ∧ segment ≠ dot ∧ segment ≠ dotdot

instance : DecidablePred Proper := fun _ => inferInstanceAs (Decidable (_ ∧ _))

variable {dir dir' segments : List Text} {segment path : Text}

theorem descend_proper (h : Proper segment) : descend dir segment = some (dir ++ [segment]) := by
  rw [descend, if_neg (not_or.mpr ⟨h.1, h.2.1⟩), if_neg h.2.2]

theorem foldlM_proper (h : ∀ s ∈ segments, Proper s) :
    segments.foldlM descend dir = some (dir ++ segments) := by
  induction segments generalizing dir with
  | nil => simp
  | cons s rest ih =>
    rw [List.foldlM_cons, descend_proper (h s List.mem_cons_self), Option.bind_eq_bind,
      Option.bind_some, ih fun t ht => h t (List.mem_cons_of_mem s ht), List.append_assoc,
      List.singleton_append]

theorem proper_of_descend (hdir : ∀ s ∈ dir, Proper s) (h : descend dir segment = some dir') :
    ∀ s ∈ dir', Proper s := by
  rw [descend] at h
  split at h
  · exact Option.some.inj h ▸ hdir
  · next hplain =>
    split at h
    · split at h
      · cases h
      · exact Option.some.inj h ▸ fun s hs => hdir s ((List.dropLast_sublist _).subset hs)
    · next hdotdot =>
      rw [not_or] at hplain
      intro s hs
      rw [← Option.some.inj h] at hs
      cases List.mem_append.mp hs with
      | inl hs => exact hdir s hs
      | inr hs => exact List.mem_singleton.mp hs ▸ ⟨hplain.1, hplain.2, hdotdot⟩

/-! ### A normalised path is where the walk ends -/

theorem getLast?_ne_dotdot (hdir : ∀ s ∈ dir, Proper s) : dir.getLast? ≠ some dotdot := by
  intro h
  exact (hdir dotdot (List.mem_of_getLast? h)).2.2 rfl

theorem addComp_of_descend (hdir : ∀ s ∈ dir, Proper s) (h : descend dir segment = some dir') :
    addComp false dir segment = dir' := by
  rw [descend] at h
  rw [addComp]
  split at h
  · next hplain =>
    rw [if_pos hplain]
    exact Option.some.inj h
  · next hplain =>
    rw [if_neg hplain]
    split at h
    · next hdotdot =>
      split at h
      · cases h
      · next hne =>
        rw [if_neg]
        · exact Option.some.inj h
        · simp [hdotdot, hne, getLast?_ne_dotdot hdir]
    · next hdotdot =>
      rw [if_pos (.inl hdotdot)]
      exact Option.some.inj h

/-- Above the root, `..` stays. -/
theorem addComp_of_descend_eq_none (h : descend dir segment = none) :
    addComp false dir segment = [dotdot] := by
  rw [descend] at h
  split at h
  · cases h
  · next hplain =>
    split at h
    · next hdotdot =>
      split at h
      · next hdir => rw [addComp, if_neg hplain, if_pos (.inr (.inl ⟨rfl, hdir⟩)), hdir, hdotdot,
          List.nil_append]
      · cases h
    · cases h

theorem head?_addComp (h : dir.head? = some dotdot) :
    (addComp false dir segment).head? = some dotdot := by
  obtain ⟨rest, rfl⟩ := List.head?_eq_some_iff.mp h
  rw [addComp]
  split
  · rfl
  · split
    · rfl
    · next hpop =>
      rw [not_or, not_or] at hpop
      cases rest with
      | nil => exact absurd rfl hpop.2.2
      | cons s rest => rfl

theorem head?_foldl_addComp (h : dir.head? = some dotdot) :
    (segments.foldl (addComp false) dir).head? = some dotdot := by
  induction segments generalizing dir with
  | nil => exact h
  | cons s rest ih => exact ih (head?_addComp h)

theorem foldl_addComp (hdir : ∀ s ∈ dir, Proper s)
    (h : segments.foldlM descend dir = some dir') :
    segments.foldl (addComp false) dir = dir' ∧ ∀ s ∈ dir', Proper s := by
  induction segments generalizing dir with
  | nil =>
    cases h
    exact ⟨rfl, hdir⟩
  | cons s rest ih =>
    rw [List.foldlM_cons] at h
    obtain ⟨below, hbelow, h⟩ := Option.bind_eq_some_iff.mp h
    rw [List.foldl_cons, addComp_of_descend hdir hbelow]
    exact ih (proper_of_descend hdir hbelow) h

theorem foldl_addComp_of_eq_none (hdir : ∀ s ∈ dir, Proper s)
    (h : segments.foldlM descend dir = none) :
    (segments.foldl (addComp false) dir).head? = some dotdot := by
  induction segments generalizing dir with
  | nil => cases h
  | cons s rest ih =>
    rw [List.foldlM_cons] at h
    rw [List.foldl_cons]
    cases hbelow : descend dir s with
    | none =>
      rw [addComp_of_descend_eq_none hbelow]
      exact head?_foldl_addComp rfl
    | some below =>
      rw [hbelow] at h
      rw [addComp_of_descend hdir hbelow]
      exact ih (proper_of_descend hdir hbelow) h

theorem mem_foldl_addComp {rooted : Bool} (h : segment ∈ segments.foldl (addComp rooted) dir) :
    segment ∈ dir ∨ segment ∈ segments := by
  induction segments generalizing dir with
  | nil => exact .inl h
  | cons s rest ih =>
    cases ih h with
    | inr hrest => exact .inr (List.mem_cons_of_mem s hrest)
    | inl hmem =>
      rw [addComp] at hmem
      split at hmem
      · exact .inl hmem
      · split at hmem
        · cases List.mem_append.mp hmem with
          | inl hmem => exact .inl hmem
          | inr hmem => exact .inr (List.mem_singleton.mp hmem ▸ List.mem_cons_self)
        · exact .inl ((List.dropLast_sublist _).subset hmem)

/-! ### Texts -/

theorem slash_not_mem_splitOn (path : Text) : ∀ s ∈ path.splitOn '/', '/' ∉ s := by
  induction path with
  | nil => simp
  | cons c path ih =>
    rw [List.splitOn_cons_eq_if_modifyHead]
    split
    · intro s hs
      cases List.mem_cons.mp hs with
      | inl hs => exact hs ▸ List.not_mem_nil
      | inr hs => exact ih s hs
    · next hc =>
      obtain ⟨first, rest, hsplit⟩ := List.exists_cons_of_ne_nil (List.splitOn_ne_nil '/' path)
      rw [hsplit] at ih ⊢
      intro s hs
      cases List.mem_cons.mp hs with
      | inl hs =>
        rw [hs, List.mem_cons, not_or]
        exact ⟨fun h => hc (beq_iff_eq.mpr h.symm), ih first List.mem_cons_self⟩
      | inr hs => exact ih s (List.mem_cons_of_mem first hs)

theorem mem_intercalate {c : Char} (hc : c ≠ '/') :
    c ∈ ['/'].intercalate segments ↔ ∃ s ∈ segments, c ∈ s := by
  induction segments with
  | nil => simp
  | cons s rest ih =>
    by_cases hrest : rest = []
    · simp [hrest]
    · rw [List.intercalate_cons_of_ne_nil hrest]
      simp [ih, hc]

theorem splitroot_of_relative (h : path.head? ≠ some '/') : splitroot path = ([], path) := by
  cases path with
  | nil => rfl
  | cons c path =>
    have hne : c ≠ '/' := fun heq => h (congrArg some heq)
    rw [splitroot]
    all_goals
      intro rest heq
      exact hne (List.cons.inj heq).1

theorem head?_normpath_of_absolute (h : path.head? = some '/') :
    (normpath path).head? = some '/' := by
  obtain ⟨rest, rfl⟩ := List.head?_eq_some_iff.mp h
  have hroot : ∃ more, (splitroot ('/' :: rest)).1 = '/' :: more := by
    unfold splitroot
    split
    · exact ⟨[], rfl⟩
    · exact ⟨['/'], rfl⟩
    · exact ⟨[], rfl⟩
    · next habsurd => exact absurd rfl (habsurd rest)
  obtain ⟨more, hmore⟩ := hroot
  rw [normpath, if_neg (List.cons_ne_nil _ _)]
  dsimp only
  rw [hmore, List.cons_append, if_neg (List.cons_ne_nil _ _)]
  rfl

theorem normpath_of_relative (hne : path ≠ []) (h : path.head? ≠ some '/') :
    normpath path =
      let comps := (path.splitOn '/').foldl (addComp false) []
      if ['/'].intercalate comps = [] then dot else ['/'].intercalate comps := by
  rw [normpath, if_neg hne, splitroot_of_relative h]
  rfl

theorem splitOn_resolved (hne : dir ≠ []) (hslash : ∀ s ∈ dir, '/' ∉ s) :
    (['/'].intercalate dir).splitOn '/' = dir := List.splitOn_intercalate '/' hslash hne

end PipelineIQ.Lib.PosixPath

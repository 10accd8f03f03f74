import PipelineIQ.Lib.PosixPath

namespace PipelineIQ.Storage.StorageKey

open PipelineIQ.Lib.Strings PipelineIQ.Lib.PosixPath

/-- `Invalid storage key`, with the key as it came. -/
structure InvalidStorageKey where
  key : Text
  deriving DecidableEq, Repr

/-- `key.replace("\\", "/")`. -/
def slashed (key : Text) : Text := key.map fun c => if c = '\\' then '/' else c

def validateStorageKey (key : Text) : Except InvalidStorageKey Text :=
  if key = [] ∨ '\x00' ∈ key then .error ⟨key⟩
  else
    let normalized := normpath (slashed key)
    if normalized = dot ∨ normalized = [] ∨ normalized.head? = some '/' then .error ⟨key⟩
    else if (normalized.splitOn '/').any fun part => decide (part ∈ [[], dot, dotdot]) then
      .error ⟨key⟩
    else .ok normalized

/-! ### Keys and the objects that they name -/

def isAbsolute (path : Text) : Prop := path.head? = some '/'

/-- Where the segments of a path lead to from the root that it is relative to. -/
def target (path : Text) : Option (List Text) := resolve (path.splitOn '/')

variable {key path : Text} {segments : List Text}

theorem not_proper_iff {segment : Text} : segment ∈ [[], dot, dotdot] ↔ ¬ Proper segment := by
  simp only [List.mem_cons, List.not_mem_nil, or_false, Proper]
  tauto

theorem any_improper :
    (segments.any fun part => decide (part ∈ [[], dot, dotdot])) = false ↔
      ∀ s ∈ segments, Proper s := by
  simp only [List.any_eq_false, decide_eq_true_iff, not_proper_iff, not_not]

theorem intercalate_ne_nil (hne : segments ≠ []) (hproper : ∀ s ∈ segments, Proper s)
    (hslash : ∀ s ∈ segments, '/' ∉ s) :
    ['/'].intercalate segments ≠ [] ∧ ['/'].intercalate segments ≠ dot ∧
      (['/'].intercalate segments).head? ≠ some '/' := by
  have hsplit := splitOn_resolved hne hslash
  refine ⟨fun h => ?_, fun h => ?_, fun h => ?_⟩
  · rw [h, List.splitOn_nil] at hsplit
    exact (hproper [] (hsplit ▸ List.mem_cons_self)).1 rfl
  · rw [h, show dot.splitOn '/' = [dot] by decide] at hsplit
    exact (hproper dot (hsplit ▸ List.mem_cons_self)).2.1 rfl
  · obtain ⟨rest, hrest⟩ := List.head?_eq_some_iff.mp h
    rw [hrest, List.splitOn_cons_eq_if_modifyHead, if_pos (beq_self_eq_true '/')] at hsplit
    exact (hproper [] (hsplit ▸ List.mem_cons_self)).1 rfl

/-- The path of a target below the root. -/
theorem validate_below (hne : key ≠ []) (hnul : '\x00' ∉ key) (hrel : ¬ isAbsolute (slashed key))
    (h : target (slashed key) = some segments) (hsegments : segments ≠ []) :
    validateStorageKey key = .ok (['/'].intercalate segments) ∧
      (['/'].intercalate segments).splitOn '/' = segments ∧ ∀ s ∈ segments, Proper s := by
  obtain ⟨hfold, hproper⟩ := foldl_addComp (fun _ hs => absurd hs List.not_mem_nil) h
  have hslash : ∀ s ∈ segments, '/' ∉ s := by
    intro s hs
    rw [← hfold] at hs
    exact slash_not_mem_splitOn _ s ((mem_foldl_addComp hs).resolve_left List.not_mem_nil)
  obtain ⟨hnil, hdot, hhead⟩ := intercalate_ne_nil hsegments hproper hslash
  have hsplit := splitOn_resolved hsegments hslash
  have hslashed : slashed key ≠ [] := by
    rwa [slashed, Ne, List.map_eq_nil_iff]
  refine ⟨?_, hsplit, hproper⟩
  rw [validateStorageKey, if_neg (not_or.mpr ⟨hne, hnul⟩), normpath_of_relative hslashed hrel]
  dsimp only
  rw [hfold, if_neg hnil, if_neg (not_or.mpr ⟨hdot, not_or.mpr ⟨hnil, hhead⟩⟩), hsplit,
    any_improper.mpr hproper]
  rfl

theorem validate_of_nul (h : key = [] ∨ '\x00' ∈ key) :
    validateStorageKey key = .error ⟨key⟩ := by
  rw [validateStorageKey, if_pos h]

theorem validate_of_absolute (h : isAbsolute (slashed key)) :
    validateStorageKey key = .error ⟨key⟩ := by
  rw [validateStorageKey]
  split
  · rfl
  · dsimp only
    rw [if_pos (.inr (.inr (head?_normpath_of_absolute h)))]

theorem validate_at_root (hrel : ¬ isAbsolute (slashed key)) (h : target (slashed key) = some []) :
    validateStorageKey key = .error ⟨key⟩ := by
  rw [validateStorageKey]
  split
  · rfl
  · next hkey =>
    have hslashed : slashed key ≠ [] := by
      rw [slashed, Ne, List.map_eq_nil_iff]
      exact fun heq => hkey (.inl heq)
    rw [normpath_of_relative hslashed hrel,
      (foldl_addComp (fun _ hs => absurd hs List.not_mem_nil) h).1]
    rfl

/-- Above the root, the normalised path begins with `..`. -/
theorem validate_above (hrel : ¬ isAbsolute (slashed key)) (h : target (slashed key) = none) :
    validateStorageKey key = .error ⟨key⟩ := by
  rw [validateStorageKey]
  split
  · rfl
  · next hkey =>
    have hslashed : slashed key ≠ [] := by
      rw [slashed, Ne, List.map_eq_nil_iff]
      exact fun heq => hkey (.inl heq)
    have hhead := foldl_addComp_of_eq_none (fun _ hs => absurd hs List.not_mem_nil) h
    rw [normpath_of_relative hslashed hrel]
    dsimp only
    generalize hcomps : ((slashed key).splitOn '/').foldl (addComp false) [] = comps at hhead ⊢
    obtain ⟨rest, rfl⟩ := List.head?_eq_some_iff.mp hhead
    have hslash : ∀ s ∈ dotdot :: rest, '/' ∉ s := by
      intro s hs
      rw [← hcomps] at hs
      exact slash_not_mem_splitOn _ s ((mem_foldl_addComp hs).resolve_left List.not_mem_nil)
    have hsplit := splitOn_resolved (List.cons_ne_nil _ _) hslash
    have hnil : ['/'].intercalate (dotdot :: rest) ≠ [] := by
      intro hnil
      rw [hnil, List.splitOn_nil] at hsplit
      cases hsplit
    rw [if_neg hnil, hsplit]
    split
    · rfl
    · rw [List.any_cons, decide_eq_true (not_proper_iff.mpr fun hp => hp.2.2 rfl), Bool.true_or]
      rfl

theorem not_mem_slashed : '\\' ∉ slashed key := by
  intro h
  obtain ⟨c, -, hc⟩ := List.mem_map.mp h
  split at hc
  · cases hc
  · next hne => exact hne hc

theorem nul_mem_slashed (h : '\x00' ∈ slashed key) : '\x00' ∈ key := by
  obtain ⟨c, hmem, hc⟩ := List.mem_map.mp h
  split at hc
  · cases hc
  · exact hc ▸ hmem

theorem slashed_of_not_mem (h : '\\' ∉ path) : slashed path = path := by
  rw [slashed, List.map_eq_iff]
  intro i
  cases hi : path[i]? with
  | none => rfl
  | some c =>
    have hc : c ≠ '\\' := fun heq => h (heq ▸ List.mem_of_getElem? hi)
    rw [Option.map_some, if_neg hc]

/-- A character of the result that is no slash is one of the key. -/
theorem mem_slashed_of_mem (h : target (slashed key) = some segments) {c : Char} (hc : c ≠ '/')
    (hmem : c ∈ ['/'].intercalate segments) : c ∈ slashed key := by
  obtain ⟨s, hs, hcs⟩ := (mem_intercalate hc).mp hmem
  rw [← (foldl_addComp (fun _ ht => absurd ht List.not_mem_nil) h).1] at hs
  have hsegment := (mem_foldl_addComp hs).resolve_left List.not_mem_nil
  have hjoined : ['/'].intercalate ((slashed key).splitOn '/') = slashed key :=
    List.intercalate_splitOn '/'
  rw [← hjoined]
  exact (mem_intercalate hc).mpr ⟨s, hsegment, hcs⟩

theorem validate_validated (hne : key ≠ []) (hnul : '\x00' ∉ key)
    (hrel : ¬ isAbsolute (slashed key)) (h : target (slashed key) = some segments)
    (hsegments : segments ≠ []) :
    validateStorageKey (['/'].intercalate segments) = .ok (['/'].intercalate segments) := by
  obtain ⟨-, hsplit, hproper⟩ := validate_below hne hnul hrel h hsegments
  have hslash : ∀ s ∈ segments, '/' ∉ s := by
    intro s hs
    rw [← hsplit] at hs
    exact slash_not_mem_splitOn _ s hs
  obtain ⟨hnil, -, hhead⟩ := intercalate_ne_nil hsegments hproper hslash
  have hself : slashed (['/'].intercalate segments) = ['/'].intercalate segments := by
    apply slashed_of_not_mem
    exact fun hmem => not_mem_slashed (mem_slashed_of_mem h (by decide) hmem)
  have htarget : target (slashed (['/'].intercalate segments)) = some segments := by
    rw [hself, target, hsplit, resolve, foldlM_proper hproper, List.nil_append]
  refine (validate_below hnil ?_ ?_ htarget hsegments).1
  · exact fun hmem => hnul (nul_mem_slashed (mem_slashed_of_mem h (by decide) hmem))
  · rw [hself]
    exact hhead

/-- Joined to any directory, a path of proper segments leads to something below it. -/
theorem target_join (hsplit : path.splitOn '/' = segments) (hproper : ∀ s ∈ segments, Proper s)
    {base : Text} {dir : List Text} (hbase : target base = some dir) :
    target (base ++ '/' :: path) = some (dir ++ segments) := by
  rw [target, resolve, List.splitOn_append_cons_self, hsplit, List.foldlM_append,
    show (base.splitOn '/').foldlM descend [] = some dir from hbase]
  exact foldlM_proper hproper

/-- A key is refused exactly when it has a NUL, is absolute, or leads above the root or to it. Of
any other key the result is the path from the root to where the key leads, its own result, and
the path of something below every directory that it is joined to. -/
theorem storage_key_iff (key : Text) :
    (validateStorageKey key = .error ⟨key⟩ ↔ '\x00' ∈ key ∨ isAbsolute (slashed key) ∨
      target (slashed key) = none ∨ target (slashed key) = some []) ∧
    ((∃ path, validateStorageKey key = .ok path) ∨ validateStorageKey key = .error ⟨key⟩) ∧
    ∀ path, validateStorageKey key = .ok path →
      target (slashed key) = some (path.splitOn '/') ∧ path ≠ [] ∧
      (∀ s ∈ path.splitOn '/', s ≠ [] ∧ s ≠ dot ∧ s ≠ dotdot) ∧
      (∀ base dir, target base = some dir →
        target (base ++ '/' :: path) = some (dir ++ path.splitOn '/')) ∧
      validateStorageKey path = .ok path := by
  by_cases hnul : '\x00' ∈ key
  · have herror := validate_of_nul (.inr hnul)
    exact ⟨iff_of_true herror (.inl hnul), .inr herror, fun path h => nomatch herror.symm.trans h⟩
  by_cases habs : isAbsolute (slashed key)
  · have herror := validate_of_absolute habs
    exact ⟨iff_of_true herror (.inr (.inl habs)), .inr herror,
      fun path h => nomatch herror.symm.trans h⟩
  cases htarget : target (slashed key) with
  | none =>
    have herror := validate_above habs htarget
    exact ⟨iff_of_true herror (.inr (.inr (.inl rfl))), .inr herror,
      fun path h => nomatch herror.symm.trans h⟩
  | some segments =>
    by_cases hsegments : segments = []
    · subst hsegments
      have herror := validate_at_root habs htarget
      exact ⟨iff_of_true herror (.inr (.inr (.inr rfl))), .inr herror,
        fun path h => nomatch herror.symm.trans h⟩
    · have hne : key ≠ [] := by
        rintro rfl
        exact hsegments (Option.some.inj (htarget.symm.trans rfl))
      obtain ⟨hok, hsplit, hproper⟩ := validate_below hne hnul habs htarget hsegments
      refine ⟨iff_of_false (fun h => nomatch hok.symm.trans h) ?_, .inl ⟨_, hok⟩, ?_⟩
      · simp [hnul, habs, hsegments]
      · intro path h
        obtain rfl := Except.ok.inj (hok.symm.trans h)
        rw [hsplit]
        refine ⟨rfl, ?_, hproper, ?_, validate_validated hne hnul habs htarget hsegments⟩
        · intro hnil
          rw [hnil, List.splitOn_nil] at hsplit
          exact (hproper [] (hsplit ▸ List.mem_cons_self)).1 rfl
        · exact fun base dir hbase => target_join hsplit hproper hbase

example : validateStorageKey "a//b/../c\\.\\d".toList = .ok "a/c/d".toList ∧
    validateStorageKey "a/../../a/b".toList = .error ⟨"a/../../a/b".toList⟩ := by
  decide

end PipelineIQ.Storage.StorageKey

import PipelineIQ.Lib.Traverse
import PipelineIQ.Healing.Attempts

namespace PipelineIQ.Healing.AttemptLog

open PipelineIQ.Lib PipelineIQ.Lib.Strings PipelineIQ.Lib.Yaml PipelineIQ.Lib.Traverse
open PipelineIQ.Healing.Attempts

/-! ### What an attempt comes to -/

section Attempt

variable (services : Services) (n : Nat)

/-- The call of the model raises a quota error. -/
def QuotaAt : Prop := ∃ exc, services.callGemini n = .error exc ∧ (isQuotaError exc).isSome

/-- The response is a valid patch that applies, and the sandbox accepts the patched text. -/
def Heals : Prop :=
  ∃ rawResponse patch patchedYaml, services.callGemini n = .ok rawResponse ∧
    parseGeminiPatch services rawResponse = .ok patch ∧
    validateHealingPatch services.python patch = none ∧ (get patch "patches").truthy = true ∧
    services.applyPatch n patch = .ok patchedYaml ∧
    (services.runPatchInSandbox n patchedYaml).success = true

/-- The log of a call of `attempt_heal` and its result. -/
structure LogOf (rows : List HealingAttempt) (result : HealingResult) : Prop where
  numbered : rows.map HealingAttempt.attemptNumber = List.range' 1 rows.length
  appliedLast : ∀ i (hi : i < rows.length), rows[i].status = .APPLIED → i + 1 = rows.length
  appliedIff : (∃ row ∈ rows, row.status = .APPLIED) ↔ result.success = true ∧
    ∃ patchedYaml, result.patchedYaml = some patchedYaml ∧
      (services.runPatchInSandbox rows.length patchedYaml).success = true ∧
      (rows.getLast?).bind HealingAttempt.proposedYaml = some patchedYaml
  count : result.attempts = rows.length

end Attempt

variable {services : Services} {n : Nat}

theorem not_heals_of_quota (h : QuotaAt services n) : ¬ Heals services n := by
  rintro ⟨rawResponse, patch, patchedYaml, hcall, -⟩
  obtain ⟨exc, herror, -⟩ := h
  rw [hcall] at herror
  cases herror

/-- A row that is not of an applied patch. -/
def Unapplied (n : Nat) (row : HealingAttempt) : Prop :=
  row.attemptNumber = n ∧ row.status ≠ .APPLIED

/-- The row and the result of an applied patch. -/
structure Applied (services : Services) (n : Nat) (row : HealingAttempt) (result : HealingResult) :
    Prop where
  number : row.attemptNumber = n
  status : row.status = .APPLIED
  success : result.success = true
  patched : ∃ patchedYaml, row.proposedYaml = some patchedYaml ∧
    result.patchedYaml = some patchedYaml ∧
    (services.runPatchInSandbox n patchedYaml).success = true
  attempts : result.attempts = n
  heals : Heals services n

/-- A response ends in a row that is not applied, or in an applied patch. -/
theorem attemptPatch_cases {rawResponse : Text} (hcall : services.callGemini n = .ok rawResponse) :
    (∃ row, attemptPatch services n rawResponse = (row, .next) ∧ Unapplied n row ∧
      ¬ Heals services n) ∨
    ∃ row result, attemptPatch services n rawResponse = (row, .returned result) ∧
      Applied services n row result := by
  have hheals (h : Heals services n) : ∃ patch patchedYaml,
      parseGeminiPatch services rawResponse = .ok patch ∧
      validateHealingPatch services.python patch = none ∧ (get patch "patches").truthy = true ∧
      services.applyPatch n patch = .ok patchedYaml ∧
      (services.runPatchInSandbox n patchedYaml).success = true := by
    obtain ⟨rawResponse', patch, patchedYaml, hcall', h⟩ := h
    rw [hcall, Except.ok.injEq] at hcall'
    subst hcall'
    exact ⟨patch, patchedYaml, h⟩
  unfold attemptPatch
  cases hparse : parseGeminiPatch services rawResponse with
  | error exc =>
    refine .inl ⟨_, rfl, ⟨rfl, fun h => nomatch h⟩, fun h => ?_⟩
    obtain ⟨patch, patchedYaml, h, -⟩ := hheals h
    rw [hparse] at h
    cases h
  | ok patch =>
    dsimp only
    cases hvalid : validateHealingPatch services.python patch with
    | some validationError =>
      refine .inl ⟨_, rfl, ⟨rfl, fun h => nomatch h⟩, fun h => ?_⟩
      obtain ⟨patch', patchedYaml, h, h', -⟩ := hheals h
      rw [hparse, Except.ok.injEq] at h
      rw [← h, hvalid] at h'
      cases h'
    | none =>
      dsimp only
      split
      · next hempty =>
        refine .inl ⟨_, rfl, ⟨rfl, fun h => nomatch h⟩, fun h => ?_⟩
        obtain ⟨patch', patchedYaml, h, -, h', -⟩ := hheals h
        rw [hparse, Except.ok.injEq] at h
        rw [← h, hempty] at h'
        cases h'
      · next hpatches =>
        cases happly : services.applyPatch n patch with
        | error exc =>
          refine .inl ⟨_, rfl, ⟨rfl, fun h => nomatch h⟩, fun h => ?_⟩
          obtain ⟨patch', patchedYaml, h, -, -, h', -⟩ := hheals h
          rw [hparse, Except.ok.injEq] at h
          rw [← h, happly] at h'
          cases h'
        | ok patchedYaml =>
          dsimp only
          split
          · next hsandbox =>
            refine .inl ⟨_, rfl, ⟨rfl, fun h => nomatch h⟩, fun h => ?_⟩
            obtain ⟨patch', patchedYaml', h, -, -, h', h''⟩ := hheals h
            rw [hparse, Except.ok.injEq] at h
            rw [← h, happly, Except.ok.injEq] at h'
            rw [← h', hsandbox] at h''
            cases h''
          · next hsandbox =>
            rw [Bool.not_eq_false] at hpatches hsandbox
            refine .inr ⟨_, _, rfl, rfl, rfl, rfl, ⟨patchedYaml, rfl, rfl, hsandbox⟩, rfl, ?_⟩
            exact ⟨rawResponse, patch, patchedYaml, hcall, hparse, hvalid, hpatches, happly, hsandbox⟩

/-- All that one attempt can come to. -/
theorem attempt_cases (services : Services) (n : Nat) :
    (∃ row, attempt services n = (row, .next) ∧ Unapplied n row ∧ ¬ Heals services n ∧
      ¬ QuotaAt services n) ∨
    (∃ row, attempt services n = (row, .broken) ∧ Unapplied n row ∧ QuotaAt services n) ∨
    ∃ row result, attempt services n = (row, .returned result) ∧ Applied services n row result := by
  unfold attempt
  cases hcall : services.callGemini n with
  | error exc =>
    dsimp only
    by_cases hquota : (isQuotaError exc).isSome
    · rw [if_pos hquota]
      exact .inr (.inl ⟨_, rfl, ⟨rfl, fun h => nomatch h⟩, exc, hcall, hquota⟩)
    · rw [if_neg hquota]
      refine .inl ⟨_, rfl, ⟨rfl, fun h => nomatch h⟩, ?_, ?_⟩
      · rintro ⟨rawResponse, patch, patchedYaml, h, -⟩
        rw [hcall] at h
        cases h
      · rintro ⟨exc', h, hquota'⟩
        rw [hcall, Except.error.injEq] at h
        exact hquota (h ▸ hquota')
  | ok rawResponse =>
    have hnot : ¬ QuotaAt services n := by
      rintro ⟨exc, h, -⟩
      rw [hcall] at h
      cases h
    rcases attemptPatch_cases hcall with ⟨row, h, hrow, hheals⟩ | ⟨row, result, h, happlied⟩
    · exact .inl ⟨row, h, hrow, hheals, hnot⟩
    · exact .inr (.inr ⟨row, result, h, happlied⟩)

/-! ### The whole log -/

/-- Attempts from `start` on that neither heal nor stop the loop. -/
structure Quiet (services : Services) (start : Nat) (rows : List HealingAttempt) : Prop where
  unapplied : List.Forall₂ Unapplied (List.range' start rows.length) rows
  quiet : ∀ n, start ≤ n → n < start + rows.length → ¬ Heals services n ∧ ¬ QuotaAt services n

theorem Quiet.nil {start : Nat} : Quiet services start [] :=
  ⟨.nil, fun _ h h' => absurd h' (Nat.not_lt.mpr h)⟩

theorem Quiet.cons {start : Nat} {row : HealingAttempt} {rows : List HealingAttempt}
    (h : Quiet services (start + 1) rows) (hrow : Unapplied start row)
    (hheals : ¬ Heals services start) (hquota : ¬ QuotaAt services start) :
    Quiet services start (row :: rows) := by
  constructor
  · rw [List.length_cons, List.range'_succ]
    exact .cons hrow h.unapplied
  · intro n hle hlt
    rw [List.length_cons] at hlt
    by_cases hn : n = start
    · subst hn
      exact ⟨hheals, hquota⟩
    · exact h.quiet n (by omega) (by omega)

/-- The loop uses up its attempts, stops at a quota error or returns at an applied patch. -/
theorem loop_cases (services : Services) (start len : Nat) (rows : List HealingAttempt) :
    ∃ quiet, Quiet services start quiet ∧
      ((quiet.length = len ∧ loop services (List.range' start len) rows = (rows ++ quiet, exhausted)) ∨
      (∃ row, quiet.length < len ∧ QuotaAt services (start + quiet.length) ∧
        Unapplied (start + quiet.length) row ∧
        loop services (List.range' start len) rows = (rows ++ quiet ++ [row], exhausted)) ∨
      ∃ row result, quiet.length < len ∧ Applied services (start + quiet.length) row result ∧
        loop services (List.range' start len) rows = (rows ++ quiet ++ [row], result)) := by
  induction len generalizing start rows with
  | zero =>
    refine ⟨[], Quiet.nil, .inl ⟨rfl, ?_⟩⟩
    rw [List.append_nil]
    rfl
  | succ len ih =>
    rw [List.range'_succ]
    unfold loop
    rcases attempt_cases services start with ⟨row, h, hrow, hheals, hquota⟩ | ⟨row, h, hrow, hquota⟩ |
      ⟨row, result, h, happlied⟩
    · rw [h]
      obtain ⟨quiet, hquiet, hrest⟩ := ih (start + 1) (rows ++ [row])
      have hshift : start + 1 + quiet.length = start + (row :: quiet).length := by
        rw [List.length_cons]
        omega
      rw [hshift, List.append_assoc rows, List.singleton_append] at hrest
      refine ⟨row :: quiet, hquiet.cons hrow hheals hquota, ?_⟩
      rw [List.length_cons, Nat.add_right_cancel_iff, Nat.add_lt_add_iff_right]
      exact hrest
    · rw [h]
      refine ⟨[], Quiet.nil, .inr (.inl ⟨row, Nat.zero_lt_succ len, hquota, hrow, ?_⟩)⟩
      rw [List.append_nil]
    · rw [h]
      refine ⟨[], Quiet.nil, .inr (.inr ⟨row, result, Nat.zero_lt_succ len, happlied, ?_⟩)⟩
      rw [List.append_nil]

theorem Quiet.numbered {start : Nat} {rows : List HealingAttempt} (h : Quiet services start rows) :
    rows.map HealingAttempt.attemptNumber = List.range' start rows.length := by
  rw [← List.forall₂_eq_eq_eq, List.forall₂_map_left_iff]
  exact h.unapplied.flip.imp fun row n hrow => hrow.1

theorem Quiet.status {start : Nat} {rows : List HealingAttempt} (h : Quiet services start rows) :
    ∀ row ∈ rows, row.status ≠ .APPLIED := by
  intro row hrow
  obtain ⟨n, -, hn⟩ := forall₂_mem_right h.unapplied hrow
  exact hn.2

theorem logOf_unapplied {rows : List HealingAttempt} (hrows : ∀ row ∈ rows, row.status ≠ .APPLIED)
    (hnumbered : rows.map HealingAttempt.attemptNumber = List.range' 1 rows.length) :
    LogOf services rows exhausted ↔ rows.length = MAX_HEALING_RETRIES := by
  constructor
  · exact fun h => h.count.symm
  · intro hlen
    refine ⟨hnumbered, ?_, ?_, hlen.symm⟩
    · exact fun i hi h => absurd h (hrows _ (List.getElem_mem hi))
    · constructor
      · rintro ⟨row, hrow, h⟩
        exact absurd h (hrows row hrow)
      · rintro ⟨h, -⟩
        cases h

theorem numbered_concat {quiet : List HealingAttempt} {row : HealingAttempt}
    (h : Quiet services 1 quiet) (hrow : row.attemptNumber = 1 + quiet.length) :
    (quiet ++ [row]).map HealingAttempt.attemptNumber = List.range' 1 (quiet ++ [row]).length := by
  rw [List.map_append, h.numbered, List.length_append, List.length_singleton, List.range'_1_concat,
    List.map_singleton, hrow]

theorem logOf_applied {quiet : List HealingAttempt} {row : HealingAttempt} {result : HealingResult}
    (h : Quiet services 1 quiet) (happlied : Applied services (1 + quiet.length) row result) :
    LogOf services (quiet ++ [row]) result := by
  obtain ⟨patchedYaml, hproposed, hpatched, hsandbox⟩ := happlied.patched
  have hlen : (quiet ++ [row]).length = 1 + quiet.length := by
    rw [List.length_append, List.length_singleton, Nat.add_comm]
  refine ⟨numbered_concat h happlied.number, ?_, ?_, ?_⟩
  · intro i hi hstatus
    by_contra hlast
    have hi' : i < quiet.length := by omega
    rw [List.getElem_append_left hi'] at hstatus
    exact h.status _ (List.getElem_mem hi') hstatus
  · constructor
    · rintro -
      refine ⟨happlied.success, patchedYaml, hpatched, ?_, ?_⟩
      · rw [hlen]
        exact hsandbox
      · rw [List.getLast?_concat]
        exact hproposed
    · rintro -
      exact ⟨row, List.mem_append_right quiet List.mem_cons_self, happlied.status⟩
  · rw [hlen]
    exact happlied.attempts

/-- For all answers of the model, the parser, the applier and the sandbox, the log of
`attempt_heal` is right exactly when a quota error before the last attempt comes only after an
attempt that heals. -/
theorem attempt_log_iff (services : Services) :
    LogOf services (attemptHeal services).1 (attemptHeal services).2 ↔
      ∀ n, 1 ≤ n → n < MAX_HEALING_RETRIES → QuotaAt services n →
        ∃ m, 1 ≤ m ∧ m < n ∧ Heals services m := by
  obtain ⟨quiet, hquiet, hloop⟩ := loop_cases services 1 MAX_HEALING_RETRIES []
  have hbefore (m : Nat) (h : 1 ≤ m) (h' : m < 1 + quiet.length) :
      ¬ Heals services m ∧ ¬ QuotaAt services m := hquiet.quiet m h h'
  unfold attemptHeal
  rcases hloop with ⟨hlen, hloop⟩ | ⟨row, hlen, hquota, hrow, hloop⟩ |
    ⟨row, result, hlen, happlied, hloop⟩
  · -- all attempts are used up
    rw [hloop, List.nil_append, logOf_unapplied hquiet.status hquiet.numbered]
    refine iff_of_true hlen fun n hle hlt hn => ?_
    exact absurd hn (hbefore n hle (by omega)).2
  · -- a quota error breaks the loop off
    rw [hloop, List.nil_append, logOf_unapplied ?_ (numbered_concat hquiet hrow.1), List.length_append,
      List.length_singleton]
    · constructor
      · intro hcount n hle hlt hn
        exact absurd hn (hbefore n hle (by omega)).2
      · intro h
        by_contra hcount
        obtain ⟨m, hle, hlt, hheals⟩ := h (1 + quiet.length) (by omega) (by omega) hquota
        exact (hbefore m hle hlt).1 hheals
    · intro row' hrow'
      rcases List.mem_append.mp hrow' with hmem | hmem
      · exact hquiet.status row' hmem
      · rw [List.mem_singleton.mp hmem]
        exact hrow.2
  · -- a patch is applied
    rw [hloop, List.nil_append]
    refine iff_of_true (logOf_applied hquiet happlied) fun n hle hlt hn => ?_
    by_cases hlast : n < 1 + quiet.length
    · exact absurd hn (hbefore n hle hlast).2
    · refine ⟨1 + quiet.length, by omega, ?_, happlied.heals⟩
      have hne : n ≠ 1 + quiet.length := by
        rintro rfl
        exact not_heals_of_quota hn happlied.heals
      omega

section Examples

/-- A model whose quota is used up. -/
def outOfQuota : Services where
  callGemini _ := .error "429 Resource has been exhausted (e.g. check quota).".toList
  loads _ := .error []
  python := ⟨fun _ => []⟩
  applyPatch _ _ := .error []
  runPatchInSandbox _ _ := { success := false }

/-- One row, and three attempts in the result. -/
theorem quota_error_miscounted :
    (attemptHeal outOfQuota).1.length = 1 ∧ (attemptHeal outOfQuota).2.attempts = 3 ∧
      ¬ LogOf outOfQuota (attemptHeal outOfQuota).1 (attemptHeal outOfQuota).2 := by
  have hrows : (attemptHeal outOfQuota).1.length = 1 := by decide +kernel
  have hattempts : (attemptHeal outOfQuota).2.attempts = 3 := by decide +kernel
  refine ⟨hrows, hattempts, fun h => ?_⟩
  have hcount := h.count
  rw [hrows, hattempts] at hcount
  cases hcount

end Examples

end PipelineIQ.Healing.AttemptLog

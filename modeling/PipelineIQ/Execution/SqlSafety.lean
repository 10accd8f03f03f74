import PipelineIQ.Execution.SqlTrimming

namespace PipelineIQ.Execution.SqlSafety

open PipelineIQ.Lib.Strings PipelineIQ.Lib.Scan PipelineIQ.Execution.SqlBuilder
open PipelineIQ.Execution.SqlLexer PipelineIQ.Execution.SqlMasking
open PipelineIQ.Execution.SqlTrimming

variable {e : Engine} {u : Unicode} {mode : Mode} {context : Context} {c : Char}
  {text rest tail : Text} {tokens : List Token}

/-- A single statement that begins with SELECT or WITH and has no forbidden keyword and no
call of a forbidden function, by a bare or by a quoted name. -/
structure Harmless (tokens : List Token) : Prop where
  single : ∀ before after, tokens = before ++ .other ';' :: after → after = []
  leading : ∃ glued word rest, tokens = .word glued word :: rest ∧
    lowerCase word ∈ ["select".toList, "with".toList]
  keywords : ∀ glued word, .word glued word ∈ tokens → lowerCase word ∉ forbiddenSqlKeywords
  calls : ∀ glued word, Calls tokens (.word glued word) → lowerCase word ∉ forbiddenSqlFunctions
  quotedCalls : ∀ name, Calls tokens (.quoted name) → lowerCase name ∉ forbiddenSqlFunctions

/-- The engine reads a query as a harmless token stream. -/
def ReadsHarmless (e : Engine) (query : Text) : Prop :=
  ∃ tokens, e.lex query = some tokens ∧ Harmless tokens

/-- No forbidden word is glued to a number, and no forbidden function is called by its
quoted name. -/
structure NothingHidden (tokens : List Token) : Prop where
  keywords : ∀ word, .word true word ∈ tokens → lowerCase word ∉ forbiddenSqlKeywords
  calls : ∀ word, Calls tokens (.word true word) → lowerCase word ∉ forbiddenSqlFunctions
  quotedCalls : ∀ name, Calls tokens (.quoted name) → lowerCase name ∉ forbiddenSqlFunctions

theorem Harmless.nothingHidden (h : Harmless tokens) : NothingHidden tokens :=
  ⟨h.keywords true, h.calls true, h.quotedCalls⟩

section Found

variable {before after blank mask word : Text}

theorem search_append {pattern : Option Char → Text → Bool} {previous : Option Char}
    (h : pattern (before.getLast?.or previous) text = true) :
    search pattern previous (before ++ text) = true := by
  induction before generalizing previous with
  | nil => cases text <;> simp_all [search]
  | cons c before ih =>
    rw [List.cons_append, search, Bool.or_eq_true]
    apply Or.inr
    apply ih
    rw [List.getLast?_cons] at h
    cases hb : before.getLast? <;> simp_all

theorem startsWithWord_lowerCase : startsWithWord u (lowerCase word) (word ++ after) = true := by
  induction word with
  | nil => rfl
  | cons c word ih =>
    simp only [lowerCase, List.map_cons, List.cons_append, startsWithWord, Bool.and_eq_true]
    exact ⟨u.isFold_toLower _ c rfl, ih⟩

/-- Every character of a forbidden word is a letter or an underscore. -/
theorem isWord_of_toLower (h : c.toLower.isAlpha = true ∨ c.toLower = '_') :
    u.isWord c = true := by
  have hc : c.isAlpha = true ∨ c = '_' := by
    cases toLower_eq_or_isAlpha c with
    | inl he => rwa [he] at h
    | inr ha => exact .inl ha
  cases hc with
  | inl ha =>
    have hn := isAlpha_iff.mp ha
    rw [u.isWord_ascii c (by omega), Char.isAlphanum, ha]
    rfl
  | inr he =>
    rw [he, u.isWord_ascii '_' (by decide)]
    decide

def lettersOnly (word : Text) : Bool := word.all fun c => c.isAlpha || c == '_'

theorem isWord_of_mem (h : lettersOnly (lowerCase word) = true) (hc : c ∈ word) :
    u.isWord c = true := by
  apply isWord_of_toLower
  have hall := List.all_eq_true.mp h _ (List.mem_map_of_mem hc)
  simpa using hall

theorem wordBoundary_before (h : lettersOnly (lowerCase word) = true) (hne : word ≠ [])
    (hl : LeftBoundary u false before) :
    wordBoundary u before.getLast? (word ++ after).head? = true := by
  obtain ⟨c, rest, rfl⟩ := List.exists_cons_of_ne_nil hne
  have hc : u.isWord c = true := isWord_of_mem h (List.mem_cons_self ..)
  cases hb : before.getLast? with
  | none => simp [wordBoundary, hc]
  | some d => simp [wordBoundary, hc, hl rfl d hb]

theorem wordBoundary_after (h : lettersOnly (lowerCase word) = true) (hne : word ≠ [])
    (hr : ∀ c ∈ after.head?, u.isWord c = false) :
    wordBoundary u word.getLast? after.head? = true := by
  have hc : word.getLast? = some (word.getLast hne) := List.getLast?_eq_some_getLast hne
  generalize word.getLast hne = c at hc
  have hw : u.isWord c = true := isWord_of_mem h (List.mem_of_getLast? hc)
  cases ha : after.head? with
  | none => simp [wordBoundary, hc, hw]
  | some d => simp [wordBoundary, hc, hw, hr d ha]

theorem forbidden_letters : ∀ word ∈ forbiddenSqlKeywords ++ forbiddenSqlFunctions,
    lettersOnly word = true ∧ word ≠ [] := by
  decide

theorem search_keyword (hk : lowerCase word ∈ forbiddenSqlKeywords)
    (hl : LeftBoundary u false before) (hr : ∀ c ∈ after.head?, u.isWord c = false) :
    search (keywordAt u) none (before ++ word ++ after) = true := by
  obtain ⟨hletters, hne⟩ := forbidden_letters _ (List.mem_append_left _ hk)
  have hne : word ≠ [] := by
    rintro rfl
    exact hne rfl
  have hlen : (lowerCase word).length = word.length := List.length_map ..
  rw [List.append_assoc]
  apply search_append
  rw [Option.or_none, keywordAt, Bool.and_eq_true, List.any_eq_true]
  refine ⟨wordBoundary_before hletters hne hl, lowerCase word, hk, ?_⟩
  rw [Bool.and_eq_true, hlen, List.take_left', List.drop_left']
  · exact ⟨startsWithWord_lowerCase, wordBoundary_after hletters hne hr⟩
  · rfl
  · rfl

theorem search_function (hf : lowerCase word ∈ forbiddenSqlFunctions)
    (hl : LeftBoundary u false before) (hb : ∀ c ∈ blank, isSpace c = true) :
    search (functionAt u) none (before ++ word ++ blank ++ '(' :: after) = true := by
  obtain ⟨hletters, hne⟩ := forbidden_letters _ (List.mem_append_right _ hf)
  have hne : word ≠ [] := by
    rintro rfl
    exact hne rfl
  have hlen : (lowerCase word).length = word.length := List.length_map ..
  rw [List.append_assoc, List.append_assoc]
  apply search_append
  rw [Option.or_none, functionAt, Bool.and_eq_true, List.any_eq_true]
  refine ⟨wordBoundary_before hletters hne hl, lowerCase word, hf, ?_⟩
  rw [Bool.and_eq_true, hlen, List.drop_left' rfl, List.dropWhile_append_of_pos hb]
  exact ⟨startsWithWord_lowerCase, rfl⟩

end Found

section Main

variable {require : Bool} {query result mask word : Text}

/-- What the validator has established of a query it accepts. -/
theorem validate_ok {require : Bool} {query result : Text}
    (h : validateSqlStepQuery u require query = .ok result) :
    ';' ∉ normalizeQuery query ∧
      lowerCase (firstWord (scanned query)) ∈
        ["select".toList, "with".toList] ∧
      ∃ mask, stripLiteralsAndComments (scanned query) = .ok mask ∧
        search (keywordAt u) none mask = false ∧ search (functionAt u) none mask = false := by
  simp only [validateSqlStepQuery] at h
  split_ifs at h with h1 h2 h3 h4 h5 h6
  simp only [scanned]
  cases hm : stripLiteralsAndComments (dropLeadingComments (normalizeQuery query)) with
  | error message =>
    rw [hm] at h
    cases h
  | ok mask =>
    rw [hm] at h
    simp only [bind, Except.bind] at h
    split_ifs at h with h7 h8
    exact ⟨h2, by simpa [lowerCase] using h6, mask, rfl, by simpa using h7, by simpa using h8⟩

theorem toScanState_terminated : (toScanState mode).terminated = Mode.terminated mode := by
  cases mode <;> rfl

/-- At the end of the text every token is seen, the end of the text being a boundary. -/
theorem seen_tokensFrom (hword : WordsAreIdentifiers u e) (ha : Agrees e text)
    (hm : stripLiteralsAndComments text = .ok mask) :
    Mode.terminated (run e.lexer [] ⟨0, .code .between⟩ text).1.state = true ∧
      Seen u (tokensFrom e (.code .between) text) (mask ++ ['\n']) := by
  have hstep := inStep_run hword ha
  simp only [stripLiteralsAndComments] at hm
  split at hm
  · next hterm =>
    cases hm
    rw [hstep.state, toScanState_terminated] at hterm
    refine ⟨hterm, ?_⟩
    rw [tokensFrom]
    cases hs : (run e.lexer [] ⟨0, .code .between⟩ text).1.state with
    | code context =>
      have hpresent := hstep.present
      rw [hs] at hpresent
      exact seen_flush hstep.seen hpresent fun _ =>
        isWord_ascii_false (by decide) (by decide)
    | line =>
      simp only [Mode.flush, List.append_nil]
      exact hstep.seen.mask_append
    | _ =>
      rw [hs] at hterm
      cases hterm
  · cases hm

theorem keyword_of_seen (h : Seen u tokens (mask ++ ['\n']))
    (hk : search (keywordAt u) none mask = false) (hw : .word false word ∈ tokens) :
    lowerCase word ∉ forbiddenSqlKeywords := by
  intro hforbidden
  obtain ⟨before, after, hm, hne, hl, hr⟩ := h.words false word hw
  obtain ⟨after, last, rfl⟩ := (List.eq_nil_or_concat after).resolve_left hne
  rw [List.concat_eq_append, ← List.append_assoc] at hm
  rw [(List.append_inj' hm rfl).1] at hk
  have hr' : ∀ c ∈ after.head?, u.isWord c = false := by
    intro c hc
    apply hr
    cases after with
    | nil => cases hc
    | cons d after => exact hc
  rw [search_keyword hforbidden hl hr'] at hk
  cases hk

theorem call_of_seen (h : Seen u tokens (mask ++ ['\n']))
    (hk : search (functionAt u) none mask = false) (hw : Calls tokens (.word false word)) :
    lowerCase word ∉ forbiddenSqlFunctions := by
  intro hforbidden
  obtain ⟨before, blank, after, hm, hl, hb⟩ := h.calls false word hw
  cases after using List.reverseRecOn with
  | nil =>
    have hlast := (List.append_inj' hm rfl).2
    simp at hlast
  | append_singleton after last =>
    rw [← List.cons_append, ← List.append_assoc] at hm
    rw [(List.append_inj' hm rfl).1, search_function hforbidden hl hb] at hk
    cases hk

theorem calls_append_semicolons {n : Nat} {callee : Token}
    (h : Calls (tokens ++ List.replicate n (.other ';')) callee) : Calls tokens callee := by
  induction n with
  | zero => simpa using h
  | succ n ih =>
    rw [List.replicate_succ', ← List.append_assoc] at h
    cases calls_concat h with
    | inl hc => exact ih hc
    | inr hc => exact absurd hc.1 (by simp)

theorem semicolon_last {n : Nat} {before after : List Token} (hn : n ≤ 1)
    (hnot : .other ';' ∉ tokens)
    (h : tokens ++ List.replicate n (.other ';') = before ++ .other ';' :: after) :
    after = [] := by
  cases after using List.reverseRecOn with
  | nil => rfl
  | append_singleton after last =>
    rw [← List.cons_append, ← List.append_assoc] at h
    apply absurd _ hnot
    cases n with
    | zero =>
      rw [List.replicate_zero, List.append_nil] at h
      simp [h]
    | succ n =>
      obtain rfl : n = 0 := by omega
      rw [(List.append_inj' h rfl).1]
      simp

/-- Patterns that take every character beyond ASCII for a word character. -/
def asciiPatterns : Unicode where
  isWord c := c.isAlphanum || c == '_' || decide (128 ≤ c.toNat)
  isFold p c := c.toLower == p
  isWord_ascii c h := by simp [Nat.not_le.mpr h]
  isFold_toLower p c h := by simp [h]

theorem asciiPatterns_identifiers : WordsAreIdentifiers asciiPatterns postgres := by
  intro c h
  simp only [asciiPatterns, Char.isAlphanum, Bool.or_eq_true] at h
  simp only [Engine.identCont, postgres, Bool.or_eq_true]
  tauto

def totalsQuery : Text :=
  "SELECT sum(n) FROM {{input}} -- all".toList

def escapingQuery : Text :=
  "SELECT * FROM {{input}} /* /* */ ' */ , read_text /* ' */ ('/etc/passwd')".toList

end Main

end PipelineIQ.Execution.SqlSafety

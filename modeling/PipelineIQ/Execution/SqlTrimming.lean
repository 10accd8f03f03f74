import PipelineIQ.Execution.SqlMasking

namespace PipelineIQ.Execution.SqlTrimming

open PipelineIQ.Lib.Strings PipelineIQ.Lib.Scan PipelineIQ.Execution.SqlBuilder
open PipelineIQ.Execution.SqlLexer PipelineIQ.Execution.SqlMasking

variable {e : Engine} {mode : Mode} {context : Context} {c : Char} {text rest tail : Text}

section Ends

variable {x y : Text}

theorem agreesAt_append (h : Inert tail) :
    AgreesAt e mode c (rest ++ tail) ↔ AgreesAt e mode c rest := by
  cases mode with
  | code context =>
    have hd : e.dollarTag context (c :: (rest ++ tail)) = e.dollarTag context (c :: rest) :=
      dollarTag_append h
    have hs : dollarQuoteStart (c :: (rest ++ tail)) = dollarQuoteStart (c :: rest) :=
      dollarQuoteStart_append h
    simp only [AgreesAt, hd, hs]
  | block depth => simp only [AgreesAt, h.head?_append (d := '*') (by decide) (by decide)]
  | _ => exact Iff.rfl

/-- A text that has no token and leaves the lexer where it was. -/
def Skips (e : Engine) (tail x : Text) : Prop :=
  run e.lexer tail ⟨0, .code .between⟩ x = (⟨0, .code .between⟩, [])

theorem Skips.append (hx : Skips e (y ++ tail) x) (hy : Skips e tail y) :
    Skips e tail (x ++ y) := by
  rw [Skips, run_append, hx, hy]
  rfl

theorem Skips.run_rest (h : Skips e (y ++ tail) x) :
    run e.lexer tail ⟨0, .code .between⟩ (x ++ y) = run e.lexer tail ⟨0, .code .between⟩ y := by
  rw [run_append, h]
  rfl

theorem Skips.along_rest (h : Skips e (y ++ tail) x)
    (ha : Along e.lexer (AgreesAt e) tail ⟨0, .code .between⟩ (x ++ y)) :
    Along e.lexer (AgreesAt e) tail ⟨0, .code .between⟩ y := by
  have hy := (along_append.mp ha).2
  rwa [h] at hy

/-- White space ends what is being read. -/
theorem lexMove_space (hs : e.space c = true) (hc : isSpace c = true)
    (hx : context ≠ .exponent) :
    e.lexMove (.code context) c rest = ⟨.code .between, 0, context.flush⟩ := by
  have hstart := e.space_not_start c hs
  have hdigit := isDigit_of_isSpace hc
  have hbegin : e.begin context c = (context.flush, .between) := by
    simp [Engine.begin, hstart, hdigit, hs]
  have hread : e.read context c rest = (context.flush, .between) := by
    cases context with
    | between => exact hbegin
    | word glued word =>
      simp [Engine.read, Engine.identCont, hstart, hdigit, ne_of_class (d := '$') hc (by decide),
        hbegin]
    | number exponentAllowed =>
      simp [Engine.read, hdigit, ne_of_class (d := 'e') hc (by decide),
        ne_of_class (d := 'E') hc (by decide), hbegin]
    | exponent => exact absurd rfl hx
  simp [Engine.lexMove, Engine.dollarTag, ne_of_class (d := '\'') hc (by decide),
    ne_of_class (d := '"') hc (by decide), ne_of_class (d := '-') hc (by decide),
    ne_of_class (d := '/') hc (by decide), ne_of_class (d := '$') hc (by decide), hread]

theorem skips_space (h : ∀ c ∈ x, isSpace c = true)
    (ha : Along e.lexer (AgreesAt e) tail ⟨0, .code .between⟩ x) : Skips e tail x := by
  induction x with
  | nil => rfl
  | cons c x ih =>
    have hc := h c (List.mem_cons_self ..)
    have hm : e.lexer.move (.code .between) c (x ++ tail) = ⟨.code .between, 0, []⟩ :=
      lexMove_space (by rw [ha.1.1, hc]) hc (by simp)
    have hrest := ha.2
    rw [hm] at hrest
    rw [Skips, run_move hm, ih (fun d hd => h d (List.mem_cons_of_mem c hd)) hrest]
    rfl

/-- The rest of a line comment. -/
theorem run_line (h : '\n' ∉ x)
    (ha : Along e.lexer (AgreesAt e) tail ⟨0, .line⟩ x) :
    run e.lexer tail ⟨0, .line⟩ x = (⟨0, .line⟩, []) := by
  induction x with
  | nil => exact run_nil
  | cons c x ih =>
    have hc : e.newline c ≠ true := by
      intro hn
      exact h (ha.1 hn ▸ List.mem_cons_self ..)
    have hm : e.lexer.move .line c (x ++ tail) = ⟨.line, 0, []⟩ := by
      simp [Engine.lexer, Engine.lexMove, hc]
    have hrest := ha.2
    rw [hm] at hrest
    rw [run_move hm, ih (fun hx => h (List.mem_cons_of_mem c hx)) hrest]
    rfl

/-- The rest of a block comment. -/
theorem run_block (h : afterBlockComment x = some y)
    (ha : Along e.lexer (AgreesAt e) tail ⟨0, .block 0⟩ x) :
    ∃ comment, x = comment ++ y ∧
      run e.lexer (y ++ tail) ⟨0, .block 0⟩ comment = (⟨0, .code .between⟩, []) := by
  induction x using afterBlockComment.induct with
  | case1 text =>
    cases h
    refine ⟨['*', '/'], rfl, ?_⟩
    rfl
  | case2 c text hne ih =>
    rw [afterBlockComment.eq_2 c text hne] at h
    cases text with
    | nil => cases h
    | cons d text =>
      -- neither the end of the comment nor, by agreement, a comment inside it
      have hend : ¬ (c = '*' ∧ d = '/') := by
        rintro ⟨rfl, rfl⟩
        exact hne text rfl rfl
      have hopen : ¬ (c = '/' ∧ d = '*') := by simpa [AgreesAt] using ha.1
      have hm (after : Text) : e.lexer.move (.block 0) c (d :: text ++ after) =
          ⟨.block 0, 0, []⟩ := by
        simp [Engine.lexer, Engine.lexMove, hend, hopen]
      have hrest := ha.2
      rw [hm] at hrest
      obtain ⟨comment, hx, hrun⟩ := ih h hrest
      refine ⟨c :: comment, by rw [hx, List.cons_append], ?_⟩
      have hm' : e.lexer.move (.block 0) c (comment ++ (y ++ tail)) = ⟨.block 0, 0, []⟩ := by
        rw [← List.append_assoc, ← hx]
        exact hm tail
      rw [run_move hm', hrun]
      rfl
  | case3 => cases h

theorem takeWhile_dropWhile_cons {p : Char → Bool} {d : Char} (h : x.dropWhile p = d :: y) :
    x = x.takeWhile p ++ d :: y ∧ p d = false := by
  refine ⟨?_, ?_⟩
  · rw [← h, List.takeWhile_append_dropWhile]
  · have hd := List.head?_dropWhile_not p x
    rw [h] at hd
    simpa using hd

theorem skips_lineComment (h : x.dropWhile (fun c => decide (c ≠ '\n')) = c :: y)
    (ha : Along e.lexer (AgreesAt e) tail ⟨0, .code .between⟩ ('-' :: '-' :: x)) :
    ∃ comment, '-' :: '-' :: x = comment ++ y ∧ Skips e (y ++ tail) comment := by
  obtain ⟨hx, hc⟩ := takeWhile_dropWhile_cons h
  obtain rfl : c = '\n' := by simpa using hc
  generalize hb : x.takeWhile (fun c => decide (c ≠ '\n')) = body at hx
  have hbody : '\n' ∉ body := by
    intro hm
    rw [← hb] at hm
    simpa using List.mem_takeWhile_imp hm
  subst hx
  refine ⟨'-' :: '-' :: (body ++ ['\n']), by simp, ?_⟩
  have hline : Along e.lexer (AgreesAt e) ('\n' :: y ++ tail) ⟨0, .line⟩ body :=
    (along_append.mp ha.2).1
  have hend : run e.lexer (y ++ tail) ⟨0, .line⟩ ['\n'] = (⟨0, .code .between⟩, []) := by
    rw [run_move (v := ⟨.code .between, 0, []⟩) (by simp [Engine.lexer, Engine.lexMove, e.newline_lf])]
    rfl
  have hrun : run e.lexer (y ++ tail) ⟨0, .line⟩ (body ++ ['\n']) =
      (⟨0, .code .between⟩, []) := by
    rw [run_append, List.singleton_append, ← List.cons_append, run_line hbody hline, hend]
    rfl
  rw [Skips, run_move (v := ⟨.line, 1, []⟩) rfl, run_covered, hrun]
  rfl

theorem skips_blockComment (h : afterBlockComment x = some y)
    (ha : Along e.lexer (AgreesAt e) tail ⟨0, .code .between⟩ ('/' :: '*' :: x)) :
    ∃ comment, '/' :: '*' :: x = comment ++ y ∧ Skips e (y ++ tail) comment := by
  obtain ⟨comment, hx, hrun⟩ := run_block h ha.2
  refine ⟨'/' :: '*' :: comment, by simp [hx], ?_⟩
  rw [Skips, run_move (v := ⟨.block 0, 1, []⟩) rfl, run_covered, hrun]
  rfl

/-- A skipped beginning, when what follows is skipped too. -/
theorem exists_skips {kept : Text} (hs : Skips e (y ++ tail) x)
    (hy : ∃ comments, y = comments ++ kept ∧ Skips e (kept ++ tail) comments) :
    ∃ comments, x ++ y = comments ++ kept ∧ Skips e (kept ++ tail) comments := by
  obtain ⟨comments, rfl, hc⟩ := hy
  rw [List.append_assoc] at hs
  exact ⟨x ++ comments, by rw [List.append_assoc], hs.append hc⟩

/-- Dropping leading comments skips what the engine skips. -/
theorem skips_dropComments (fuel : Nat)
    (ha : Along e.lexer (AgreesAt e) tail ⟨0, .code .between⟩ text) :
    ∃ comments, text = comments ++ dropComments fuel text ∧
      Skips e (dropComments fuel text ++ tail) comments := by
  induction fuel, text using dropComments.induct with
  | case1 text => exact ⟨[], rfl, rfl⟩
  | case2 fuel x c rest hx ih =>
    obtain ⟨comment, ht, hs⟩ := skips_lineComment hx ha
    rw [dropComments]
    simp only [hx]
    rw [ht] at ha ⊢
    exact exists_skips hs (ih (hs.along_rest ha))
  | case3 fuel x hx =>
    rw [dropComments]
    simp only [hx]
    exact ⟨[], rfl, rfl⟩
  | case4 fuel x rest hx ih =>
    obtain ⟨comment, ht, hs⟩ := skips_blockComment hx ha
    rw [dropComments]
    simp only [hx]
    rw [ht] at ha ⊢
    have hrest := hs.along_rest ha
    apply exists_skips hs
    rw [← List.takeWhile_append_dropWhile (p := isSpace) (l := rest)] at hrest
    have hblank : Skips e (rest.dropWhile isSpace ++ tail) (rest.takeWhile isSpace) :=
      skips_space (fun c hc => List.mem_takeWhile_imp hc) (along_append.mp hrest).1
    have h := exists_skips hblank (ih (hblank.along_rest hrest))
    rwa [List.takeWhile_append_dropWhile] at h
  | case5 fuel x hx =>
    rw [dropComments]
    simp only [hx]
    exact ⟨[], rfl, rfl⟩
  | case6 fuel text h1 h2 =>
    rw [dropComments]
    · exact ⟨[], rfl, rfl⟩
    · exact h1
    · exact h2

theorem skips_dropLeadingComments
    (ha : Along e.lexer (AgreesAt e) tail ⟨0, .code .between⟩ text) :
    ∃ comments, text = comments ++ dropLeadingComments text ∧
      Skips e (dropLeadingComments text ++ tail) comments := by
  rw [← List.takeWhile_append_dropWhile (p := isSpace) (l := text)] at ha
  have hblank : Skips e (text.dropWhile isSpace ++ tail) (text.takeWhile isSpace) :=
    skips_space (fun c hc => List.mem_takeWhile_imp hc) (along_append.mp ha).1
  have h := exists_skips hblank (skips_dropComments text.length (hblank.along_rest ha))
  rwa [List.takeWhile_append_dropWhile] at h

end Ends

section Statement

variable {before after x query : Text} {glued : Bool} {word : Text}

/-- What a query loses at its ends is white space and at most one semicolon. -/
theorem normalizeQuery_eq (query : Text) : ∃ before after,
    query = before ++ normalizeQuery query ++ after ∧ (∀ c ∈ before, isSpace c = true) ∧
      Inert after ∧ after.count ';' ≤ 1 := by
  have hcount {x : Text} (h : ∀ c ∈ x, isSpace c = true) : x.count ';' = 0 := by
    rw [List.count_eq_zero]
    intro hm
    exact absurd (h ';' hm) (by decide)
  obtain ⟨before, after, hq, hb, ha⟩ := strip_eq query
  simp only [normalizeQuery]
  split
  · next hlast =>
    obtain ⟨before', after', hs, hb', ha'⟩ := strip_eq (strip query).dropLast
    have hq' : strip query = (strip query).dropLast ++ [';'] :=
      (List.dropLast_append_getLast? ';' hlast).symm
    refine ⟨before ++ before', after' ++ ';' :: after, ?_, ?_, ?_, ?_⟩
    · calc query = before ++ ((strip query).dropLast ++ [';']) ++ after := by rw [← hq', ← hq]
        _ = before ++ (before' ++ strip (strip query).dropLast ++ after' ++ [';']) ++ after := by
          rw [← hs]
        _ = _ := by simp only [List.append_assoc, List.singleton_append]
    · intro c hc
      exact (List.mem_append.mp hc).elim (hb c) (hb' c)
    · intro c hc
      rw [List.mem_append, List.mem_cons] at hc
      rcases hc with hc | rfl | hc
      · exact .inl (ha' c hc)
      · exact .inr rfl
      · exact .inl (ha c hc)
    · rw [List.count_append, List.count_cons_self, hcount ha', hcount ha]
  · exact ⟨before, after, hq, hb, fun c hc => .inl (ha c hc), by rw [hcount ha]; decide⟩

theorem lexMove_semicolon (h : context ≠ .exponent) :
    e.lexMove (.code context) ';' rest = ⟨.code .between, 0, context.flush ++ [.other ';']⟩ := by
  have hs : e.identStart ';' = false := by rw [e.identStart_ascii ';' (by decide)]; rfl
  have hb : e.space ';' = false := by rw [e.space_ascii ';' (by decide)]; rfl
  have hd : Char.isDigit ';' = false := rfl
  have hbegin : e.begin context ';' = (context.flush ++ [.other ';'], .between) := by
    simp [Engine.begin, hs, hb, hd]
  cases context with
  | exponent => exact absurd rfl h
  | between => simp [Engine.lexMove, Engine.dollarTag, Engine.read, hbegin]
  | word glued word =>
    simp [Engine.lexMove, Engine.dollarTag, Engine.read, Engine.identCont, hs, hd, hbegin]
  | number exponentAllowed =>
    simp [Engine.lexMove, Engine.dollarTag, Engine.read, hd, hbegin]

theorem lexMove_exponent (h : isSpace c = true ∨ c = ';') :
    e.lexMove (.code .exponent) c rest = ⟨.code (.number false), 0, []⟩ := by
  cases h with
  | inl hc =>
    simp [Engine.lexMove, Engine.dollarTag, Engine.read, ne_of_class (d := '\'') hc (by decide),
      ne_of_class (d := '"') hc (by decide), ne_of_class (d := '-') hc (by decide),
      ne_of_class (d := '/') hc (by decide), ne_of_class (d := '$') hc (by decide)]
  | inr hc =>
    subst hc
    simp [Engine.lexMove, Engine.dollarTag, Engine.read]

/-- All tokens of a text that is read from here. -/
def tokensFrom (e : Engine) (mode : Mode) (text : Text) : List Token :=
  (run e.lexer [] ⟨0, mode⟩ text).2 ++ Mode.flush (run e.lexer [] ⟨0, mode⟩ text).1.state

theorem tokensFrom_cons {next : Mode} {output : List Token}
    (h : e.lexer.move mode c (x ++ []) = ⟨next, 0, output⟩) :
    tokensFrom e mode (c :: x) = output ++ tokensFrom e next x := by
  rw [tokensFrom, run_move h, List.append_assoc]
  rfl

/-- Behind the end of a query there is no token but a semicolon. -/
theorem tokensFrom_tail (h : Inert tail) (hm : Mode.terminated mode = true)
    (ha : Along e.lexer (AgreesAt e) [] ⟨0, mode⟩ tail) :
    Mode.terminated (run e.lexer [] ⟨0, mode⟩ tail).1.state = true ∧ ∃ n ≤ tail.count ';',
      tokensFrom e mode tail = Mode.flush mode ++ List.replicate n (.other ';') := by
  induction tail generalizing mode with
  | nil => exact ⟨hm, 0, le_rfl, by simp [tokensFrom]⟩
  | cons c tail ih =>
    -- a move that puts out `n` semicolons after the token it ends
    have hgoes {next : Mode} {output : List Token} (n : Nat) (hn : n ≤ [c].count ';')
        (hnext : Mode.terminated next = true)
        (hv : e.lexer.move mode c (tail ++ []) = ⟨next, 0, output⟩)
        (ho : output ++ Mode.flush next = Mode.flush mode ++ List.replicate n (.other ';')) :
        Mode.terminated (run e.lexer [] ⟨0, mode⟩ (c :: tail)).1.state = true ∧
          ∃ n ≤ (c :: tail).count ';', tokensFrom e mode (c :: tail) =
            Mode.flush mode ++ List.replicate n (.other ';') := by
      have hrest := ha.2
      rw [hv] at hrest
      obtain ⟨hend, k, hk, hout⟩ := ih (fun d hd => h d (List.mem_cons_of_mem c hd)) hnext hrest
      refine ⟨?_, n + k, ?_, ?_⟩
      · rw [run_move hv]
        exact hend
      · rw [← List.singleton_append, List.count_append]
        omega
      · rw [tokensFrom_cons hv, hout, ← List.append_assoc, ho, List.append_assoc,
          List.replicate_append_replicate]
    cases mode with
    | code context =>
      have hc := h c (List.mem_cons_self ..)
      by_cases hx : context = .exponent
      · subst hx
        exact hgoes 0 (Nat.zero_le _) rfl (lexMove_exponent hc) (by simp [Mode.flush, Context.flush])
      · cases hc with
        | inl hc =>
          have hs : e.space c = true := by rw [ha.1.1, hc]
          exact hgoes 0 (Nat.zero_le _) rfl (lexMove_space hs hc hx)
            (by simp [Mode.flush, Context.flush])
        | inr hc =>
          subst hc
          exact hgoes 1 (by simp) rfl (lexMove_semicolon hx) (by simp [Mode.flush, Context.flush])
    | line =>
      cases hn : e.newline c with
      | true =>
        have hv : e.lexer.move .line c (tail ++ []) = ⟨.code .between, 0, []⟩ := by
          simp [Engine.lexer, Engine.lexMove, hn]
        exact hgoes 0 (Nat.zero_le _) rfl hv rfl
      | false =>
        have hv : e.lexer.move .line c (tail ++ []) = ⟨.line, 0, []⟩ := by
          simp [Engine.lexer, Engine.lexMove, hn]
        exact hgoes 0 (Nat.zero_le _) rfl hv rfl
    | _ => cases hm

theorem letter_plain (h : c.isAlpha = true) :
    e.identStart c = true ∧ c ≠ '\'' ∧ c ≠ '"' ∧ c ≠ '-' ∧ c ≠ '/' ∧ c ≠ '$' := by
  have hn := isAlpha_iff.mp h
  refine ⟨?_, ?_, ?_, ?_, ?_, ?_⟩
  · rw [e.identStart_ascii c (by omega), h]
    rfl
  all_goals exact ne_of_class h (by decide)

theorem lexMove_between_letter (h : c.isAlpha = true) :
    e.lexMove (.code .between) c rest = ⟨.code (.word false [c]), 0, []⟩ := by
  obtain ⟨hs, h1, h2, h3, h4, h5⟩ := letter_plain (e := e) h
  simp [Engine.lexMove, Engine.dollarTag, Engine.read, Engine.begin, Context.flush,
    Context.isNumber, h1, h2, h3, h4, h5, hs]

theorem lexMove_word_letter (h : c.isAlpha = true) :
    e.lexMove (.code (.word glued word)) c rest = ⟨.code (.word glued (word ++ [c])), 0, []⟩ := by
  obtain ⟨hs, h1, h2, h3, h4, h5⟩ := letter_plain (e := e) h
  simp [Engine.lexMove, Engine.dollarTag, Engine.read, Engine.identCont, h1, h2, h3, h4, h5, hs]

/-- The letters of a word are read as one word. -/
theorem run_word (h : ∀ c ∈ x, c.isAlpha = true) :
    run e.lexer tail ⟨0, .code (.word glued word)⟩ x = (⟨0, .code (.word glued (word ++ x))⟩, []) := by
  induction x generalizing word with
  | nil => simp
  | cons c x ih =>
    have hm : e.lexer.move (.code (.word glued word)) c (x ++ tail) =
        ⟨.code (.word glued (word ++ [c])), 0, []⟩ :=
      lexMove_word_letter (h c (List.mem_cons_self ..))
    rw [run_move hm, ih fun d hd => h d (List.mem_cons_of_mem c hd)]
    simp

theorem isAlpha_of_leading (h : lowerCase word ∈ ["select".toList, "with".toList]) (hc : c ∈ word) :
    c.isAlpha = true := by
  have hall : ∀ w ∈ ["select".toList, "with".toList], w.all Char.isAlpha = true := by decide
  have hl := List.all_eq_true.mp (hall _ h) _ (List.mem_map_of_mem hc)
  cases toLower_eq_or_isAlpha c with
  | inl he => rwa [he] at hl
  | inr ha => exact ha

theorem tokensFrom_leading (hw : lowerCase (firstWord text) ∈ ["select".toList, "with".toList])
    (ha : Agrees e text) :
    ∃ rest, tokensFrom e (.code .between) text = .word false (firstWord text) :: rest := by
  have ha : Along e.lexer (AgreesAt e) [] ⟨0, .code .between⟩ text := ha
  have hletters (c : Char) (hc : c ∈ firstWord text) := isAlpha_of_leading hw hc
  rw [← List.takeWhile_append_dropWhile (p := isSpace) (l := text)] at ha
  have hblank : Skips e (text.dropWhile isSpace ++ []) (text.takeWhile isSpace) :=
    skips_space (fun c hc => List.mem_takeWhile_imp hc) (along_append.mp ha).1
  have hrest := hblank.along_rest ha
  have hrun := hblank.run_rest
  rw [List.takeWhile_append_dropWhile] at hrun
  rw [tokensFrom, hrun]
  have hsplit : text.dropWhile isSpace =
      firstWord text ++ (text.dropWhile isSpace).dropWhile fun c => !isSpace c :=
    (List.takeWhile_append_dropWhile ..).symm
  generalize hafter : (text.dropWhile isSpace).dropWhile (fun c => !isSpace c) = after at hsplit
  generalize firstWord text = word at hw hletters hsplit
  rw [hsplit] at hrest ⊢
  cases word with
  | nil => simp [lowerCase] at hw
  | cons c word =>
    have hm (more : Text) : e.lexer.move (.code .between) c more =
        ⟨.code (.word false [c]), 0, []⟩ :=
      lexMove_between_letter (hletters c (List.mem_cons_self ..))
    have hword : run e.lexer (after ++ []) ⟨0, .code .between⟩ (c :: word) =
        (⟨0, .code (.word false (c :: word))⟩, []) := by
      rw [run_move (hm _), run_word fun d hd => hletters d (List.mem_cons_of_mem c hd)]
      rfl
    have hend := (along_append.mp hrest).2
    rw [hword] at hend
    rw [run_append, hword]
    cases after with
    | nil => exact ⟨[], rfl⟩
    | cons d after =>
      have hd : isSpace d = true := by simpa using (takeWhile_dropWhile_cons hafter).2
      have hs : e.lexer.move (.code (.word false (c :: word))) d (after ++ []) =
          ⟨.code .between, 0, [.word false (c :: word)]⟩ :=
        lexMove_space (by rw [hend.1.1, hd]) hd (by simp)
      rw [run_move hs]
      exact ⟨_, rfl⟩

theorem lex_eq (e : Engine) (text : Text) : e.lex text =
    if Mode.terminated (run e.lexer [] ⟨0, .code .between⟩ text).1.state then
      some (tokensFrom e (.code .between) text) else none := rfl

/-- The part of a query that the validator scans for forbidden words. -/
def scanned (query : Text) : Text := dropLeadingComments (normalizeQuery query)

theorem other_not_mem_flush : Token.other c ∉ context.flush := by
  cases context <;> simp [Context.flush]

/-- A token of one character is that character. -/
theorem eq_of_other_mem {d : Char} (h : Token.other d ∈ (e.lexMove mode c rest).output) : d = c := by
  cases mode with
  | code context =>
    have hbegin (h : Token.other d ∈ (e.begin context c).1) : d = c := by
      simp only [Engine.begin] at h
      split_ifs at h
      · exact absurd h other_not_mem_flush
      · exact absurd h other_not_mem_flush
      · exact absurd h other_not_mem_flush
      · simpa [other_not_mem_flush] using h
    have hread (h : Token.other d ∈ (e.read context c rest).1) : d = c := by
      cases context with
      | between => exact hbegin h
      | word glued word =>
        simp only [Engine.read] at h
        split_ifs at h
        · cases h
        · exact hbegin h
      | number exponentAllowed =>
        simp only [Engine.read] at h
        split_ifs at h
        · cases h
        · cases h
        · exact hbegin h
      | exponent => cases h
    simp only [Engine.lexMove] at h
    split_ifs at h
    · simp [other_not_mem_flush] at h
    · exact absurd h other_not_mem_flush
    · exact absurd h other_not_mem_flush
    · exact absurd h other_not_mem_flush
    · split at h
      · simp [other_not_mem_flush] at h
      · exact hread h
  | string | name | line | dollar =>
    simp only [Engine.lexMove] at h
    split_ifs at h <;> simp at h
  | block depth =>
    simp only [Engine.lexMove] at h
    split_ifs at h
    · cases h
    · cases depth <;> cases h
    · cases h

theorem mem_of_other_mem {config : Config Mode} {d : Char}
    (h : Token.other d ∈ (run e.lexer tail config text).2) : d ∈ text := by
  induction text generalizing config with
  | nil => simp at h
  | cons c text ih =>
    obtain ⟨_ | k, mode⟩ := config
    · rw [run_move rfl, List.mem_append] at h
      cases h with
      | inl hm => exact eq_of_other_mem hm ▸ List.mem_cons_self ..
      | inr hr => exact List.mem_cons_of_mem c (ih hr)
    · rw [run_covered, List.mem_append] at h
      cases h with
      | inl hm => cases hm
      | inr hr => exact List.mem_cons_of_mem c (ih hr)

theorem mem_of_other_mem_tokensFrom {d : Char} (h : Token.other d ∈ tokensFrom e mode text) :
    d ∈ text := by
  rw [tokensFrom, List.mem_append] at h
  cases h with
  | inl hr => exact mem_of_other_mem hr
  | inr hf =>
    cases hs : (run e.lexer [] ⟨0, mode⟩ text).1.state with
    | code context =>
      rw [hs] at hf
      exact absurd hf other_not_mem_flush
    | _ =>
      rw [hs] at hf
      cases hf

theorem tokensFrom_append {next : Mode} {output : List Token}
    (h : run e.lexer (y ++ []) ⟨0, mode⟩ x = (⟨0, next⟩, output)) :
    tokensFrom e mode (x ++ y) = output ++ tokensFrom e next y := by
  rw [tokensFrom, run_append, h, List.append_assoc]
  rfl

/-- The engine reads a query as its scanned part, perhaps with one semicolon after it. -/
theorem lex_query (ha : Agrees e query) :
    Agrees e (scanned query) ∧ (∃ comments, normalizeQuery query = comments ++ scanned query) ∧
      (Mode.terminated (run e.lexer [] ⟨0, .code .between⟩ (scanned query)).1.state = true →
        ∃ n ≤ 1, e.lex query = some
          (tokensFrom e (.code .between) (scanned query) ++ List.replicate n (.other ';'))) := by
  obtain ⟨before, after, hq, hb, hafter, hcount⟩ := normalizeQuery_eq query
  rw [Agrees, hq, List.append_assoc] at ha
  have hbefore : Skips e (normalizeQuery query ++ after ++ []) before :=
    skips_space hb (along_append.mp ha).1
  obtain ⟨hnormalize, htail⟩ := along_append.mp (hbefore.along_rest ha)
  rw [List.append_nil] at hnormalize htail
  have hinert (mode : Mode) (c : Char) (rest : Text) :
      e.lexer.move mode c (rest ++ after) = e.lexer.move mode c rest := lexMove_append hafter
  rw [run_of_inert hinert] at htail
  rw [along_of_inert hinert fun _ _ _ => agreesAt_append hafter] at hnormalize
  obtain ⟨comments, hc, hskip⟩ := skips_dropLeadingComments hnormalize
  have hscanned : Agrees e (scanned query) := by
    rw [hc] at hnormalize
    exact hskip.along_rest hnormalize
  have hrun : run e.lexer [] ⟨0, .code .between⟩ (normalizeQuery query) =
      run e.lexer [] ⟨0, .code .between⟩ (scanned query) := by
    rw [hc]
    exact hskip.run_rest
  refine ⟨hscanned, ⟨comments, hc⟩, ?_⟩
  intro hm
  rw [hrun] at htail
  generalize hr : run e.lexer [] ⟨0, .code .between⟩ (scanned query) = r at hm htail hrun
  obtain ⟨⟨k, mode⟩, tokens⟩ := r
  obtain rfl : k = 0 := by
    have hp : (run e.lexer [] ⟨0, .code .between⟩ (scanned query)).1.pending = 0 := pending_lexer
    rwa [hr] at hp
  have hnormal : run e.lexer (after ++ []) ⟨0, .code .between⟩ (normalizeQuery query) =
      (⟨0, mode⟩, tokens) := by
    rw [List.append_nil, run_of_inert hinert, hrun]
  obtain ⟨hend, n, hn, hout⟩ := tokensFrom_tail hafter hm htail
  have hquery : run e.lexer [] ⟨0, .code .between⟩ query =
      run e.lexer [] ⟨0, .code .between⟩ (normalizeQuery query ++ after) := by
    conv_lhs => rw [hq, List.append_assoc]
    exact hbefore.run_rest
  have htokens : tokensFrom e (.code .between) query =
      tokensFrom e (.code .between) (scanned query) ++ List.replicate n (.other ';') := by
    calc tokensFrom e (.code .between) query
        = tokensFrom e (.code .between) (normalizeQuery query ++ after) := by
          rw [tokensFrom, hquery, tokensFrom]
      _ = tokens ++ tokensFrom e mode after := tokensFrom_append hnormal
      _ = tokens ++ Mode.flush mode ++ List.replicate n (.other ';') := by
          rw [hout, List.append_assoc]
      _ = _ := by rw [tokensFrom, hr]
  refine ⟨n, hn.trans hcount, ?_⟩
  rw [lex_eq, hquery, run_append, hnormal, if_pos hend, htokens]

end Statement

end PipelineIQ.Execution.SqlTrimming

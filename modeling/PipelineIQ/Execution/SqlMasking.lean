import PipelineIQ.Execution.SqlBuilder
import PipelineIQ.Execution.SqlLexer

namespace PipelineIQ.Execution.SqlMasking

open PipelineIQ.Lib.Strings PipelineIQ.Lib.Scan
open PipelineIQ.Execution.SqlBuilder PipelineIQ.Execution.SqlLexer

variable {e : Engine} {u : Unicode} {mode : Mode} {context : Context} {c : Char}
  {text rest tail : Text} {tokens : List Token}

/-- The validator and the engine take a character in the same way: they agree on what is
white space in code and on which dollar signs in code open a quote, nothing but a line
feed ends a line comment, and no comment is opened inside a comment. -/
def AgreesAt (e : Engine) (mode : Mode) (c : Char) (rest : Text) : Prop :=
  match mode with
  | .code context => e.space c = isSpace c ∧
      (c = '$' → dollarQuoteStart (c :: rest) = (e.dollarTag context (c :: rest)).map delimiter)
  | .line => e.newline c = true → c = '\n'
  | .block _ => ¬ (c = '/' ∧ rest.head? = some '*')
  | _ => True

instance (e : Engine) (mode : Mode) (c : Char) (rest : Text) : Decidable (AgreesAt e mode c rest) :=
  match mode with
  | .code _ => inferInstanceAs (Decidable (_ ∧ _))
  | .line => inferInstanceAs (Decidable (_ → _))
  | .block _ => inferInstanceAs (Decidable (¬ _))
  | .string | .name _ | .dollar _ => inferInstanceAs (Decidable True)

def Agrees (e : Engine) (query : Text) : Prop :=
  Along e.lexer (AgreesAt e) [] ⟨0, .code .between⟩ query

instance (e : Engine) (query : Text) : Decidable (Agrees e query) :=
  inferInstanceAs (Decidable (Along ..))

/-- A token is a call of a name when an opening parenthesis follows it. -/
def Calls (tokens : List Token) (callee : Token) : Prop :=
  ∃ before after, tokens = before ++ callee :: .other '(' :: after

section Characters

theorem ne_of_class {p : Char → Bool} {d : Char} (h : p c = true) (hd : p d = false) : c ≠ d := by
  rintro rfl
  rw [h] at hd
  cases hd

/-- Characters that a query may lose at its end. -/
def Inert (tail : Text) : Prop := ∀ c ∈ tail, isSpace c = true ∨ c = ';'

theorem Inert.head_ne (h : Inert tail) {d : Char} (hd : isSpace d = false) (hs : d ≠ ';') :
    tail.head? ≠ some d := by
  intro hh
  cases h d (List.mem_of_mem_head? hh) with
  | inl hsp =>
    rw [hd] at hsp
    cases hsp
  | inr hsc => exact hs hsc

theorem Inert.head?_append (h : Inert tail) {d : Char} (hd : isSpace d = false) (hs : d ≠ ';') :
    (rest ++ tail).head? = some d ↔ rest.head? = some d := by
  cases rest with
  | nil => simpa using h.head_ne hd hs
  | cons a rest => simp

theorem Inert.not_digit (h : Inert tail) (hc : c ∈ tail) : c.isDigit = false := by
  cases h c hc with
  | inl hsp => exact isDigit_of_isSpace hsp
  | inr hsc =>
    rw [hsc]
    rfl

theorem Inert.not_tagStart (h : Inert tail) (hc : c ∈ tail) : isTagStart c = false := by
  cases h c hc with
  | inl hsp =>
    rw [isTagStart, isAlpha_of_isSpace hsp, Bool.false_or, beq_eq_false_iff_ne]
    exact ne_of_class hsp (by decide)
  | inr hsc =>
    rw [hsc]
    decide

theorem Inert.dollar_not_mem (h : Inert tail) : '$' ∉ tail := by
  intro hm
  cases h '$' hm with
  | inl hsp => exact absurd hsp (by decide)
  | inr hsc => exact absurd hsc (by decide)

end Characters

section Tail

theorem head?_dropWhile_append {p : Char → Bool} {d : Char} (h : d ∉ tail) :
    ((rest ++ tail).dropWhile p).head? = some d ↔ (rest.dropWhile p).head? = some d := by
  rw [List.dropWhile_append]
  by_cases hr : rest.dropWhile p = []
  · have hd : (tail.dropWhile p).head? ≠ some d := by
      intro hh
      exact h ((List.dropWhile_suffix _).mem (List.mem_of_mem_head? hh))
    simp [hr, hd]
  · rw [if_neg (by simpa using hr), List.head?_append_of_ne_nil _ hr]

theorem takeWhile_append_of_head? {p : Char → Bool} {d : Char}
    (h : (rest.dropWhile p).head? = some d) :
    (rest ++ tail).takeWhile p = rest.takeWhile p := by
  rw [List.takeWhile_append, if_neg]
  intro hl
  have htd := congrArg List.length (List.takeWhile_append_dropWhile (p := p) (l := rest))
  rw [List.length_append, hl] at htd
  have hd : rest.dropWhile p = [] := List.length_eq_zero_iff.mp (by omega)
  rw [hd] at h
  cases h

theorem dollarTag_append (h : Inert tail) :
    e.dollarTag context (c :: rest ++ tail) = e.dollarTag context (c :: rest) := by
  by_cases hc : c = '$'
  · subst hc
    have hd : ((rest ++ tail).dropWhile e.tagCont).head? = some '$' ↔
        (rest.dropWhile e.tagCont).head? = some '$' := head?_dropWhile_append h.dollar_not_mem
    simp only [Engine.dollarTag, List.cons_append, hd]
    by_cases hr : (rest.dropWhile e.tagCont).head? = some '$'
    · rw [takeWhile_append_of_head? hr]
    · simp [hr]
  · simp [Engine.dollarTag, hc]

theorem dollarQuoteStart_append (h : Inert tail) :
    dollarQuoteStart (c :: rest ++ tail) = dollarQuoteStart (c :: rest) := by
  by_cases hc : c = '$'
  · subst hc
    cases rest with
    | nil =>
      cases tail with
      | nil => rfl
      | cons d tail =>
        have hd : d ≠ '$' := by
          rintro rfl
          exact h.dollar_not_mem (List.mem_cons_self ..)
        simp [dollarQuoteStart, h.not_tagStart (List.mem_cons_self ..)]
    | cons d rest =>
      by_cases hd : d = '$'
      · subst hd
        rfl
      · have hh : ((rest ++ tail).dropWhile isTagChar).head? = some '$' ↔
            (rest.dropWhile isTagChar).head? = some '$' := head?_dropWhile_append h.dollar_not_mem
        simp only [dollarQuoteStart, List.cons_append, hh]
        by_cases hr : (rest.dropWhile isTagChar).head? = some '$'
        · rw [takeWhile_append_of_head? hr]
        · simp [hr]
  · simp [dollarQuoteStart, hc]

theorem exponentFollows_append (h : Inert tail) :
    exponentFollows (rest ++ tail) = exponentFollows rest := by
  have hd : ∀ c ∈ tail, c.isDigit = false := fun c hc => h.not_digit hc
  match rest with
  | [] =>
    match tail with
    | [] => rfl
    | [a] => simpa [exponentFollows] using hd a (by simp)
    | a :: b :: _ =>
      have ha := hd a (by simp)
      have hb := hd b (by simp)
      simp [exponentFollows, ha, hb]
  | [r] =>
    match tail with
    | [] => rfl
    | a :: _ =>
      have ha := hd a (by simp)
      simp [exponentFollows, ha]
  | r :: r' :: rest => rfl

theorem delimiter_isPrefixOf_append (h : Inert tail) {tag : Text} :
    (delimiter tag).isPrefixOf (c :: rest ++ tail) = (delimiter tag).isPrefixOf (c :: rest) := by
  rw [Bool.eq_iff_iff, List.isPrefixOf_iff_prefix, List.isPrefixOf_iff_prefix]
  constructor
  · intro hp
    cases List.prefix_or_prefix_of_prefix hp (List.prefix_append _ _) with
    | inl hl => exact hl
    | inr hr =>
      -- the delimiter ends with a dollar sign, which the tail does not have
      obtain ⟨more, hmore⟩ := hr
      rw [← hmore, List.prefix_append_right_inj] at hp
      by_cases hne : more = []
      · have heq : c :: rest = delimiter tag := by rw [← hmore, hne, List.append_nil]
        exact heq ▸ List.prefix_refl _
      · have hlast : (delimiter tag).getLast? = some '$' := by
          rw [delimiter, List.getLast?_append_of_ne_nil _ (by simp)]
          rfl
        rw [← hmore, List.getLast?_append_of_ne_nil _ hne] at hlast
        exact absurd (hp.mem (List.mem_of_getLast? hlast)) h.dollar_not_mem
  · exact fun hp => hp.trans (List.prefix_append _ _)

theorem read_append (h : Inert tail) :
    e.read context c (rest ++ tail) = e.read context c rest := by
  cases context <;> simp only [Engine.read, exponentFollows_append h]

theorem lexMove_append (h : Inert tail) :
    e.lexMove mode c (rest ++ tail) = e.lexMove mode c rest := by
  cases mode with
  | code context =>
    have hdollar : e.dollarTag context (c :: (rest ++ tail)) = e.dollarTag context (c :: rest) :=
      dollarTag_append h
    simp only [Engine.lexMove, h.head?_append (d := '-') (by decide) (by decide),
      h.head?_append (d := '*') (by decide) (by decide), hdollar, read_append h]
  | string => simp only [Engine.lexMove, h.head?_append (d := '\'') (by decide) (by decide)]
  | name read => simp only [Engine.lexMove, h.head?_append (d := '"') (by decide) (by decide)]
  | line => rfl
  | block depth =>
    simp only [Engine.lexMove, h.head?_append (d := '*') (by decide) (by decide),
      h.head?_append (d := '/') (by decide) (by decide)]
  | dollar tag =>
    have hp : (delimiter tag).isPrefixOf (c :: (rest ++ tail)) =
        (delimiter tag).isPrefixOf (c :: rest) := delimiter_isPrefixOf_append h
    simp only [Engine.lexMove, hp]

theorem delimiter_of_dollarTag {tag : Text} (h : e.dollarTag context text = some tag) :
    delimiter tag <+: text := by
  match text with
  | [] => simp [Engine.dollarTag] at h
  | c :: rest =>
    by_cases hc : c = '$'
    · subst hc
      simp only [Engine.dollarTag] at h
      split at h
      · cases h
      · split at h
        · next hd =>
          cases h
          obtain ⟨after, ha⟩ := List.head?_eq_some_iff.mp hd.1
          refine ⟨after, ?_⟩
          rw [delimiter, List.append_assoc, List.cons_append, List.singleton_append, ← ha,
            List.takeWhile_append_dropWhile]
        · cases h
    · simp [Engine.dollarTag, hc] at h

theorem delimiter_length_le {tag : Text} (h : delimiter tag <+: c :: rest) :
    (delimiter tag).length - 1 ≤ rest.length := by
  have hl := h.length_le
  simp only [List.length_cons] at hl
  omega

theorem lexMove_covers (mode : Mode) (c : Char) (rest : Text) :
    (e.lexMove mode c rest).covers ≤ rest.length := by
  have hone {d : Char} (h : rest.head? = some d) : 1 ≤ rest.length := by
    cases rest with
    | nil => cases h
    | cons => simp
  cases mode with
  | code context =>
    simp only [Engine.lexMove]
    split_ifs with h1 h2 h3 h4
    · exact Nat.zero_le _
    · exact Nat.zero_le _
    · exact hone h3.2
    · exact hone h4.2
    · split
      · next tag ht => exact delimiter_length_le (delimiter_of_dollarTag ht)
      · exact Nat.zero_le _
  | string =>
    simp only [Engine.lexMove]
    split_ifs with h1 h2
    · exact hone h1.2
    · exact Nat.zero_le _
    · exact Nat.zero_le _
  | name read =>
    simp only [Engine.lexMove]
    split_ifs with h1 h2
    · exact hone h1.2
    · exact Nat.zero_le _
    · exact Nat.zero_le _
  | line =>
    simp only [Engine.lexMove]
    split_ifs <;> exact Nat.zero_le _
  | block depth =>
    simp only [Engine.lexMove]
    split_ifs with h1 h2
    · exact hone h1.2
    · cases depth <;> exact hone h2.2
    · exact Nat.zero_le _
  | dollar tag =>
    simp only [Engine.lexMove]
    split_ifs with h1
    · exact delimiter_length_le (List.isPrefixOf_iff_prefix.mp h1)
    · exact Nat.zero_le _

end Tail

section Visible

variable {mask before more : Text} {glued : Bool} {word : Text}

/-- A word begins here for the regular expressions, unless it is glued to a number. -/
def LeftBoundary (u : Unicode) (glued : Bool) (before : Text) : Prop :=
  glued = false → ∀ c ∈ before.getLast?, u.isWord c = false

/-- The masked text shows every word and every call of the tokens. -/
structure Seen (u : Unicode) (tokens : List Token) (mask : Text) : Prop where
  words : ∀ glued word, .word glued word ∈ tokens → ∃ before after,
    mask = before ++ word ++ after ∧ after ≠ [] ∧ LeftBoundary u glued before ∧
      ∀ c ∈ after.head?, u.isWord c = false
  calls : ∀ glued word, Calls tokens (.word glued word) → ∃ before blank after,
    mask = before ++ word ++ blank ++ '(' :: after ∧ LeftBoundary u glued before ∧
      ∀ c ∈ blank, isSpace c = true

/-- A word that is the last token is followed by white space only. -/
def Trailing (u : Unicode) (tokens : List Token) (mask : Text) : Prop :=
  ∀ earlier glued word, tokens = earlier ++ [.word glued word] → ∃ before blank,
    mask = before ++ word ++ blank ∧ LeftBoundary u glued before ∧ ∀ c ∈ blank, isSpace c = true

theorem leftBoundary_concat (h : u.isWord c = false) : LeftBoundary u glued (before ++ [c]) := by
  intro _ d hd
  rw [List.getLast?_concat] at hd
  cases hd
  exact h

theorem Seen.mask_append (h : Seen u tokens mask) : Seen u tokens (mask ++ more) := by
  refine ⟨?_, ?_⟩
  · intro glued word hw
    obtain ⟨before, after, rfl, hne, hl, hr⟩ := h.words glued word hw
    refine ⟨before, after ++ more, by simp, by simp [hne], hl, ?_⟩
    rw [List.head?_append_of_ne_nil _ hne]
    exact hr
  · intro glued word hw
    obtain ⟨before, blank, after, rfl, hl, hb⟩ := h.calls glued word hw
    exact ⟨before, blank, after ++ more, by simp, hl, hb⟩

theorem Trailing.mask_append (h : Trailing u tokens mask) (hm : ∀ c ∈ more, isSpace c = true) :
    Trailing u tokens (mask ++ more) := by
  intro earlier glued word ht
  obtain ⟨before, blank, rfl, hl, hb⟩ := h earlier glued word ht
  refine ⟨before, blank ++ more, by simp, hl, ?_⟩
  intro c hc
  exact (List.mem_append.mp hc).elim (hb c) (hm c)

theorem trailing_of_getLast {token : Token} (h : tokens.getLast? = some token)
    (ht : ∀ glued word, token ≠ .word glued word) : Trailing u tokens mask := by
  rintro earlier glued word rfl
  rw [List.getLast?_concat] at h
  cases h
  exact absurd rfl (ht glued word)

theorem calls_concat {token callee : Token} (h : Calls (tokens ++ [token]) callee) :
    Calls tokens callee ∨ token = .other '(' ∧ ∃ earlier, tokens = earlier ++ [callee] := by
  obtain ⟨earlier, after, ht⟩ := h
  cases after using List.reverseRecOn with
  | nil =>
    rw [show earlier ++ [callee, .other '('] = (earlier ++ [callee]) ++ [.other '('] by simp] at ht
    obtain ⟨h1, h2⟩ := List.append_inj' ht rfl
    exact .inr ⟨by simpa using h2, earlier, h1⟩
  | append_singleton after last =>
    rw [show earlier ++ callee :: .other '(' :: (after ++ [last]) =
      (earlier ++ callee :: .other '(' :: after) ++ [last] by simp] at ht
    exact .inl ⟨earlier, after, (List.append_inj' ht rfl).1⟩

/-- A token other than a word is added; a parenthesis is shown where it stands. -/
theorem Seen.concat {token : Token} (h : Seen u tokens (mask ++ more))
    (ht : ∀ glued word, token ≠ .word glued word)
    (hc : token = .other '(' → more = ['('] ∧ Trailing u tokens mask) :
    Seen u (tokens ++ [token]) (mask ++ more) := by
  refine ⟨?_, ?_⟩
  · intro glued word hw
    rw [List.mem_append, List.mem_singleton] at hw
    exact hw.elim (h.words glued word) fun he => absurd he.symm (ht glued word)
  · intro glued word hw
    cases calls_concat hw with
    | inl hw => exact h.calls glued word hw
    | inr hw =>
      obtain ⟨hp, earlier, he⟩ := hw
      obtain ⟨rfl, htr⟩ := hc hp
      obtain ⟨before, blank, rfl, hl, hb⟩ := htr earlier glued word he
      exact ⟨before, blank, [], rfl, hl, hb⟩

/-- A word is added when the mask goes on with something that is no word character. -/
theorem Seen.concat_word (h : Seen u tokens (before ++ word)) (hl : LeftBoundary u glued before)
    (hc : u.isWord c = false) : Seen u (tokens ++ [.word glued word]) (before ++ word ++ [c]) := by
  have hs : Seen u tokens (before ++ word ++ [c]) := h.mask_append
  refine ⟨?_, ?_⟩
  · intro glued' word' hw
    rw [List.mem_append, List.mem_singleton] at hw
    cases hw with
    | inl hw => exact hs.words glued' word' hw
    | inr hw =>
      cases hw
      refine ⟨before, [c], rfl, by simp, hl, ?_⟩
      intro d hd
      cases hd
      exact hc
  · intro glued' word' hw
    cases calls_concat hw with
    | inl hw => exact hs.calls glued' word' hw
    | inr hw => exact absurd hw.1 (by simp)

theorem trailing_concat_word (hl : LeftBoundary u glued before) :
    Trailing u (tokens ++ [.word glued word]) (before ++ word) := by
  intro earlier glued' word' ht
  obtain ⟨-, hw⟩ := List.append_inj' ht rfl
  cases hw
  exact ⟨before, [], by simp, hl, by simp⟩

end Visible

section Simulation

variable {state : ScanState} {mask : Text} {k : Nat}

/-- The state of the validator's scan that a mode of the lexer corresponds to. -/
def toScanState : Mode → ScanState
  | .code _ => .code
  | .string => .singleQuote
  | .name _ => .doubleQuote
  | .line => .lineComment
  | .block _ => .blockComment
  | .dollar tag => .dollarQuote (delimiter tag)

/-- What is known of the text before the present position. -/
def Present (u : Unicode) (tokens : List Token) (mask : Text) : Mode → Prop
  | .code .between | .line => LeftBoundary u false mask ∧ Trailing u tokens mask
  | .code (.word glued word) => ∃ before, mask = before ++ word ∧ LeftBoundary u glued before
  | .code (.number _) | .code .exponent => True
  | .string | .dollar _ => LeftBoundary u false mask ∧ tokens.getLast? = some .literal
  | .name _ => LeftBoundary u false mask
  | .block depth => depth = 0 ∧ LeftBoundary u false mask ∧ Trailing u tokens mask

/-- Inside a word or a number. -/
def Mode.inWord : Mode → Bool
  | .code .between => false
  | .code _ => true
  | _ => false

/-- The lexer and the validator's scan are at one position in corresponding states, and
the mask shows what the lexer has put out. -/
structure InStep (u : Unicode) (k : Nat) (mode : Mode) (tokens : List Token) (state : ScanState)
    (mask : Text) : Prop where
  state : state = toScanState mode
  seen : Seen u tokens mask
  present : Present u tokens mask mode
  covered : k ≠ 0 → Mode.inWord mode = false

theorem isWord_ascii_false (h : c.toNat < 128) (ha : (c.isAlphanum || c == '_') = false) :
    u.isWord c = false := by
  rw [u.isWord_ascii c h, ha]

theorem isWord_blank : u.isWord ' ' = false := isWord_ascii_false (by decide) (by decide)

theorem Present.blank (h : Present u tokens mask mode) (hw : Mode.inWord mode = false) :
    Present u tokens (mask ++ [' ']) mode := by
  have hl : LeftBoundary u false (mask ++ [' ']) := leftBoundary_concat isWord_blank
  have ht (h : Trailing u tokens mask) : Trailing u tokens (mask ++ [' ']) :=
    h.mask_append (by simp [isSpace])
  cases mode with
  | code context =>
    cases context with
    | between => exact ⟨hl, ht h.2⟩
    | _ => cases hw
  | string | dollar => exact ⟨hl, h.2⟩
  | name => exact hl
  | line => exact ⟨hl, ht h.2⟩
  | block => exact ⟨h.1, hl, ht h.2.2⟩

theorem InStep.cover (h : InStep u (k + 1) mode tokens state mask) :
    InStep u k mode (tokens ++ []) state (mask ++ [' ']) := by
  have hw := h.covered (Nat.succ_ne_zero k)
  rw [List.append_nil]
  exact ⟨h.state, h.seen.mask_append, h.present.blank hw, fun _ => hw⟩

/-- The end of a word or number: the token is seen as soon as the mask goes on. -/
theorem seen_flush (h : Seen u tokens mask) (hp : Present u tokens mask (.code context))
    (hc : context.isWord = true → u.isWord c = false) :
    Seen u (tokens ++ context.flush) (mask ++ [c]) := by
  cases context with
  | between => simpa [Context.flush] using h.mask_append
  | word glued word =>
    obtain ⟨before, rfl, hl⟩ := hp
    exact h.concat_word hl (hc rfl)
  | number | exponent => exact h.mask_append.concat (by simp) (by simp)

theorem trailing_flush (hp : Present u tokens mask (.code context)) :
    Trailing u (tokens ++ context.flush) mask := by
  cases context with
  | between => simpa [Context.flush] using hp.2
  | word glued word =>
    obtain ⟨before, rfl, hl⟩ := hp
    exact trailing_concat_word hl
  | number | exponent => exact trailing_of_getLast List.getLast?_concat (by simp)

/-- No word character is anything but an identifier character to the engine. -/
def WordsAreIdentifiers (u : Unicode) (e : Engine) : Prop :=
  ∀ c, u.isWord c = true → e.identCont c = true

theorem isWord_of_not_start (hword : WordsAreIdentifiers u e) (hs : e.identStart c = false)
    (hd : c.isDigit = false) : u.isWord c = false := by
  by_cases hc : c = '$'
  · rw [hc]
    exact isWord_ascii_false (by decide) (by decide)
  · by_contra hw
    have hi := hword c (by simpa using hw)
    simp [Engine.identCont, hs, hd, hc] at hi

theorem Seen.flush_other (h : Seen u (tokens ++ context.flush) (mask ++ [c]))
    (hp : Present u tokens mask (.code context)) :
    Seen u (tokens ++ context.flush ++ [.other c]) (mask ++ [c]) := by
  apply h.concat (by simp)
  intro hc
  cases hc
  exact ⟨rfl, trailing_flush hp⟩

theorem inStep_begin (hword : WordsAreIdentifiers u e) (hspace : e.space c = isSpace c)
    (h : InStep u 0 (.code context) tokens .code mask)
    (hc : context.isWord = true → e.identCont c = false) :
    InStep u 0 (.code (e.begin context c).2) (tokens ++ (e.begin context c).1) .code
      (mask ++ [c]) := by
  have hnc : context.isWord = true → u.isWord c = false := by
    intro hw
    by_contra hne
    rw [hword c (by simpa using hne)] at hc
    exact absurd (hc hw) (by decide)
  have hseen := seen_flush h.seen h.present hnc
  cases hs : e.identStart c with
  | true =>
    simp only [Engine.begin, hs, if_true]
    refine ⟨rfl, hseen, ⟨mask, rfl, ?_⟩, by simp⟩
    -- an identifier character begins a word here only between words or after a number
    cases context with
    | between => exact h.present.1
    | word glued word =>
      have hi := hc rfl
      simp [Engine.identCont, hs] at hi
    | number | exponent =>
      intro hg
      cases hg
  | false =>
    cases hd : c.isDigit with
    | true =>
      simp only [Engine.begin, hs, hd, Bool.false_eq_true, if_false, if_true]
      exact ⟨rfl, hseen, trivial, by simp⟩
    | false =>
      have hl : LeftBoundary u false (mask ++ [c]) :=
        leftBoundary_concat (isWord_of_not_start hword hs hd)
      cases hb : e.space c with
      | true =>
        simp only [Engine.begin, hs, hd, hb, Bool.false_eq_true, if_false, if_true]
        refine ⟨rfl, hseen, ⟨hl, (trailing_flush h.present).mask_append ?_⟩, by simp⟩
        simpa [hspace] using hb
      | false =>
        simp only [Engine.begin, hs, hd, hb, Bool.false_eq_true, if_false, ← List.append_assoc]
        refine ⟨rfl, hseen.flush_other h.present, ⟨hl, ?_⟩, by simp⟩
        exact trailing_of_getLast List.getLast?_concat (by simp)

theorem inStep_read (hword : WordsAreIdentifiers u e) (hspace : e.space c = isSpace c)
    (h : InStep u 0 (.code context) tokens .code mask) (rest : Text) :
    InStep u 0 (.code (e.read context c rest).2) (tokens ++ (e.read context c rest).1) .code
      (mask ++ [c]) := by
  have hgoes {next : Context} (hp : Present u tokens (mask ++ [c]) (.code next)) :
      InStep u 0 (.code next) (tokens ++ []) .code (mask ++ [c]) := by
    rw [List.append_nil]
    exact ⟨rfl, h.seen.mask_append, hp, by simp⟩
  cases context with
  | between => exact inStep_begin hword hspace h (by simp [Context.isWord])
  | word glued word =>
    simp only [Engine.read]
    cases hc : e.identCont c with
    | true =>
      obtain ⟨before, hm, hl⟩ := h.present
      exact hgoes ⟨before, by rw [hm, List.append_assoc], hl⟩
    | false => exact inStep_begin hword hspace h fun _ => hc
  | number exponentAllowed =>
    simp only [Engine.read]
    split_ifs
    · exact hgoes trivial
    · exact hgoes trivial
    · exact inStep_begin hword hspace h (by simp [Context.isWord])
  | exponent => exact hgoes trivial

/-- Both scanners make this move together. -/
def MovesInStep (u : Unicode) (tokens : List Token) (mask : Text) (v : Move Mode Token)
    (w : Move ScanState Char) : Prop :=
  v.covers = w.covers ∧ InStep u v.covers v.next (tokens ++ v.output) w.next (mask ++ w.output)

theorem movesInStep_code (hword : WordsAreIdentifiers u e)
    (h : InStep u 0 (.code context) tokens .code mask) (ha : AgreesAt e (.code context) c rest) :
    MovesInStep u tokens mask (e.lexMove (.code context) c rest) (stripMove .code c rest) := by
  have hl : LeftBoundary u false (mask ++ [' ']) := leftBoundary_concat isWord_blank
  have hseen : Seen u (tokens ++ context.flush) (mask ++ [' ']) :=
    seen_flush h.seen h.present fun _ => isWord_blank
  have htrail : Trailing u (tokens ++ context.flush) (mask ++ [' ']) :=
    (trailing_flush h.present).mask_append (by simp [isSpace])
  have hliteral : Seen u (tokens ++ (context.flush ++ [.literal])) (mask ++ [' ']) := by
    rw [← List.append_assoc]
    exact hseen.concat (by simp) (by simp)
  have hlast : (tokens ++ (context.flush ++ [Token.literal])).getLast? = some .literal := by
    rw [← List.append_assoc, List.getLast?_concat]
  by_cases h1 : c = '\''
  · subst h1
    exact ⟨rfl, rfl, hliteral, ⟨hl, hlast⟩, fun _ => rfl⟩
  by_cases h2 : c = '"'
  · subst h2
    exact ⟨rfl, rfl, hseen, hl, fun _ => rfl⟩
  by_cases h3 : c = '-' ∧ rest.head? = some '-'
  · obtain ⟨rfl, hr⟩ := h3
    simp only [Engine.lexMove, stripMove, hr]
    exact ⟨rfl, rfl, hseen, ⟨hl, htrail⟩, fun _ => rfl⟩
  by_cases h4 : c = '/' ∧ rest.head? = some '*'
  · obtain ⟨rfl, hr⟩ := h4
    simp only [Engine.lexMove, stripMove, hr]
    exact ⟨rfl, rfl, hseen, ⟨rfl, hl, htrail⟩, fun _ => rfl⟩
  have hread := inStep_read hword ha.1 h rest
  by_cases hd : c = '$'
  · have ht := ha.2 hd
    simp only [Engine.lexMove, stripMove, h1, h2, h3, h4, if_false, if_pos hd, ht]
    cases e.dollarTag context (c :: rest) with
    | some tag => exact ⟨rfl, rfl, hliteral, ⟨hl, hlast⟩, fun _ => rfl⟩
    | none => exact ⟨rfl, hread⟩
  · have ht : e.dollarTag context (c :: rest) = none := by simp [Engine.dollarTag, hd]
    simp only [Engine.lexMove, stripMove, h1, h2, h3, h4, hd, ht, if_false]
    exact ⟨rfl, hread⟩

theorem movesInStep (hword : WordsAreIdentifiers u e) (h : InStep u 0 mode tokens state mask)
    (ha : AgreesAt e mode c rest) :
    MovesInStep u tokens mask (e.lexMove mode c rest) (stripMove state c rest) := by
  obtain ⟨rfl, hseen, hpresent, -⟩ := h
  have hl : LeftBoundary u false (mask ++ [' ']) := leftBoundary_concat isWord_blank
  have hquiet : Seen u (tokens ++ []) (mask ++ [' ']) := by
    rw [List.append_nil]
    exact hseen.mask_append
  cases mode with
  | code context => exact movesInStep_code hword ⟨rfl, hseen, hpresent, by simp⟩ ha
  | string =>
    have hlast : (tokens ++ []).getLast? = some Token.literal := by
      rw [List.append_nil]
      exact hpresent.2
    have hclosed : Present u (tokens ++ []) (mask ++ [' ']) (.code .between) :=
      ⟨hl, trailing_of_getLast hlast (by simp)⟩
    simp only [Engine.lexMove, stripMove, toScanState]
    split_ifs
    · exact ⟨rfl, rfl, hquiet, ⟨hl, hlast⟩, fun _ => rfl⟩
    · exact ⟨rfl, rfl, hquiet, hclosed, fun _ => rfl⟩
    · exact ⟨rfl, rfl, hquiet, ⟨hl, hlast⟩, fun _ => rfl⟩
  | name read =>
    have hname : Seen u (tokens ++ [.quoted read]) (mask ++ [' ']) :=
      hseen.mask_append.concat (by simp) (by simp)
    have hclosed : Present u (tokens ++ [.quoted read]) (mask ++ [' ']) (.code .between) :=
      ⟨hl, trailing_of_getLast List.getLast?_concat (by simp)⟩
    simp only [Engine.lexMove, stripMove, toScanState]
    split_ifs
    · exact ⟨rfl, rfl, hquiet, hl, fun _ => rfl⟩
    · exact ⟨rfl, rfl, hname, hclosed, fun _ => rfl⟩
    · exact ⟨rfl, rfl, hquiet, hl, fun _ => rfl⟩
  | line =>
    by_cases hc : c = '\n'
    · subst hc
      have hn : LeftBoundary u false (mask ++ ['\n']) :=
        leftBoundary_concat (isWord_ascii_false (by decide) (by decide))
      have ht : Trailing u (tokens ++ []) (mask ++ ['\n']) := by
        rw [List.append_nil]
        exact hpresent.2.mask_append (by simp [isSpace])
      simp only [Engine.lexMove, stripMove, toScanState, e.newline_lf, if_true]
      refine ⟨rfl, rfl, ?_, ⟨hn, ht⟩, fun _ => rfl⟩
      rw [List.append_nil]
      exact hseen.mask_append
    · have hn : e.newline c ≠ true := fun hn => hc (ha hn)
      have ht : Trailing u (tokens ++ []) (mask ++ [' ']) := by
        rw [List.append_nil]
        exact hpresent.2.mask_append (by simp [isSpace])
      simp only [Engine.lexMove, stripMove, toScanState, hc, hn, if_false]
      exact ⟨rfl, rfl, hquiet, ⟨hl, ht⟩, fun _ => rfl⟩
  | block depth =>
    obtain ⟨rfl, -, ht⟩ := hpresent
    have ht : Trailing u (tokens ++ []) (mask ++ [' ']) := by
      rw [List.append_nil]
      exact ht.mask_append (by simp [isSpace])
    simp only [Engine.lexMove, stripMove, toScanState, if_neg ha]
    split_ifs
    · exact ⟨rfl, rfl, hquiet, ⟨hl, ht⟩, fun _ => rfl⟩
    · exact ⟨rfl, rfl, hquiet, ⟨rfl, hl, ht⟩, fun _ => rfl⟩
  | dollar tag =>
    have hlast : (tokens ++ []).getLast? = some Token.literal := by
      rw [List.append_nil]
      exact hpresent.2
    have hclosed : Present u (tokens ++ []) (mask ++ [' ']) (.code .between) :=
      ⟨hl, trailing_of_getLast hlast (by simp)⟩
    simp only [Engine.lexMove, stripMove, toScanState]
    split_ifs
    · exact ⟨rfl, rfl, hquiet, hclosed, fun _ => rfl⟩
    · exact ⟨rfl, rfl, hquiet, ⟨hl, hlast⟩, fun _ => rfl⟩

theorem pending_lexer : (run e.lexer [] ⟨0, mode⟩ text).1.pending = 0 :=
  pending_run (m := e.lexer) lexMove_covers (Nat.zero_le text.length)

/-- The lexer and the validator's scan go through an agreed text together. -/
theorem inStep_run (hword : WordsAreIdentifiers u e) (ha : Agrees e text) :
    InStep u 0 (run e.lexer [] ⟨0, .code .between⟩ text).1.state
      (run e.lexer [] ⟨0, .code .between⟩ text).2 (run stripper [] ⟨0, .code⟩ text).1.state
      (run stripper [] ⟨0, .code⟩ text).2 := by
  have hI : InStep u 0 (.code .between) [] .code [] := by
    refine ⟨rfl, ⟨by simp, ?_⟩, ⟨by simp [LeftBoundary], ?_⟩, by simp⟩
    · rintro glued word ⟨earlier, after, h⟩
      simp at h
    · rintro earlier glued word h
      simp at h
  have ha : Along e.lexer (AgreesAt e) [] ⟨0, .code .between⟩ text := ha
  have hend := run_pair (m := e.lexer) (n := stripper) (I := InStep u) (fun _ _ _ _ _ _ h => h.cover)
    (fun _ _ _ _ _ _ h hg => movesInStep hword h hg) ha hI
  rw [pending_lexer] at hend
  exact hend.2

end Simulation

end PipelineIQ.Execution.SqlMasking

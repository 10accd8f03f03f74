import PipelineIQ.Execution.SqlBuilder

namespace PipelineIQ.Execution.SqlStripping

open PipelineIQ.Lib.Strings PipelineIQ.Lib.Scan PipelineIQ.Execution.SqlBuilder

/-- What stands between the dollar signs of a dollar quote's delimiter. -/
structure Tag where
  text : Text
  chars : ∀ c ∈ text, isTagChar c = true
  start : ∀ c ∈ text.head?, isTagStart c = true

/-- The parts of a statement that are not executable code. -/
inductive Region where
  | literal | identifier | line | block
  | dollar (tag : Tag)

def Region.opening : Region → Text
  | .literal => ['\'']
  | .identifier => ['"']
  | .line => ['-', '-']
  | .block => ['/', '*']
  | .dollar tag => '$' :: tag.text ++ ['$']

/-- A text in which every `q` is doubled. -/
inductive Doubled (q : Char) : Text → Prop
  | nil : Doubled q []
  | char {c : Char} {x : Text} : c ≠ q → Doubled q x → Doubled q (c :: x)
  | quote {x : Text} : Doubled q x → Doubled q (q :: q :: x)

/-- What follows the opening of a quote up to its closing `q`, the first one that is not
doubled. -/
def Quoted (q : Char) (body after : Text) : Prop :=
  ∃ inner, body = inner ++ [q] ∧ Doubled q inner ∧ after.head? ≠ some q

/-- A text that ends with the first occurrence of a delimiter in it. -/
inductive UpTo (d : Text) : Text → Prop
  | here : UpTo d d
  | later {c : Char} {x : Text} : ¬ d <+: c :: x → UpTo d x → UpTo d (c :: x)

/-- Where `after` follows, the region is closed at the end of `body`. -/
def Region.Closes : Region → Text → Text → Prop
  | .literal, body, after => Quoted '\'' body after
  | .identifier, body, after => Quoted '"' body after
  | .line, body, after => '\n' ∉ body ∧ ∀ c ∈ after.head?, c = '\n'
  | .block, body, _ => UpTo ['*', '/'] body
  | .dollar tag, body, _ => UpTo (Region.dollar tag).opening body

/-- In the text `before ++ after` the end of `before` is a place in code. -/
inductive AtCode : Text → Text → Prop
  | start (text : Text) : AtCode [] text
  | code {before after : Text} {c : Char} : AtCode before (c :: after) →
      (∀ r : Region, ¬ r.opening <+: c :: after) → AtCode (before ++ [c]) after
  | region {before body after : Text} {r : Region} : AtCode before (r.opening ++ (body ++ after)) →
      r.Closes body after → AtCode (before ++ (r.opening ++ body)) after

/-- The position lies in a region of the text, its delimiters included. -/
def Inside (sql : Text) (i : Nat) : Prop :=
  ∃ before body after, ∃ r : Region, sql = before ++ (r.opening ++ (body ++ after)) ∧
    AtCode before (r.opening ++ (body ++ after)) ∧ r.Closes body after ∧
    before.length ≤ i ∧ i < before.length + (r.opening ++ body).length

/-- A literal, quoted identifier, block comment or dollar quote is open at the end. -/
def LeftOpen (sql : Text) : Prop :=
  ∃ before rest, ∃ r : Region, sql = before ++ (r.opening ++ rest) ∧
    AtCode before (r.opening ++ rest) ∧ r ≠ .line ∧
    ∀ body after, rest = body ++ after → ¬ r.Closes body after

variable {before after body rest tail d x y : Text} {c q : Char} {r : Region} {s s' : ScanState}
  {i n : Nat} {sql : Text}

def blanks (n : Nat) : Text := List.replicate n ' '

def Region.state : Region → ScanState
  | .literal => .singleQuote
  | .identifier => .doubleQuote
  | .line => .lineComment
  | .block => .blockComment
  | .dollar tag => .dollarQuote (Region.dollar tag).opening

section Openings

theorem isTagChar_dollar : isTagChar '$' = false := by decide

theorem isTagStart_dollar : isTagStart '$' = false := by decide

theorem isTagChar_of_isTagStart (h : isTagStart c = true) : isTagChar c = true := by
  rw [isTagStart, Bool.or_eq_true] at h
  rw [isTagChar, Char.isAlphanum, Bool.or_eq_true, Bool.or_eq_true]
  cases h with
  | inl ha => exact Or.inl (Or.inl ha)
  | inr hu => exact Or.inr hu

theorem takeWhile_tag (h : ∀ c ∈ x, isTagChar c = true) :
    (x ++ '$' :: rest).takeWhile isTagChar = x := by
  rw [List.takeWhile_append_of_pos h, List.takeWhile_cons_of_neg, List.append_nil]
  rw [isTagChar_dollar]
  exact Bool.false_ne_true

theorem dropWhile_tag (h : ∀ c ∈ x, isTagChar c = true) :
    (x ++ '$' :: rest).dropWhile isTagChar = '$' :: rest := by
  rw [List.dropWhile_append_of_pos h, List.dropWhile_cons_of_neg]
  rw [isTagChar_dollar]
  exact Bool.false_ne_true

theorem dollarQuoteStart_opening (tag : Tag) (rest : List Char) :
    dollarQuoteStart ((Region.dollar tag).opening ++ rest) = some (Region.dollar tag).opening := by
  obtain ⟨_ | ⟨c, text⟩, hchars, hstart⟩ := tag
  · rfl
  · have hc : isTagStart c = true := hstart c rfl
    have hne : c ≠ '$' := by
      rintro rfl
      rw [isTagStart_dollar] at hc
      cases hc
    have ht : ∀ c ∈ text, isTagChar c = true := fun c hm => hchars c (List.mem_cons_of_mem _ hm)
    simp only [Region.opening, List.cons_append, List.append_assoc, List.nil_append]
    rw [dollarQuoteStart, takeWhile_tag ht, dropWhile_tag ht, if_pos ⟨hc, rfl⟩]
    · rfl
    · exact hne

theorem exists_tag (h : dollarQuoteStart x = some d) :
    ∃ tag : Tag, d = (Region.dollar tag).opening ∧ d <+: x := by
  unfold dollarQuoteStart at h
  split at h
  · cases h
    exact ⟨⟨[], by simp, by simp⟩, rfl, by simp⟩
  · next c text _ =>
    split at h
    · next hc =>
      cases h
      have hchars : ∀ b ∈ c :: text.takeWhile isTagChar, isTagChar b = true := by
        intro b hb
        cases hb with
        | head => exact isTagChar_of_isTagStart hc.1
        | tail _ hb => exact List.mem_takeWhile_imp hb
      refine ⟨⟨c :: text.takeWhile isTagChar, hchars, ?_⟩, rfl, ?_⟩
      · intro b hb
        cases hb
        exact hc.1
      · obtain ⟨a, hd⟩ : ∃ a, text.dropWhile isTagChar = '$' :: a := by
          cases hd : text.dropWhile isTagChar with
          | nil => rw [hd] at hc; cases hc.2
          | cons b a =>
            rw [hd] at hc
            cases hc.2
            exact ⟨a, rfl⟩
        have ht : text = text.takeWhile isTagChar ++ '$' :: a := by
          rw [← hd, List.takeWhile_append_dropWhile]
        refine ⟨a, ?_⟩
        simp only [List.cons_append, List.append_assoc, List.nil_append]
        rw [← ht]
    · cases h
  · cases h

theorem prefix_pair {a b : Char} (h : rest.head? = some b) : [a, b] <+: a :: rest := by
  cases rest with
  | nil => cases h
  | cons b' rest =>
    cases h
    exact ⟨rest, rfl⟩

/-- A character of code that opens no region. -/
theorem stripMove_plain (h : ∀ r : Region, ¬ r.opening <+: c :: rest) :
    stripMove .code c rest = ⟨.code, 0, [c]⟩ := by
  have hline : ¬ (c = '-' ∧ rest.head? = some '-') := by
    rintro ⟨rfl, hr⟩
    exact h .line (prefix_pair hr)
  have hblock : ¬ (c = '/' ∧ rest.head? = some '*') := by
    rintro ⟨rfl, hr⟩
    exact h .block (prefix_pair hr)
  have hliteral : c ≠ '\'' := by
    rintro rfl
    exact h .literal ⟨rest, rfl⟩
  have hidentifier : c ≠ '"' := by
    rintro rfl
    exact h .identifier ⟨rest, rfl⟩
  have hdollar : dollarQuoteStart (c :: rest) = none := by
    rw [Option.eq_none_iff_forall_ne_some]
    intro d hd
    obtain ⟨tag, rfl, hp⟩ := exists_tag hd
    exact h (.dollar tag) hp
  rw [stripMove, hdollar]
  by_cases hc : c = '$'
  · rw [if_pos hc]
  · rw [if_neg hc, if_neg hliteral, if_neg hidentifier, if_neg hline, if_neg hblock]

theorem stripMove_opening (r : Region) (h : r.opening = c :: x) :
    stripMove .code c (x ++ rest) = ⟨r.state, x.length, [' ']⟩ := by
  cases r with
  | dollar tag =>
    have hd := dollarQuoteStart_opening tag rest
    obtain rfl : '$' = c := (List.cons.inj h).1
    rw [h, List.cons_append] at hd
    rw [stripMove, if_pos rfl, hd]
    simp [Region.state, h]
  | literal | identifier | line | block =>
    cases h
    rfl

end Openings

section Regions

theorem blanks_succ (n : Nat) : blanks (n + 1) = ' ' :: blanks n := List.replicate_succ

theorem flatMap_covered (x : Text) : x.flatMap stripper.covered = blanks x.length := by
  induction x with
  | nil => rfl
  | cons c x ih =>
    rw [List.flatMap_cons, ih, List.length_cons, blanks_succ]
    rfl

theorem run_blank (h : stripMove s c (x ++ tail) = ⟨s', x.length, [' ']⟩) :
    run stripper tail ⟨0, s⟩ (c :: x) = (⟨0, s'⟩, blanks (c :: x).length) := by
  rw [run_token h, flatMap_covered, List.length_cons, blanks_succ]
  rfl

theorem Region.opening_pos (r : Region) : 0 < r.opening.length := by
  cases r with
  | _ => exact Nat.succ_pos _

theorem run_opening (r : Region) : run stripper rest ⟨0, .code⟩ r.opening =
    (⟨0, r.state⟩, blanks r.opening.length) := by
  obtain ⟨c, x, h⟩ := List.exists_cons_of_length_pos r.opening_pos
  rw [h]
  exact run_blank (stripMove_opening r h)

/-- The scanner is in a quote that `q` closes. -/
def Quoting (q : Char) (s : ScanState) : Prop := ∀ c rest, stripMove s c rest =
  if c = q ∧ rest.head? = some q then ⟨s, 1, [' ']⟩
  else if c = q then ⟨.code, 0, [' ']⟩
  else ⟨s, 0, [' ']⟩

theorem run_quoted (hs : Quoting q s) (h : Quoted q body after) :
    run stripper after ⟨0, s⟩ body = (⟨0, .code⟩, blanks body.length) := by
  obtain ⟨inner, rfl, hd, ha⟩ := h
  induction hd with
  | nil =>
    apply run_blank (x := [])
    rw [hs, if_neg (fun h => ha h.2), if_pos rfl]
    rfl
  | @char c x hc _ ih =>
    have hm : stripMove s c (x ++ [q] ++ after) = ⟨s, 0, [' ']⟩ := by
      rw [hs, if_neg (fun h => hc h.1), if_neg hc]
    rw [List.cons_append, run_move hm, ih, List.length_cons, blanks_succ]
    rfl
  | @quote x _ ih =>
    have hm : stripMove s q (q :: (x ++ [q]) ++ after) = ⟨s, 1, [' ']⟩ := by
      rw [hs, if_pos ⟨rfl, rfl⟩]
    rw [List.cons_append, List.cons_append, run_move hm, run_covered, ih, List.length_cons,
      List.length_cons, blanks_succ, blanks_succ]
    rfl

theorem Quoted.char (hc : c ≠ q) (h : Quoted q body after) : Quoted q (c :: body) after := by
  obtain ⟨inner, rfl, hd, ha⟩ := h
  exact ⟨c :: inner, rfl, hd.char hc, ha⟩

theorem Quoted.quote (h : Quoted q body after) : Quoted q (q :: q :: body) after := by
  obtain ⟨inner, rfl, hd, ha⟩ := h
  exact ⟨q :: q :: inner, rfl, hd.quote, ha⟩

/-- A quote that is never closed. The induction takes two characters at a doubled one. -/
theorem run_unquoted (hs : Quoting q s) (n : Nat) (hn : x.length ≤ n)
    (h : ∀ body after, x = body ++ after → ¬ Quoted q body after) :
    (run stripper [] ⟨0, s⟩ x).1.state = s := by
  induction n generalizing x with
  | zero =>
    rw [List.length_eq_zero_iff.mp (Nat.le_zero.mp hn), run_nil]
  | succ n ih =>
    cases x with
    | nil => rw [run_nil]
    | cons c x =>
      by_cases hc : c = q
      · subst hc
        cases x with
        | nil => exact absurd ⟨[], rfl, .nil, nofun⟩ (h [c] [] rfl)
        | cons b x =>
          by_cases hb : b = c
          · subst hb
            have hm : stripMove s b (b :: x ++ []) = ⟨s, 1, [' ']⟩ := by
              rw [hs, if_pos ⟨rfl, rfl⟩]
            rw [run_move hm, run_covered]
            apply ih
            · simp only [List.length_cons] at hn
              omega
            · intro body after hx hq
              exact h (b :: b :: body) after (by rw [hx]; rfl) hq.quote
          · exact absurd ⟨[], rfl, .nil, fun hh => hb (Option.some.inj hh)⟩ (h [c] (b :: x) rfl)
      · have hm : stripMove s c (x ++ []) = ⟨s, 0, [' ']⟩ := by
          rw [hs, if_neg (fun h => hc h.1), if_neg hc]
        rw [run_move hm]
        apply ih
        · exact Nat.le_of_succ_le_succ hn
        · intro body after hx hq
          exact h (c :: body) after (by rw [hx]; rfl) (hq.char hc)

/-- The scanner is in a region that the delimiter closes. -/
def Delimited (d : Text) (s : ScanState) : Prop := ∀ c rest, stripMove s c rest =
  if d.isPrefixOf (c :: rest) then ⟨.code, d.length - 1, [' ']⟩ else ⟨s, 0, [' ']⟩

theorem length_upTo (h : UpTo d body) : d.length ≤ body.length := by
  induction h with
  | here => exact Nat.le_refl _
  | later _ _ ih => exact Nat.le_succ_of_le ih

theorem run_upTo (hs : Delimited d s) (hd : d ≠ []) (h : UpTo d body) :
    run stripper after ⟨0, s⟩ body = (⟨0, .code⟩, blanks body.length) := by
  induction h with
  | here =>
    obtain ⟨c, x, rfl⟩ := List.exists_cons_of_ne_nil hd
    apply run_blank
    rw [hs, if_pos]
    · rfl
    · rw [List.isPrefixOf_iff_prefix]
      exact List.prefix_append (c :: x) after
  | @later c x hp h ih =>
    have hm : stripMove s c (x ++ after) = ⟨s, 0, [' ']⟩ := by
      rw [hs, if_neg]
      rw [List.isPrefixOf_iff_prefix, ← List.cons_append]
      intro hpa
      exact hp (List.prefix_of_prefix_length_le hpa (List.prefix_append _ _)
        (Nat.le_succ_of_le (length_upTo h)))
    rw [run_move hm, ih, List.length_cons, blanks_succ]
    rfl

theorem run_not_upTo (hs : Delimited d s)
    (h : ∀ body after, x = body ++ after → ¬ UpTo d body) :
    (run stripper [] ⟨0, s⟩ x).1.state = s := by
  induction x with
  | nil => rw [run_nil]
  | cons c x ih =>
    have hp : ¬ d <+: c :: x := by
      rintro ⟨after, hd⟩
      exact h d after hd.symm .here
    have hm : stripMove s c (x ++ []) = ⟨s, 0, [' ']⟩ := by
      rw [hs, if_neg]
      rwa [List.isPrefixOf_iff_prefix, List.append_nil]
    rw [run_move hm]
    apply ih
    intro body after hx hu
    apply h (c :: body) after (by rw [hx]; rfl)
    apply UpTo.later _ hu
    intro hb
    apply hp
    rw [hx, ← List.cons_append]
    exact hb.trans (List.prefix_append _ _)

theorem run_line (h : '\n' ∉ body) : run stripper after ⟨0, .lineComment⟩ body =
    (⟨0, .lineComment⟩, blanks body.length) := by
  induction body with
  | nil => rfl
  | cons c x ih =>
    have hc : c ≠ '\n' := fun hc => h (hc ▸ List.mem_cons_self)
    have hm : stripMove .lineComment c (x ++ after) = ⟨.lineComment, 0, [' ']⟩ := by
      rw [stripMove, if_neg hc]
    rw [run_move hm, ih (fun hx => h (List.mem_cons_of_mem _ hx)), List.length_cons, blanks_succ]
    rfl

theorem quoting_literal : Quoting '\'' .singleQuote := fun _ _ => rfl

theorem quoting_identifier : Quoting '"' .doubleQuote := fun _ _ => rfl

theorem delimited_block : Delimited ['*', '/'] .blockComment := by
  intro c rest
  rw [stripMove]
  apply if_congr _ rfl rfl
  rw [List.isPrefixOf_iff_prefix, List.cons_prefix_cons, eq_comm]
  apply and_congr_right'
  cases rest with
  | nil => exact ⟨nofun, fun h => nomatch List.prefix_nil.mp h⟩
  | cons b rest =>
    rw [List.cons_prefix_cons, List.head?_cons, Option.some_inj, eq_comm]
    exact ⟨fun h => ⟨h, List.nil_prefix⟩, And.left⟩

theorem delimited_dollar (d : Text) : Delimited d (.dollarQuote d) := fun _ _ => rfl

/-- Where the scanner stands at a place in code: the line feed after a comment still to
be read is itself code. -/
def Rests (s : ScanState) (after : Text) : Prop :=
  s = .code ∨ s = .lineComment ∧ ∀ c ∈ after.head?, c = '\n'

theorem run_region (h : r.Closes body after) : ∃ s, Rests s after ∧
    run stripper after ⟨0, r.state⟩ body = (⟨0, s⟩, blanks body.length) := by
  cases r with
  | literal => exact ⟨.code, Or.inl rfl, run_quoted quoting_literal h⟩
  | identifier => exact ⟨.code, Or.inl rfl, run_quoted quoting_identifier h⟩
  | line => exact ⟨.lineComment, Or.inr ⟨rfl, h.2⟩, run_line h.1⟩
  | block => exact ⟨.code, Or.inl rfl, run_upTo delimited_block (by simp) h⟩
  | dollar tag => exact ⟨.code, Or.inl rfl, run_upTo (delimited_dollar _) nofun h⟩

theorem run_open (hr : r ≠ .line) (h : ∀ body after, rest = body ++ after → ¬ r.Closes body after) :
    (run stripper [] ⟨0, r.state⟩ rest).1.state = r.state := by
  cases r with
  | literal => exact run_unquoted quoting_literal _ (Nat.le_refl _) h
  | identifier => exact run_unquoted quoting_identifier _ (Nat.le_refl _) h
  | line => exact absurd rfl hr
  | block => exact run_not_upTo delimited_block h
  | dollar tag => exact run_not_upTo (delimited_dollar _) h

theorem exists_line (rest : Text) : ∃ body after, rest = body ++ after ∧
    Region.line.Closes body after := by
  refine ⟨rest.takeWhile (· ≠ '\n'), rest.dropWhile (· ≠ '\n'),
    List.takeWhile_append_dropWhile.symm, ?_, ?_⟩
  · intro h
    simpa using List.mem_takeWhile_imp h
  · intro c hc
    have h := List.head?_dropWhile_not (fun c => decide (c ≠ '\n')) rest
    rw [Option.mem_def.mp hc] at h
    simpa using h

end Regions

section Positions

theorem stripMove_length (s : ScanState) (c : Char) (rest : Text) :
    (stripMove s c rest).output.length = 1 := by
  unfold stripMove
  split
  · split_ifs
    · split <;> rfl
    all_goals rfl
  all_goals split_ifs <;> rfl

theorem length_run {config : Config ScanState} :
    (run stripper tail config x).2.length = x.length := by
  induction x generalizing config with
  | nil => rfl
  | cons c x ih =>
    obtain ⟨_ | k, s⟩ := config
    · rw [run_move rfl, List.length_append, ih, List.length_cons, Nat.add_comm]
      exact congrArg _ (stripMove_length s c _)
    · rw [run_covered, List.length_append, ih, List.length_cons, Nat.add_comm]
      rfl

theorem Rests.eq_code (h : Rests s (r.opening ++ x)) : s = .code := by
  obtain rfl | ⟨_, hn⟩ := h
  · rfl
  · cases r with
    | _ => exact absurd (hn _ rfl) (by decide)

theorem Rests.stripMove_plain (h : Rests s (c :: rest))
    (hr : ∀ r : Region, ¬ r.opening <+: c :: rest) : stripMove s c rest = ⟨.code, 0, [c]⟩ := by
  obtain rfl | ⟨rfl, hn⟩ := h
  · exact SqlStripping.stripMove_plain hr
  · obtain rfl : c = '\n' := hn c rfl
    rfl

theorem run_atCode (h : AtCode before after) :
    ∃ s, Rests s after ∧ (run stripper after ⟨0, .code⟩ before).1 = ⟨0, s⟩ := by
  induction h with
  | start text => exact ⟨.code, Or.inl rfl, rfl⟩
  | code _ hr ih =>
    obtain ⟨s, hs, hrun⟩ := ih
    refine ⟨.code, Or.inl rfl, ?_⟩
    rw [run_append, List.singleton_append, hrun, run_move (hs.stripMove_plain hr)]
    rfl
  | @region before body after r _ hc ih =>
    obtain ⟨s, hs, hrun⟩ := ih
    obtain ⟨s', hs', hbody⟩ := run_region hc
    refine ⟨s', hs', ?_⟩
    rw [run_append, List.append_assoc, hrun, hs.eq_code, run_append, run_opening, hbody]

/-- A place in code where no region begins. -/
def PlainAt (sql : Text) (i : Nat) : Prop :=
  ∃ before c after, sql = before ++ c :: after ∧ AtCode before (c :: after) ∧ before.length = i ∧
    ∀ r : Region, ¬ r.opening <+: c :: after

/-- Everything before a place in code is code or inside a region. -/
theorem inside_or_plainAt (h : AtCode before after) (hi : i < before.length) :
    Inside (before ++ after) i ∨ PlainAt (before ++ after) i := by
  induction h with
  | start text => exact absurd hi (Nat.not_lt_zero i)
  | @code before after c h hr ih =>
    rw [List.append_assoc, List.singleton_append]
    by_cases hlt : i < before.length
    · exact ih hlt
    · rw [List.length_append, List.length_singleton] at hi
      exact Or.inr ⟨before, c, after, rfl, h, by omega, hr⟩
  | @region before body after r h hc ih =>
    rw [List.append_assoc, List.append_assoc]
    by_cases hlt : i < before.length
    · exact ih hlt
    · rw [List.length_append] at hi
      exact Or.inl ⟨before, body, after, r, rfl, h, hc, by omega, hi⟩

/-- What the loop has appended to its result at the end of the text. -/
def masked (sql : Text) : Text := (run stripper [] ⟨0, .code⟩ sql).2

theorem getElem?_masked_inside (h : Inside sql i) : (masked sql)[i]? = some ' ' := by
  obtain ⟨before, body, after, r, rfl, hb, hc, hle, hlt⟩ := h
  obtain ⟨s, hs, hrun⟩ := run_atCode hb
  obtain ⟨s', _, hbody⟩ := run_region hc
  have hregion : run stripper after ⟨0, s⟩ (r.opening ++ body) =
      (⟨0, s'⟩, blanks (r.opening ++ body).length) := by
    rw [hs.eq_code, run_append, run_opening, hbody, List.length_append, blanks, blanks, blanks,
      List.replicate_append_replicate]
  rw [masked, run_append, List.append_nil, hrun, List.getElem?_append_right (by rwa [length_run]),
    length_run, ← List.append_assoc, run_append, List.append_nil, hregion,
    List.getElem?_append_left, blanks, List.getElem?_replicate, if_pos]
  · omega
  · rw [blanks, List.length_replicate]
    omega

theorem getElem?_masked_plainAt (h : PlainAt sql i) : (masked sql)[i]? = sql[i]? := by
  obtain ⟨before, c, after, rfl, hb, rfl, hr⟩ := h
  obtain ⟨s, hs, hrun⟩ := run_atCode hb
  have hm : stripMove s c (after ++ []) = ⟨.code, 0, [c]⟩ := by
    rw [List.append_nil]
    exact hs.stripMove_plain hr
  rw [masked, run_append, List.append_nil, hrun,
    List.getElem?_append_right (Nat.le_of_eq length_run), length_run, run_move hm,
    List.getElem?_append_right (Nat.le_refl _), Nat.sub_self]
  rfl

end Positions

section Outcome

theorem strip_eq (sql : Text) : stripLiteralsAndComments sql =
    if (run stripper [] ⟨0, .code⟩ sql).1.state.terminated then .ok (masked sql)
    else .error "SQL query contains an unterminated literal or comment" := rfl

theorem strip_atCode (h : AtCode sql []) : stripLiteralsAndComments sql = .ok (masked sql) := by
  obtain ⟨s, hs, hrun⟩ := run_atCode h
  rw [strip_eq, hrun, if_pos]
  obtain rfl | ⟨rfl, _⟩ := hs
  · rfl
  · rfl

theorem strip_leftOpen (h : LeftOpen sql) : ∃ e, stripLiteralsAndComments sql = .error e := by
  obtain ⟨before, rest, r, rfl, hb, hr, hopen⟩ := h
  obtain ⟨s, hs, hrun⟩ := run_atCode hb
  have hstate : (run stripper [] ⟨0, .code⟩ (before ++ (r.opening ++ rest))).1.state = r.state := by
    rw [run_append, List.append_nil, hrun, hs.eq_code, run_append, List.append_nil, run_opening]
    exact run_open hr hopen
  have hterm : ¬ r.state.terminated := by
    cases r with
    | line => exact absurd rfl hr
    | _ => exact Bool.false_ne_true
  exact ⟨_, by rw [strip_eq, hstate, if_neg hterm]⟩

/-- Reading on from a place in code, the text ends in code or inside a region. -/
theorem atCode_or_leftOpen (n : Nat) (hn : after.length ≤ n) (h : AtCode before after) :
    AtCode (before ++ after) [] ∨ LeftOpen (before ++ after) := by
  induction n generalizing before after with
  | zero =>
    obtain rfl := List.length_eq_zero_iff.mp (Nat.le_zero.mp hn)
    rw [List.append_nil]
    exact Or.inl h
  | succ n ih =>
    cases after with
    | nil =>
      rw [List.append_nil]
      exact Or.inl h
    | cons c rest =>
      by_cases hr : ∃ r : Region, r.opening <+: c :: rest
      · obtain ⟨r, after, ho⟩ := hr
        rw [← ho] at h hn ⊢
        by_cases hc : ∃ body rest', after = body ++ rest' ∧ r.Closes body rest'
        · obtain ⟨body, rest', rfl, hc⟩ := hc
          have hlen := r.opening_pos
          rw [← List.append_assoc r.opening, ← List.append_assoc before]
          apply ih _ (h.region hc)
          simp only [List.length_append] at hn
          omega
        · apply Or.inr
          refine ⟨before, after, r, rfl, h, ?_, fun body rest' ha hb => hc ⟨body, rest', ha, hb⟩⟩
          rintro rfl
          exact hc (exists_line after)
      · have hp : ∀ r : Region, ¬ r.opening <+: c :: rest := fun r h => hr ⟨r, h⟩
        rw [← List.singleton_append, ← List.append_assoc]
        exact ih (Nat.le_of_succ_le_succ hn) (h.code hp)

theorem atCode_or_leftOpen_of_text (sql : Text) : AtCode sql [] ∨ LeftOpen sql :=
  atCode_or_leftOpen sql.length (Nat.le_refl _) (.start sql)

theorem atCode_of_ok {result : Text} (h : stripLiteralsAndComments sql = .ok result) :
    AtCode sql [] ∧ result = masked sql := by
  cases atCode_or_leftOpen_of_text sql with
  | inl hc =>
    rw [strip_atCode hc] at h
    exact ⟨hc, (Except.ok.inj h).symm⟩
  | inr ho =>
    obtain ⟨e, he⟩ := strip_leftOpen ho
    rw [he] at h
    cases h

theorem blank_not_mem_opening (r : Region) : ' ' ∉ r.opening := by
  cases r with
  | dollar tag =>
    intro h
    simp only [Region.opening, List.cons_append, List.mem_cons, List.mem_append,
      List.not_mem_nil, or_false] at h
    obtain h | h | h := h
    · exact absurd h (by decide)
    · exact absurd (tag.chars _ h) (by decide)
    · exact absurd h (by decide)
  | _ => decide

/-- Nothing in the result opens a region. -/
theorem not_opening_masked (h : AtCode sql []) (r : Region) :
    ¬ r.opening <+: (masked sql).drop i := by
  intro hp
  have hkept : ∀ k (hk : k < r.opening.length), PlainAt sql (i + k) ∧
      sql[i + k]? = some r.opening[k] := by
    intro k hk
    have hm : (masked sql)[i + k]? = some r.opening[k] := by
      rw [← List.getElem?_drop]
      exact List.prefix_iff_getElem?.mp hp k hk
    have hlt : i + k < sql.length := by
      rw [← length_run (x := sql)]
      exact (List.getElem?_eq_some_iff.mp hm).1
    have hposition := inside_or_plainAt h hlt
    rw [List.append_nil] at hposition
    cases hposition with
    | inl hin =>
      rw [getElem?_masked_inside hin, Option.some_inj] at hm
      exact absurd (hm ▸ List.getElem_mem hk) (blank_not_mem_opening r)
    | inr hplain => exact ⟨hplain, by rw [← getElem?_masked_plainAt hplain, hm]⟩
  have hopening : r.opening <+: sql.drop i := by
    rw [List.prefix_iff_getElem?]
    intro k hk
    rw [List.getElem?_drop]
    exact (hkept k hk).2
  obtain ⟨before, c, after, rfl, _, rfl, hr⟩ := (hkept 0 r.opening_pos).1
  rw [List.drop_left] at hopening
  exact hr r hopening

/-- A text in which nothing opens a region is copied. -/
theorem run_plain (h : ∀ (r : Region) (i : Nat), ¬ r.opening <+: x.drop i) :
    run stripper [] ⟨0, .code⟩ x = (⟨0, .code⟩, x) := by
  induction x with
  | nil => rfl
  | cons c x ih =>
    have hm : stripMove .code c (x ++ []) = ⟨.code, 0, [c]⟩ := by
      rw [List.append_nil]
      exact stripMove_plain fun r => h r 0
    rw [run_move hm, ih fun r i => h r (i + 1)]
    rfl

theorem strip_exact (sql : Text) :
    ((∃ e, stripLiteralsAndComments sql = .error e) ↔ LeftOpen sql) ∧
    ∀ result, stripLiteralsAndComments sql = .ok result →
      result.length = sql.length ∧
      (∀ i, Inside sql i → result[i]? = some ' ') ∧
      (∀ i, ¬ Inside sql i → result[i]? = sql[i]?) ∧
      stripLiteralsAndComments result = .ok result := by
  constructor
  · constructor
    · rintro ⟨e, he⟩
      cases atCode_or_leftOpen_of_text sql with
      | inl hc =>
        rw [strip_atCode hc] at he
        cases he
      | inr ho => exact ho
    · exact strip_leftOpen
  · intro result h
    obtain ⟨hc, rfl⟩ := atCode_of_ok h
    refine ⟨length_run, fun i => getElem?_masked_inside, ?_, ?_⟩
    · intro i hi
      by_cases hlt : i < sql.length
      · have hposition := inside_or_plainAt hc hlt
        rw [List.append_nil] at hposition
        exact getElem?_masked_plainAt (hposition.resolve_left hi)
      · rw [List.getElem?_eq_none (Nat.le_of_not_lt hlt), List.getElem?_eq_none]
        rw [masked, length_run]
        exact Nat.le_of_not_lt hlt
    · have hplain := run_plain fun r i => not_opening_masked (i := i) hc r
      rw [stripLiteralsAndComments, hplain]
      rfl

/-- A doubled quote, a comment and a dollar quote. -/
example : stripLiteralsAndComments "a''''$x$'$x$b--'\n/*/*/-".toList =
    .ok "a           b   \n     -".toList := by decide +kernel

end Outcome

end PipelineIQ.Execution.SqlStripping

import Mathlib.Algebra.GroupWithZero.Nat
import Mathlib.Data.List.Forall2
import PipelineIQ.Lib.Sql

namespace PipelineIQ.Lib.SqlTokens

open Strings

/-! A lexer of SQL that keeps what the quoted tokens stand for. -/

inductive Token where
  | word (text : Text)
  | name (text : Text)
  | string (text : Text)
  | number (text : Text)
  | symbol (c : Char)
  deriving DecidableEq

/-- What the lexer has read since the last complete token. A quote inside of quotes is their end
or the first of two, so it has a state of its own. -/
inductive State where
  | between
  | word (read : Text)
  | number (read : Text)
  | string (read : Text)
  | stringQuote (read : Text)
  | name (read : Text)
  | nameQuote (read : Text)
  | dash
  | slash
  | line
  | block (depth : Nat) (before : Option Char)
  | dollarTag (tag : Text)
  | dollar (tag read : Text)
  deriving DecidableEq

def wordStart (c : Char) : Bool := c.isAlpha || c == '_' || decide (128 ≤ c.toNat)

def wordPart (c : Char) : Bool := wordStart c || c.isDigit || c == '$'

def blank (c : Char) : Bool := decide (c = ' ' ∨ (9 ≤ c.toNat ∧ c.toNat ≤ 13))

/-- A sign belongs to a number after the letter of its exponent. -/
def numberPart (read : Text) (c : Char) : Bool :=
  c.isDigit || c.isAlpha || c == '.' || c == '_' ||
    ((c == '+' || c == '-') && (read.getLast? == some 'e' || read.getLast? == some 'E'))

/-- A character after a complete token. -/
def start (c : Char) : State × List Token :=
  if wordStart c then (.word [c], [])
  else if c.isDigit then (.number [c], [])
  else if blank c then (.between, [])
  else if c = '\'' then (.string [], [])
  else if c = '"' then (.name [], [])
  else if c = '-' then (.dash, [])
  else if c = '/' then (.slash, [])
  else if c = '$' then (.dollarTag [], [])
  else (.between, [.symbol c])

/-- A character that completes what is read. -/
def after (tokens : List Token) (c : Char) : State × List Token :=
  ((start c).1, tokens ++ (start c).2)

def dollarOpening (tag : Text) : List Token :=
  .symbol '$' :: if tag = [] then [] else [.word tag]

def step (s : State) (c : Char) : State × List Token :=
  match s with
  | .between => start c
  | .word read => if wordPart c then (.word (read ++ [c]), []) else after [.word read] c
  | .number read => if numberPart read c then (.number (read ++ [c]), []) else after [.number read] c
  | .string read => if c = '\'' then (.stringQuote read, []) else (.string (read ++ [c]), [])
  | .stringQuote read => if c = '\'' then (.string (read ++ [c]), []) else after [.string read] c
  | .name read => if c = '"' then (.nameQuote read, []) else (.name (read ++ [c]), [])
  | .nameQuote read => if c = '"' then (.name (read ++ [c]), []) else after [.name read] c
  | .dash => if c = '-' then (.line, []) else after [.symbol '-'] c
  | .slash => if c = '*' then (.block 0 none, []) else after [.symbol '/'] c
  | .line => if c = '\n' ∨ c = '\r' then (.between, []) else (.line, [])
  | .block depth before =>
    if before = some '*' ∧ c = '/' then
      (if depth = 0 then .between else .block (depth - 1) none, [])
    else if before = some '/' ∧ c = '*' then (.block (depth + 1) none, [])
    else (.block depth (some c), [])
  | .dollarTag tag =>
    if c = '$' then (.dollar tag [], [])
    else if wordStart c ∨ (tag ≠ [] ∧ c.isDigit) then (.dollarTag (tag ++ [c]), [])
    else after (dollarOpening tag) c
  | .dollar tag read =>
    let closing := '$' :: tag ++ ['$']
    if closing.isSuffixOf (read ++ [c]) then
      (.between, [.string ((read ++ [c]).take ((read ++ [c]).length - closing.length))])
    else (.dollar tag (read ++ [c]), [])

def scan : State → Text → State × List Token
  | s, [] => (s, [])
  | s, c :: text =>
    let r := step s c
    let r' := scan r.1 text
    (r'.1, r.2 ++ r'.2)

/-- The token that ends with the text, `none` where a quote or a comment is open. -/
def State.finish : State → Option (List Token)
  | .between | .line => some []
  | .word read => some [.word read]
  | .number read => some [.number read]
  | .stringQuote read => some [.string read]
  | .nameQuote read => some [.name read]
  | .dash => some [.symbol '-']
  | .slash => some [.symbol '/']
  | .dollarTag tag => some (dollarOpening tag)
  | _ => none

def lex (text : Text) : Option (List Token) :=
  (scan .between text).1.finish.map ((scan .between text).2 ++ ·)

/-- The tokens of a text that is known to have some. -/
def tokens (text : String) : List Token := (lex text.toList).getD []

variable {s : State} {t u : Text} {ts us : List Token} {c : Char}

theorem scan_append : scan s (t ++ u) =
    ((scan (scan s t).1 u).1, (scan s t).2 ++ (scan (scan s t).1 u).2) := by
  induction t generalizing s with
  | nil => rfl
  | cons c t ih =>
    rw [List.cons_append, scan, scan]
    dsimp only
    rw [ih, List.append_assoc]

/-! ### Texts that are read whatever follows -/

/-- A character that ends what precedes it. -/
def separates (c : Char) : Bool := c == ' ' || c == ',' || c == ')' || c == '%'

/-- A text after which any other text is read as if it stood alone. -/
def Opens (t : Text) (ts : List Token) : Prop := scan .between t = (.between, ts)

/-- A text that is read so before a separator, and at the end. -/
structure Reads (t : Text) (ts : List Token) : Prop where
  ending : lex t = some ts
  before : ∀ c rest, separates c = true →
    scan .between (t ++ c :: rest) =
      ((scan .between (c :: rest)).1, ts ++ (scan .between (c :: rest)).2)

theorem Opens.append (ht : Opens t ts) (hu : Opens u us) : Opens (t ++ u) (ts ++ us) := by
  unfold Opens at ht hu ⊢
  rw [scan_append, ht, hu]

theorem Opens.reads (ht : Opens t ts) (hu : Reads u us) : Reads (t ++ u) (ts ++ us) := by
  unfold Opens at ht
  constructor
  · have hend := hu.ending
    unfold lex at hend ⊢
    rw [scan_append, ht]
    obtain ⟨fin, hfin, rfl⟩ := Option.map_eq_some_iff.mp hend
    rw [hfin, Option.map_some, List.append_assoc]
  · intro c rest hc
    rw [List.append_assoc, scan_append, ht]
    dsimp only
    rw [hu.before c rest hc, List.append_assoc]

/-- A text that begins with a separator, after one that a separator ends. -/
theorem Reads.opens (ht : Reads t ts) (hc : separates c = true) (hu : Opens (c :: u) us) :
    Opens (t ++ c :: u) (ts ++ us) := by
  unfold Opens at hu ⊢
  rw [ht.before c u hc, hu]

theorem Reads.append (ht : Reads t ts) (hc : separates c = true) (hu : Reads (c :: u) us) :
    Reads (t ++ c :: u) (ts ++ us) := by
  constructor
  · have hend := hu.ending
    unfold lex at hend ⊢
    rw [ht.before c u hc]
    obtain ⟨fin, hfin, rfl⟩ := Option.map_eq_some_iff.mp hend
    rw [hfin, Option.map_some, List.append_assoc]
  · intro d rest hd
    have hmore := hu.before d rest hd
    rw [List.append_assoc, List.cons_append, ht.before c _ hc, ← List.cons_append, hmore,
      List.append_assoc]

theorem separates_iff : separates c = true ↔ c = ' ' ∨ c = ',' ∨ c = ')' ∨ c = '%' := by
  simp [separates, or_assoc]

/-- A state that a separator, and the end, complete with the same tokens. -/
theorem reads_of_scan {fin : List Token} (h : scan .between t = (s, ts))
    (hfin : s.finish = some fin) (hsep : ∀ c, separates c = true → step s c = after fin c) :
    Reads t (ts ++ fin) := by
  constructor
  · rw [lex, h, hfin, Option.map_some]
  · intro c rest hc
    rw [scan_append, h]
    dsimp only
    rw [scan, scan, hsep c hc, step, after]
    simp only [List.append_assoc]

theorem not_wordPart (hc : separates c = true) : wordPart c = false := by
  rcases separates_iff.mp hc with rfl | rfl | rfl | rfl <;> decide

theorem not_numberPart (hc : separates c = true) (read : Text) : numberPart read c = false := by
  rcases separates_iff.mp hc with rfl | rfl | rfl | rfl <;> simp [numberPart]

/-! ### Fixed texts -/

/-- A text after which nothing is open, by computation. -/
def closed (s : String) : Bool := (scan .between s.toList).1 == .between

def State.isCode : State → Bool
  | .between | .word _ | .number _ => true
  | _ => false

/-- A text that a separator may follow, by computation. -/
def complete (s : String) : Bool := (scan .between s.toList).1.isCode

def separated (s : String) : Bool := s.toList.head?.any separates

theorem opens_code {s : String} (h : closed s = true) : Opens s.toList (tokens s) := by
  have hstate : (scan .between s.toList).1 = .between := beq_iff_eq.mp h
  unfold Opens tokens lex
  rw [hstate]
  exact Prod.ext hstate (List.append_nil _).symm

theorem tokens_eq {s : String} {state : State} {fin : List Token}
    (h : scan .between s.toList = (state, ts)) (hfin : state.finish = some fin) :
    tokens s = ts ++ fin := by
  unfold tokens lex
  rw [h]
  dsimp only
  rw [hfin]
  rfl

theorem reads_code {s : String} (h : complete s = true) : Reads s.toList (tokens s) := by
  unfold complete at h
  cases hs : scan .between s.toList with
  | mk state ts =>
    rw [hs] at h
    cases state with
    | between =>
      rw [tokens_eq hs rfl]
      exact reads_of_scan hs rfl fun c _ => rfl
    | word read =>
      rw [tokens_eq hs rfl]
      refine reads_of_scan hs rfl fun c hc => ?_
      rw [step, not_wordPart hc]
      rfl
    | number read =>
      rw [tokens_eq hs rfl]
      refine reads_of_scan hs rfl fun c hc => ?_
      rw [step, not_numberPart hc]
      rfl
    | _ => cases h

theorem Reads.code {s : String} (ht : Reads t ts) (hs : separated s = true)
    (h : closed s = true) : Opens (t ++ s.toList) (ts ++ tokens s) := by
  have hu := opens_code h
  unfold separated at hs
  cases hl : s.toList with
  | nil =>
    rw [hl] at hs
    cases hs
  | cons c u =>
    rw [hl] at hs hu
    exact ht.opens hs hu

theorem Reads.codeEnd {s : String} (ht : Reads t ts) (hs : separated s = true)
    (h : complete s = true) : Reads (t ++ s.toList) (ts ++ tokens s) := by
  have hu := reads_code h
  unfold separated at hs
  cases hl : s.toList with
  | nil =>
    rw [hl] at hs
    cases hs
  | cons c u =>
    rw [hl] at hs hu
    exact ht.append hs hu

theorem Opens.code {s : String} (ht : Opens t ts) (h : closed s = true) :
    Opens (t ++ s.toList) (ts ++ tokens s) := ht.append (opens_code h)

theorem Opens.codeEnd {s : String} (ht : Opens t ts) (h : complete s = true) :
    Reads (t ++ s.toList) (ts ++ tokens s) := ht.reads (reads_code h)

/-- A text that leaves nothing open is read whatever follows, a separator too. -/
theorem Opens.close (ht : Opens t ts) : Reads t ts := by
  unfold Opens at ht
  constructor
  · rw [lex, ht]
    exact congrArg some (List.append_nil ts)
  · intro c rest _
    rw [scan_append, ht]

/-! ### Lists -/

/-- Python's `", ".join`. -/
def commaJoin (parts : List Text) : Text := List.intercalate ", ".toList parts

def commaTokens (parts : List (List Token)) : List Token := List.intercalate [.symbol ','] parts

theorem tokens_comma : tokens ", " = [.symbol ','] := by decide

theorem reads_commaJoin {parts : List Text} {tss : List (List Token)}
    (h : List.Forall₂ Reads parts tss) (hne : parts ≠ []) :
    Reads (commaJoin parts) (commaTokens tss) := by
  induction h with
  | nil => exact absurd rfl hne
  | cons hx hrest ih =>
    cases hrest with
    | nil => simpa [commaJoin, commaTokens] using hx
    | cons hy hys =>
      have hrest := ih (List.cons_ne_nil _ _)
      have hstep := (hx.code (s := ", ") (by decide) (by decide)).reads hrest
      rw [tokens_comma] at hstep
      simpa [commaJoin, commaTokens, List.intercalate_cons_cons] using hstep

/-! ### Quoted texts -/

theorem scan_name (read text : Text) :
    scan (.name read) (replace ['"'] ['"', '"'] text) = (.name (read ++ text), []) := by
  rw [Sql.replace_singleton]
  induction text generalizing read with
  | nil => rw [List.append_nil]; rfl
  | cons c text ih =>
    rw [List.flatMap_cons, scan_append]
    by_cases hc : c = '"'
    · subst hc
      have hstep : scan (.name read) ['"', '"'] = (.name (read ++ ['"']), []) := rfl
      rw [if_pos rfl, hstep]
      dsimp only
      rw [ih, List.append_assoc]
      rfl
    · have hstep : scan (.name read) [c] = (.name (read ++ [c]), []) := by
        simp only [scan, step, if_neg hc, List.append_nil]
      rw [if_neg hc, hstep]
      dsimp only
      rw [ih, List.append_assoc]
      rfl

theorem scan_string (read text : Text) :
    scan (.string read) (replace ['\''] ['\'', '\''] text) = (.string (read ++ text), []) := by
  rw [Sql.replace_singleton]
  induction text generalizing read with
  | nil => rw [List.append_nil]; rfl
  | cons c text ih =>
    rw [List.flatMap_cons, scan_append]
    by_cases hc : c = '\''
    · subst hc
      have hstep : scan (.string read) ['\'', '\''] = (.string (read ++ ['\'']), []) := rfl
      rw [if_pos rfl, hstep]
      dsimp only
      rw [ih, List.append_assoc]
      rfl
    · have hstep : scan (.string read) [c] = (.string (read ++ [c]), []) := by
        simp only [scan, step, if_neg hc, List.append_nil]
      rw [if_neg hc, hstep]
      dsimp only
      rw [ih, List.append_assoc]
      rfl

/-- A quoted identifier is one token, which stands for the very text. -/
theorem reads_name (text : Text) : Reads (Sql.quote '"' text) [.name text] := by
  have hscan : scan .between (Sql.quote '"' text) = (.nameQuote text, []) := by
    have hbody : scan .between ('"' :: replace ['"'] ['"', '"'] text) = (.name text, []) := by
      change ((scan (.name []) _).1, [] ++ (scan (.name []) _).2) = _
      rw [scan_name]
      rfl
    rw [Sql.quote, scan_append, hbody]
    rfl
  refine reads_of_scan hscan rfl fun c hc => ?_
  have hne : c ≠ '"' := by
    rintro rfl
    cases hc
  rw [step, if_neg hne]

theorem reads_string (text : Text) : Reads (Sql.quote '\'' text) [.string text] := by
  have hscan : scan .between (Sql.quote '\'' text) = (.stringQuote text, []) := by
    have hbody : scan .between ('\'' :: replace ['\''] ['\'', '\''] text) = (.string text, []) := by
      change ((scan (.string []) _).1, [] ++ (scan (.string []) _).2) = _
      rw [scan_string]
      rfl
    rw [Sql.quote, scan_append, hbody]
    rfl
  refine reads_of_scan hscan rfl fun c hc => ?_
  have hne : c ≠ '\'' := by
    rintro rfl
    cases hc
  rw [step, if_neg hne]

/-! ### Numbers -/

/-- A text that is one number. -/
structure Numeral where
  text : Text
  digit : text.head?.any Char.isDigit = true
  number : scan .between text = (.number text, [])

theorem reads_numeral (n : Numeral) : Reads n.text [.number n.text] := by
  refine reads_of_scan n.number rfl fun c hc => ?_
  rw [step, not_numberPart hc]
  rfl

theorem reads_negative (n : Numeral) : Reads ('-' :: n.text) [.symbol '-', .number n.text] := by
  obtain ⟨text, hdigit, hnumber⟩ := n
  have hscan : scan .between ('-' :: text) = (.number text, [.symbol '-']) := by
    cases text with
    | nil => cases hdigit
    | cons d rest =>
      have hd : d.isDigit = true := hdigit
      have hne : d ≠ '-' := by
        rintro rfl
        cases hd
      have hstep : step .dash d = ((start d).1, .symbol '-' :: (start d).2) := by
        rw [step, if_neg hne]
        rfl
      change ((scan .dash (d :: rest)).1, [] ++ (scan .dash (d :: rest)).2) = _
      rw [scan, hstep]
      rw [scan, step, Prod.mk.injEq] at hnumber
      dsimp only at hnumber ⊢
      rw [hnumber.1, List.cons_append, hnumber.2]
      rfl
  exact reads_of_scan hscan rfl fun c hc => by rw [step, not_numberPart hc]; rfl

theorem scan_digits {ds : Text} (h : ∀ d ∈ ds, d.isDigit = true) (read : Text) :
    scan (.number read) ds = (.number (read ++ ds), []) := by
  induction ds generalizing read with
  | nil => rw [List.append_nil]; rfl
  | cons d ds ih =>
    have hpart : numberPart read d = true := by
      simp [numberPart, h d List.mem_cons_self]
    rw [scan, step, if_pos hpart]
    dsimp only
    rw [ih fun c hc => h c (List.mem_cons_of_mem d hc), List.append_assoc]
    rfl

theorem start_digit {d : Char} (h : d.isDigit = true) : start d = (.number [d], []) := by
  have hn := isDigit_iff.mp h
  have hw : wordStart d = false := by
    have ha : d.isAlpha = false := by
      by_contra ha
      rw [Bool.not_eq_false, isAlpha_iff] at ha
      omega
    have hu : d ≠ '_' := by
      rintro rfl
      cases h
    have hb : ¬ 128 ≤ d.toNat := by omega
    simp [wordStart, ha, hu, hb]
  rw [start, if_neg (by simp [hw]), if_pos h]

/-- A natural number in decimal digits. -/
def natural (n : Nat) : Numeral where
  text := Nat.toDigits 10 n
  digit := by
    cases hd : Nat.toDigits 10 n with
    | nil => exact absurd hd Nat.toDigits_ne_nil
    | cons d ds =>
      have hm : d ∈ Nat.toDigits 10 n := by
        rw [hd]
        exact List.mem_cons_self
      exact Nat.isDigit_of_mem_toDigits (by decide) (by decide) hm
  number := by
    have hall : ∀ d ∈ Nat.toDigits 10 n, d.isDigit = true := fun d hd =>
      Nat.isDigit_of_mem_toDigits (by decide) (by decide) hd
    cases hd : Nat.toDigits 10 n with
    | nil => exact absurd hd Nat.toDigits_ne_nil
    | cons d ds =>
      rw [hd] at hall
      rw [scan, step, start_digit (hall d List.mem_cons_self)]
      dsimp only
      rw [scan_digits fun c hc => hall c (List.mem_cons_of_mem d hc)]
      rfl

/-! ### Characters are read once -/

section Count

variable (q : Char)

def Token.content : Token → Text
  | .word text | .name text | .string text | .number text => text
  | .symbol c => [c]

def State.content : State → Text
  | .word read | .number read | .string read | .stringQuote read | .name read | .nameQuote read => read
  | .dash => ['-']
  | .slash => ['/']
  | .dollarTag tag => '$' :: tag
  | .dollar _ read => read
  | _ => []

def countTokens (ts : List Token) : Nat := (ts.map fun t => t.content.count q).sum

@[simp] theorem countTokens_nil : countTokens q [] = 0 := rfl

@[simp] theorem countTokens_cons (t : Token) (ts : List Token) :
    countTokens q (t :: ts) = t.content.count q + countTokens q ts := rfl

theorem countTokens_append (ts us : List Token) :
    countTokens q (ts ++ us) = countTokens q ts + countTokens q us := by
  unfold countTokens
  rw [List.map_append, List.sum_append]

theorem count_start (c : Char) :
    (start c).1.content.count q + countTokens q (start c).2 ≤ [c].count q := by
  unfold start
  split
  · simp [State.content]
  · split
    · simp [State.content]
    · split
      · simp [State.content]
      · split
        · simp [State.content]
        · split
          · simp [State.content]
          · split
            · next hc => simp [State.content, hc]
            · split
              · next hc => simp [State.content, hc]
              · split
                · next hc => simp [State.content, hc]
                · simp [State.content, Token.content]

theorem count_after (ts : List Token) (c : Char) :
    (after ts c).1.content.count q + countTokens q (after ts c).2 ≤
      countTokens q ts + [c].count q := by
  have h := count_start q c
  rw [after, countTokens_append]
  dsimp only
  omega

theorem count_dollarOpening (tag : Text) :
    countTokens q (dollarOpening tag) = ('$' :: tag).count q := by
  unfold dollarOpening
  split
  · next h => simp [h, Token.content]
  · rw [countTokens_cons, countTokens_cons, countTokens_nil, ← List.singleton_append,
      List.count_append]
    rfl

/-- A step puts out, or keeps, no more than it has read. -/
theorem count_step (s : State) (c : Char) :
    (step s c).1.content.count q + countTokens q (step s c).2 ≤
      s.content.count q + [c].count q := by
  have hkeep : ∀ read : Text, (read ++ [c]).count q = read.count q + [c].count q := fun read =>
    List.count_append
  have hone : ∀ t : Token, countTokens q [t] = t.content.count q := fun t => Nat.add_zero _
  cases s with
  | between =>
    have h := count_start q c
    rw [step]
    omega
  | word read | number read | stringQuote read | nameQuote read =>
    rw [step]
    split
    · rw [State.content, hkeep, countTokens_nil]
      exact le_refl _
    · exact (count_after q _ c).trans_eq (by rw [hone]; rfl)
  | string read | name read =>
    rw [step]
    split
    · exact Nat.le_add_right _ _
    · rw [State.content, hkeep, countTokens_nil]
      exact le_refl _
  | dash | slash =>
    rw [step]
    split
    · exact Nat.zero_le _
    · exact (count_after q _ c).trans_eq (by rw [hone]; rfl)
  | line =>
    rw [step]
    split <;> exact Nat.zero_le _
  | block depth before =>
    rw [step]
    split
    · split <;> exact Nat.zero_le _
    · split <;> exact Nat.zero_le _
  | dollarTag tag =>
    rw [step]
    split
    · exact Nat.zero_le _
    · split
      · rw [State.content, ← List.cons_append, hkeep, countTokens_nil]
        exact le_refl _
      · exact (count_after q _ c).trans_eq (by rw [count_dollarOpening]; rfl)
  | dollar tag read =>
    rw [step]
    split
    · rw [hone]
      exact (Nat.zero_add _).trans_le
        (((List.take_sublist _ _).count_le q).trans_eq (hkeep read))
    · rw [State.content, hkeep, countTokens_nil]
      exact le_refl _

theorem count_scan (s : State) (t : Text) :
    (scan s t).1.content.count q + countTokens q (scan s t).2 ≤ s.content.count q + t.count q := by
  induction t generalizing s with
  | nil => exact le_refl _
  | cons c t ih =>
    have hstep := count_step q s c
    have hrest := ih (step s c).1
    have hcons : (c :: t).count q = [c].count q + t.count q := by
      rw [← List.singleton_append, List.count_append]
    rw [scan, countTokens_append]
    dsimp only
    omega

/-- The tokens of a text have no character more often than the text. -/
theorem count_lex {t : Text} {ts : List Token} (h : lex t = some ts) :
    countTokens q ts ≤ t.count q := by
  obtain ⟨fin, hfin, rfl⟩ := Option.map_eq_some_iff.mp h
  have hscan := count_scan q .between t
  have hfinish : countTokens q fin = (scan .between t).1.content.count q := by
    cases hs : (scan .between t).1 with
    | dollarTag tag =>
      rw [hs] at hfin
      cases hfin
      exact count_dollarOpening q tag
    | string | name | block | dollar =>
      rw [hs] at hfin
      cases hfin
    | _ =>
      rw [hs] at hfin
      cases hfin
      exact Nat.add_zero _
  have hbetween : State.between.content.count q = 0 := rfl
  rw [countTokens_append]
  omega

end Count

end PipelineIQ.Lib.SqlTokens

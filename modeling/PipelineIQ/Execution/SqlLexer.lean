import Mathlib
import PipelineIQ.Lib.Scan
import PipelineIQ.Lib.Strings

namespace PipelineIQ.Execution.SqlLexer

open PipelineIQ.Lib.Strings PipelineIQ.Lib.Scan

/-- The classes of characters of an engine's lexical grammar. Engines differ in them
outside of ASCII, and in what ends a line. -/
structure Engine where
  identStart : Char → Bool
  space : Char → Bool
  newline : Char → Bool
  identStart_ascii : ∀ c, c.toNat < 128 → identStart c = (c.isAlpha || c == '_')
  space_ascii : ∀ c, c.toNat < 128 → space c = decide (c = ' ' ∨ (9 ≤ c.toNat ∧ c.toNat ≤ 13))
  space_not_start : ∀ c, space c = true → identStart c = false
  newline_lf : newline '\n' = true

/-- `glued` tells that the word follows a number with nothing between them. -/
inductive Token where
  | word (glued : Bool) (text : Text)
  | quoted (name : Text)
  | literal
  | number
  | other (c : Char)
  deriving DecidableEq

/-- What the code read last belongs to. `exponent` has read the letter of an exponent. -/
inductive Context where
  | between
  | word (glued : Bool) (text : Text)
  | number (exponentAllowed : Bool)
  | exponent
  deriving DecidableEq

inductive Mode where
  | code (context : Context)
  | string
  | name (read : Text)
  | line
  | block (depth : Nat)
  | dollar (tag : Text)
  deriving DecidableEq

/-- The token that ends where the context ends. -/
def Context.flush : Context → List Token
  | .between => []
  | .word glued text => [.word glued text]
  | .number _ | .exponent => [.number]

def Context.isWord : Context → Bool
  | .word _ _ => true
  | _ => false

def Context.isNumber : Context → Bool
  | .number _ | .exponent => true
  | _ => false

def exponentFollows (rest : Text) : Bool :=
  match rest with
  | c :: d :: _ => c.isDigit || ((c == '+' || c == '-') && d.isDigit)
  | [c] => c.isDigit
  | [] => false

def delimiter (tag : Text) : Text := '$' :: tag ++ ['$']

namespace Engine

variable (e : Engine)

def identCont (c : Char) : Bool := e.identStart c || c.isDigit || c == '$'

def tagCont (c : Char) : Bool := e.identStart c || c.isDigit

/-- The tag of a dollar quote that begins here; none begins inside an identifier. -/
def dollarTag (context : Context) : Text → Option Text
  | '$' :: text =>
    let tag := text.takeWhile e.tagCont
    if context.isWord then none
    else if (text.dropWhile e.tagCont).head? = some '$' ∧ ∀ c ∈ tag.head?, e.identStart c then
      some tag
    else none
  | _ => none

/-- A character that begins something new after the context. -/
def begin (context : Context) (c : Char) : List Token × Context :=
  if e.identStart c then (context.flush, .word context.isNumber [c])
  else if c.isDigit then (context.flush, .number true)
  else if e.space c then (context.flush, .between)
  else (context.flush ++ [.other c], .between)

/-- A character of code that opens no literal and no comment. -/
def read (context : Context) (c : Char) (rest : Text) : List Token × Context :=
  match context with
  | .between => e.begin context c
  | .word glued text =>
    if e.identCont c then ([], .word glued (text ++ [c])) else e.begin context c
  | .number exponentAllowed =>
    if c.isDigit then ([], .number exponentAllowed)
    else if exponentAllowed ∧ (c = 'e' ∨ c = 'E') ∧ exponentFollows rest then ([], .exponent)
    else e.begin context c
  | .exponent => ([], .number false)

def lexMove (mode : Mode) (c : Char) (rest : Text) : Move Mode Token :=
  match mode with
  | .code context =>
    if c = '\'' then ⟨.string, 0, context.flush ++ [.literal]⟩
    else if c = '"' then ⟨.name [], 0, context.flush⟩
    else if c = '-' ∧ rest.head? = some '-' then ⟨.line, 1, context.flush⟩
    else if c = '/' ∧ rest.head? = some '*' then ⟨.block 0, 1, context.flush⟩
    else match e.dollarTag context (c :: rest) with
      | some tag => ⟨.dollar tag, (delimiter tag).length - 1, context.flush ++ [.literal]⟩
      | none => ⟨.code (e.read context c rest).2, 0, (e.read context c rest).1⟩
  | .string =>
    if c = '\'' ∧ rest.head? = some '\'' then ⟨.string, 1, []⟩
    else if c = '\'' then ⟨.code .between, 0, []⟩
    else ⟨.string, 0, []⟩
  | .name read =>
    if c = '"' ∧ rest.head? = some '"' then ⟨.name (read ++ ['"']), 1, []⟩
    else if c = '"' then ⟨.code .between, 0, [.quoted read]⟩
    else ⟨.name (read ++ [c]), 0, []⟩
  | .line => if e.newline c then ⟨.code .between, 0, []⟩ else ⟨.line, 0, []⟩
  | .block depth =>
    if c = '/' ∧ rest.head? = some '*' then ⟨.block (depth + 1), 1, []⟩
    else if c = '*' ∧ rest.head? = some '/' then match depth with
      | 0 => ⟨.code .between, 1, []⟩
      | depth + 1 => ⟨.block depth, 1, []⟩
    else ⟨.block depth, 0, []⟩
  | .dollar tag =>
    if (delimiter tag).isPrefixOf (c :: rest) then
      ⟨.code .between, (delimiter tag).length - 1, []⟩
    else ⟨.dollar tag, 0, []⟩

def lexer : Scanner Mode Char Token := ⟨e.lexMove, fun _ => []⟩

end Engine

/-- The token still open where a text ends. -/
def Mode.flush : Mode → List Token
  | .code context => context.flush
  | _ => []

def Mode.terminated : Mode → Bool
  | .code _ | .line => true
  | _ => false

/-- The token stream of a text, `none` where a literal or a comment is not closed. -/
def Engine.lex (e : Engine) (text : Text) : Option (List Token) :=
  let (last, tokens) := run e.lexer [] ⟨0, .code .between⟩ text
  if last.state.terminated then some (tokens ++ last.state.flush) else none

theorem identStart_of_ascii (c : Char) (h : c.toNat < 128) :
    (c.isAlpha || c == '_' || decide (128 ≤ c.toNat)) = (c.isAlpha || c == '_') := by
  simp [Nat.not_le.mpr h]

theorem not_identStart_of_space (c : Char) (h : decide (c = ' ' ∨ (9 ≤ c.toNat ∧ c.toNat ≤ 13)) = true) :
    (c.isAlpha || c == '_' || decide (128 ≤ c.toNat)) = false := by
  have hs : isSpace c = true := by
    rcases of_decide_eq_true h with rfl | hn
    · rfl
    · simp [isSpace, hn]
  have hu : c ≠ '_' := by
    rintro rfl
    cases hs
  have hn : c.toNat < 128 := by
    rcases of_decide_eq_true h with rfl | hn
    · decide
    · omega
  simp [isAlpha_of_isSpace hs, hu, hn]

/-- The characters of PostgreSQL. -/
def postgres : Engine where
  identStart c := c.isAlpha || c == '_' || decide (128 ≤ c.toNat)
  space c := decide (c = ' ' ∨ (9 ≤ c.toNat ∧ c.toNat ≤ 13))
  newline c := c == '\n' || c == '\r'
  identStart_ascii := identStart_of_ascii
  space_ascii _ _ := rfl
  space_not_start := not_identStart_of_space
  newline_lf := rfl

end PipelineIQ.Execution.SqlLexer

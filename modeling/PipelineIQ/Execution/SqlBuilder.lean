import PipelineIQ.Lib.Scan
import PipelineIQ.Lib.Strings

namespace PipelineIQ.Execution.SqlBuilder

open PipelineIQ.Lib.Strings PipelineIQ.Lib.Scan

/-- What the regular expressions of the validator know of characters: the class `\w`, and
which characters a lower case letter of a pattern matches when case is ignored. -/
structure Unicode where
  isWord : Char → Bool
  isFold : Char → Char → Bool
  isWord_ascii : ∀ c, c.toNat < 128 → isWord c = (c.isAlphanum || c == '_')
  isFold_toLower : ∀ p c, c.toLower = p → isFold p c = true

def forbiddenSqlKeywords : List Text :=
  ["insert", "update", "delete", "drop", "alter", "create", "truncate", "attach", "detach",
    "copy", "export", "import", "call", "pragma", "prepare", "execute", "deallocate", "explain",
    "analyze", "set", "install", "load", "use", "checkpoint", "force", "show", "describe",
    "summarize"].map String.toList

def forbiddenSqlFunctions : List Text :=
  ["read_csv", "read_csv_auto", "read_json", "read_json_auto", "read_parquet", "read_blob",
    "read_text", "sqlite_scan", "postgres_scan", "httpfs"].map String.toList

def forbiddenExternalUris : List Text :=
  ["s3", "http", "https", "file", "ftp", "gcs", "azure"].map fun s => (s ++ "://").toList

section Patterns

variable (u : Unicode)

/-- Whether a text begins with a word, ignoring case. -/
def startsWithWord : Text → Text → Bool
  | [], _ => true
  | _ :: _, [] => false
  | p :: word, c :: text => u.isFold p c && startsWithWord word text

/-- The assertion `\b` between two characters. -/
def wordBoundary (before after : Option Char) : Bool :=
  before.any u.isWord != after.any u.isWord

/-- `\b(...)\b` with the forbidden keywords, at the beginning of `text`. -/
def keywordAt (before : Option Char) (text : Text) : Bool :=
  wordBoundary u before text.head? && forbiddenSqlKeywords.any fun word =>
    startsWithWord u word text &&
      wordBoundary u (text.take word.length).getLast? (text.drop word.length).head?

/-- `\b(...)\s*\(` with the forbidden functions, at the beginning of `text`. -/
def functionAt (before : Option Char) (text : Text) : Bool :=
  wordBoundary u before text.head? && forbiddenSqlFunctions.any fun word =>
    startsWithWord u word text &&
      ((text.drop word.length).dropWhile isSpace).head? == some '('

def externalUriAt (_ : Option Char) (text : Text) : Bool :=
  forbiddenExternalUris.any fun uri => startsWithWord u uri text

end Patterns

/-- Whether a pattern matches somewhere; `before` is the character before the text. -/
def search (pattern : Option Char → Text → Bool) : Option Char → Text → Bool
  | before, [] => pattern before []
  | before, c :: text => pattern before (c :: text) || search pattern (some c) text

/-- One match of `/\*.*?\*/` after its opening: what follows it. -/
def afterBlockComment : Text → Option Text
  | '*' :: '/' :: text => some text
  | _ :: text => afterBlockComment text
  | [] => none

/-- Rounds of the group of the leading comment pattern; each one takes a comment away. -/
def dropComments : Nat → Text → Text
  | 0, text => text
  | fuel + 1, text => match text with
    | '-' :: '-' :: rest => match rest.dropWhile (· ≠ '\n') with
      | _ :: rest => dropComments fuel rest
      | [] => text
    | '/' :: '*' :: rest => match afterBlockComment rest with
      | some rest => dropComments fuel (rest.dropWhile isSpace)
      | none => text
    | _ => text

/-- Substitute nothing for the leading comments. -/
def dropLeadingComments (text : Text) : Text :=
  dropComments text.length (text.dropWhile isSpace)

def isTagStart (c : Char) : Bool := c.isAlpha || c == '_'

def isTagChar (c : Char) : Bool := c.isAlphanum || c == '_'

/-- The delimiter that `\$[A-Za-z_][A-Za-z0-9_]*\$|\$\$` matches at the beginning of a text. -/
def dollarQuoteStart : Text → Option Text
  | '$' :: '$' :: _ => some ['$', '$']
  | '$' :: c :: text =>
    if isTagStart c ∧ (text.dropWhile isTagChar).head? = some '$' then
      some ('$' :: c :: text.takeWhile isTagChar ++ ['$'])
    else none
  | _ => none

inductive ScanState where
  | code | singleQuote | doubleQuote | lineComment | blockComment
  | dollarQuote (delimiter : Text)
  deriving DecidableEq

/-- One turn of the loop of `_strip_literals_and_comments`. -/
def stripMove (state : ScanState) (ch : Char) (rest : Text) : Move ScanState Char :=
  match state with
  | .code =>
    if ch = '$' then match dollarQuoteStart (ch :: rest) with
      | some delimiter => ⟨.dollarQuote delimiter, delimiter.length - 1, [' ']⟩
      | none => ⟨.code, 0, [ch]⟩
    else if ch = '\'' then ⟨.singleQuote, 0, [' ']⟩
    else if ch = '"' then ⟨.doubleQuote, 0, [' ']⟩
    else if ch = '-' ∧ rest.head? = some '-' then ⟨.lineComment, 1, [' ']⟩
    else if ch = '/' ∧ rest.head? = some '*' then ⟨.blockComment, 1, [' ']⟩
    else ⟨.code, 0, [ch]⟩
  | .singleQuote =>
    if ch = '\'' ∧ rest.head? = some '\'' then ⟨.singleQuote, 1, [' ']⟩
    else if ch = '\'' then ⟨.code, 0, [' ']⟩
    else ⟨.singleQuote, 0, [' ']⟩
  | .doubleQuote =>
    if ch = '"' ∧ rest.head? = some '"' then ⟨.doubleQuote, 1, [' ']⟩
    else if ch = '"' then ⟨.code, 0, [' ']⟩
    else ⟨.doubleQuote, 0, [' ']⟩
  | .lineComment => if ch = '\n' then ⟨.code, 0, ['\n']⟩ else ⟨.lineComment, 0, [' ']⟩
  | .blockComment =>
    if ch = '*' ∧ rest.head? = some '/' then ⟨.code, 1, [' ']⟩ else ⟨.blockComment, 0, [' ']⟩
  | .dollarQuote delimiter =>
    if delimiter.isPrefixOf (ch :: rest) then ⟨.code, delimiter.length - 1, [' ']⟩
    else ⟨.dollarQuote delimiter, 0, [' ']⟩

/-- The loop that blanks literals and comments. -/
def stripper : Scanner ScanState Char Char := ⟨stripMove, fun _ => [' ']⟩

def ScanState.terminated : ScanState → Bool
  | .code | .lineComment => true
  | _ => false

def stripLiteralsAndComments (sql : Text) : Except String Text :=
  let (last, result) := run stripper [] ⟨0, .code⟩ sql
  if last.state.terminated then .ok result
  else .error "SQL query contains an unterminated literal or comment"

def inputPlaceholder : Text := "{{input}}".toList

/-- Strip, and drop one trailing semicolon. -/
def normalizeQuery (query : Text) : Text :=
  let normalized := strip query
  if normalized.getLast? = some ';' then strip normalized.dropLast else normalized

def firstWord (text : Text) : Text :=
  (text.dropWhile isSpace).takeWhile fun c => !isSpace c

def validateSqlStepQuery (u : Unicode) (requireInputPlaceholder : Bool) (query : Text) :
    Except String Text :=
  if (strip query).isEmpty then .error "SQL query must be a non-empty string"
  else
    let normalized := normalizeQuery query
    if ';' ∈ normalized then .error "Only a single SQL statement is allowed"
    else if search (externalUriAt u) none normalized then
      .error "SQL query cannot reference external URLs or object storage paths"
    else if requireInputPlaceholder && !occurs inputPlaceholder normalized then
      .error "SQL query must reference the input via \x7b\x7binput\x7d\x7d"
    else
      let sqlForScan := dropLeadingComments normalized
      if sqlForScan.isEmpty then .error "SQL query cannot be empty"
      -- beyond ASCII no character has a letter of these words as its lower case
      else if lowerCase (firstWord sqlForScan) ∉ ["select".toList, "with".toList] then
        .error "Only SELECT/CTE queries are allowed"
      else do
        let keywordScanSql ← stripLiteralsAndComments sqlForScan
        if search (keywordAt u) none keywordScanSql then
          .error "SQL query contains disallowed write/admin keywords"
        else if search (functionAt u) none keywordScanSql then
          .error "SQL query contains disallowed external file access functions"
        else .ok (replace inputPlaceholder "__input__".toList normalized)

end PipelineIQ.Execution.SqlBuilder

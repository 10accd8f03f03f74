import PipelineIQ.Frontend.FieldKinds

namespace PipelineIQ.Frontend.PipelineName

open PipelineIQ.Lib.Strings PipelineIQ.Frontend.StepNames

/-! ### Lines and patterns -/

/-- `split(/\r?\n/)`. -/
def splitLines : Text → List Text
  | [] => [[]]
  | c :: rest =>
    if c = '\n' then [] :: splitLines rest
    else if c = '\r' ∧ rest.head? = some '\n' then splitLines rest
    else (splitLines rest).modifyHead (c :: ·)

def joinLines (lines : List Text) : Text := ['\n'].intercalate lines

/-- What a dot does not match. -/
def lineEnd (c : Char) : Bool := decide (c.toNat ∈ [0xA, 0xD, 0x2028, 0x2029])

/-- The length of what `/^(\s*)/` matches. -/
def indentOf (line : Text) : Nat := (line.takeWhile jsSpace).length

/-- What is left of a line that has a key behind its indent. -/
def afterKey (key : String) (line : Text) : Option Text :=
  if key.toList <+: line.dropWhile jsSpace then
    some ((line.dropWhile jsSpace).drop key.toList.length)
  else none

/-- `/^(\s*)pipeline:\s*$/`, the length of its group. -/
def pipelineMatch (line : Text) : Option Nat :=
  match afterKey "pipeline:" line with
  | some rest => if rest.all jsSpace then some (indentOf line) else none
  | none => none

/-- The group of `/^\s*name:\s*(.+?)\s*$/`, given what follows the colon: the text without the
space around it, or of a blank rest the last character that a dot matches. -/
def captured (rest : Text) : Option Text :=
  if trim rest = [] then (rest.filter fun c => !lineEnd c).getLast?.map fun c => [c]
  else if (trim rest).any lineEnd then none
  else some (trim rest)

def nameMatch (line : Text) : Option Text :=
  match afterKey "name:" line with
  | some rest => captured rest
  | none => none

/-- `replace(/\s+#.*$/, "")` of a text without a line end. -/
def beforeComment : Text → Text
  | [] => []
  | c :: t =>
    if jsSpace c ∧ (t.dropWhile jsSpace).head? = some '#' then [] else c :: beforeComment t

def isQuote (c : Char) : Bool := c = '\'' || c = '"'

/-- `replace(/^['"]|['"]$/g, "")`. -/
def unquoteEnds (t : Text) : Text :=
  let t := if t.head?.any isQuote then t.tail else t
  if t.getLast?.any isQuote then t.dropLast else t

/-! ### The two functions -/

def spaces (n : Nat) : Text := List.replicate n ' '

/-- The line that holds the name from now on. -/
def renamed (name line : Text) : Text := spaces (indentOf line) ++ "name: ".toList ++ name

/-- The loop of `withPipelineName`, with the indent of the pipeline once its line is passed. -/
def withNameFrom (name : Text) : Option Nat → List Text → List Text
  | _, [] => []
  | none, line :: rest => line :: withNameFrom name (pipelineMatch line) rest
  | some pipelineIndent, line :: rest =>
    if trim line = [] then line :: withNameFrom name (some pipelineIndent) rest
    else if indentOf line ≤ pipelineIndent then line :: rest
    else if (nameMatch line).isSome then renamed name line :: rest
    else line :: withNameFrom name (some pipelineIndent) rest

def withPipelineName (yamlConfig name : Text) : Text :=
  joinLines (withNameFrom name none (splitLines yamlConfig))

def readName (group : Text) : Option Text :=
  let rawName := trim (beforeComment group)
  if rawName = [] then none else some (unquoteEnds rawName)

def extractNameFrom : Option Nat → List Text → Option Text
  | _, [] => none
  | none, line :: rest => extractNameFrom (pipelineMatch line) rest
  | some pipelineIndent, line :: rest =>
    if trim line = [] then extractNameFrom (some pipelineIndent) rest
    else if indentOf line ≤ pipelineIndent then none
    else match nameMatch line with
      | some group => readName group
      | none => extractNameFrom (some pipelineIndent) rest

def extractPipelineName (yamlConfig : Text) : Option Text :=
  extractNameFrom none (splitLines yamlConfig)

/-! ### What the functions are for -/

/-- The loop comes, between these lines, to the line that holds the name of the pipeline. -/
inductive Slot : Option Nat → List Text → List Text → Text → List Text → Prop where
  | outside {line held : Text} {rest before after : List Text}
      (h : Slot (pipelineMatch line) rest before held after) :
      Slot none (line :: rest) (line :: before) held after
  | blank {k : Nat} {line held : Text} {rest before after : List Text} (hblank : trim line = [])
      (h : Slot (some k) rest before held after) :
      Slot (some k) (line :: rest) (line :: before) held after
  | passed {k : Nat} {line held : Text} {rest before after : List Text} (hblank : trim line ≠ [])
      (hinside : k < indentOf line) (hname : nameMatch line = none)
      (h : Slot (some k) rest before held after) :
      Slot (some k) (line :: rest) (line :: before) held after
  | here {k : Nat} {line : Text} {rest : List Text} (hblank : trim line ≠ [])
      (hinside : k < indentOf line) (hname : (nameMatch line).isSome) :
      Slot (some k) (line :: rest) [] line rest

/-- A text with a place for the name. -/
def HasSlot (yamlConfig : Text) : Prop :=
  ∃ before held after, Slot none (splitLines yamlConfig) before held after

/-- A name that can be written without quotes. -/
structure Plain (name : Text) : Prop where
  nonempty : name ≠ []
  oneLine : ∀ c ∈ name, lineEnd c = false
  trimmed : trim name = name
  uncommented : ∀ before c after, name = before ++ c :: '#' :: after → jsSpace c = false
  unquotedStart : name.head?.any isQuote = false
  unquotedEnd : name.getLast?.any isQuote = false

end PipelineIQ.Frontend.PipelineName

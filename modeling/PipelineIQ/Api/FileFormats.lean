import PipelineIQ.Execution.SaveStep
import PipelineIQ.Lib.Codecs
import PipelineIQ.Lib.Csv
import PipelineIQ.Lib.Json
import PipelineIQ.Models

namespace PipelineIQ.Api.FileFormats

open PipelineIQ.Lib PipelineIQ.Lib.Strings PipelineIQ.Lib.Codecs PipelineIQ.Lib.Csv
open PipelineIQ.Models PipelineIQ.Execution.SaveStep

/-! ### The libraries that read files -/

/-- A column label of a frame. JSON can lead to labels that are no text. -/
inductive Label where
  | text (t : Text)
  | other (printed : Text)
  deriving DecidableEq, Repr

def Label.str : Label → Text
  | .text t => t
  | .other printed => printed

structure ParquetFile where
  names : List Text
  types : List Text
  numRows : Nat

/-- An Arrow table, as far as an upload can tell. -/
structure Table where
  columns : List Text
  numRows : Nat
  deriving DecidableEq, Repr

inductive Encoding where
  | utf8 | utf8Sig | utf16 | windows1252
  deriving DecidableEq, Repr

/-- What pandas, pyarrow and orjson do. A frame is what pandas reads a file into, and `parseCsv`
parses a text that is decoded already, up to so many rows. -/
structure Libraries (Frame : Type) where
  parseCsv : Option Nat → Text → Except String Frame
  readJson : Bytes → Except String Frame
  readExcel : Nat → Bytes → Except String Frame
  parquetFile : Bytes → Except String ParquetFile
  loads : Bytes → Except String Json
  dataFrame : Json → Except String Frame
  labels : Frame → List Label
  dtypes : Frame → List Text
  length : Frame → Nat
  fromPandas : Frame → Except String Table
  decodeError : Encoding → Bytes → String

/-! ### Failures -/

/-- How a request fails. What nothing catches ends in an internal error. -/
inductive Failure where
  | http (e : HTTPException)
  | uncaught (reason : String)
  deriving DecidableEq, Repr

def unprocessable (detail : String) : Failure := .http ⟨422, detail⟩

/-- An exception of the checks on a sample, of which only a `ValueError` is caught. -/
inductive Raised where
  | valueError (reason : String)
  | csvError (reason : String)

/-! ### Encodings -/

def decode : Encoding → Bytes → Option Text
  | .utf8 => utf8Decode
  | .utf8Sig => utf8SigDecode
  | .utf16 => utf16Decode
  | .windows1252 => windows1252Decode

def decodeAs (encoding : Encoding) (raw : Bytes) : Option (Text × Encoding) :=
  (decode encoding raw).map (·, encoding)

/-- `none` is the error for bytes in no encoding. -/
def decodeCsvBytes (raw : Bytes) : Option (Text × Encoding) :=
  if utf16LittleMark.isPrefixOf raw ∨ utf16BigMark.isPrefixOf raw then decodeAs .utf16 raw
  else (if 0 ∈ raw then decodeAs .utf16 raw else none) <|> decodeAs .utf8Sig raw <|>
    decodeAs .windows1252 raw

/-! ### The upload -/

def ALLOWED_EXTENSIONS : List Text :=
  [".csv".toList, ".json".toList, ".parquet".toList, ".xlsx".toList]

def MAX_ROWS_PER_FILE : Nat := 1000000

/-- `Path(path).suffix.lower()`. -/
def extensionOf (path : Text) : Text := lowerCase (pathSuffix path)

def validateFileExtension (filename : Text) : Except Failure Unit :=
  if extensionOf filename ∈ ALLOWED_EXTENSIONS then .ok ()
  else .error (.http ⟨400, "Unsupported file extension '" ++ String.ofList (extensionOf filename) ++
    "'. Allowed: ['.csv', '.json', '.parquet', '.xlsx']"⟩)

/-- The white space of `bytes.strip`. -/
def isSpaceByte (b : UInt8) : Bool := (9 ≤ b && b ≤ 13) || b == 32

def stripBytes (raw : Bytes) : Bytes := (raw.dropWhile isSpaceByte).rdropWhile isSpaceByte

def linesOfBytes (raw : Bytes) : List Bytes :=
  (linesFrom 13 10 (fun b => b == 10 || b == 13) false raw).map Prod.fst

def openBrace : UInt8 := 0x7B

def openBracket : UInt8 := 0x5B

section

variable {Frame : Type} (lib : Libraries Frame)

def checkCsvSample (sample : Bytes) : Except Raised Unit :=
  match decodeCsvBytes sample with
  | none => .error (.valueError
      "CSV file is not decodable text (tried UTF-8, UTF-16 and Windows-1252)")
  | some (text, _) => match firstRecord (splitlines text) with
    | .error e => .error (.csvError e)
    | .ok (some (_ :: _)) => .ok ()
    | .ok _ => .error (.valueError "CSV file has no header row")

def loadsChecked (raw : Bytes) : Except Raised Unit :=
  match lib.loads raw with
  | .ok _ => .ok ()
  | .error e => .error (.valueError e)

def checkJsonSample (sample : Bytes) : Except Raised Unit :=
  let stripped := sample.dropWhile isSpaceByte
  if stripped.head? = some openBrace then
    let lines := ((linesOfBytes sample).map stripBytes).filter fun line => !line.isEmpty
    loadsChecked lib (lines.head?.getD [])
  else if stripped.head? = some openBracket then loadsChecked lib sample
  else .error (.valueError "JSON file does not start with an object or array")

def checkSampleContent (extension : Text) (sample : Bytes) : Except Raised Unit :=
  if extension = ".csv".toList then checkCsvSample sample
  else if extension = ".json".toList then checkJsonSample lib sample
  else if extension = ".parquet".toList then
    if sample = [0x50, 0x41, 0x52, 0x31] then .ok ()
    else .error (.valueError "Parquet magic header is missing")
  else if extension = ".xlsx".toList then
    if sample = [0x50, 0x4B, 0x03, 0x04] then .ok ()
    else .error (.valueError "XLSX ZIP header is missing")
  else .ok ()

def sampleSize (extension : Text) : Nat :=
  if extension = ".csv".toList ∨ extension = ".json".toList then 1048576 else 4

def validateFileContent (filename : Text) (content : Bytes) : Except Failure Unit :=
  let extension := extensionOf filename
  match checkSampleContent lib extension (content.take (sampleSize extension)) with
  | .ok () => .ok ()
  | .error (.valueError e) => .error (unprocessable e)
  | .error (.csvError e) => .error (.uncaught e)

structure Metadata where
  rowCount : Nat
  columns : List Label
  dtypes : Dict Label Text

def dtypesOf (frame : Frame) : Dict Label Text :=
  Dict.ofList ((lib.labels frame).zip (lib.dtypes frame))

/-- `pd.read_csv` decodes the whole file, however few rows it is to read. -/
def readCsv (nrows : Option Nat) (encoding : Encoding) (raw : Bytes) : Except String Frame :=
  match decode encoding raw with
  | none => .error (lib.decodeError encoding raw)
  | some text => lib.parseCsv nrows text

def failedToParse (name : Text) (reason : String) : Failure :=
  unprocessable ("Failed to parse file '" ++ String.ofList name ++ "': " ++ reason)

def extractCsvMetadata (storedPath : Text) (raw : Bytes) : Except Failure Metadata :=
  match decodeCsvBytes raw with
  | none => .error (failedToParse storedPath
      "not decodable text (tried UTF-8, UTF-16 and Windows-1252)")
  | some (text, encoding) => match records (linesKept text) with
    | .error e => .error (failedToParse storedPath e)
    | .ok [] => .ok ⟨0, [], ∅⟩
    | .ok (header :: rest) =>
      if header = [] then .ok ⟨rest.length, [], ∅⟩
      else match readCsv lib (some (max 1 (min 1000 rest.length))) encoding raw with
        -- no handler surrounds this read
        | .error e => .error (.uncaught e)
        | .ok frame => .ok ⟨rest.length, header.map .text, dtypesOf lib frame⟩

/-- The first line opens an object, which is then all that is read for the columns. -/
def opensObject (line : Text) : Bool := (strip line).head? = some '{'

def encoded (line : Text) : Bytes := (String.ofList line).toUTF8.data.toList

def jsonLinesMetadata (filename first : Text) (rowCount : Nat) : Except Failure Metadata :=
  match lib.loads (encoded first) with
  | .error e => .error (failedToParse filename e)
  | .ok document => match document.asDict, lib.dataFrame document with
    | none, _ => .error (failedToParse filename "no attribute 'keys'")
    | some _, .error e => .error (failedToParse filename e)
    | some firstObj, .ok frame =>
      .ok ⟨rowCount, firstObj.keys.map fun key => .text key.toList, dtypesOf lib frame⟩

def frameMetadata (frame : Frame) : Metadata :=
  ⟨lib.length frame, lib.labels frame, dtypesOf lib frame⟩

def extractJsonMetadata (filename : Text) (raw : Bytes) : Except Failure Metadata :=
  match utf8Decode raw with
  | none => .error (failedToParse filename (lib.decodeError .utf8 raw))
  | some text => match linesTranslated text with
    | [] => .ok ⟨0, [], ∅⟩
    | first :: rest =>
      if opensObject first then jsonLinesMetadata lib filename first (rest.length + 1)
      else match lib.readJson raw with
        | .error e => .error (failedToParse filename e)
        | .ok frame => .ok (frameMetadata lib frame)

def extractParquetMetadata (storedPath : Text) (raw : Bytes) : Except Failure Metadata :=
  match lib.parquetFile raw with
  | .error e => .error (unprocessable
      ("Failed to parse parquet file '" ++ String.ofList storedPath ++ "': " ++ e))
  | .ok file => .ok ⟨file.numRows, file.names.map .text,
      Dict.ofList ((file.names.map .text).zip file.types)⟩

def extractXlsxMetadata (filename : Text) (raw : Bytes) : Except Failure Metadata :=
  match lib.readExcel 1000 raw with
  | .error e => .error (failedToParse filename e)
  | .ok frame =>
    .ok ⟨lib.length frame, (lib.labels frame).map fun l => .text l.str, dtypesOf lib frame⟩

def extractFileMetadata (filename storedPath : Text) (raw : Bytes) : Except Failure Metadata :=
  let extension := extensionOf filename
  if extension = ".csv".toList then extractCsvMetadata lib storedPath raw
  else if extension = ".json".toList then extractJsonMetadata lib filename raw
  else if extension = ".parquet".toList then extractParquetMetadata lib storedPath raw
  else if extension = ".xlsx".toList then extractXlsxMetadata lib filename raw
  else .error (.http ⟨400, "Cannot parse file with extension '" ++ String.ofList extension ++ "'"⟩)

end

/-! ### The row -/

/-- The identifier of a file, a UUID in the end. -/
structure FileId where
  text : Text
  given : text ≠ []
  plain : '.' ∉ text ∧ '/' ∉ text
  deriving DecidableEq

structure UploadedFile where
  id : Text
  originalFilename : Text
  storedPath : Text
  fileSizeBytes : Nat
  rowCount : Nat
  columnCount : Nat
  columns : List Label
  dtypes : Dict Label Text
  userId : Text

def storedPathOf (id : FileId) (filename : Text) : Text := id.text ++ extensionOf filename

def Label.isText : Label → Bool
  | .text _ => true
  | .other _ => false

/-- A response lists its columns as texts and names each of its types by one. -/
def fileUploadResponse (row : UploadedFile) : Except Failure UploadedFile :=
  if row.columns.all Label.isText ∧ row.dtypes.keys.all Label.isText then .ok row
  else .error (.uncaught "Input should be a valid string")

section

variable {Frame : Type} (lib : Libraries Frame)

/-- The checks and the reading of a stored file, before its row is written. -/
def uploadMetadata (filename storedPath : Text) (content : Bytes) : Except Failure Metadata := do
  validateFileContent lib filename content
  extractFileMetadata lib filename storedPath content

def uploadedFile (id : FileId) (filename storedPath : Text) (content : Bytes) (user : Text)
    (metadata : Metadata) : UploadedFile :=
  { id := id.text, originalFilename := filename, storedPath, fileSizeBytes := content.length,
    rowCount := metadata.rowCount, columnCount := metadata.columns.length,
    columns := metadata.columns, dtypes := metadata.dtypes, userId := user }

def finalizeUploadedFile (id : FileId) (filename storedPath : Text) (content : Bytes)
    (user : Text) : Except Failure UploadedFile := do
  let metadata ← uploadMetadata lib filename storedPath content
  if MAX_ROWS_PER_FILE < metadata.rowCount then
    throw (.http ⟨400, "File exceeds maximum rows (1000000)"⟩)
  fileUploadResponse (uploadedFile id filename storedPath content user metadata)

/-- What both ways to upload a file come to, once its bytes are in the storage. -/
def acceptUpload (id : FileId) (filename : Text) (content : Bytes) (user : Text) :
    Except Failure UploadedFile := do
  validateFileExtension filename
  finalizeUploadedFile lib id filename (storedPathOf id filename) content user

/-! ### The load step -/

inductive LoadError where
  | unsupportedFileFormat (extension : Text)
  | fileRead (reason : String)
  | arrow (reason : String)

def readFile (path : Text) (content : Bytes) : Except LoadError Frame :=
  let extension := extensionOf path
  if extension = ".csv".toList then (readCsv lib none .utf8 content).mapError .fileRead
  else if extension = ".json".toList then (lib.readJson content).mapError .fileRead
  else .error (.unsupportedFileFormat extension)

def executeLoad (path : Text) (content : Bytes) : Except LoadError Table :=
  (readFile lib path content).bind fun frame => (lib.fromPandas frame).mapError .arrow

/-- The load step gives the columns and the rows that the upload stored. -/
def Agrees (row : UploadedFile) (content : Bytes) : Prop :=
  ∃ table, executeLoad lib row.storedPath content = .ok table ∧
    table.columns.map .text = row.columns ∧ table.numRows = row.rowCount

end

end PipelineIQ.Api.FileFormats

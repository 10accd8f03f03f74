import PipelineIQ.Api.FileFormats

namespace PipelineIQ.Api.UploadAgreement

open PipelineIQ.Lib PipelineIQ.Lib.Strings PipelineIQ.Lib.Codecs PipelineIQ.Lib.Csv
open PipelineIQ.Execution.SaveStep PipelineIQ.Api.FileFormats

/-! ### What the libraries promise -/

section

variable {Frame : Type} (lib : Libraries Frame)

/-- JSON reads nothing but these as white space. -/
def isJsonSpace (c : Char) : Bool := c = ' ' || c = '\t' || c = '\n' || c = '\r'

structure Documented : Prop where
  /-- A table has the columns of the frame, by their names, and its rows. -/
  table {frame : Frame} {table : Table} (h : lib.fromPandas frame = .ok table) :
    table.columns = (lib.labels frame).map Label.str ∧ table.numRows = lib.length frame
  /-- `pd.read_csv` makes no row of a blank line. -/
  blankLines {text : Text} {found : List (List Text)} {frame : Frame}
    (hread : records (linesKept (dropMark text)) = .ok found)
    (h : lib.parseCsv none text = .ok frame) :
    lib.length frame ≤ (found.tail.filter fun record => !record.isEmpty).length
  /-- `pd.read_json` takes one document, with nothing but white space behind it. -/
  trailingData {raw : Bytes} {text first : Text} {rest : List Text} {document : Json}
    {frame : Frame} (htext : utf8Decode raw = some text)
    (hlines : linesTranslated text = first :: rest)
    (hfirst : lib.loads (encoded first) = .ok document) (h : lib.readJson raw = .ok frame) :
    ∀ line ∈ rest, line.all isJsonSpace

/-! ### When upload and load agree -/

/-- pandas reads these columns and so many rows, and Arrow takes the frame. -/
def ReadsAs (read : Except String Frame) (columns : List Text) (rows : Nat) : Prop :=
  ∃ frame, read = .ok frame ∧ (lib.labels frame).map Label.str = columns ∧
    lib.length frame = rows ∧ (lib.fromPandas frame).isOk

/-- The file is in UTF-8, which the upload finds out where the file has no NUL byte, it has no blank
line, and pandas finds in it the header and the number of records that `csv` finds in the text that
the upload decoded. -/
def CsvAlike (raw : Bytes) : Prop :=
  ∃ text uploaded encoding found, utf8Decode raw = some text ∧
    decodeCsvBytes raw = some (uploaded, encoding) ∧ (encoding = .utf8Sig ∨ 0 ∈ raw) ∧
    records (linesKept uploaded) = .ok found ∧
    (encoding = .utf8Sig → ∀ record ∈ found.tail, record ≠ []) ∧
    ReadsAs lib (lib.parseCsv none text) (found.headD []) found.tail.length

/-- A file of JSON lines has one object, with blank lines behind it, and pandas reads the keys of
this object as columns and as many rows as there are lines. Another file of JSON only has to be
one that Arrow takes. -/
def JsonAlike (raw : Bytes) : Prop :=
  ∃ text first rest, utf8Decode raw = some text ∧ linesTranslated text = first :: rest ∧
    if opensObject first then
      (∀ line ∈ rest, line.all isJsonSpace) ∧ ∃ document firstObj,
        lib.loads (encoded first) = .ok document ∧ document.asDict = some firstObj ∧
        ReadsAs lib (lib.readJson raw) (firstObj.keys.map String.toList) (rest.length + 1)
    else ∀ frame, lib.readJson raw = .ok frame → (lib.fromPandas frame).isOk

/-- The files of which a load step reads what the upload stored. -/
def Alike (extension : Text) (raw : Bytes) : Prop :=
  extension = ".csv".toList ∧ CsvAlike lib raw ∨ extension = ".json".toList ∧ JsonAlike lib raw

end

/-! ### The path of a file -/

theorem pathName_of_notMem {name : Text} (hslash : '/' ∉ name) (hgiven : name ≠ [])
    (hdot : name ≠ ['.']) : pathName name = name := by
  unfold pathName
  rw [List.splitOn_eq_singleton hslash]
  simp [hgiven, hdot]

theorem pathSuffix_append {stem ending : Text} (hgiven : stem ≠ []) (hstem : '/' ∉ stem)
    (hending : ending ≠ []) (hslash : '/' ∉ ending) (hdot : '.' ∉ ending) :
    pathSuffix (stem ++ '.' :: ending) = '.' :: ending := by
  have hname : pathName (stem ++ '.' :: ending) = stem ++ '.' :: ending := by
    refine pathName_of_notMem (by simp [hstem, hslash]) (by simp) ?_
    cases stem with
    | nil => exact absurd rfl hgiven
    | cons c stem => simp
  unfold pathSuffix splitSuffix
  rw [hname, rtakeWhile_append_mark hdot, rdropWhile_append_mark hdot, List.dropLast_concat]
  exact congrArg Prod.snd (if_pos ⟨by simp, hgiven, hending⟩)

/-- The load step finds the extension that the upload has let in. -/
theorem extensionOf_storedPathOf {id : FileId} {filename : Text}
    (h : extensionOf filename ∈ ALLOWED_EXTENSIONS) :
    extensionOf (storedPathOf id filename) = extensionOf filename := by
  have hshape : ∀ ext ∈ ALLOWED_EXTENSIONS, ext = '.' :: ext.tail ∧ ext.tail ≠ [] ∧
      '/' ∉ ext.tail ∧ '.' ∉ ext.tail ∧ lowerCase ext = ext := by
    decide
  obtain ⟨hext, hending, hslash, hdot, hlower⟩ := hshape _ h
  unfold storedPathOf
  rw [extensionOf, hext, pathSuffix_append id.given id.plain.2 hending hslash hdot, ← hext, hlower]

/-! ### What an accepted file is -/

section Accepted

variable {Frame : Type} {lib : Libraries Frame} {id : FileId} {filename user : Text} {raw : Bytes}
  {row : UploadedFile}

theorem acceptUpload_eq_ok (h : acceptUpload lib id filename raw user = .ok row) :
    extensionOf filename ∈ ALLOWED_EXTENSIONS ∧ validateFileContent lib filename raw = .ok () ∧
      row.storedPath = storedPathOf id filename ∧ row.columns.all Label.isText ∧
      extractFileMetadata lib filename row.storedPath raw =
        .ok ⟨row.rowCount, row.columns, row.dtypes⟩ := by
  unfold acceptUpload validateFileExtension at h
  split at h
  next hext =>
    change finalizeUploadedFile lib id filename (storedPathOf id filename) raw user = .ok row at h
    unfold finalizeUploadedFile uploadMetadata at h
    cases hvalid : validateFileContent lib filename raw with
    | error e =>
      rw [hvalid] at h
      cases h
    | ok checked =>
      rw [hvalid] at h
      cases hmetadata : extractFileMetadata lib filename (storedPathOf id filename) raw with
      | error e =>
        simp only [bind, Except.bind, hmetadata] at h
        cases h
      | ok metadata =>
        simp only [bind, Except.bind, hmetadata] at h
        split at h
        · cases h
        · unfold fileUploadResponse at h
          split at h
          next htexts =>
            cases h
            exact ⟨hext, rfl, rfl, htexts.1, hmetadata⟩
          next => cases h
  next => cases h

theorem extractCsvMetadata_eq_ok {path : Text} {metadata : Metadata}
    (h : extractCsvMetadata lib path raw = .ok metadata) :
    ∃ uploaded encoding found, decodeCsvBytes raw = some (uploaded, encoding) ∧
      records (linesKept uploaded) = .ok found ∧
      metadata.columns = (found.headD []).map Label.text ∧
      metadata.rowCount = found.tail.length := by
  unfold extractCsvMetadata at h
  split at h
  next => cases h
  next uploaded encoding hdecode =>
    refine ⟨uploaded, encoding, ?_⟩
    split at h
    next => cases h
    next hrecords =>
      cases h
      exact ⟨[], hdecode, hrecords, rfl, rfl⟩
    next header rest hrecords =>
      refine ⟨header :: rest, hdecode, hrecords, ?_⟩
      split at h
      next hheader =>
        cases h
        exact ⟨by rw [hheader]; rfl, rfl⟩
      next =>
        split at h
        · cases h
        · cases h
          exact ⟨rfl, rfl⟩

/-- A JSON file that is let in begins with a bracket or a brace, so it has a line. -/
theorem ne_nil_of_checkJsonSample {sample : Bytes} (h : checkJsonSample lib sample = .ok ()) :
    sample ≠ [] := by
  rintro rfl
  cases h

theorem extractJsonMetadata_eq_ok {metadata : Metadata} (hraw : raw ≠ [])
    (h : extractJsonMetadata lib filename raw = .ok metadata) :
    ∃ text first rest, utf8Decode raw = some text ∧ linesTranslated text = first :: rest ∧
      if opensObject first then
        ∃ document firstObj, lib.loads (encoded first) = .ok document ∧
          document.asDict = some firstObj ∧
          metadata.columns = (firstObj.keys.map String.toList).map Label.text ∧
          metadata.rowCount = rest.length + 1
      else ∃ frame, lib.readJson raw = .ok frame ∧ metadata = frameMetadata lib frame := by
  unfold extractJsonMetadata at h
  split at h
  next => cases h
  next text htext =>
    split at h
    next hlines =>
      exact absurd (List.map_eq_nil_iff.mp hlines) (linesFrom_ne_nil (utf8Decode_ne_nil hraw htext))
    next first rest hlines =>
      refine ⟨text, first, rest, htext, hlines, ?_⟩
      split at h
      next hopens =>
        rw [if_pos hopens]
        unfold jsonLinesMetadata at h
        split at h
        next => cases h
        next document hloads =>
          split at h
          next => cases h
          next => cases h
          next firstObj frame hdict hframe =>
            cases h
            refine ⟨document, firstObj, hloads, hdict, ?_, rfl⟩
            rw [List.map_map]
            rfl
      next hopens =>
        rw [if_neg hopens]
        split at h
        next => cases h
        next frame hframe =>
          cases h
          exact ⟨frame, hframe, rfl⟩

/-! ### The load step on an accepted file -/

theorem executeLoad_eq_ok {path : Text} {table : Table} :
    executeLoad lib path raw = .ok table ↔
      ∃ frame, readFile lib path raw = .ok frame ∧ lib.fromPandas frame = .ok table := by
  unfold executeLoad
  cases readFile lib path raw with
  | error e => simp [Except.bind]
  | ok frame => cases hframe : lib.fromPandas frame <;> simp [Except.bind, Except.mapError, hframe]

theorem mapError_eq_ok {ε ε' α : Type} {f : ε → ε'} {x : Except ε α} {a : α} :
    x.mapError f = .ok a ↔ x = .ok a := by
  cases x <;> simp [Except.mapError]

theorem isOk_iff {ε α : Type} {x : Except ε α} : x.isOk = true ↔ ∃ a, x = .ok a := by
  cases x <;> simp [Except.isOk, Except.toBool]

theorem map_text_inj {ts ts' : List Text} : ts.map Label.text = ts'.map Label.text ↔ ts = ts' :=
  (List.map_injective_iff.mpr fun _ _ h => Label.text.inj h).eq_iff

/-- Whether the two agree is a question of what pandas reads. -/
theorem agrees_iff_readsAs (hlib : Documented lib) {columns : List Text}
    (hcolumns : row.columns = columns.map .text) :
    Agrees lib row raw ↔ ∃ frame, readFile lib row.storedPath raw = .ok frame ∧
      (lib.labels frame).map Label.str = columns ∧ lib.length frame = row.rowCount ∧
      (lib.fromPandas frame).isOk := by
  unfold Agrees
  simp only [executeLoad_eq_ok, hcolumns, map_text_inj, isOk_iff]
  constructor
  · rintro ⟨table, ⟨frame, hread, htable⟩, hnames, hrows⟩
    have ⟨htablenames, htablerows⟩ := hlib.table htable
    exact ⟨frame, hread, htablenames ▸ hnames, htablerows ▸ hrows, table, htable⟩
  · rintro ⟨frame, hread, hnames, hrows, table, htable⟩
    have ⟨htablenames, htablerows⟩ := hlib.table htable
    exact ⟨table, ⟨frame, hread, htable⟩, htablenames.trans hnames, htablerows.trans hrows⟩

theorem readFile_csv {path : Text} (h : extensionOf path = ".csv".toList) {frame : Frame} :
    readFile lib path raw = .ok frame ↔
      ∃ text, utf8Decode raw = some text ∧ lib.parseCsv none text = .ok frame := by
  unfold readFile
  rw [h]
  dsimp only
  rw [if_pos rfl, mapError_eq_ok, readCsv, decode]
  cases utf8Decode raw <;> simp

theorem readFile_json {path : Text} (h : extensionOf path = ".json".toList) {frame : Frame} :
    readFile lib path raw = .ok frame ↔ lib.readJson raw = .ok frame := by
  unfold readFile
  rw [h]
  dsimp only
  rw [if_neg (by decide), if_pos rfl, mapError_eq_ok]

theorem readFile_other {path : Text} (hcsv : extensionOf path ≠ ".csv".toList)
    (hjson : extensionOf path ≠ ".json".toList) {frame : Frame} :
    readFile lib path raw ≠ .ok frame := by
  unfold readFile
  dsimp only
  rw [if_neg hcsv, if_neg hjson]
  exact nofun

/-! ### Encodings that load -/

theorem decodeAs_eq_some {uploaded : Text} {encoding encoding' : Encoding}
    (h : decodeAs encoding raw = some (uploaded, encoding')) :
    encoding = encoding' ∧ decode encoding raw = some uploaded := by
  obtain ⟨text, htext, heq⟩ := Option.map_eq_some_iff.mp h
  obtain ⟨rfl, rfl⟩ := Prod.mk.inj heq
  exact ⟨rfl, htext⟩

theorem decodeCsvBytes_utf8Sig {uploaded : Text}
    (h : decodeCsvBytes raw = some (uploaded, .utf8Sig)) : utf8SigDecode raw = some uploaded := by
  have hnot16 : decodeAs .utf16 raw ≠ some (uploaded, .utf8Sig) :=
    fun h => Encoding.noConfusion (decodeAs_eq_some h).1
  unfold decodeCsvBytes at h
  split at h
  · exact absurd h hnot16
  · simp only [Option.orElse_eq_orElse, Option.orElse_eq_or] at h
    rcases Option.or_eq_some_iff.mp h with h | ⟨-, h⟩
    · split at h
      · exact absurd h hnot16
      · cases h
    · rcases Option.or_eq_some_iff.mp h with h | ⟨-, h⟩
      · exact (decodeAs_eq_some h).2
      · exact Encoding.noConfusion (decodeAs_eq_some h).1

/-- Bytes that begin with a UTF-16 mark, and those that only Windows-1252 fits, are no UTF-8. -/
theorem utf8Decode_of_encoding {uploaded : Text} {encoding : Encoding}
    (h : decodeCsvBytes raw = some (uploaded, encoding)) (hencoding : encoding ≠ .utf8Sig)
    (hnul : 0 ∉ raw) : utf8Decode raw = none := by
  unfold decodeCsvBytes at h
  split at h
  next hmark => exact utf8Decode_of_mark hmark
  next =>
    simp only [Option.orElse_eq_orElse, Option.orElse_eq_or, Option.none_or] at h
    cases hdecode : utf8Decode raw with
    | none => rfl
    | some text =>
      rw [decodeAs, decode, utf8SigDecode, hdecode] at h
      exact absurd (Prod.mk.inj (Option.some.inj h)).2.symm hencoding

theorem agrees_csv (hlib : Documented lib) (hstored : extensionOf row.storedPath = ".csv".toList)
    (hmetadata : extractCsvMetadata lib row.storedPath raw =
      .ok ⟨row.rowCount, row.columns, row.dtypes⟩) :
    Agrees lib row raw ↔ CsvAlike lib raw := by
  obtain ⟨uploaded, encoding, found, hdecode, hrecords, hcolumns, hrows⟩ :=
    extractCsvMetadata_eq_ok hmetadata
  change row.rowCount = found.tail.length at hrows
  rw [agrees_iff_readsAs hlib hcolumns, hrows]
  simp only [readFile_csv hstored]
  constructor
  · rintro ⟨frame, ⟨text, htext, hparse⟩, hnames, hlength, hok⟩
    have hencoding : encoding = .utf8Sig ∨ 0 ∈ raw := by
      by_contra hneither
      obtain ⟨hsig, hnul⟩ := not_or.mp hneither
      exact nomatch htext.symm.trans (utf8Decode_of_encoding hdecode hsig hnul)
    refine ⟨text, uploaded, encoding, found, htext, hdecode, hencoding, hrecords, ?_,
      frame, hparse, hnames, hlength, hok⟩
    rintro rfl
    have huploaded : dropMark text = uploaded := by
      have := decodeCsvBytes_utf8Sig hdecode
      rw [utf8SigDecode, htext] at this
      exact Option.some.inj this
    have hle := hlib.blankLines (huploaded ▸ hrecords) hparse
    rw [hlength] at hle
    have hall := List.length_filter_eq_length_iff.mp (le_antisymm (List.length_filter_le _ _) hle)
    intro record hrecord
    simpa using hall record hrecord
  · rintro ⟨text, uploaded', encoding', found', htext, hdecode', -, hrecords', -,
      frame, hparse, hnames, hlength, hok⟩
    obtain ⟨rfl, rfl⟩ := Prod.mk.inj (Option.some.inj (hdecode.symm.trans hdecode'))
    obtain rfl := Except.ok.inj (hrecords.symm.trans hrecords')
    exact ⟨frame, ⟨text, htext, hparse⟩, hnames, hlength, hok⟩

theorem columns_eq_of_isText {labels : List Label} (h : labels.all Label.isText) :
    labels = (labels.map Label.str).map .text := by
  induction labels with
  | nil => rfl
  | cons label labels ih =>
    rw [List.all_cons, Bool.and_eq_true] at h
    rw [List.map_cons, List.map_cons, ← ih h.2]
    cases label with
    | text t => rfl
    | other printed => cases h.1

theorem agrees_json (hlib : Documented lib) (hstored : extensionOf row.storedPath = ".json".toList)
    (hraw : raw ≠ []) (htexts : row.columns.all Label.isText)
    (hmetadata : extractJsonMetadata lib filename raw =
      .ok ⟨row.rowCount, row.columns, row.dtypes⟩) :
    Agrees lib row raw ↔ JsonAlike lib raw := by
  obtain ⟨text, first, rest, htext, hlines, hread⟩ := extractJsonMetadata_eq_ok hraw hmetadata
  have hsame : ∀ {text' first' rest'}, utf8Decode raw = some text' →
      linesTranslated text' = first' :: rest' → first' = first ∧ rest' = rest := by
    intro text' first' rest' htext' hlines'
    obtain rfl := Option.some.inj (htext.symm.trans htext')
    exact List.cons.inj (hlines'.symm.trans hlines)
  by_cases hopens : opensObject first
  · rw [if_pos hopens] at hread
    obtain ⟨document, firstObj, hloads, hdict, hcolumns, hrows⟩ := hread
    change row.rowCount = rest.length + 1 at hrows
    rw [agrees_iff_readsAs hlib hcolumns, hrows]
    simp only [readFile_json hstored]
    constructor
    · rintro ⟨frame, hframe, hnames, hlength, hok⟩
      refine ⟨text, first, rest, htext, hlines, ?_⟩
      rw [if_pos hopens]
      exact ⟨hlib.trailingData htext hlines hloads hframe,
        document, firstObj, hloads, hdict, frame, hframe, hnames, hlength, hok⟩
    · rintro ⟨text', first', rest', htext', hlines', hcond⟩
      obtain ⟨rfl, rfl⟩ := hsame htext' hlines'
      rw [if_pos hopens] at hcond
      obtain ⟨-, document', firstObj', hloads', hdict', hreads⟩ := hcond
      obtain rfl := Except.ok.inj (hloads.symm.trans hloads')
      obtain rfl := Option.some.inj (hdict.symm.trans hdict')
      exact hreads
  · rw [if_neg hopens] at hread
    obtain ⟨frame, hframe, hfound⟩ := hread
    obtain ⟨hrows, hcolumns, -⟩ := Metadata.mk.inj hfound
    rw [agrees_iff_readsAs hlib (columns_eq_of_isText htexts), hrows, hcolumns]
    simp only [readFile_json hstored, hframe]
    constructor
    · rintro ⟨frame', hframe', -, -, hok⟩
      refine ⟨text, first, rest, htext, hlines, ?_⟩
      rw [if_neg hopens]
      intro frame'' hframe''
      obtain rfl := Except.ok.inj (hframe.symm.trans hframe'')
      obtain rfl := Except.ok.inj hframe'
      exact hok
    · rintro ⟨text', first', rest', htext', hlines', hcond⟩
      obtain ⟨rfl, rfl⟩ := hsame htext' hlines'
      rw [if_neg hopens] at hcond
      exact ⟨frame, rfl, rfl, rfl, hcond frame hframe⟩

end Accepted

/-! ### A file with an accent -/

def plainFrame (nrows : Option Nat) : List (List Text) → Except String (List Text × Nat)
  | [] => .error "No columns to parse from file"
  | header :: rest => .ok (header, match nrows with
    | some n => min n rest.length
    | none => rest.length)

/-- Libraries for files of plain records. -/
def plainLibraries : Libraries (List Text × Nat) where
  parseCsv nrows text :=
    (records (linesKept (dropMark text))).bind fun found =>
      plainFrame nrows (found.filter fun record => !record.isEmpty)
  readJson _ := .error "Trailing data"
  readExcel _ _ := .error "Excel file format cannot be determined"
  parquetFile _ := .error "Parquet magic bytes not found in footer"
  loads _ := .error "unexpected character"
  dataFrame _ := .ok ([], 0)
  labels frame := frame.1.map .text
  dtypes frame := frame.1.map fun _ => "object".toList
  length := Prod.snd
  fromPandas frame := .ok ⟨frame.1, frame.2⟩
  decodeError _ _ := "invalid continuation byte"

theorem length_plainFrame {found : List (List Text)} {frame : List Text × Nat}
    (h : plainFrame none (found.filter fun record => !record.isEmpty) = .ok frame) :
    frame.2 ≤ (found.tail.filter fun record => !record.isEmpty).length := by
  cases found with
  | nil => cases h
  | cons header rest =>
    rw [List.filter_cons] at h
    split at h
    · cases h
      exact le_rfl
    · rw [List.tail_cons]
      cases hrest : rest.filter fun record => !record.isEmpty with
      | nil =>
        rw [hrest] at h
        cases h
      | cons header' rest' =>
        rw [hrest] at h
        cases h
        exact Nat.le_succ _

theorem documented_plainLibraries : Documented plainLibraries where
  table h := by
    cases h
    exact ⟨by simp [plainLibraries, Function.comp_def, Label.str], rfl⟩
  blankLines {text found frame} hread h := by
    simp only [plainLibraries, hread, Except.bind] at h
    exact length_plainFrame h
  trailingData _ _ _ h := by cases h

def accentId : FileId := ⟨"7f3c".toList, by decide, by decide⟩

/-- A header `name` and one record, with an accent in Windows-1252. -/
def accented : Bytes := [0x6E, 0x61, 0x6D, 0x65, 0x0A, 0x4A, 0x6F, 0x73, 0xE9, 0x0A]

/-- The same in UTF-8. -/
def accentedUtf8 : Bytes := [0x6E, 0x61, 0x6D, 0x65, 0x0A, 0x4A, 0x6F, 0x73, 0xC3, 0xA9, 0x0A]

/-- What the upload of such a file stores. -/
def storedOf (raw : Bytes) : Option (Text × List Label × Nat) :=
  (acceptUpload plainLibraries accentId "people.csv".toList raw "ann".toList).toOption.map
    fun row => (row.storedPath, row.columns, row.rowCount)

theorem exists_of_storedOf {raw : Bytes} {path : Text} {columns : List Label} {rows : Nat}
    (h : storedOf raw = some (path, columns, rows)) : ∃ row,
      acceptUpload plainLibraries accentId "people.csv".toList raw "ann".toList = .ok row ∧
        row.storedPath = path ∧ row.columns = columns ∧ row.rowCount = rows := by
  unfold storedOf at h
  cases haccept : acceptUpload plainLibraries accentId "people.csv".toList raw "ann".toList with
  | error e =>
    rw [haccept] at h
    cases h
  | ok row =>
    rw [haccept] at h
    cases h
    exact ⟨row, rfl, rfl, rfl, rfl⟩

theorem storedOf_accented :
    storedOf accented = some ("7f3c.csv".toList, [.text "name".toList], 1) := by
  decide +kernel

theorem storedOf_accentedUtf8 :
    storedOf accentedUtf8 = some ("7f3c.csv".toList, [.text "name".toList], 1) := by
  decide +kernel

theorem csvAlike_accentedUtf8 : CsvAlike plainLibraries accentedUtf8 := by
  have htext : utf8Decode accentedUtf8 = some "name\nJosé\n".toList := by decide +kernel
  have hdecode : decodeCsvBytes accentedUtf8 = some ("name\nJosé\n".toList, .utf8Sig) := by
    decide +kernel
  have hrecords : records (linesKept "name\nJosé\n".toList) =
      .ok [["name".toList], ["José".toList]] := by
    decide +kernel
  have hparse : plainLibraries.parseCsv none "name\nJosé\n".toList =
      .ok (["name".toList], 1) := by
    decide +kernel
  exact ⟨_, _, _, _, htext, hdecode, .inl rfl, hrecords, by decide, _, hparse, rfl, rfl, rfl⟩

end PipelineIQ.Api.UploadAgreement

import PipelineIQ.Execution.StepSql
import PipelineIQ.Lib.Traverse

namespace PipelineIQ.Execution.Injection

open PipelineIQ.Lib.Strings PipelineIQ.Lib.SqlTokens PipelineIQ.Lib.Traverse
open PipelineIQ.Pipeline.Filter PipelineIQ.Execution.FilterSql PipelineIQ.Execution.StepSql

/-! ### The skeletons -/

section Skeletons

def names (columns : List Text) : List Token := commaTokens (columns.map fun c => [.name c])

def signed (n : Int) : List Token :=
  if n < 0 then [.symbol '-', .number (natural n.natAbs).text] else [.number (natural n.natAbs).text]

/-- A printed double: a number, or a minus sign and a number. -/
def printed : Text → List Token
  | '-' :: text => [.symbol '-', .number text]
  | text => [.number text]

variable (py : Python)

/-- The one literal that stands for a value. -/
def valueTokens : Value → List Token
  | none => [.word "NULL".toList]
  | some (.bool b) => [.word (if b then "TRUE".toList else "FALSE".toList)]
  | some (.int n) => signed n
  | some (.float d) => printed (py.float d)
  | some v => [.string (py.str (some v))]

def predicateTokens (column : Text) : Predicate → List Token
  | .compare op literal =>
    .name column :: (sign op).map Token.symbol ++ valueTokens py literal
  | .like negated pattern => tokens "CAST(" ++ .name column ::
      (if negated then tokens " AS VARCHAR) NOT LIKE " else tokens " AS VARCHAR) LIKE ") ++
        [.string pattern]
  | .isNull negated =>
    .name column :: if negated then tokens " IS NOT NULL" else tokens " IS NULL"

def filterTokens (step : FilterStepConfig) : List Token :=
  tokens "SELECT * FROM __input__ WHERE " ++
    predicateTokens py step.column (wherePredicate py step.operator step.value)

def selectTokens (step : SelectStepConfig) : List Token :=
  if step.columns = [] then tokens "SELECT * FROM __input__"
  else if lowerCase step.mode ∈ ["drop".toList, "exclude".toList] then
    tokens "SELECT * EXCLUDE (" ++ names step.columns ++ tokens ") FROM __input__"
  else tokens "SELECT " ++ names step.columns ++ tokens " FROM __input__"

def sortTokens (step : SortStepConfig) : List Token :=
  let byColumns := step.byColumns.filter (· ≠ [])
  tokens "SELECT * FROM __input__ ORDER BY " ++
    commaTokens ((byColumns.zip ((directions step byColumns.length).getD [])).map fun e =>
      [.name e.1, .word (if e.2 then "ASC".toList else "DESC".toList)])

def aggregationTokens (agg : Aggregation) : List Token :=
  let call := (aggregateCall (lowerCase agg.function)).getD ("", "")
  tokens call.1 ++ .name agg.column :: tokens call.2 ++ [.name agg.outputName]

def aggregateTokens (step : AggregateStepConfig) : List Token :=
  tokens "SELECT " ++ commaTokens (step.groupBy.map (fun c => [.name c]) ++
    step.aggregations.map aggregationTokens) ++ tokens " FROM __input__" ++
      if step.groupBy = [] then [] else tokens " GROUP BY " ++ names step.groupBy

def joinTokens (step : JoinStepConfig) : List Token :=
  tokens ((joinHead (lowerCase step.how)).getD "") ++ [.name step.on, .symbol ')']

def deduplicateTokens (step : DeduplicateStepConfig) : List Token :=
  if step.subset = [] then tokens "SELECT DISTINCT * FROM __input__"
  else
    let frame := (deduplicateFrame (lowerCase step.keep)).getD ("", "")
    tokens frame.1 ++ names step.subset ++ tokens frame.2

def sampleTokens (size : Token) (method : String) (seed : Option Int) : List Token :=
  tokens "SELECT * FROM __input__ USING SAMPLE " ++ size :: tokens method ++
    match seed with
    | some seed => .symbol ',' :: signed seed ++ [.symbol ')']
    | none => [.symbol ')']

def fillTokens (strategy : Text) (constantValue : Value) (column : Text) : List Token :=
  if strategy = "constant".toList then
    tokens "COALESCE(" ++ .name column :: tokens ", " ++ valueTokens py constantValue ++
      tokens ") AS " ++ [.name column]
  else
    let call := (fillCall strategy).getD ("", "")
    tokens "COALESCE(" ++ .name column :: tokens call.1 ++ .name column :: tokens call.2 ++
      [.name column]

def fillNullsTokens (step : FillNullsStepConfig) : List Token :=
  let strategy := fillStrategy (lowerCase step.strategy)
  tokens (fillFrame strategy).1 ++
    commaTokens (step.columns.map (fillTokens py strategy step.constantValue)) ++
      tokens (fillFrame strategy).2

def pivotTokens (step : PivotStepConfig) : List Token :=
  tokens "SELECT * FROM (PIVOT __input__ ON " ++ .name step.columns :: tokens " USING " ++
    .word ((simpleName step.aggfunc).getD []) :: tokens "(" ++ .name step.values :: tokens ")" ++
      (if step.index = [] then [] else tokens " GROUP BY " ++ names step.index) ++ tokens ")"

def unpivotTokens (step : UnpivotStepConfig) : List Token :=
  tokens "SELECT * FROM (UNPIVOT (SELECT " ++ names (step.idVars ++ step.valueVars) ++
    tokens " FROM __input__) ON " ++ names step.valueVars ++ tokens " INTO NAME " ++
      .name step.varName :: tokens " VALUE " ++ [.name step.valueName, .symbol ')']

/-- The tokens that the query of a step is to have: the fixed ones of its type, each column, name
and value in its place as one token. A sample has a number of rows or of percents. -/
def Skeleton : Step → List Token → Prop
  | .filter step, ts => ts = filterTokens py step
  | .select step, ts => ts = selectTokens step
  | .sort step, ts => ts = sortTokens step
  | .aggregate step, ts => ts = aggregateTokens step
  | .join step, ts => ts = joinTokens step
  | .deduplicate step, ts => ts = deduplicateTokens step
  | .sample step, ts => match step.n with
    | some n => ts = sampleTokens (.number (natural n.toNat).text) " ROWS (reservoir" step.randomState
    | none => ∃ size : Numeral,
      ts = sampleTokens (.number size.text) "% (bernoulli" step.randomState
  | .fillNulls step, ts => ts = fillNullsTokens py step
  | .pivot step, ts => ts = pivotTokens step
  | .unpivot step, ts => ts = unpivotTokens step

/-- The query is read as the skeleton of its step. -/
def TokenSafe (step : Step) (sql : Text) : Prop := ∃ ts, Skeleton py step ts ∧ lex sql = some ts

/-- How Python prints finite doubles. -/
def PrintsNumbers : Prop :=
  ∀ q, ∃ n : Numeral, py.float (.finite q) = n.text ∨ py.float (.finite q) = '-' :: n.text

end Skeletons

variable {py : Python} {t u : Text} {ts us : List Token}

/-! ### Quoted columns -/

theorem quoteIdentifier_some {column quoted : Text} (h : quoteIdentifier column = some quoted) :
    quoted = Lib.Sql.quote '"' column := by
  unfold quoteIdentifier at h
  split at h
  · cases h
  · cases h
    rfl

theorem reads_column {column quoted : Text} (h : quoteIdentifier column = some quoted) :
    Reads quoted [.name column] := by
  rw [quoteIdentifier_some h]
  exact reads_name column

/-- Parts that are built one by one are read one by one. -/
theorem forall₂_reads {α : Type} {f : α → Option Text} {g : α → List Token} {xs : List α}
    {parts : List Text} (h : xs.mapM f = some parts)
    (hread : ∀ x part, f x = some part → Reads part (g x)) :
    List.Forall₂ Reads parts (xs.map g) := by
  rw [List.forall₂_map_right_iff]
  exact (mapM_some_iff.mp h).flip.imp fun part x => hread x part

theorem mapM_ne_nil {α : Type} {f : α → Option Text} {xs : List α} {parts : List Text}
    (h : xs.mapM f = some parts) (hne : xs ≠ []) : parts ≠ [] := by
  rintro rfl
  cases mapM_some_iff.mp h
  exact hne rfl

theorem reads_names {columns quoted : List Text} (h : quoteIdentifiers columns = some quoted)
    (hne : columns ≠ []) : Reads (commaJoin quoted) (names columns) :=
  reads_commaJoin (forall₂_reads h fun _ _ => reads_column) (mapM_ne_nil h hne)

/-! ### Literals -/

theorem intText_eq (n : Int) :
    intText n = if n < 0 then '-' :: (natural n.natAbs).text else (natural n.natAbs).text := by
  cases n with
  | ofNat m =>
    have hm : ¬ Int.ofNat m < 0 := Int.not_lt.mpr (Int.natCast_nonneg m)
    rw [if_neg hm]
    exact Nat.toList_repr
  | negSucc m =>
    rw [if_pos (Int.negSucc_lt_zero m)]
    change ("-" ++ Nat.repr (m + 1)).toList = _
    rw [String.toList_append, Nat.toList_repr]
    rfl

theorem reads_int (n : Int) : Reads (intText n) (signed n) := by
  rw [intText_eq, signed]
  split
  · exact reads_negative _
  · exact reads_numeral _

theorem reads_printed {d : Text} {n : Numeral} (h : d = n.text ∨ d = '-' :: n.text) :
    Reads d (printed d) := by
  rcases h with rfl | rfl
  · have hprinted : printed n.text = [.number n.text] := by
      have hdigit := n.digit
      unfold printed
      split
      · next heq =>
        rw [heq] at hdigit
        cases hdigit
      · rfl
    rw [hprinted]
    exact reads_numeral n
  · exact reads_negative n

theorem reads_quotedText (text : Text) : Reads (quotedText text) [.string text] :=
  reads_string text

theorem reads_value (hp : PrintsNumbers py) {v : Value} {literal : Text}
    (h : sqlLiteral py v = some literal) : Reads literal (valueTokens py v) := by
  cases v with
  | none =>
    cases h
    exact reads_code (s := "NULL") (by decide)
  | some v =>
    cases v with
    | text t =>
      cases h
      exact reads_quotedText t
    | bool b =>
      cases h
      cases b with
      | true => exact reads_code (s := "TRUE") (by decide)
      | false => exact reads_code (s := "FALSE") (by decide)
    | int n =>
      cases h
      exact reads_int n
    | float d =>
      cases d with
      | nan | infinite => cases h
      | finite q =>
        cases h
        obtain ⟨n, hn⟩ := hp q
        exact reads_printed hn
    | instant n =>
      cases h
      exact reads_quotedText _
    | nat =>
      cases h
      exact reads_quotedText _

/-! ### The builders -/

theorem tokens_paren : tokens ")" = [.symbol ')'] := by decide

theorem reads_predicate (hp : PrintsNumbers py) {column quoted where' : Text} {p : Predicate}
    (hq : quoteIdentifier column = some quoted) (h : p.render py quoted = some where') :
    Reads where' (predicateTokens py column p) := by
  have hcolumn := reads_column hq
  cases p with
  | compare op literal =>
    obtain ⟨text, ht, rfl⟩ := Option.map_eq_some_iff.mp h
    have hvalue := reads_value hp ht
    have hsign : ∀ s : String, separated s = true → closed s = true → s.toList = ' ' :: sign op ++ [' '] →
        tokens s = (sign op).map Token.symbol →
          Reads (quoted ++ ' ' :: sign op ++ ' ' :: text) (predicateTokens py column (.compare op literal)) := by
      intro s hs hc hs' hts
      have hread := (hcolumn.code hs hc).reads hvalue
      rw [hts, hs'] at hread
      simpa [predicateTokens] using hread
    cases op with
    | eq => exact hsign " = " (by decide) (by decide) rfl (by decide)
    | ne => exact hsign " != " (by decide) (by decide) rfl (by decide)
    | gt => exact hsign " > " (by decide) (by decide) rfl (by decide)
    | lt => exact hsign " < " (by decide) (by decide) rfl (by decide)
    | ge => exact hsign " >= " (by decide) (by decide) rfl (by decide)
    | le => exact hsign " <= " (by decide) (by decide) rfl (by decide)
  | like negated pattern =>
    cases h
    have hopen := (opens_code (s := "CAST(") (by decide)).reads hcolumn
    cases negated with
    | false =>
      have hread := (hopen.code (s := " AS VARCHAR) LIKE ") (by decide) (by decide)).reads
        (reads_quotedText pattern)
      simpa [predicateTokens] using hread
    | true =>
      have hread := (hopen.code (s := " AS VARCHAR) NOT LIKE ") (by decide) (by decide)).reads
        (reads_quotedText pattern)
      simpa [predicateTokens] using hread
  | isNull negated =>
    cases h
    cases negated with
    | false => exact hcolumn.codeEnd (by decide) (by decide)
    | true => exact hcolumn.codeEnd (by decide) (by decide)

theorem reads_filter (hp : PrintsNumbers py) {step : FilterStepConfig} {sql : Text}
    (h : buildFilterSql py step = some sql) : Reads sql (filterTokens py step) := by
  rw [buildFilterSql_eq] at h
  obtain ⟨quoted, hq, h⟩ := Option.bind_eq_some_iff.mp h
  obtain ⟨predicate, hpredicate, rfl⟩ := Option.map_eq_some_iff.mp h
  exact (opens_code (by decide)).reads (reads_predicate hp hq hpredicate)

theorem reads_select {step : SelectStepConfig} {sql : Text} (h : buildSelectSql step = some sql) :
    Reads sql (selectTokens step) := by
  unfold buildSelectSql at h
  unfold selectTokens
  split at h
  · next hempty =>
    cases h
    rw [if_pos hempty]
    exact reads_code (by decide)
  · next hne =>
    obtain ⟨quoted, hq, rfl⟩ := Option.map_eq_some_iff.mp h
    rw [if_neg hne]
    split
    · exact ((opens_code (by decide)).reads (reads_names hq hne)).codeEnd (by decide) (by decide)
    · exact ((opens_code (by decide)).reads (reads_names hq hne)).codeEnd (by decide) (by decide)

theorem directions_length {step : SortStepConfig} {count : Nat} {ascending : List Bool}
    (h : directions step count = some ascending) : ascending.length = count := by
  unfold directions at h
  split at h
  · next given _ =>
    dsimp only at h
    generalize (if given.length = 1 ∧ 1 < count then (List.replicate count given).flatten
      else given) = all at h
    split at h
    · cases h
    · next hcount =>
      cases h
      exact not_not.mp hcount
  · cases h
    exact List.length_replicate

theorem reads_sort {step : SortStepConfig} {sql : Text} (h : buildSortSql step = some sql) :
    Reads sql (sortTokens step) := by
  unfold buildSortSql at h
  dsimp only at h
  unfold sortTokens
  dsimp only
  split at h
  · cases h
  · next hne =>
    obtain ⟨ascending, hdirections, h⟩ := Option.bind_eq_some_iff.mp h
    obtain ⟨orderBy, hparts, rfl⟩ := Option.map_eq_some_iff.mp h
    rw [hdirections, Option.getD_some]
    have hlength := directions_length hdirections
    refine (opens_code (by decide)).reads (reads_commaJoin (forall₂_reads hparts ?_)
      (mapM_ne_nil hparts ?_))
    · rintro ⟨column, up⟩ part hpart
      obtain ⟨quoted, hq, rfl⟩ := Option.map_eq_some_iff.mp hpart
      cases up with
      | true => exact (reads_column hq).codeEnd (s := " ASC") (by decide) (by decide)
      | false => exact (reads_column hq).codeEnd (s := " DESC") (by decide) (by decide)
    · intro hzip
      have hzero := congrArg List.length hzip
      rw [List.length_zip, hlength, Nat.min_self] at hzero
      exact hne (List.length_eq_zero_iff.mp hzero)

/-- Every aggregate function is a call that leaves nothing open around its column. -/
theorem aggregateCall_closed {function : Text} {call : String × String}
    (h : aggregateCall function = some call) :
    closed call.1 = true ∧ separated call.2 = true ∧ closed call.2 = true := by
  unfold aggregateCall at h
  split at h
  · cases h
    decide
  · split at h
    · cases h
      decide
    · split at h
      · cases h
        decide
      · obtain ⟨e, he, rfl⟩ := Option.map_eq_some_iff.mp h
        have hall : ∀ e ∈ simpleFnMap, closed e.2 = true := by decide
        have hafter : separated ") AS " = true ∧ closed ") AS " = true := by decide
        exact ⟨hall e (List.mem_of_find?_eq_some he), hafter⟩

theorem reads_aggregation {agg : Aggregation} {expr : Text} (h : aggregateExpr agg = some expr) :
    Reads expr (aggregationTokens agg) := by
  obtain ⟨column, hcolumn, h⟩ := Option.bind_eq_some_iff.mp h
  obtain ⟨name, hname, h⟩ := Option.bind_eq_some_iff.mp h
  obtain ⟨call, hcall, rfl⟩ := Option.map_eq_some_iff.mp h
  obtain ⟨h₁, h₂, h₃⟩ := aggregateCall_closed hcall
  have hread := (((opens_code h₁).reads (reads_column hcolumn)).code h₂ h₃).reads
    (reads_column hname)
  unfold aggregationTokens
  rw [hcall]
  simpa using hread

theorem reads_aggregate {step : AggregateStepConfig} {sql : Text}
    (h : buildAggregateSql step = some sql) : Reads sql (aggregateTokens step) := by
  unfold buildAggregateSql at h
  split at h
  · cases h
  · next hne =>
    obtain ⟨groupBy, hgroup, h⟩ := Option.bind_eq_some_iff.mp h
    obtain ⟨exprs, hexprs, rfl⟩ := Option.map_eq_some_iff.mp h
    have hparts := List.rel_append (forall₂_reads hgroup fun _ _ => reads_column)
      (forall₂_reads hexprs fun _ _ => reads_aggregation)
    have hread := ((opens_code (s := "SELECT ") (by decide)).reads (reads_commaJoin hparts
      (List.append_ne_nil_of_right_ne_nil _ (mapM_ne_nil hexprs hne)))).codeEnd
        (s := " FROM __input__") (by decide) (by decide)
    unfold aggregateTokens
    dsimp only
    split
    · rw [List.append_nil]
      exact hread
    · next hgroups =>
      have hmore := (hread.code (s := " GROUP BY ") (by decide) (by decide)).reads
        (reads_names hgroup hgroups)
      simpa using hmore

theorem joinHead_closed {how : Text} {head : String} (h : joinHead how = some head) :
    closed head = true ∧ '{' ∉ head.toList := by
  unfold joinHead at h
  split at h
  · cases h
    decide
  · split at h
    · cases h
      decide
    · split at h
      · cases h
        decide
      · split at h
        · cases h
          decide
        · cases h

theorem reads_join {step : JoinStepConfig} {sql : Text} (h : buildJoinSql step = some sql) :
    Reads sql (joinTokens step) := by
  obtain ⟨key, hkey, h⟩ := Option.bind_eq_some_iff.mp h
  obtain ⟨head, hhead, rfl⟩ := Option.map_eq_some_iff.mp h
  have hread := ((opens_code (joinHead_closed hhead).1).reads (reads_column hkey)).code
    (s := ")") (by decide) (by decide)
  rw [tokens_paren] at hread
  unfold joinTokens
  rw [hhead]
  simpa using hread.close

-- a text is computed with as its characters
section Characters

variable {s : String} {cs : Text}

theorem closed_of (hs : s = String.ofList cs) (h : (scan .between cs).1 = .between) :
    closed s = true := by
  rw [closed, hs, String.toList_ofList, h]
  rfl

theorem complete_of (hs : s = String.ofList cs) (h : (scan .between cs).1.isCode = true) :
    complete s = true := by
  rw [complete, hs, String.toList_ofList, h]

theorem separated_of (hs : s = String.ofList cs) (h : cs.head?.any separates = true) :
    separated s = true := by
  rw [separated, hs, String.toList_ofList, h]

end Characters

set_option maxRecDepth 4000 in
theorem deduplicateFrame_closed {keep : Text} {frame : String × String}
    (h : deduplicateFrame keep = some frame) :
    closed frame.1 = true ∧ separated frame.2 = true ∧ complete frame.2 = true := by
  unfold deduplicateFrame at h
  split at h
  · cases h
    exact ⟨closed_of rfl rfl, separated_of rfl rfl, complete_of rfl rfl⟩
  · split at h
    · cases h
      exact ⟨closed_of rfl rfl, separated_of rfl rfl, complete_of rfl rfl⟩
    · split at h
      · cases h
        exact ⟨closed_of rfl rfl, separated_of rfl rfl, complete_of rfl rfl⟩
      · cases h

theorem reads_deduplicate {step : DeduplicateStepConfig} {sql : Text}
    (h : buildDeduplicateSql step = some sql) : Reads sql (deduplicateTokens step) := by
  unfold buildDeduplicateSql at h
  dsimp only at h
  unfold deduplicateTokens
  split at h
  · next hempty =>
    rw [if_pos hempty]
    split at h
    · cases h
    · cases h
      exact reads_code (by decide)
  · next hne =>
    rw [if_neg hne]
    obtain ⟨partition, hpartition, h⟩ := Option.bind_eq_some_iff.mp h
    obtain ⟨frame, hframe, rfl⟩ := Option.map_eq_some_iff.mp h
    obtain ⟨h₁, h₂, h₃⟩ := deduplicateFrame_closed hframe
    rw [hframe]
    exact ((opens_code h₁).reads (reads_names hpartition hne)).codeEnd h₂ h₃

theorem reads_sample {text : Text} {size : Token} (hsize : Reads text [size]) {method : String}
    (hs : separated method = true) (hc : complete method = true) (seed : Option Int) :
    Reads ("SELECT * FROM __input__ USING SAMPLE ".toList ++ text ++ sampleSpec method seed)
      (sampleTokens size method seed) := by
  have hread := ((opens_code (s := "SELECT * FROM __input__ USING SAMPLE ") (by decide)).reads
    hsize).codeEnd hs hc
  unfold sampleSpec sampleTokens
  cases seed with
  | none =>
    have hend := (hread.code (s := ")") (by decide) (by decide)).close
    rw [tokens_paren] at hend
    simpa using hend
  | some seed =>
    have hend := (((hread.code (s := ", ") (by decide) (by decide)).reads (reads_int seed)).code
      (s := ")") (by decide) (by decide)).close
    rw [tokens_paren, tokens_comma] at hend
    simpa using hend

set_option maxRecDepth 4000 in
theorem fillCall_closed {strategy : Text} {call : String × String}
    (h : fillCall strategy = some call) : separated call.1 = true ∧ closed call.1 = true ∧
      separated call.2 = true ∧ closed call.2 = true := by
  unfold fillCall at h
  split at h
  · cases h
    exact ⟨separated_of rfl rfl, closed_of rfl rfl, separated_of rfl rfl, closed_of rfl rfl⟩
  · split at h
    · cases h
      exact ⟨separated_of rfl rfl, closed_of rfl rfl, separated_of rfl rfl, closed_of rfl rfl⟩
    · split at h
      · cases h
        exact ⟨separated_of rfl rfl, closed_of rfl rfl, separated_of rfl rfl, closed_of rfl rfl⟩
      · split at h
        · cases h
          exact ⟨separated_of rfl rfl, closed_of rfl rfl, separated_of rfl rfl, closed_of rfl rfl⟩
        · split at h
          · cases h
            exact ⟨separated_of rfl rfl, closed_of rfl rfl, separated_of rfl rfl, closed_of rfl rfl⟩
          · cases h

set_option maxRecDepth 4000 in
theorem fillFrame_closed (strategy : Text) : closed (fillFrame strategy).1 = true ∧
    separated (fillFrame strategy).2 = true ∧ complete (fillFrame strategy).2 = true := by
  unfold fillFrame
  split
  · exact ⟨closed_of rfl rfl, separated_of rfl rfl, complete_of rfl rfl⟩
  · exact ⟨closed_of rfl rfl, separated_of rfl rfl, complete_of rfl rfl⟩

theorem reads_fillExpr (hp : PrintsNumbers py) {strategy : Text} {constantValue : Value}
    {column expr : Text} (h : fillExpr py strategy constantValue column = some expr) :
    Reads expr (fillTokens py strategy constantValue column) := by
  obtain ⟨quoted, hq, h⟩ := Option.bind_eq_some_iff.mp h
  have hcolumn := reads_column hq
  have hopen := (opens_code (s := "COALESCE(") (by decide)).reads hcolumn
  unfold fillTokens
  split at h
  · next hconstant =>
    obtain ⟨literal, hliteral, rfl⟩ := Option.map_eq_some_iff.mp h
    rw [if_pos hconstant]
    have hread := ((((hopen.code (s := ", ") (by decide) (by decide)).reads
      (reads_value hp hliteral)).code (s := ") AS ") (by decide) (by decide))).reads hcolumn
    simpa using hread
  · next hother =>
    obtain ⟨call, hcall, rfl⟩ := Option.map_eq_some_iff.mp h
    rw [if_neg hother, hcall]
    obtain ⟨h₁, h₂, h₃, h₄⟩ := fillCall_closed hcall
    have hread := (((hopen.code h₁ h₂).reads hcolumn).code h₃ h₄).reads hcolumn
    simpa using hread

theorem reads_fillNulls (hp : PrintsNumbers py) {step : FillNullsStepConfig} {sql : Text}
    (h : buildFillNullsSql py step = some sql) : Reads sql (fillNullsTokens py step) := by
  unfold buildFillNullsSql at h
  dsimp only at h
  split at h
  · cases h
  · next hne =>
    obtain ⟨expressions, hparts, rfl⟩ := Option.map_eq_some_iff.mp h
    obtain ⟨h₁, h₂, h₃⟩ := fillFrame_closed (fillStrategy (lowerCase step.strategy))
    exact ((opens_code h₁).reads (reads_commaJoin
      (forall₂_reads hparts fun _ _ => reads_fillExpr hp) (mapM_ne_nil hparts hne))).codeEnd h₂ h₃

/-! ### Names that are not quoted -/

theorem nameRest_wordPart {c : Char} (h : nameRest c = true) : wordPart c = true := by
  simp only [nameRest, Char.isAlphanum, Bool.or_eq_true] at h
  simp only [wordPart, wordStart, Bool.or_eq_true]
  tauto

theorem scan_word {rest : Text} (h : ∀ c ∈ rest, nameRest c = true) (read : Text) :
    scan (.word read) rest = (.word (read ++ rest), []) := by
  induction rest generalizing read with
  | nil => rw [List.append_nil]; rfl
  | cons c rest ih =>
    rw [scan, step, if_pos (nameRest_wordPart (h c List.mem_cons_self))]
    dsimp only
    rw [ih fun d hd => h d (List.mem_cons_of_mem c hd), List.append_assoc]
    rfl

/-- The call of a function with a simple name is the name and a parenthesis. -/
theorem opens_call {function name : Text} (h : simpleName function = some name) :
    Opens (function ++ "(".toList) (.word name :: tokens "(") := by
  have hcall : ∀ n : Text, (∃ c rest, n = c :: rest ∧ nameStart c = true ∧
      ∀ d ∈ rest, nameRest d = true) → scan .between n = (.word n, []) := by
    rintro n ⟨c, rest, rfl, hc, hrest⟩
    have hstart : start c = (.word [c], []) := by
      have hw : wordStart c = true := by
        simp only [nameStart, Bool.or_eq_true] at hc
        simp only [wordStart, Bool.or_eq_true]
        tauto
      rw [start, if_pos hw]
    rw [scan, step, hstart]
    dsimp only
    rw [scan_word hrest]
    rfl
  unfold simpleName at h
  dsimp only at h
  split at h
  · next c rest hname =>
    split at h
    · next hsimple =>
      have hn : name = c :: rest := by rw [← Option.some.inj h, hname]
      rw [hn]
      have hscan := hcall (c :: rest) ⟨c, rest, rfl, hsimple.1, List.all_eq_true.mp hsimple.2⟩
      split at hname
      · next hlast =>
        -- the line feed is white space between the name and the parenthesis
        have hfunction : function = (c :: rest) ++ ['\n'] := by
          rw [← hname]
          exact (List.dropLast_append_getLast? '\n' (Option.mem_def.mpr hlast)).symm
        unfold Opens
        rw [hfunction, List.append_assoc, scan_append, hscan]
        rfl
      · rw [hname]
        unfold Opens
        rw [scan_append, hscan]
        rfl
    · cases h
  · cases h

theorem reads_pivot {step : PivotStepConfig} {sql : Text} (h : buildPivotSql step = some sql) :
    Reads sql (pivotTokens step) := by
  unfold buildPivotSql at h
  split at h
  · cases h
  · obtain ⟨name, hname, h⟩ := Option.bind_eq_some_iff.mp h
    obtain ⟨index, hindex, h⟩ := Option.bind_eq_some_iff.mp h
    obtain ⟨columns, hcolumns, h⟩ := Option.bind_eq_some_iff.mp h
    obtain ⟨values, hvalues, rfl⟩ := Option.map_eq_some_iff.mp h
    have hread := ((((((opens_code (s := "SELECT * FROM (PIVOT __input__ ON ") (by decide)).reads
      (reads_column hcolumns)).code (s := " USING ") (by decide) (by decide)).append
        (opens_call hname)).reads (reads_column hvalues)).code (s := ")") (by decide) (by decide))
    unfold pivotTokens
    rw [hname]
    dsimp only
    split
    · have hend := (hread.code (s := ")") (by decide)).close
      simpa using hend
    · next hne =>
      have hend := (((hread.code (s := " GROUP BY ") (by decide)).reads
        (reads_names hindex hne)).code (s := ")") (by decide) (by decide)).close
      simpa using hend

theorem reads_unpivot {step : UnpivotStepConfig} {sql : Text} (h : buildUnpivotSql step = some sql) :
    Reads sql (unpivotTokens step) := by
  unfold buildUnpivotSql at h
  split at h
  · cases h
  · next hne =>
    obtain ⟨source, hsource, h⟩ := Option.bind_eq_some_iff.mp h
    obtain ⟨columns, hcolumns, h⟩ := Option.bind_eq_some_iff.mp h
    obtain ⟨varName, hvar, h⟩ := Option.bind_eq_some_iff.mp h
    obtain ⟨valueName, hvalue, rfl⟩ := Option.map_eq_some_iff.mp h
    have hsources := reads_names hsource (List.append_ne_nil_of_right_ne_nil _ hne)
    have hread := ((((((((opens_code (s := "SELECT * FROM (UNPIVOT (SELECT ") (by decide)).reads
      hsources).code (s := " FROM __input__) ON ") (by decide) (by decide)).reads
        (reads_names hcolumns hne)).code (s := " INTO NAME ") (by decide) (by decide)).reads
          (reads_column hvar)).code (s := " VALUE ") (by decide) (by decide)).reads
            (reads_column hvalue)).code (s := ")") (by decide) (by decide)
    rw [tokens_paren] at hread
    unfold unpivotTokens
    simpa using hread.close

/-! ### The finished query -/

def leftPlaceholder : Text := "\x7b__left__\x7d".toList

def rightPlaceholder : Text := "\x7b__right__\x7d".toList

/-- The key of a join contains no placeholder of a table, and the fraction of a sample is a
number. -/
def Plain : Step → Prop
  | .join step => occurs leftPlaceholder step.on = false ∧ occurs rightPlaceholder step.on = false
  | .sample step => step.fraction ≠ some .nan
  | _ => True

theorem executedSql_join (sql : Text) :
    executedSql ["__left__".toList, "__right__".toList] sql =
      replace rightPlaceholder "__right__".toList (replace leftPlaceholder "__left__".toList sql) :=
  rfl

/-- A placeholder occurs in the query of a join where it occurs in the key. -/
theorem occurs_join {step : JoinStepConfig} {sql part : Text} (h : buildJoinSql step = some sql)
    (hpart : '"' ∉ '\x7b' :: part) :
    occurs ('\x7b' :: part) sql = occurs ('\x7b' :: part) step.on := by
  obtain ⟨key, hkey, h⟩ := Option.bind_eq_some_iff.mp h
  obtain ⟨head, hhead, rfl⟩ := Option.map_eq_some_iff.mp h
  have hquote : Lib.Sql.quote '"' step.on ++ ")".toList =
      ['"'] ++ (replace ['"'] ['"', '"'] step.on ++ '"' :: ")".toList) := by
    simp [Lib.Sql.quote]
  have hend : occurs ('\x7b' :: part) ")".toList = false := by
    have hnil : occurs ('\x7b' :: part) (")".toList ++ []) = occurs ('\x7b' :: part) [] :=
      occurs_append_of_not_mem (by decide) []
    rw [List.append_nil] at hnil
    rw [hnil]
    rfl
  rw [quoteIdentifier_some hkey, List.append_assoc,
    occurs_append_of_not_mem (joinHead_closed hhead).2, hquote,
    occurs_append_of_not_mem (by decide), Lib.Sql.occurs_quoted hpart, hend, Bool.or_false]

theorem count_join {step : JoinStepConfig} {sql : Text} (h : buildJoinSql step = some sql) :
    sql.count '\x7b' = step.on.count '\x7b' := by
  obtain ⟨key, hkey, h⟩ := Option.bind_eq_some_iff.mp h
  obtain ⟨head, hhead, rfl⟩ := Option.map_eq_some_iff.mp h
  have hend : (")".toList).count '\x7b' = 0 := by decide
  rw [quoteIdentifier_some hkey, List.count_append, List.count_append,
    List.count_eq_zero.mpr (joinHead_closed hhead).2, Lib.Sql.count_quote (by decide), hend]
  omega

theorem count_joinTokens (step : JoinStepConfig) :
    step.on.count '\x7b' ≤ countTokens '\x7b' (joinTokens step) := by
  rw [joinTokens, countTokens_append, countTokens_cons, Token.content]
  omega

theorem join_safe_iff {step : JoinStepConfig} {sql : Text} (h : buildJoinSql step = some sql) :
    TokenSafe py (.join step) (executedSql (extraTables (.join step)) sql) ↔
      Plain (.join step) := by
  have hleft : occurs leftPlaceholder sql = occurs leftPlaceholder step.on :=
    occurs_join h (by decide)
  have hright : occurs rightPlaceholder sql = occurs rightPlaceholder step.on :=
    occurs_join h (by decide)
  have hbraces : '\x7b' ∈ leftPlaceholder ∧ '\x7b' ∈ rightPlaceholder ∧
      '\x7b' ∉ "__left__".toList ∧ '\x7b' ∉ "__right__".toList := by decide
  obtain ⟨hl, hr, hl', hr'⟩ := hbraces
  rw [extraTables, executedSql_join]
  constructor
  · rintro ⟨ts, rfl, hlex⟩
    -- a replacement takes a brace away that the key token is to have
    have hle := (count_joinTokens step).trans (count_lex '\x7b' hlex)
    rw [← count_join h] at hle
    have hlast (s : Text) : (replace rightPlaceholder "__right__".toList s).count '\x7b' ≤
        s.count '\x7b' := count_replace_le hr'
    have hnone : occurs leftPlaceholder sql = false := by
      by_contra hoccurs
      have hlt := count_replace_lt hl hl' (Bool.not_eq_false _ |>.mp hoccurs)
      have hmore := hlast (replace leftPlaceholder "__left__".toList sql)
      omega
    refine ⟨hleft ▸ hnone, ?_⟩
    rw [replace_of_not_occurs hnone] at hle
    rw [← hright]
    by_contra hoccurs
    have hlt := count_replace_lt hr hr' (Bool.not_eq_false _ |>.mp hoccurs)
    omega
  · rintro ⟨hl, hr⟩
    rw [← hleft] at hl
    rw [← hright] at hr
    rw [replace_of_not_occurs hl, replace_of_not_occurs hr]
    exact ⟨_, rfl, (reads_join h).ending⟩

theorem sample_safe_iff {percent : Rat → Numeral} {step : SampleStepConfig} {sql : Text}
    (h : buildSampleSql percent step = some sql) :
    TokenSafe py (.sample step) sql ↔ Plain (.sample step) := by
  obtain ⟨n, fraction, seed⟩ := step
  cases n with
  | some n =>
    cases fraction with
    | some fraction => cases h
    | none =>
      cases h
      exact iff_of_true
        ⟨_, rfl, (reads_sample (reads_numeral _) (by decide) (by decide) seed).ending⟩ nofun
  | none =>
    cases fraction with
    | none => cases h
    | some fraction =>
      have hsafe : ∀ size : Numeral, percentText percent fraction = size.text →
          TokenSafe py (.sample ⟨none, some fraction, seed⟩) sql := by
        intro size hsize
        cases h
        rw [hsize]
        exact ⟨_, ⟨size, rfl⟩,
          (reads_sample (reads_numeral size) (by decide) (by decide) seed).ending⟩
      cases fraction with
      | finite q => exact iff_of_true (hsafe _ rfl) nofun
      | infinite negative => exact iff_of_true (hsafe _ rfl) nofun
      | nan =>
        refine iff_of_false ?_ fun hplain => hplain rfl
        rintro ⟨ts, ⟨size, rfl⟩, hlex⟩
        -- where the number is to stand there is a word
        have hword : Reads "nan".toList [.word "nan".toList] := reads_code (by decide)
        have hmethod : separated "% (bernoulli" = true ∧ complete "% (bernoulli" = true := by decide
        have hread := (reads_sample hword hmethod.1 hmethod.2 seed).ending
        cases h
        rw [show percentText percent .nan = "nan".toList from rfl, hread, Option.some.injEq] at hlex
        have hcons := List.append_cancel_left (List.append_cancel_right hlex)
        cases (List.cons.inj hcons).1

/-- The query of a step is read as its skeleton, each column and value in its place as one token
that stands for it, exactly where no placeholder of a table occurs in the key of a join and no
fraction of a sample is NaN. -/
theorem injection_safe (py : Python) (percent : Rat → Numeral) (step : Step) (sql : Text)
    (hp : PrintsNumbers py) (h : stepSql py percent step = some sql) :
    TokenSafe py step sql ↔ Plain step := by
  obtain ⟨built, hbuilt, rfl⟩ := Option.map_eq_some_iff.mp h
  cases step with
  | filter step => exact iff_of_true ⟨_, rfl, (reads_filter hp hbuilt).ending⟩ trivial
  | select step => exact iff_of_true ⟨_, rfl, (reads_select hbuilt).ending⟩ trivial
  | sort step => exact iff_of_true ⟨_, rfl, (reads_sort hbuilt).ending⟩ trivial
  | aggregate step => exact iff_of_true ⟨_, rfl, (reads_aggregate hbuilt).ending⟩ trivial
  | join step => exact join_safe_iff hbuilt
  | deduplicate step => exact iff_of_true ⟨_, rfl, (reads_deduplicate hbuilt).ending⟩ trivial
  | sample step => exact sample_safe_iff hbuilt
  | fillNulls step => exact iff_of_true ⟨_, rfl, (reads_fillNulls hp hbuilt).ending⟩ trivial
  | pivot step => exact iff_of_true ⟨_, rfl, (reads_pivot hbuilt).ending⟩ trivial
  | unpivot step => exact iff_of_true ⟨_, rfl, (reads_unpivot hbuilt).ending⟩ trivial

/-- A printer of doubles for which one half is all there is. -/
def halfPython : Python := ⟨fun _ => "0.5".toList, fun _ => []⟩

/-- A fill of nulls for a column whose name holds a quote, a brace and a comment. -/
def halfStep : Step := .fillNulls
  { columns := ["a\"; -- \x7b__input__\x7d".toList]
    constantValue := some (.float (.finite (1 / 2))) }

theorem injection_safe_half : TokenSafe halfPython halfStep
    "SELECT * REPLACE (COALESCE(\"a\"\"; -- \x7b__input__\x7d\", 0.5) AS \"a\"\"; -- \x7b__input__\x7d\") FROM __input__".toList :=
  (injection_safe halfPython (fun _ => natural 0) halfStep _
    (fun _ => ⟨⟨"0.5".toList, by decide, by decide⟩, .inl rfl⟩) (by decide +kernel)).mpr trivial

/-- A key that holds the placeholder of the left table is renamed inside its own quotes. -/
theorem placeholder_key_renamed :
    let step := Step.join { on := "a\x7b__left__\x7d".toList }
    ∃ sql, stepSql halfPython (fun _ => natural 0) step = some sql ∧
      ¬ TokenSafe halfPython step sql := by
  refine ⟨_, rfl, fun hsafe => ?_⟩
  have hplain := (join_safe_iff rfl).mp hsafe
  exact absurd hplain.1 (by decide)

end PipelineIQ.Execution.Injection

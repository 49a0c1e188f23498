import NovaCore.Cdc.Replay
import NovaCore.Sql.Where
import Mathlib.Data.Fintype.EquivFin

/-!
# INSERT from the text to the rows

What an INSERT statement stands for, and what `Analyzer::resolve`, `exec_insert` and
`values_to_batch` make of it.  The statement gives each listed column a value and leaves the other
columns null.  The analyzer drops the column list, `values_to_batch` reads the literals by position,
and a literal that its column cannot take becomes a null, a zero or a text.

## Main definitions

* `parseSqlType` : `parse_sql_type`, and `ColumnSpec.columnDef` a column of CREATE TABLE.
* `SqlRules` : what SQL leaves to the dialect.
* `InsertMeans` : the rows that an INSERT stands for.
* `InsertRoundTrip` : the statement fails and stores nothing, or adds these rows.
* `InsertRefused`, `InsertKept` : the statements that always fail, and those whose literals arrive.

## Main results

* `exec_insert_rows` : the rows that an INSERT adds.
* `exists_exec_insert` : a statement that is not refused runs through in some store.
* `insert_round_trip_iff` : **when an INSERT is stored as it is written.**
-/

namespace NovaCore

open List RecordBatch World Cell

/-! ### CREATE TABLE -/

/-- `parse_sql_type`. -/
def parseSqlType (s : String) : NovaType :=
  let upper := s.toList.map Char.toUpper
  let startsWith := fun p : String => p.toList.isPrefixOf upper
  let equals := fun p : String => decide (upper = p.toList)
  if startsWith "INT" || equals "INTEGER" || startsWith "BIGINT" then .int64
  else if startsWith "SMALLINT" || startsWith "TINYINT" then .int32
  else if startsWith "FLOAT" || startsWith "DOUBLE" || startsWith "DECIMAL" ||
      startsWith "NUMERIC" then .float64
  else if startsWith "VARCHAR" || startsWith "CHAR" || equals "TEXT" || equals "STRING" then .utf8
  else if equals "BOOLEAN" || equals "BOOL" then .boolean
  else if startsWith "DATE" then .date32
  else if startsWith "TIMESTAMP" then .timestamp
  else .utf8

/-- A column type. -/
inductive ColumnType
  | bigint
  | int
  | smallint
  | tinyint
  | boolean
  | varchar (length : Option ℕ)
  | date
  deriving DecidableEq

/-- `c.data_type.to_string()`. -/
def ColumnType.text : ColumnType → String
  | bigint => "BIGINT"
  | int => "INT"
  | smallint => "SMALLINT"
  | tinyint => "TINYINT"
  | boolean => "BOOLEAN"
  | varchar none => "VARCHAR"
  | varchar (some n) => "VARCHAR(" ++ toString n ++ ")"
  | date => "DATE"

/-- A column of CREATE TABLE. -/
structure ColumnSpec where
  name : String
  type : ColumnType
  notNull : Bool
  deriving DecidableEq

/-- The column that `resolve` and `exec_create_table` make of it. -/
def ColumnSpec.columnDef (c : ColumnSpec) : ColumnDef :=
  ⟨c.name, parseSqlType c.type.text, !c.notNull⟩

/-! ### What an INSERT stands for -/

/-- What SQL leaves to the dialect. -/
structure SqlRules where
  /-- The integers that an INT column holds. -/
  intFits : ℤ → Bool
  /-- The date that a text names. -/
  date : String → Option SqlValue
  /-- The text that a VARCHAR column holds for a literal, if it holds one for it. -/
  text : Value → Option String
  text_string : ∀ s, text (.singleQuotedString s) = some s

variable (rules : SqlRules)

/-- The integers that a column of the type holds. -/
def ColumnType.FitsInt (v : ℤ) : ColumnType → Prop
  | bigint => IsI64 v
  | int => rules.intFits v = true
  | smallint => -2 ^ 15 ≤ v ∧ v < 2 ^ 15
  | tinyint => -2 ^ 7 ≤ v ∧ v < 2 ^ 7
  | _ => False

instance (rules : SqlRules) (v : ℤ) (t : ColumnType) : Decidable (t.FitsInt rules v) := by
  cases t <;> unfold ColumnType.FitsInt <;> infer_instance

/-- The text fits the length of a VARCHAR column. -/
def FitsLength (length : Option ℕ) (s : String) : Prop := ∀ n ∈ length, s.length ≤ n

instance (length : Option ℕ) (s : String) : Decidable (FitsLength length s) :=
  inferInstanceAs (Decidable (∀ n ∈ length, s.length ≤ n))

/-- The value that a column of the type holds for a literal, `none` if the literal does not fit. -/
def ColumnType.holds : ColumnType → Value → Option SqlValue
  | varchar length, v => ((rules.text v).filter fun s => decide (FitsLength length s)).map .text
  | boolean, .boolean b => some (.bool b)
  | date, .singleQuotedString s => rules.date s
  | t, .number n => if n.value.isInt ∧ t.FitsInt rules n.value.num then some (.num n.value) else
    none
  | _, _ => none

/-- The same for a column, which takes NULL unless it is declared NOT NULL; a column that gets no
literal holds NULL. -/
def ColumnSpec.holds (c : ColumnSpec) : Option Value → Option SqlValue
  | none | some .null => if c.notNull then none else some .null
  | some v => c.type.holds rules v

/-- The literal that an expression is. -/
def Expr.literal? : Expr → Option Value
  | .value v => some v
  | _ => none

/-- The literal at a position of a row of VALUES. -/
def literalAt (row : List Expr) (i : ℕ) : Option Value := row[i]?.bind Expr.literal?

variable (columns : List ColumnSpec)

/-- The positions of the columns that a column list names; without a list these are all columns.
Each name must stand for one column and may be listed once. -/
def written (listed : List String) : Option (List ℕ) :=
  if listed = [] then some (List.range columns.length)
  else if listed.Nodup ∧ ∀ name ∈ listed, columns.countP (fun c => c.name = name) = 1 then
    some (listed.map fun name => columns.findIdx fun c => c.name = name)
  else none

/-- The literal that a row gives to the column at position `i`, if the column is written at all. -/
def given (positions : List ℕ) (row : List Expr) (i : ℕ) : Option Value :=
  (positions.idxOf? i).bind (literalAt row)

/-- `full` is the table row that a row of VALUES stands for. -/
structure RowHolds (positions : List ℕ) (row : List Expr) (full : List SqlValue) : Prop where
  arity : row.length = positions.length
  values : List.Forall₂ (fun c x => ColumnSpec.holds rules c.1 (given positions row c.2) = some x)
    columns.zipIdx full

/-- The rows that an INSERT stands for; other sources than VALUES are not supported. -/
def InsertMeans (listed : List String) :
    Option InsertSource → List (List SqlValue) → Prop
  | some (.values rows), full => ∃ positions, written columns listed = some positions ∧
      List.Forall₂ (RowHolds rules columns positions) rows full
  | _, _ => False

/-- The rows of a table. -/
def World.tableRows (w : World) (t : TableId) : Multiset (List SqlValue) :=
  (rowsOf (w.contents t)).map fun row => row.map Cell.sqlValue

/-- **The statement fails and stores nothing, or the table gains the rows that the INSERT stands
for**, in every store in which its name leads to a table with these columns. -/
def InsertRoundTrip (pq : Parquet) (fmt : TextFormat) (columns : List ColumnSpec)
    (listed : List String) (source : Option InsertSource) (stmt : DmlStatement) : Prop :=
  ∀ w m w', w.WellFormed → stmt.target w.catalog = .ok m →
    m.columns = columns.map ColumnSpec.columnDef →
    (∀ e, Exec (Step pq) w (stmt.exec fmt).run (.error e) w' → ∀ t, w'.contents t = w.contents t) ∧
    ∀ q, Exec (Step pq) w (stmt.exec fmt).run (.ok q) w' →
      ∃ full, InsertMeans rules columns listed source full ∧
        w'.tableRows m.id = w.tableRows m.id + (full : Multiset (List SqlValue))

/-! ### When it arrives -/

/-- The rows of VALUES. -/
def insertRows : Option InsertSource → List (List Expr)
  | some (.values rows) => rows
  | _ => []

/-- The columns for which `values_to_batch` builds an array of another type than the schema has. -/
def ColumnType.Mistyped : ColumnType → Prop
  | smallint | tinyint | boolean | date => True
  | bigint | int | varchar _ => False

/-- `values_to_batch` does not store a null for the literal. -/
def ColumnType.Takes : ColumnType → Option Value → Prop
  | _, none | _, some .null => False
  | varchar _, some _ => True
  | _, some (.number n) => '.' ∉ n.text.toList
  | _, _ => False

/-- The statements that fail in every store. -/
inductive InsertRefused (columns : List ColumnSpec) (rows : List (List Expr)) : Prop
  | noRows (h : rows = [])
  /-- There are not enough change sequence numbers. -/
  | tooManyRows (h : u64Max ≤ rows.length)
  | noColumns (h : columns = [])
  | mistyped {c : ColumnSpec} (hc : c ∈ columns) (h : c.type.Mistyped)
  | notNull {row : List Expr} {c : ColumnSpec × ℕ} (hrow : row ∈ rows) (hc : c ∈ columns.zipIdx)
      (hnull : c.1.notNull = true) (h : ¬c.1.type.Takes (literalAt row c.2))

variable (fmt : TextFormat)

/-- The text that `values_to_batch` writes for a literal. -/
def Value.shown : Value → String
  | .number n =>
    if '.' ∈ n.text.toList then fmt.f64Display (F64.ofRat n.value)
    else toString ((parseI64 n.text).getD 0)
  | .singleQuotedString s => s
  | .boolean b => toString b
  | _ => ""

/-- The literal `found` at the position of a column stands there for the literal `given` that the
column should hold.  Where they are the same literal, this says that the column takes it as it
is. -/
inductive StandsFor (rules : SqlRules) (fmt : TextFormat) :
    ColumnType → Option Value → Option Value → Prop
  | null {t : ColumnType} {given found : Option Value} (hgiven : given = none ∨ given = some .null)
      (hfound : ¬t.Takes found) : StandsFor rules fmt t given found
  | integer {t : ColumnType} {n m : NumberLit} (hfits : t.FitsInt rules n.value.num)
      (hpoint : '.' ∉ m.text.toList) (hsame : n.value = (parseI64 m.text).getD 0) :
      StandsFor rules fmt t (some (.number n)) (some (.number m))
  | text {length : Option ℕ} {v u : Value} (hnull : v ≠ .null ∧ u ≠ .null)
      (hlength : FitsLength length (u.shown fmt)) (htext : rules.text v = some (u.shown fmt)) :
      StandsFor rules fmt (.varchar length) (some v) (some u)

/-- Row by row, up to the order of the rows, the literals read by position stand for the literals
that the column list assigns, and each row has as many literals as columns are listed. -/
def InsertKept (columns : List ColumnSpec)
    (listed : List String) (rows : List (List Expr)) : Prop :=
  ∃ positions, written columns listed = some positions ∧ ∃ stored, rows.Perm stored ∧
    List.Forall₂ (fun row row' => row.length = positions.length ∧ ∀ c ∈ columns.zipIdx,
      StandsFor rules fmt c.1.type (given positions row c.2) (literalAt row' c.2)) rows stored

/-! ### Literals in a column -/

theorem parseSqlType_varchar (length : Option ℕ) :
    parseSqlType (ColumnType.varchar length).text = .utf8 := by
  cases length with
  | none => decide
  | some n =>
    simp [parseSqlType, ColumnType.text, String.toList_append]

/-- The type that the columns of a table have. -/
theorem parseSqlType_text (t : ColumnType) : parseSqlType t.text = match t with
    | .bigint | .int => .int64
    | .smallint | .tinyint => .int32
    | .boolean => .boolean
    | .varchar _ => .utf8
    | .date => .date32 := by
  cases t with
  | varchar length => exact parseSqlType_varchar length
  | _ => decide

variable {fmt} {t : ColumnType} {found : Option Value} {vs : List ResolvedExpr} {row : List Expr}
  {batch : RecordBatch} {v : World}

theorem columnArray_eq_arrowType_iff :
    (columnArray fmt (parseSqlType t.text)).1 = arrowType (parseSqlType t.text) ↔ ¬t.Mistyped := by
  rw [parseSqlType_text]
  cases t <;> simp [columnArray, arrowType, ColumnType.Mistyped]

variable (fmt) in
/-- The value that `values_to_batch` stores for a literal. -/
def ColumnType.stored : ColumnType → Option Value → SqlValue
  | _, none | _, some .null => .null
  | varchar _, some v => .text (v.shown fmt)
  | _, some (.number n) =>
    if '.' ∈ n.text.toList then .null else .num (((parseI64 n.text).getD 0 : ℤ) : ℚ)
  | _, _ => .null

theorem sqlValue_columnArray (a : Analyzer) (ht : ¬t.Mistyped) {v : Value}
    {x : ResolvedExpr} (hx : a.resolveExpr (.value v) = .ok x) :
    ((columnArray fmt (parseSqlType t.text)).2 (some x)).sqlValue = t.stored fmt (some v) := by
  rw [parseSqlType_text]
  cases v with
  | number n =>
    cases hx
    unfold NumberLit.resolved
    cases t with
    | bigint | int | varchar length =>
      split_ifs with hpoint <;>
        simp [columnArray, ColumnType.stored, Value.shown, sqlValue, hpoint]
    | _ => exact (ht trivial).elim
  | other debug => cases hx
  | _ =>
    cases hx
    cases t with
    | bigint | int | varchar length => rfl
    | _ => exact (ht trivial).elim

theorem Cell.sqlValue_eq_null_iff {c : Cell} : c.sqlValue = .null ↔ c.isNull = true := by
  cases c with
  | int64 v valid | float64 v valid => cases valid <;> simp [sqlValue, isNull]
  | utf8 v | other t v => cases v <;> simp [sqlValue, isNull]

theorem ColumnType.stored_eq_null_iff (ht : ¬t.Mistyped) {p : Option Value} :
    t.stored fmt p = .null ↔ ¬t.Takes p := by
  cases p with
  | none => simp [stored, Takes]
  | some v =>
    cases t with
    | bigint | int | varchar length => cases v <;> simp [stored, Takes]
    | _ => exact (ht trivial).elim

/-- The integer columns that `values_to_batch` can fill. -/
def ColumnType.IsInteger (t : ColumnType) : Prop := t = bigint ∨ t = int

variable {rules : SqlRules}

theorem ColumnType.IsInteger.holds_number (ht : t.IsInteger) (n : NumberLit) :
    t.holds rules (.number n) =
      if n.value.isInt ∧ t.FitsInt rules n.value.num then some (.num n.value) else none := by
  rcases ht with rfl | rfl <;> rfl

theorem ColumnType.IsInteger.stored_number (ht : t.IsInteger) (m : NumberLit) :
    t.stored fmt (some (.number m)) =
      if '.' ∈ m.text.toList then .null else .num (((parseI64 m.text).getD 0 : ℤ) : ℚ) := by
  rcases ht with rfl | rfl <;> rfl

theorem ColumnType.IsInteger.holds_iff (ht : t.IsInteger) {v : Value} (hv : v ≠ .null) :
    t.holds rules v = some (t.stored fmt found) ↔ StandsFor rules fmt t (some v) found := by
  constructor
  · intro h
    cases v with
    | number n =>
      rw [ht.holds_number] at h
      split_ifs at h with hfits
      cases found with
      | none => rcases ht with rfl | rfl <;> cases h
      | some u =>
        cases u with
        | number m =>
          rw [ht.stored_number] at h
          split_ifs at h with hpoint
          · cases h
          · exact .integer hfits.2 hpoint (SqlValue.num.inj (Option.some.inj h))
        | _ => rcases ht with rfl | rfl <;> cases h
    | null => exact (hv rfl).elim
    | _ => rcases ht with rfl | rfl <;> cases h
  · intro h
    cases h with
    | null hgiven => simp [hv] at hgiven
    | @integer _ n m hfits hpoint hsame =>
      have hint : n.value.isInt = true := by rw [hsame]; rfl
      rw [ht.holds_number, ht.stored_number, if_pos ⟨hint, hfits⟩, if_neg hpoint, hsame]
    | text => rcases ht with ht | ht <;> cases ht

theorem ColumnType.holds_varchar_iff {length : Option ℕ} {v : Value} (hv : v ≠ .null) :
    (varchar length).holds rules v = some ((varchar length).stored fmt found) ↔
      StandsFor rules fmt (varchar length) (some v) found := by
  have hholds : (varchar length).holds rules v =
      ((rules.text v).filter fun s => decide (FitsLength length s)).map .text := by
    cases v <;> rfl
  rw [hholds, Option.map_eq_some_iff]
  simp only [Option.filter_eq_some_iff, decide_eq_true_eq]
  constructor
  · rintro ⟨s, ⟨hs, hfits⟩, hstored⟩
    cases found with
    | none => cases hstored
    | some u =>
      by_cases hu : u = .null
      · subst hu
        cases hstored
      · have hshown : (varchar length).stored fmt (some u) = .text (u.shown fmt) := by
          cases u with
          | null => exact (hu rfl).elim
          | _ => rfl
        rw [hshown] at hstored
        cases hstored
        exact .text ⟨hv, hu⟩ hfits hs
  · intro h
    cases h with
    | null hgiven => simp [hv] at hgiven
    | integer hfits => exact hfits.elim
    | @text _ _ u hnull hlength htext =>
      refine ⟨u.shown fmt, ⟨htext, hlength⟩, ?_⟩
      cases u with
      | null => exact (hnull.2 rfl).elim
      | _ => rfl

theorem StandsFor.not_takes {g : Option Value}
    (h : StandsFor rules fmt t g found) (hg : g = none ∨ g = some .null) : ¬t.Takes found := by
  cases h with
  | null _ hfound => exact hfound
  | integer => simp at hg
  | text hv => simp [hv.1] at hg

/-- **A column ends up with the value it should hold** exactly if the literal at its position stands
for the literal that it was given. -/
theorem ColumnSpec.holds_stored_iff {c : ColumnSpec}
    (hc : ¬c.type.Mistyped) {g : Option Value} (hnull : c.notNull = true → c.type.Takes found) :
    c.holds rules g = some (c.type.stored fmt found) ↔ StandsFor rules fmt c.type g found := by
  by_cases hg : g = none ∨ g = some .null
  · have hholds : c.holds rules g = if c.notNull then none else some .null := by
      rcases hg with rfl | rfl <;> rfl
    rw [hholds]
    constructor
    · intro h
      split_ifs at h
      exact .null hg ((ColumnType.stored_eq_null_iff hc).1 (Option.some.inj h).symm)
    · intro h
      have hfound : ¬c.type.Takes found := h.not_takes hg
      rw [if_neg fun hn => hfound (hnull hn), (ColumnType.stored_eq_null_iff hc).2 hfound]
  · obtain ⟨v, rfl⟩ := Option.ne_none_iff_exists'.1 fun h => hg (.inl h)
    have hv : v ≠ .null := fun h => hg (.inr (congrArg some h))
    have hholds : c.holds rules (some v) = c.type.holds rules v := by
      cases v with
      | null => exact (hv rfl).elim
      | _ => rfl
    rw [hholds]
    cases ht : c.type with
    | bigint => exact ColumnType.IsInteger.holds_iff (.inl rfl) hv
    | int => exact ColumnType.IsInteger.holds_iff (.inr rfl) hv
    | varchar length => exact ColumnType.holds_varchar_iff hv
    | _ =>
      rw [ht] at hc
      exact (hc trivial).elim

/-! ### The batch of an INSERT -/

/-- `resolve` accepts the rows of VALUES as `values`. -/
def ResolvesTo (a : Analyzer) (rows : List (List Expr)) (values : List (List ResolvedExpr)) :
    Prop :=
  List.Forall₂ (List.Forall₂ fun e x => a.resolveExpr e = .ok x) rows values

theorem Analyzer.resolve_insert {a : Analyzer} {tableName listed : List String}
    {source : Option InsertSource} {stmt : DmlStatement}
    (h : a.resolve (.insert tableName listed source) = .ok (.dml stmt)) :
    ∃ table values, stmt = .insert a.defaultDb a.defaultSchema table values ∧
      ResolvesTo a (insertRows source) values := by
  obtain ⟨d, hd, hstmt⟩ := except_map_eq_ok.1 h
  cases hstmt
  unfold resolveInsert at hd
  dsimp only at hd
  split at hd
  · next table _ =>
    cases source with
    | none =>
      cases hd
      exact ⟨table, [], rfl, .nil⟩
    | some src =>
      cases src with
      | values rows =>
        obtain ⟨_, ⟨⟩, hrows⟩ := except_bind_eq_ok.1 hd
        obtain ⟨values, hvalues, hret⟩ := except_bind_eq_ok.1 hrows
        cases hret
        exact ⟨table, values, rfl,
          (mapM_eq_ok_iff.1 hvalues).imp fun row vs hrow => mapM_eq_ok_iff.1 hrow⟩
      | query =>
        cases hd
        exact ⟨table, [], rfl, .nil⟩
  · cases hd

/-- The literal at a position and the value it was resolved to. -/
theorem literalAt_cases {a : Analyzer}
    (h : List.Forall₂ (fun e x => a.resolveExpr e = .ok x) row vs) (i : ℕ) :
    (literalAt row i = none ∧ vs[i]? = none) ∨ ∃ v x, literalAt row i = some v ∧
      vs[i]? = some x ∧ a.resolveExpr (.value v) = .ok x := by
  induction h generalizing i with
  | nil => exact .inl ⟨rfl, rfl⟩
  | @cons e x row vs he _ ih =>
    cases i with
    | zero =>
      have hliteral := a.exists_resolveExpr_iff.1 ⟨x, he⟩
      cases e with
      | value v => exact .inr ⟨v, x, rfl, rfl, he⟩
      | _ => exact hliteral.elim
    | succ i => simpa [literalAt] using ih i

variable (fmt) in
/-- The slot of a column in the row that `values_to_batch` builds. -/
def slot (vs : List ResolvedExpr) (c : ColumnSpec × ℕ) : Cell :=
  (columnArray fmt (parseSqlType c.1.type.text)).2 vs[c.2]?

theorem sqlValue_slot {a : Analyzer}
    (h : List.Forall₂ (fun e x => a.resolveExpr e = .ok x) row vs) {c : ColumnSpec × ℕ}
    (hc : ¬c.1.type.Mistyped) :
    (slot fmt vs c).sqlValue = c.1.type.stored fmt (literalAt row c.2) := by
  unfold slot
  rcases literalAt_cases h c.2 with ⟨hrow, hvs⟩ | ⟨v, x, hrow, hvs, hx⟩
  · rw [hrow, hvs, parseSqlType_text]
    cases ht : c.1.type with
    | bigint | int | varchar length => rfl
    | _ =>
      rw [ht] at hc
      exact (hc trivial).elim
  · rw [hrow, hvs, sqlValue_columnArray a hc hx]

theorem rowFits_map_iff {α : Type} {l : List α} {f : α → Field} {g : α → Cell} :
    rowFits (l.map f) (l.map g) = true ↔ ∀ x ∈ l, (f x).accepts (g x) = true := by
  induction l with
  | nil => simp [rowFits]
  | cons x l ih => simp [rowFits, ih]

theorem dataType_columnArray (t : NovaType) (x : Option ResolvedExpr) :
    ((columnArray fmt t).2 x).dataType = (columnArray fmt t).1 := by
  cases t <;> rcases x with _ | (_ | _ | _ | _ | _) <;> rfl

variable (fmt) in
/-- The table row that `values_to_batch` makes of a row of VALUES. -/
def storedRow (columns : List ColumnSpec) (row : List Expr) : List SqlValue :=
  columns.zipIdx.map fun c => c.1.type.stored fmt (literalAt row c.2)

/-- The literals that `values_to_batch` can turn into a batch of the table. -/
structure Batched (columns : List ColumnSpec) (rows : List (List Expr)) : Prop where
  columns_ne_nil : columns ≠ []
  typed : ∀ c ∈ columns, ¬c.type.Mistyped
  takes : ∀ row ∈ rows, ∀ c ∈ columns.zipIdx, c.1.notNull = true →
    c.1.type.Takes (literalAt row c.2)

section Batch

variable {a : Analyzer} {fmt : TextFormat} {columns : List ColumnSpec} {rows : List (List Expr)}
  {values : List (List ResolvedExpr)} {m : TableMeta}

theorem valuesToBatch_created_iff (hm : m.columns = columns.map ColumnSpec.columnDef) :
    valuesToBatch fmt m values = .ok batch ↔
      (∀ c ∈ columns, ¬c.type.Mistyped) ∧ tryNew (columns.zipIdx.map fun c =>
          ⟨c.1.name, arrowType (parseSqlType c.1.type.text), !c.1.notNull⟩)
        (values.map fun vs => columns.zipIdx.map (slot fmt vs)) = .ok batch := by
  have hall : (m.columns.all fun c => (columnArray fmt c.dataType).1 = arrowType c.dataType) =
      true ↔ ∀ c ∈ columns, ¬c.type.Mistyped := by
    simp only [hm, all_eq_true, forall_mem_map, decide_eq_true_eq]
    exact forall₂_congr fun c _ => columnArray_eq_arrowType_iff
  have hschema : (m.columns.map fun c => Field.mk c.name (arrowType c.dataType) c.nullable) =
      columns.zipIdx.map fun c =>
        ⟨c.1.name, arrowType (parseSqlType c.1.type.text), !c.1.notNull⟩ := by
    rw [hm, map_map, ← zipIdx_map_fst 0 columns, map_map, zipIdx_map_fst]
    rfl
  have hrow : ∀ vs : List ResolvedExpr,
      (m.columns.zipIdx.map fun c => (columnArray fmt c.1.dataType).2 vs[c.2]?) =
        columns.zipIdx.map (slot fmt vs) := by
    intro vs
    rw [hm, zipIdx_map, map_map]
    rfl
  unfold valuesToBatch
  simp only [hschema, hrow]
  split_ifs with h
  · exact (and_iff_right (hall.1 h)).symm
  · simp [mt hall.2 h]

theorem accepts_slot_iff {c : ColumnSpec × ℕ}
    (h : List.Forall₂ (fun e x => a.resolveExpr e = .ok x) row vs) (hc : ¬c.1.type.Mistyped) :
    Field.accepts ⟨c.1.name, arrowType (parseSqlType c.1.type.text), !c.1.notNull⟩
        (slot fmt vs c) = true ↔
      (c.1.notNull = true → c.1.type.Takes (literalAt row c.2)) := by
  have htype : (slot fmt vs c).dataType = arrowType (parseSqlType c.1.type.text) :=
    (dataType_columnArray ..).trans (columnArray_eq_arrowType_iff.2 hc)
  have hnull : (slot fmt vs c).isNull = true ↔ ¬c.1.type.Takes (literalAt row c.2) := by
    rw [← sqlValue_eq_null_iff, sqlValue_slot h hc, ColumnType.stored_eq_null_iff hc]
  unfold Field.accepts
  cases hn : c.1.notNull with
  | false => simp [htype]
  | true =>
    simp only [htype, decide_true, Bool.not_true, Bool.false_or, Bool.true_and, forall_const]
    rw [Bool.not_eq_true', ← Bool.not_eq_true, hnull, not_not]

theorem exists_tryNew_iff {schema : List Field} {cells : List (List Cell)} :
    (∃ batch, tryNew schema cells = .ok batch) ↔
      schema ≠ [] ∧ ∀ row ∈ cells, rowFits schema row = true := by
  unfold tryNew
  split_ifs with hs hr
  · simp [hs]
  · simpa [hs] using hr
  · simp [hs, hr]

/-- **The batch of an INSERT.** -/
theorem valuesToBatch_spec (fmt : TextFormat) (hm : m.columns = columns.map ColumnSpec.columnDef)
    (hv : ResolvesTo a rows values) :
    ((∃ batch, valuesToBatch fmt m values = .ok batch) ↔ Batched columns rows) ∧
      ∀ batch, valuesToBatch fmt m values = .ok batch →
        (batch.rows.map fun row => row.map sqlValue) = rows.map (storedRow fmt columns) := by
  simp only [valuesToBatch_created_iff hm, exists_and_left, exists_tryNew_iff]
  constructor
  · constructor
    · rintro ⟨htyped, hne, hfits⟩
      refine ⟨by simpa using hne, htyped, fun row hrow c hc => ?_⟩
      obtain ⟨vs, hvs, hrvs⟩ := forall₂_exists_left (List.Forall₂.flip hv) hrow
      have hc' := htyped c.1 (fst_mem_of_mem_zipIdx hc)
      exact (accepts_slot_iff hrvs hc').1 (rowFits_map_iff.1 (hfits _ (mem_map_of_mem hvs)) c hc)
    · intro h
      refine ⟨h.typed, by simpa using h.columns_ne_nil, fun cells hcells => ?_⟩
      obtain ⟨vs, hvs, rfl⟩ := mem_map.1 hcells
      obtain ⟨row, hrow, hrvs⟩ := forall₂_exists_left hv hvs
      exact rowFits_map_iff.2 fun c hc =>
        (accepts_slot_iff hrvs (h.typed c.1 (fst_mem_of_mem_zipIdx hc))).2 (h.takes row hrow c hc)
  · rintro batch ⟨htyped, hbatch⟩
    rw [(tryNew_eq_ok hbatch).2]
    clear hbatch
    induction hv with
    | nil => rfl
    | @cons row vs rows values hrow _ ih =>
      rw [map_cons, map_cons]
      congr 1
      rw [map_map]
      exact map_congr_left fun c hc => sqlValue_slot hrow (htyped c.1 (fst_mem_of_mem_zipIdx hc))

end Batch

/-! ### Execution -/

section Exec

variable {pq : Parquet} {fmt : TextFormat} {w w' : World} {db schema table : String}
  {values : List (List ResolvedExpr)} {q : QueryResult}

theorem Cell.sqlValue_logical (c : Cell) : c.logical.sqlValue = c.sqlValue := by
  cases c with
  | int64 v valid | float64 v valid => cases valid <;> rfl
  | utf8 v | other t v => rfl

/-- **An INSERT that succeeds adds its batch.** -/
theorem exec_insert_rows {m : TableMeta} (hw : w.WellFormed)
    (he : Ends (Step pq) w (execInsert fmt db schema table values) q w')
    (hm : w.catalog.findTable db schema table = .ok m)
    (hbatch : valuesToBatch fmt m values = .ok batch) :
    w'.tableRows m.id = w.tableRows m.id +
      (batch.rows.map fun row => row.map sqlValue : List (List SqlValue)) := by
  obtain ⟨h, hr⟩ := he.exists_run
  have halone : RunsAlone pq fmt w (.insert db schema table values) w' := ⟨h, _, hr, rfl, rfl⟩
  obtain ⟨-, -, m', hm', hcontents⟩ := exec_alone hw halone
  obtain rfl : m' = m := ok_unique hm' hm
  have htxn : (DmlStatement.insert db schema table values).txn pq fmt w.catalog m'.id =
      .add (pq.mp [batch]) := by
    simp [DmlStatement.txn, hm, insertedContents, hbatch]
  have hrows : rowsOf {pq.mp [batch]} = (batch.logicalRows : Multiset (List Cell)) := by
    simp [rowsOf, pq.mp_rows]
  unfold tableRows
  rw [hcontents, htxn, Txn.apply, rowsOf, Multiset.add_bind, Multiset.map_add]
  refine congrArg₂ (· + ·) rfl ?_
  change Multiset.map _ (rowsOf {pq.mp [batch]}) = _
  rw [hrows, Multiset.map_coe, logicalRows]
  simp [Function.comp_def, sqlValue_logical]

/-- A store that holds one empty table. -/
def tableStore (db schema : String) (m : TableMeta) : World :=
  { oneTable with
    catalog := { oneTable.catalog with
      databases := (∅ : OMap DatabaseMeta).insert 1 ⟨1, db⟩
      schemas := fun _ => (∅ : OMap SchemaMeta).insert 1 ⟨1, 1, schema⟩
      tables := fun _ _ => (∅ : OMap TableMeta).insert 1 m } }

theorem tableStore_wellFormed (db schema : String) (m : TableMeta) :
    (tableStore db schema m).WellFormed where
  __ := oneTable_wellFormed

theorem findTable_tableStore (db schema : String) (m : TableMeta) :
    (tableStore db schema m).catalog.findTable db schema m.name = .ok m := by
  have hdbs : (tableStore db schema m).catalog.listDatabases = [⟨1, db⟩] := rfl
  have hschemas : (tableStore db schema m).catalog.listSchemas 1 = [⟨1, 1, schema⟩] := rfl
  have htables : (tableStore db schema m).catalog.listTables 1 1 = [m] := rfl
  refine except_bind_eq_ok.2 ⟨⟨1, db⟩, ?_, except_bind_eq_ok.2 ⟨⟨1, 1, schema⟩, ?_, ?_⟩⟩
  · simp [Catalog.findDatabase, hdbs]
  · simp [Catalog.findSchemaMeta, hschemas]
  · simp [htables]

theorem exists_buildInsertCdcBatch (m : TableMeta) (batch : RecordBatch) (start : ℕ)
    (h : start + batch.numRows ≤ u64Max) (txnId : TxnId) (ts : Timestamp) (mpId : MpId) :
    ∃ cdc, buildInsertCdcBatch m batch start txnId ts mpId = .ok cdc := by
  obtain ⟨seqs, hseqs⟩ : ∃ seqs, rowSequences start batch.numRows = .ok seqs := by
    refine exists_mapM_eq_ok_iff.2 fun i hi => ⟨_, checkedAdd_eq_ok.2 ⟨?_, rfl⟩⟩
    have := mem_range.1 hi
    omega
  have hlen : seqs.length = batch.rows.length := by
    rw [rowSequences_eq_ok hseqs, length_range']
    rfl
  unfold buildInsertCdcBatch buildCdcBatchForRows
  rw [if_neg (by simp), hseqs]
  refine ⟨⟨batch, _, ?_⟩, dif_pos ?_⟩ <;> simp [hlen, numRows]

/-- An operation that nothing hinders. -/
theorem exec_await_of_perform {o : Op} {x : o.Ret} {v' : World} (c : Choice) (hc : c.failure = none)
    (h : o.perform pq c v = some (.ok x, v')) :
    Ends (Step pq) v (await o) x v' :=
  execE_call_iff.2 ⟨c, by rw [Op.apply, hc]; exact h⟩

theorem exists_exec_allocate (pq : Parquet) {t : TableId} (h : v.allocated t < u64Max) (count : ℕ) :
    ∃ v', Ends (Step pq) v (await (.allocateTableChangeSequences t count))
      (v.allocated t + 1) v' ∧ v'.txns = v.txns := by
  have hfirst : checkedAdd (v.allocated t) 1 = .ok (v.allocated t + 1) :=
    checkedAdd_eq_ok.2 ⟨h, rfl⟩
  refine ⟨{ v with
    changeNextSeq := Function.update v.changeNextSeq t (some (satAdd (v.allocated t) count)) },
    exec_await_of_perform {} rfl ?_, rfl⟩
  simp [Op.perform, allocateTableChangeSequences, hfirst]

theorem exists_exec_writePayload {pq : Parquet} {t : TableId} {txnId : TxnId} {start : ℕ}
    {cdc : CdcBatch} (hpos : cdc.numRows ≠ 0) (hmax : start + cdc.numRows ≤ u64Max) (v : World) :
    ∃ payload v', Ends (Step pq) v (writePayload t txnId start cdc) payload v' ∧
      v'.txns = v.txns := by
  unfold writePayload
  rw [if_neg hpos]
  exact ⟨_, _, execE_liftExcept_bind_iff.2 ⟨_, checkedAdd_eq_ok.2 ⟨hmax, rfl⟩, execE_bind_iff.2
    ⟨(), _, exec_await_of_perform {} rfl rfl, execE_pure_iff.2 ⟨rfl, rfl⟩⟩⟩, rfl⟩

theorem World.exists_commitTxn {txnId : TxnId} (h : v.txns txnId ≠ none) (now : Timestamp) :
    ∃ v', v.commitTxn txnId now = .ok v' := by
  obtain ⟨txn, htxn⟩ := Option.ne_none_iff_exists'.1 h
  unfold commitTxn
  rw [htxn]
  split_ifs
  · exact ⟨_, rfl⟩
  · exact ⟨_, rfl⟩

theorem exists_exec_commit (pq : Parquet) {txnId : TxnId} (h : v.txns txnId ≠ none)
    (mp : MicroPartitionMeta) (change : ChangeRecordMeta) :
    ∃ v', Ends (Step pq) v (await (.commitTableCdc txnId [mp] [] [change])) () v' := by
  obtain ⟨v', hv'⟩ := exists_commitTxn
    (v := (([change].foldl setChangeRecord (v.insertMp mp)).publish [change])) h 0
  have hcommit : v.commitTableCdc 0 txnId [mp] [] [change] = .ok v' := hv'
  exact ⟨v', exec_await_of_perform {} rfl (by simp [Op.perform, hcommit])⟩

theorem exists_exec_begin (pq : Parquet) (v : World) : ∃ txnId v',
    Ends (Step pq) v beginTransaction txnId v' ∧ v'.txns txnId ≠ none ∧
      v'.allocated = v.allocated := by
  refine ⟨v.nextTxn + 1, _, execE_bind_iff.2 ⟨_, _, exec_await_of_perform {} rfl rfl,
    execE_bind_iff.2 ⟨_, _, exec_await_of_perform {} rfl rfl, execE_bind_iff.2
      ⟨_, _, exec_await_of_perform {} rfl rfl, execE_pure_iff.2 ⟨rfl, rfl⟩⟩⟩⟩, ?_, rfl⟩
  simp

theorem exists_execE_bind {α β : Type} {p : Nova α} {f : α → Nova β} {v1 : World} {x : α}
    (hp : Ends (Step pq) v p x v1) (hf : ∃ y v', Ends (Step pq) v1 (f x) y v') :
    ∃ y v', Ends (Step pq) v (p >>= f) y v' := by
  obtain ⟨y, v', hf⟩ := hf
  exact ⟨y, v', execE_bind_iff.2 ⟨x, v1, hp, hf⟩⟩

/-- **An INSERT that is not refused runs through** if no operation fails and there are sequence
numbers left. -/
theorem exists_exec_insert (pq : Parquet) {m : TableMeta}
    (hm : w.catalog.findTable db schema table = .ok m)
    (hbatch : valuesToBatch fmt m values = .ok batch) (hne : values ≠ [])
    (hmax : w.allocated m.id + values.length < u64Max) : ∃ q w',
      Ends (Step pq) w (execInsert fmt db schema table values) q w' := by
  have hrows := valuesToBatch_numRows hbatch
  obtain ⟨id, hid⟩ := Infinite.exists_notMem_finset w.issued.toFinset
  -- the identifier, the version and the transaction
  obtain ⟨v1, hv1, ha1⟩ : ∃ v1, Ends (Step pq) w (await .generateId) id v1 ∧
      v1.allocated = w.allocated :=
    ⟨{ w with issued := id :: w.issued },
      exec_await_of_perform { id } rfl (if_neg (by simpa using hid)), rfl⟩
  obtain ⟨version, v2, hv2, ha2⟩ : ∃ version v2, Ends (Step pq) v1
      (await (.incrementTableVersion m.id)) version v2 ∧ v2.allocated = v1.allocated :=
    ⟨_, _, exec_await_of_perform {} rfl rfl, rfl⟩
  obtain ⟨txnId, v3, hv3, htxn, ha3⟩ := exists_exec_begin pq v2
  -- the file and the sequence numbers
  obtain ⟨mp, v4, hv4, ha4, ht4⟩ : ∃ mp v4, Ends (Step pq) v3
      (MpWriter.write m.id id version [batch] txnId) mp v4 ∧
      v4.allocated = v3.allocated ∧ v4.txns = v3.txns :=
    ⟨_, _, execE_bind_iff.2 ⟨_, _, exec_await_of_perform {} rfl rfl,
      execE_pure_iff.2 ⟨rfl, rfl⟩⟩, rfl, rfl⟩
  have halloc : v4.allocated m.id = w.allocated m.id := by rw [ha4, ha3, ha2, ha1]
  obtain ⟨v5, hv5, ht5⟩ := exists_exec_allocate pq (v := v4) (t := m.id) (by omega) values.length
  rw [halloc] at hv5
  -- the change rows and the commit
  obtain ⟨cdc, hcdc⟩ := exists_buildInsertCdcBatch m batch (w.allocated m.id + 1)
    (by omega) txnId 0 id
  have hcount : cdc.numRows = values.length :=
    (CdcBatch.numRows_eq_of_sequences (buildCdcBatchForRows_eq_ok hcdc).2).trans hrows
  have hpos : cdc.numRows ≠ 0 := by
    rw [hcount]
    exact fun h => hne (length_eq_zero_iff.1 h)
  have hlast : w.allocated m.id + 1 + cdc.numRows ≤ u64Max := by omega
  obtain ⟨payload, v6, hv6, ht6⟩ := exists_exec_writePayload hpos hlast v5
  have htxn6 : v6.txns txnId ≠ none := by rwa [ht6, ht5, ht4]
  obtain ⟨v7, hv7⟩ := exists_exec_commit pq htxn6 (mp.committed 0 none)
    ⟨m.id, w.allocated m.id + 1, txnId, 0, payload, ⟨values.length, 0, 0⟩,
      some ⟨m.id, id, 0, 0⟩, some ⟨m.id, id, values.length - 1, 0⟩⟩
  have hfind : Ends (Step pq) w (await (.findTable db schema table)) m w :=
    exec_await_of_perform {} rfl (by rw [Op.perform, hm])
  refine exists_execE_bind hfind (exists_execE_bind (execE_liftExcept_iff.2 ⟨hbatch, rfl⟩) ?_)
  refine exists_execE_bind hv1 (exists_execE_bind hv2 (exists_execE_bind hv3 ?_))
  refine exists_execE_bind (exec_await_of_perform {} rfl rfl) (exists_execE_bind hv4 ?_)
  refine exists_execE_bind hv5 (exists_execE_bind (execE_liftExcept_iff.2 ⟨hcdc, rfl⟩) ?_)
  refine exists_execE_bind (execE_bind_iff.2 ⟨_, _, hv6, execE_pure_iff.2 ⟨rfl, rfl⟩⟩) ?_
  exact exists_execE_bind hv7 ⟨_, _, execE_pure_iff.2 ⟨rfl, rfl⟩⟩

end Exec

/-! ### The round trip -/

section RoundTrip

variable {rules : SqlRules} {fmt : TextFormat} {columns : List ColumnSpec} {listed : List String}
  {rows : List (List Expr)}

theorem rowHolds_storedRow_iff (hb : Batched columns rows) {positions : List ℕ} {row' : List Expr}
    (hrow' : row' ∈ rows) :
    RowHolds rules columns positions row (storedRow fmt columns row') ↔
      row.length = positions.length ∧ ∀ c ∈ columns.zipIdx,
        StandsFor rules fmt c.1.type (given positions row c.2) (literalAt row' c.2) := by
  have hvalues : List.Forall₂ (fun c x =>
        ColumnSpec.holds rules c.1 (given positions row c.2) = some x) columns.zipIdx
        (storedRow fmt columns row') ↔ ∀ c ∈ columns.zipIdx,
          StandsFor rules fmt c.1.type (given positions row c.2) (literalAt row' c.2) := by
    rw [storedRow, forall₂_map_right_iff, forall₂_same]
    exact forall₂_congr fun c hc => ColumnSpec.holds_stored_iff
      (hb.typed c.1 (fst_mem_of_mem_zipIdx hc)) (hb.takes row' hrow' c hc)
  exact ⟨fun h => ⟨h.arity, hvalues.1 h.values⟩, fun h => ⟨h.1, hvalues.2 h.2⟩⟩

/-- Up to their order, the rows that `values_to_batch` builds are those the statement stands for
exactly if its literals arrive. -/
theorem insertMeans_stored_iff (hb : Batched columns rows) :
    (∃ full, InsertMeans rules columns listed (some (.values rows)) full ∧
      ((rows.map (storedRow fmt columns) : List (List SqlValue)) : Multiset (List SqlValue)) =
        full) ↔ InsertKept rules fmt columns listed rows := by
  constructor
  · rintro ⟨full, ⟨positions, hpositions, hfull⟩, heq⟩
    -- the rows as they have to be permuted
    have hmap : List.Forall₂ (fun x row => x = storedRow fmt columns row)
        (rows.map (storedRow fmt columns)) rows :=
      forall₂_map_left_iff.2 (forall₂_same.2 fun _ _ => rfl)
    obtain ⟨stored, hstored, hperm⟩ := perm_comp_forall₂ (Multiset.coe_eq_coe.1 heq).symm hmap
    obtain rfl : full = stored.map (storedRow fmt columns) := by
      rw [← forall₂_eq_eq_eq, forall₂_map_right_iff]
      exact hstored
    refine ⟨positions, hpositions, stored, hperm.symm, ?_⟩
    exact forall₂_imp_of_mem (forall₂_map_right_iff.1 hfull) fun row row' hrow' h =>
      (rowHolds_storedRow_iff hb (hperm.mem_iff.1 hrow')).1 h
  · rintro ⟨positions, hpositions, stored, hperm, hstored⟩
    refine ⟨stored.map (storedRow fmt columns), ⟨positions, hpositions, ?_⟩,
      Multiset.coe_eq_coe.2 (hperm.map _)⟩
    rw [forall₂_map_right_iff]
    exact forall₂_imp_of_mem hstored fun row row' hrow' h =>
      (rowHolds_storedRow_iff hb (hperm.mem_iff.2 hrow')).2 h

theorem insertRefused_iff : ¬InsertRefused columns rows ↔
    Batched columns rows ∧ rows ≠ [] ∧ rows.length < u64Max := by
  constructor
  · intro h
    refine ⟨⟨fun hc => h (.noColumns hc), fun c hc ht => h (.mistyped hc ht), ?_⟩,
      fun hr => h (.noRows hr), ?_⟩
    · intro row hrow c hc hnull
      by_contra htakes
      exact h (.notNull hrow hc hnull htakes)
    · by_contra hlt
      exact h (.tooManyRows (not_lt.1 hlt))
  · rintro ⟨hb, hne, hlt⟩ h
    cases h with
    | noRows h => exact hne h
    | tooManyRows h => exact absurd hlt (not_lt.2 h)
    | noColumns h => exact hb.columns_ne_nil h
    | mistyped hc h => exact hb.typed _ hc h
    | notNull hrow hc hnull h => exact h (hb.takes _ hrow _ hc hnull)

theorem exists_values_of_insertRows {source : Option InsertSource} (h : insertRows source ≠ []) :
    ∃ rows, source = some (.values rows) := by
  match source with
  | some (.values rows) => exact ⟨rows, rfl⟩
  | some .query | none => exact (h rfl).elim

/-- **An INSERT is stored as it is written if and only if it always fails, or its literals
arrive.** -/
theorem insert_round_trip_iff {a : Analyzer} {pq : Parquet} {tableName : List String}
    {source : Option InsertSource} {stmt : DmlStatement}
    (hres : a.resolve (.insert tableName listed source) = .ok (.dml stmt)) :
    InsertRoundTrip rules pq fmt columns listed source stmt ↔
      InsertRefused columns (insertRows source) ∨
        InsertKept rules fmt columns listed (insertRows source) := by
  obtain ⟨table, values, rfl, hv⟩ := Analyzer.resolve_insert hres
  have hlen : (insertRows source).length = values.length := hv.length_eq
  have hnil : insertRows source = [] ↔ values = [] := by
    rw [← length_eq_zero_iff, hlen, length_eq_zero_iff]
  constructor
  · intro h
    by_cases hrefused : InsertRefused columns (insertRows source)
    · exact .inl hrefused
    · obtain ⟨hb, hne, hlt⟩ := insertRefused_iff.1 hrefused
      -- run the statement in a store that holds only its table
      let m : TableMeta := ⟨1, 1, 1, table, columns.map ColumnSpec.columnDef⟩
      obtain ⟨hiff, hcells⟩ := valuesToBatch_spec fmt (m := m) rfl hv
      obtain ⟨batch, hbatch⟩ := hiff.2 hb
      have hm := findTable_tableStore a.defaultDb a.defaultSchema m
      have hw := tableStore_wellFormed a.defaultDb a.defaultSchema m
      have hroom : (tableStore a.defaultDb a.defaultSchema m).allocated m.id + values.length <
          u64Max := by
        rw [← hlen]
        simpa [tableStore, oneTable, allocated, tableChangeSequence] using hlt
      obtain ⟨q, w', he⟩ := exists_exec_insert pq hm hbatch (mt hnil.2 hne) hroom
      obtain ⟨full, hmeans, hrows⟩ := (h _ m w' hw hm rfl).2 q he
      rw [exec_insert_rows hw he hm hbatch, hcells batch hbatch] at hrows
      obtain ⟨rows, rfl⟩ := exists_values_of_insertRows hne
      exact .inr ((insertMeans_stored_iff hb).1 ⟨full, hmeans, add_left_cancel hrows⟩)
  · intro h w m w' hw hm hcolumns
    refine ⟨fun e he => ?_, fun q he => ?_⟩
    · obtain ⟨h, hr⟩ := he.exists_run
      exact contents_of_failed hw hr rfl
    obtain ⟨m', batch, _, _, _, _, hm', hbatch, -, -, hne, hlt⟩ := exec_insert he
    obtain rfl : m' = m := ok_unique hm' hm
    obtain ⟨hiff, hcells⟩ := valuesToBatch_spec fmt hcolumns hv
    have hb := hiff.1 ⟨batch, hbatch⟩
    have hkept := h.resolve_left
      (insertRefused_iff.2 ⟨hb, mt hnil.1 hne, hlen.trans_lt hlt⟩)
    obtain ⟨rows, rfl⟩ := exists_values_of_insertRows (mt hnil.1 hne)
    obtain ⟨full, hmeans, heq⟩ := (insertMeans_stored_iff hb).2 hkept
    exact ⟨full, hmeans, by rw [exec_insert_rows hw he hm hbatch, hcells batch hbatch, ← heq]⟩

end RoundTrip

/-! ### Two statements -/

/-- INT has 32 bits and only texts are texts. -/
def sampleRules : SqlRules where
  intFits v := decide (-2 ^ 31 ≤ v ∧ v < 2 ^ 31)
  date _ := none
  text
    | .singleQuotedString s => some s
    | _ => none
  text_string _ := rfl

/-- `CREATE TABLE t (a BIGINT, b BIGINT)`. -/
def twoColumns : List ColumnSpec := [⟨"a", .bigint, false⟩, ⟨"b", .bigint, false⟩]

/-- The number literals as a row of VALUES. -/
def literalRow (ns : List NumberLit) : List Expr := ns.map fun n => .value (.number n)

/-- `INSERT INTO t (listed) VALUES (ns)`. -/
def insertValues (listed : List String) (ns : List NumberLit) : SqlStatement :=
  .insert ["t"] listed (some (.values [literalRow ns]))

/-- `INSERT INTO t (a) VALUES (1)` is stored as it is written. -/
theorem insert_round_trip_first_column :
    sampleAnalyzer.resolve (insertValues ["a"] [litOne]) =
      .ok (.dml (.insert "d" "s" "t" [[.int64 1]])) ∧
    InsertRoundTrip sampleRules .verbatim plainText twoColumns ["a"]
      (some (.values [literalRow [litOne]])) (.insert "d" "s" "t" [[.int64 1]]) := by
  have hres : sampleAnalyzer.resolve (insertValues ["a"] [litOne]) =
      .ok (.dml (.insert "d" "s" "t" [[.int64 1]])) := by
    have hone : litOne.resolved = .int64 1 := by decide +kernel
    change Except.ok (ResolvedStatement.dml (.insert "d" "s" "t" [[litOne.resolved]])) = _
    rw [hone]
  refine ⟨hres, (insert_round_trip_iff hres).2 (.inr ⟨[0], by decide, _, .refl _, ?_⟩)⟩
  refine .cons ⟨rfl, fun c hc => ?_⟩ .nil
  have hone : parseI64 litOne.text = some 1 := by decide +kernel
  obtain rfl | rfl : c = (⟨"a", .bigint, false⟩, 0) ∨ c = (⟨"b", .bigint, false⟩, 1) := by
    simpa [twoColumns] using hc
  · obtain ⟨hvalue, hpoint⟩ := litOne.value_of_parseI64 hone
    refine .integer ?_ hpoint (by rw [hvalue]; rfl)
    rw [hvalue]
    decide
  · exact .null (.inl rfl) id

theorem litOne_value : litOne.value = 1 := by
  simpa using (litOne.value_of_parseI64 (v := 1) (by decide +kernel)).1

theorem litTwo_value : litTwo.value = 2 := by
  simpa using (litTwo.value_of_parseI64 (v := 2) (by decide +kernel)).1

/-- The table of `twoColumns`. -/
def twoColumnTable : TableMeta := ⟨1, 1, 1, "t", twoColumns.map ColumnSpec.columnDef⟩

/-- `INSERT INTO t (b, a) VALUES (1, 2)` stores 1 in `a` and 2 in `b`. -/
theorem insert_columns_swapped :
    sampleAnalyzer.resolve (insertValues ["b", "a"] [litOne, litTwo]) =
      .ok (.dml (.insert "d" "s" "t" [[.int64 1, .int64 2]])) ∧
    (∃ q w', Exec (Step .verbatim) (tableStore "d" "s" twoColumnTable)
        (execInsert plainText "d" "s" "t" [[.int64 1, .int64 2]]).run (.ok q) w' ∧
      w'.tableRows 1 = {[.num 1, .num 2]}) ∧
    (∀ full, InsertMeans sampleRules twoColumns ["b", "a"]
      (some (.values [literalRow [litOne, litTwo]])) full → full = [[.num 2, .num 1]]) ∧
    ¬InsertRoundTrip sampleRules .verbatim plainText twoColumns ["b", "a"]
      (some (.values [literalRow [litOne, litTwo]]))
      (.insert "d" "s" "t" [[.int64 1, .int64 2]]) := by
  have hm : (tableStore "d" "s" twoColumnTable).catalog.findTable "d" "s" "t" =
      .ok twoColumnTable := findTable_tableStore "d" "s" twoColumnTable
  have hw := tableStore_wellFormed "d" "s" twoColumnTable
  obtain ⟨batch, hbatch, hcells⟩ : ∃ batch, valuesToBatch plainText twoColumnTable
      [[.int64 1, .int64 2]] = .ok batch ∧ batch.rows = [[.int64 1 true, .int64 2 true]] :=
    ⟨_, rfl, rfl⟩
  have hroom : (tableStore "d" "s" twoColumnTable).allocated 1 + 1 < u64Max := by decide
  obtain ⟨q, w', he⟩ := exists_exec_insert .verbatim hm hbatch (by simp) hroom
  have hempty : (tableStore "d" "s" twoColumnTable).tableRows 1 = 0 := by decide +kernel
  have hstored : w'.tableRows 1 = {[.num 1, .num 2]} := by
    refine (exec_insert_rows hw he hm hbatch).trans ?_
    rw [hcells]
    exact (congrArg (· + _) hempty).trans (zero_add _)
  have hmeans : ∀ full, InsertMeans sampleRules twoColumns ["b", "a"]
      (some (.values [literalRow [litOne, litTwo]])) full → full = [[.num 2, .num 1]] := by
    rintro full ⟨positions, hpositions, hfull⟩
    have hwritten : written twoColumns ["b", "a"] = some [1, 0] := by decide
    obtain rfl : [1, 0] = positions := Option.mem_unique hwritten hpositions
    obtain _ | ⟨⟨-, _ | ⟨ha, _ | ⟨hb, ⟨⟩⟩⟩⟩, ⟨⟩⟩ := hfull
    have htwo : ColumnType.bigint.holds sampleRules (.number litTwo) = some (.num 2) := by
      rw [ColumnType.IsInteger.holds_number (.inl rfl), litTwo_value]
      decide
    have hone : ColumnType.bigint.holds sampleRules (.number litOne) = some (.num 1) := by
      rw [ColumnType.IsInteger.holds_number (.inl rfl), litOne_value]
      decide
    cases htwo.symm.trans ha
    cases hone.symm.trans hb
    rfl
  refine ⟨?_, ⟨q, w', he, hstored⟩, hmeans, fun h => ?_⟩
  · have hone : litOne.resolved = .int64 1 := by decide +kernel
    have htwo : litTwo.resolved = .int64 2 := by decide +kernel
    change Except.ok (ResolvedStatement.dml
      (.insert "d" "s" "t" [[litOne.resolved, litTwo.resolved]])) = _
    rw [hone, htwo]
  · obtain ⟨full, hfull, heq⟩ := (h _ twoColumnTable w' hw hm rfl).2 q he
    have hrows : w'.tableRows 1 = {[.num 2, .num 1]} := by
      refine heq.trans ?_
      rw [hmeans full hfull]
      exact (congrArg (· + _) hempty).trans (zero_add _)
    rw [hstored] at hrows
    exact absurd (Multiset.singleton_inj.1 hrows) (by decide)

end NovaCore

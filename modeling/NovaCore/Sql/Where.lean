import NovaCore.Sql.Analyzer
import Mathlib.Data.List.TakeWhile

/-!
# WHERE clauses of UPDATE and DELETE

A resolved filter compares a column with a literal.  A WHERE clause of another form is resolved to
no filter at all, and `exec_update` and `exec_delete` then take every row of the table; a number
literal may be resolved to another number.

## Main definitions

* `FilterMeans` : a filter that is true on the same rows as a WHERE clause.
* `Value.Kept` : resolving the literal changes no comparison with a 64-bit integer.

## Main results

* `NumberLit.kept_of_parseI64` : integers of 64 bits are resolved to themselves.
* `where_resolved_iff` : **when a WHERE clause is resolved to a filter that means the same.**
-/

namespace NovaCore

open SqlValue List Option

/-! ### Rows and filters -/

/-- The value of a slot. -/
def Cell.sqlValue : Cell → SqlValue
  | .int64 v valid => if valid then .num v else .null
  | .float64 v valid => if valid then .float v else .null
  | .utf8 v => v.elim .null .text
  | .other _ v => v.elim .null .text

/-- The value of a literal after resolution. -/
def ResolvedExpr.sqlValue : ResolvedExpr → SqlValue
  | .int64 v => .num v
  | .float64 v => .float v
  | .string s => .text s
  | .boolean b => .bool b
  | .null => .null

variable (schema : List Field)

/-- The value of a column in a row; a column that the table does not have is null. -/
def columnValue (row : List Cell) (name : String) : SqlValue :=
  match schema.findIdx? fun f => f.name = name with
  | some i => row[i]?.elim .null Cell.sqlValue
  | none => .null

/-- The filter is true, as a comparison in three-valued logic. -/
def ResolvedFilter.IsTrue (f : ResolvedFilter) (column : String → SqlValue) : Prop :=
  compare f.op (column f.column) f.value.sqlValue = some true

/-- The schema of a table over nullable Int64 and Utf8 columns. -/
def IntTextTable : Prop :=
  ∀ f ∈ schema, f.nullable = true ∧ (f.dataType = .int64 ∨ f.dataType = .utf8)

/-- A row of a table: the integers have 64 bits. -/
def RowOf (row : List Cell) : Prop :=
  rowFits schema row = true ∧ ∀ v valid, Cell.int64 v valid ∈ row → IsI64 v

/-- In every row of every table, the filter is true exactly when the WHERE clause is. -/
def FilterMeans (other : String → SqlValue) (w : Expr) (f : ResolvedFilter) : Prop :=
  ∀ schema row, IntTextTable schema → RowOf schema row →
    (f.IsTrue (columnValue schema row) ↔ w.IsTrue (columnValue schema row) other)

/-! ### Statements -/

/-- The WHERE clause of an UPDATE or DELETE. -/
def SqlStatement.selection? : SqlStatement → Option Expr
  | .update _ _ selection => selection
  | .delete _ selection => selection
  | _ => none

/-- The filter of a resolved UPDATE or DELETE. -/
def ResolvedStatement.filter? : ResolvedStatement → Option ResolvedFilter
  | .dml (.update _ _ _ _ filter) => filter
  | .dml (.delete _ _ _ filter) => filter
  | _ => none

variable (a : Analyzer)

/-- The WHERE clause of the statement means what it says after resolution. -/
def Analyzer.WhereResolved (other : String → SqlValue) (stmt : SqlStatement) (w : Expr) : Prop :=
  (∃ e, a.resolve stmt = .error e) ∨
    ∃ resolved f, a.resolve stmt = .ok resolved ∧ resolved.filter? = some f ∧ FilterMeans other w f

/-- The expression is a literal that `resolve_expr` knows. -/
def Expr.IsLiteral : Expr → Prop
  | .value (.other _) => False
  | .value _ => True
  | _ => False

/-- The table is named. -/
def TableFactor.IsTable : TableFactor → Prop
  | .table _ => True
  | _ => False

/-- The statement is not one that the analyzer supports, apart from its WHERE clause. -/
def SqlStatement.Unsupported : SqlStatement → Prop
  | .update table assignments _ => ¬table.IsTable ∨ ∃ x ∈ assignments, ¬x.2.IsLiteral
  | .delete tables _ => ∀ table, tables.head? = some table → ¬table.IsTable
  | _ => True

/-- No 64-bit integer compares differently with the literal and with what it is resolved to. -/
def Value.Kept (op : CmpOp) : Value → Prop
  | .number n => ∀ x, IsI64 x →
    (compare op (.num x) n.resolved.sqlValue = some true ↔
      compare op (.num x) (.num n.value) = some true)
  | .singleQuotedString _ => True
  | .boolean _ => True
  | .null => True
  | .other _ => False

/-- The clause compares a column with a literal, and resolving the literal changes nothing. -/
def Expr.IsKeptComparison : Expr → Prop
  | .binaryOp (.identifier _) op (.value v) => ∃ cmp, op.cmp? = some cmp ∧ v.Kept cmp
  | _ => False

/-! ### Comparisons -/

variable {op : BinaryOperator} {cmp : CmpOp} {v : Value} {value : ResolvedExpr}

theorem ofTruth_eq_true_iff {t : Option Bool} : ofTruth t = .bool true ↔ t = some true := by
  cases t <;> simp [ofTruth]

theorem isTrue_comparison_iff (h : op.cmp? = some cmp) {column other : String → SqlValue}
    {name : String} :
    (Expr.binaryOp (.identifier name) op (.value v)).IsTrue column other ↔
      compare cmp (column name) (v.sqlValue other) = some true := by
  unfold Expr.IsTrue Expr.eval
  have happly : ∀ x y, op.apply other x y = ofTruth (compare cmp x y) := by
    cases op <;> cases h <;> exact fun _ _ => rfl
  rw [happly, ofTruth_eq_true_iff]
  rfl

theorem compare_null (op : CmpOp) (y : SqlValue) : compare op .null y = none := by
  cases y <;> rfl

/-- A slot of such a table holds nothing, a 64-bit integer or a text. -/
theorem columnValue_cases {schema : List Field} {row : List Cell} (hs : IntTextTable schema)
    (hrow : RowOf schema row) (name : String) :
    columnValue schema row name = .null ∨ (∃ x, IsI64 x ∧ columnValue schema row name = .num x) ∨
      ∃ s, columnValue schema row name = .text s := by
  unfold columnValue
  split
  · next i hi =>
    obtain ⟨hlt, -⟩ := findIdx?_eq_some_iff_getElem.1 hi
    have hf : schema[i]? = some schema[i] := getElem?_eq_getElem hlt
    cases hc : row[i]? with
    | none => exact .inl rfl
    | some c =>
      have haccepts := Bool.and_eq_true_iff.1 (accepts_of_rowFits hrow.1 hf hc)
      have htype : c.dataType = schema[i].dataType := of_decide_eq_true haccepts.1
      have hcolumn := (hs _ (getElem_mem hlt)).2
      cases c with
      | int64 v valid =>
        cases valid with
        | false => exact .inl rfl
        | true => exact .inr (.inl ⟨v, hrow.2 v true (mem_of_getElem? hc), rfl⟩)
      | utf8 v => cases v with
        | none => exact .inl rfl
        | some s => exact .inr (.inr ⟨s, rfl⟩)
      | float64 v valid => simp [← htype, Cell.dataType] at hcolumn
      | other t v =>
        -- a slot of another kind that has the type of the column
        cases v with
        | none => exact .inl rfl
        | some s => exact .inr (.inr ⟨s, rfl⟩)
  · exact .inl rfl

variable (n : NumberLit)

theorem NumberLit.resolved_sqlValue :
    (∃ v, n.resolved.sqlValue = .num v) ∨ ∃ v, n.resolved.sqlValue = .float v := by
  unfold resolved
  split_ifs
  · exact .inr ⟨_, rfl⟩
  · exact .inl ⟨_, rfl⟩

/-- A literal is kept if no value of a column compares differently. -/
theorem Value.kept_iff (cmp : CmpOp) (hv : a.resolveExpr (.value v) = .ok value)
    (other : String → SqlValue) :
    v.Kept cmp ↔ ∀ x, IsI64 x → (compare cmp (.num x) value.sqlValue = some true ↔
      compare cmp (.num x) (v.sqlValue other) = some true) := by
  cases v with
  | number n =>
    cases hv
    rfl
  | singleQuotedString | boolean | null =>
    cases hv
    exact ⟨fun _ _ _ => Iff.rfl, fun _ => trivial⟩
  | other debug => cases hv

/-- Texts compare with a literal as with what it is resolved to. -/
theorem compare_text_resolved (cmp : CmpOp)
    (hv : a.resolveExpr (.value v) = .ok value) (other : String → SqlValue) (s : String) :
    compare cmp (.text s) value.sqlValue = compare cmp (.text s) (v.sqlValue other) := by
  cases v with
  | number n =>
    cases hv
    obtain ⟨x, hx⟩ | ⟨x, hx⟩ := n.resolved_sqlValue <;> rw [hx] <;> rfl
  | singleQuotedString s | boolean b | null => cases hv; rfl
  | other debug => cases hv

/-- **A filter that compares with the resolved literal** means the clause exactly if the literal is
kept. -/
theorem filterMeans_iff {name : String} (hop : op.cmp? = some cmp)
    (hv : a.resolveExpr (.value v) = .ok value) (other : String → SqlValue) :
    FilterMeans other (.binaryOp (.identifier name) op (.value v)) ⟨name, cmp, value⟩ ↔
      v.Kept cmp := by
  rw [Value.kept_iff a cmp hv other]
  constructor
  · -- the table with one integer column
    intro hmeans x hx
    have hrow : RowOf [⟨name, .int64, true⟩] [.int64 x true] := by
      refine ⟨by simp [rowFits, Field.accepts, Cell.dataType], fun v valid hmem => ?_⟩
      cases mem_singleton.1 hmem
      exact hx
    have htable : IntTextTable [⟨name, .int64, true⟩] := by
      intro f hf
      cases mem_singleton.1 hf
      exact ⟨rfl, .inl rfl⟩
    have hcolumn : columnValue [⟨name, .int64, true⟩] [.int64 x true] name = .num x := by
      simp [columnValue, Cell.sqlValue]
    have hiff := hmeans _ _ htable hrow
    rwa [ResolvedFilter.IsTrue, isTrue_comparison_iff hop, hcolumn] at hiff
  · intro hkept schema row hs hrow
    rw [ResolvedFilter.IsTrue, isTrue_comparison_iff hop]
    rcases columnValue_cases hs hrow name with hnull | ⟨x, hx, hnum⟩ | ⟨s, htext⟩
    · rw [hnull, compare_null, compare_null]
    · rw [hnum]
      exact hkept x hx
    · rw [htext, compare_text_resolved a cmp hv other]

/-! ### Integers -/

theorem isDigit_of_parseDigits {cs : List Char} {m : ℕ} (h : parseDigits cs = some m) :
    ∀ c ∈ cs, c.isDigit = true := by
  unfold parseDigits at h
  split_ifs at h
  generalize 0 = n at h
  clear * - h
  induction cs generalizing n with
  | nil => simp
  | cons c cs ih =>
    rw [foldlM_cons] at h
    obtain ⟨n', hn', hrest⟩ := bind_eq_some_iff.1 h
    split_ifs at hn' with hc
    exact forall_mem_cons.2 ⟨hc, ih n' hrest⟩

/-- A text of digits is a decimal without a fraction or an exponent. -/
theorem parseDecimal_of_parseDigits {text : String} {m : ℕ}
    (h : parseDigits text.toList = some m) : parseDecimal text = some m := by
  have hdigits := isDigit_of_parseDigits h
  have hmantissa : ∀ c ∈ text.toList, (c ≠ 'e' && c ≠ 'E') = true := by
    intro c hc
    have hd := hdigits c hc
    by_contra hne
    obtain rfl | rfl : c = 'e' ∨ c = 'E' := by simpa [-not_and, not_and_or] using hne
    · cases hd
    · cases hd
  have hwhole : ∀ c ∈ text.toList, decide (c ≠ '.') = true := by
    intro c hc
    refine decide_eq_true ?_
    rintro rfl
    cases hdigits _ hc
  unfold parseDecimal
  simp only [takeWhile_eq_self_iff.2 hmantissa, takeWhile_eq_self_iff.2 hwhole,
    dropWhile_eq_nil_iff.2 hmantissa, dropWhile_eq_nil_iff.2 hwhole, drop_nil,
    append_nil, h]
  simp

theorem parseDigits_cons_of_not_isDigit {c : Char} (hc : c.isDigit = false) (cs : List Char) :
    parseDigits (c :: cs) = none := by
  rw [parseDigits, foldlM_cons, hc]
  rfl

/-- A sign does not belong to a literal. -/
theorem parseDecimal_of_sign {text : String} {c : Char} {cs : List Char}
    (ht : text.toList = c :: cs) (hc : c = '-' ∨ c = '+') : parseDecimal text = none := by
  unfold parseDecimal
  rcases hc with rfl | rfl <;> simp [ht, parseDigits_cons_of_not_isDigit]

theorem NumberLit.value_of_parseI64 {v : ℤ} (h : parseI64 n.text = some v) :
    n.value = v ∧ '.' ∉ n.text.toList := by
  obtain ⟨hint, -⟩ := filter_eq_some_iff.1 h
  have hvalid := n.valid
  unfold parseInt at hint
  split at hint
  · next cs ht =>
    rw [parseDecimal_of_sign ht (.inl rfl)] at hvalid
    cases hvalid
  · next cs ht =>
    rw [parseDecimal_of_sign ht (.inr rfl)] at hvalid
    cases hvalid
  · obtain ⟨m, hm, rfl⟩ := map_eq_some_iff.1 hint
    refine ⟨?_, fun hpoint => ?_⟩
    · simp [value, parseDecimal_of_parseDigits hm]
    · cases isDigit_of_parseDigits hm _ hpoint

/-- An integer of 64 bits is resolved to itself. -/
theorem NumberLit.kept_of_parseI64 {v : ℤ} (h : parseI64 n.text = some v)
    (op : CmpOp) : (Value.number n).Kept op := by
  obtain ⟨hvalue, hpoint⟩ := n.value_of_parseI64 h
  intro x _
  rw [hvalue, resolved, if_neg hpoint, h]
  rfl

/-! ### Resolution -/

theorem Analyzer.exists_resolveExpr_iff {e : Expr} :
    (∃ v, a.resolveExpr e = .ok v) ↔ e.IsLiteral := by
  cases e with
  | value v => cases v <;> simp [resolveExpr, Expr.IsLiteral]
  | _ => simp [resolveExpr, Expr.IsLiteral]

theorem Analyzer.exists_plainTable_iff {message : String} {table : TableFactor} :
    (∃ name, plainTable message table = .ok name) ↔ table.IsTable := by
  cases table <;> simp [plainTable, TableFactor.IsTable]

theorem Analyzer.exists_resolveAssignment_iff {x : AssignmentTarget × Expr} :
    (∃ y, a.resolveAssignment x = .ok y) ↔ x.2.IsLiteral := by
  rw [← a.exists_resolveExpr_iff]
  simp only [resolveAssignment, except_bind_eq_ok]
  constructor
  · rintro ⟨y, v, hv, -⟩
    exact ⟨v, hv⟩
  · rintro ⟨v, hv⟩
    exact ⟨_, v, hv, rfl⟩

theorem Analyzer.resolve_update_iff {table : TableFactor}
    {assignments : List (AssignmentTarget × Expr)} {selection : Option Expr}
    {resolved : ResolvedStatement} :
    a.resolve (.update table assignments selection) = .ok resolved ↔ ∃ name values,
      plainTable "unsupported table in UPDATE" table = .ok name ∧
      assignments.mapM a.resolveAssignment = .ok values ∧
      resolved = .dml (.update a.defaultDb a.defaultSchema name values
        (selection.bind a.resolveFilter)) := by
  simp only [resolve, resolveUpdate, except_map_eq_ok, except_bind_eq_ok]
  constructor
  · rintro ⟨_, ⟨name, hname, values, hvalues, hret⟩, rfl⟩
    cases hret
    exact ⟨name, values, hname, hvalues, rfl⟩
  · rintro ⟨name, values, hname, hvalues, rfl⟩
    exact ⟨_, ⟨name, hname, values, hvalues, rfl⟩, rfl⟩

theorem Analyzer.resolve_delete_iff {tables : List TableFactor}
    {selection : Option Expr} {resolved : ResolvedStatement} :
    a.resolve (.delete tables selection) = .ok resolved ↔ ∃ table name,
      tables.head? = some table ∧ plainTable "unsupported table in DELETE" table = .ok name ∧
      resolved = .dml (.delete a.defaultDb a.defaultSchema name
        (selection.bind a.resolveFilter)) := by
  cases tables with
  | nil => simp [resolve, resolveDelete, Except.map, bind, Except.bind]
  | cons table tables =>
    simp only [resolve, resolveDelete, except_map_eq_ok, except_bind_eq_ok]
    constructor
    · rintro ⟨_, ⟨_, hrel, name, hname, hret⟩, rfl⟩
      cases hrel
      cases hret
      exact ⟨table, name, rfl, hname, rfl⟩
    · rintro ⟨_, name, hhead, hname, rfl⟩
      cases hhead
      exact ⟨_, ⟨table, rfl, name, hname, rfl⟩, rfl⟩

theorem Analyzer.exists_resolve_update_iff {table : TableFactor}
    {assignments : List (AssignmentTarget × Expr)} {selection : Option Expr} :
    (∃ resolved, a.resolve (.update table assignments selection) = .ok resolved) ↔
      ¬(SqlStatement.update table assignments selection).Unsupported := by
  have hvalues : (∃ values, assignments.mapM a.resolveAssignment = .ok values) ↔
      ∀ x ∈ assignments, x.2.IsLiteral := by
    simp only [exists_mapM_eq_ok_iff, exists_resolveAssignment_iff]
  have htable : (∃ name, plainTable "unsupported table in UPDATE" table = .ok name) ↔
    table.IsTable := exists_plainTable_iff
  simp only [resolve_update_iff, SqlStatement.Unsupported, not_or, not_not, not_exists, not_and]
  rw [← htable, ← hvalues]
  constructor
  · rintro ⟨_, name, values, hname, hvals, -⟩
    exact ⟨⟨name, hname⟩, values, hvals⟩
  · rintro ⟨⟨name, hname⟩, values, hvals⟩
    exact ⟨_, name, values, hname, hvals, rfl⟩

theorem Analyzer.exists_resolve_delete_iff {tables : List TableFactor} {selection : Option Expr} :
    (∃ resolved, a.resolve (.delete tables selection) = .ok resolved) ↔
      ¬(SqlStatement.delete tables selection).Unsupported := by
  simp only [resolve_delete_iff, SqlStatement.Unsupported, not_forall, not_not]
  constructor
  · rintro ⟨_, table, name, hhead, hname, -⟩
    exact ⟨table, hhead, exists_plainTable_iff.1 ⟨name, hname⟩⟩
  · rintro ⟨table, hhead, htable⟩
    obtain ⟨name, hname⟩ := exists_plainTable_iff.2 htable
    exact ⟨_, table, name, hhead, hname, rfl⟩

/-- What an UPDATE or DELETE is resolved to has the filter of its WHERE clause, and it is resolved
if it is supported. -/
theorem Analyzer.resolve_spec {stmt : SqlStatement} {w : Expr} (hw : stmt.selection? = some w) :
    ((∃ resolved, a.resolve stmt = .ok resolved) ↔ ¬stmt.Unsupported) ∧
      ∀ resolved, a.resolve stmt = .ok resolved → resolved.filter? = a.resolveFilter w := by
  cases stmt with
  | update table assignments selection =>
    cases hw
    refine ⟨a.exists_resolve_update_iff, fun resolved hr => ?_⟩
    obtain ⟨name, values, -, -, rfl⟩ := a.resolve_update_iff.1 hr
    rfl
  | delete tables selection =>
    cases hw
    refine ⟨a.exists_resolve_delete_iff, fun resolved hr => ?_⟩
    obtain ⟨table, name, -, -, rfl⟩ := a.resolve_delete_iff.1 hr
    rfl
  | insert tableName columns source | select projection tables | queryOther => cases hw

theorem Analyzer.resolveFilter_eq_some_iff {w : Expr} {f : ResolvedFilter} :
    a.resolveFilter w = some f ↔ ∃ name op v cmp value,
      w = .binaryOp (.identifier name) op (.value v) ∧ op.cmp? = some cmp ∧
        a.resolveExpr (.value v) = .ok value ∧ f = ⟨name, cmp, value⟩ := by
  constructor
  · intro h
    unfold resolveFilter at h
    split at h
    · next name op right =>
      obtain ⟨value, hvalue, hrest⟩ := bind_eq_some_iff.1 h
      obtain ⟨cmp, hcmp, hret⟩ := bind_eq_some_iff.1 hrest
      have hok : a.resolveExpr right = .ok value := by
        cases hr : a.resolveExpr right with
        | ok v => rw [hr] at hvalue; exact congrArg Except.ok (some.inj hvalue)
        | error e => rw [hr] at hvalue; cases hvalue
      have hliteral := a.exists_resolveExpr_iff.1 ⟨value, hok⟩
      cases right with
      | value v =>
        cases hret
        exact ⟨name, op, v, cmp, value, rfl, hcmp, hok, rfl⟩
      | _ => exact hliteral.elim
    · cases h
  · rintro ⟨name, op, v, cmp, value, rfl, hcmp, hvalue, rfl⟩
    simp [resolveFilter, hvalue, hcmp, Except.toOption]

theorem Expr.isKeptComparison_iff {w : Expr} : w.IsKeptComparison ↔ ∃ name op v cmp,
    w = .binaryOp (.identifier name) op (.value v) ∧ op.cmp? = some cmp ∧ v.Kept cmp := by
  constructor
  · intro h
    unfold IsKeptComparison at h
    split at h
    · next name op v =>
      obtain ⟨cmp, hcmp, hv⟩ := h
      exact ⟨name, op, v, cmp, rfl, hcmp, hv⟩
    · exact h.elim
  · rintro ⟨name, op, v, cmp, rfl, hcmp, hv⟩
    exact ⟨cmp, hcmp, hv⟩

theorem Value.Kept.isLiteral (hv : v.Kept cmp) : (Expr.value v).IsLiteral := by
  cases v with
  | other debug => exact hv.elim
  | _ => trivial

/-- **A WHERE clause is resolved to a filter that means the same if and only if the statement is
rejected anyway, or the clause compares a column with a literal that is kept.** -/
theorem where_resolved_iff (a : Analyzer) (other : String → SqlValue) {stmt : SqlStatement}
    {w : Expr} (hw : stmt.selection? = some w) :
    a.WhereResolved other stmt w ↔ stmt.Unsupported ∨ w.IsKeptComparison := by
  obtain ⟨hok, hfilter⟩ := a.resolve_spec hw
  unfold Analyzer.WhereResolved
  rw [exists_error_iff, hok, not_not]
  constructor
  · rintro (hunsupported | ⟨resolved, f, hresolved, hf, hmeans⟩)
    · exact .inl hunsupported
    · rw [hfilter resolved hresolved] at hf
      obtain ⟨name, op, v, cmp, value, rfl, hcmp, hvalue, rfl⟩ := a.resolveFilter_eq_some_iff.1 hf
      exact .inr ⟨cmp, hcmp, (filterMeans_iff a hcmp hvalue other).1 hmeans⟩
  · rintro (hunsupported | hkept)
    · exact .inl hunsupported
    · by_cases hunsupported : stmt.Unsupported
      · exact .inl hunsupported
      · obtain ⟨resolved, hresolved⟩ := hok.2 hunsupported
        obtain ⟨name, op, v, cmp, rfl, hcmp, hv⟩ := Expr.isKeptComparison_iff.1 hkept
        obtain ⟨value, hvalue⟩ := a.exists_resolveExpr_iff.2 hv.isLiteral
        refine .inr ⟨resolved, ⟨name, cmp, value⟩, hresolved, ?_,
          (filterMeans_iff a hcmp hvalue other).2 hv⟩
        rw [hfilter resolved hresolved]
        exact a.resolveFilter_eq_some_iff.2 ⟨name, op, v, cmp, value, rfl, hcmp, hvalue, rfl⟩

/-! ### Two DELETEs -/

/-- An analyzer for schema `d.s`. -/
def sampleAnalyzer : Analyzer where
  defaultDb := "d"
  defaultSchema := "s"
  debugValue := fun _ => ""
  debugExpr := fun _ => ""

/-- The literals 1 and 2. -/
def litOne : NumberLit := ⟨"1", rfl⟩

/-- See `litOne`. -/
def litTwo : NumberLit := ⟨"2", rfl⟩

/-- The expression `column = n`. -/
def columnEq (column : String) (n : NumberLit) : Expr :=
  .binaryOp (.identifier column) .eq (.value (.number n))

/-- `DELETE FROM t WHERE w`. -/
def deleteWhere (w : Expr) : SqlStatement := .delete [.table ["t"]] (some w)

/-- `WHERE a = 1` is resolved to what it means. -/
theorem where_resolved_columnEq :
    (deleteWhere (columnEq "a" litOne)).selection? = some (columnEq "a" litOne) ∧
    sampleAnalyzer.WhereResolved (fun _ => .null) (deleteWhere (columnEq "a" litOne))
      (columnEq "a" litOne) := by
  have hone : parseI64 litOne.text = some 1 := by decide +kernel
  exact ⟨rfl, (where_resolved_iff sampleAnalyzer _ rfl).2
    (.inr ⟨.eq, rfl, litOne.kept_of_parseI64 hone _⟩)⟩

/-- `DELETE FROM t WHERE a = 1 AND b = 2` is resolved to `DELETE FROM t`. -/
theorem where_and_dropped :
    sampleAnalyzer.resolve
      (deleteWhere (.binaryOp (columnEq "a" litOne) .and (columnEq "b" litTwo))) =
      .ok (.dml (.delete "d" "s" "t" none)) ∧
    ¬sampleAnalyzer.WhereResolved (fun _ => .null)
      (deleteWhere (.binaryOp (columnEq "a" litOne) .and (columnEq "b" litTwo)))
      (.binaryOp (columnEq "a" litOne) .and (columnEq "b" litTwo)) := by
  refine ⟨rfl, ?_⟩
  rintro (⟨e, he⟩ | ⟨resolved, f, hresolved, hf, -⟩)
  · cases he
  · cases hresolved
    cases hf

end NovaCore

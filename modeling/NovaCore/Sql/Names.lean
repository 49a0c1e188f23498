import NovaCore.Sql.Resolve
import NovaCore.Sql.Where

/-!
# Which objects a statement acts on

A name has up to three parts: database, schema and table, of which the leading ones may be left out.
The analyzer keeps the last part of the first name and takes database and schema from its defaults,
whatever the statement says.  A resolved statement therefore acts on the objects that the statement
names only if all names mean one object in the default schema; a SELECT keeps the last parts of all
names in its FROM clause.

## Main definitions

* `Resolver.object?` : the object that a name means.
* `Statement.named`, `Resolved.objects` : the names in a statement, and what is acted on.
* `Statement.Rejected` : the statements that the analyzer refuses.
* `Resolver.Exact` : all names mean the object that the analyzer takes.

## Main results

* `Resolver.outcome` : which statements are refused, and what the others act on.
* `qualifiedNames_iff` : **when a statement acts on what it names.**
-/

namespace NovaCore

open List Analyzer

/-! ### Names in statements -/

namespace TableFactor

mutual

/-- The tables that a relation names. -/
def names : TableFactor → List (List String)
  | table name => [name]
  | derived relations => namesOf relations
  | derivedOther => []
  | other => []

/-- The tables that a list of relations names. -/
def namesOf : List TableFactor → List (List String)
  | [] => []
  | factor :: factors => factor.names ++ namesOf factors

end

mutual

/-- The relation is a table or a SELECT over such relations. -/
def Supported : TableFactor → Prop
  | table _ => True
  | derived relations => AllSupported relations
  | derivedOther => False
  | other => False

/-- All relations are supported. -/
def AllSupported : List TableFactor → Prop
  | [] => True
  | factor :: factors => factor.Supported ∧ AllSupported factors

end

end TableFactor

/-- The relations of a FROM clause. -/
def fromRelations (tables : List TableWithJoins) : List TableFactor :=
  tables.flatMap fun t => t.relation :: t.joins

/-- The tables that a statement names where the analyzer looks for them. -/
def SqlStatement.named : SqlStatement → List (List String)
  | .insert tableName _ _ => [tableName]
  | .update table _ _ => table.names
  | .delete tables _ => TableFactor.namesOf tables
  | .select _ tables => TableFactor.namesOf (fromRelations tables)
  | .queryOther => []

variable {name : ObjectName} {tables : List TableWithJoins}

namespace Sql

/-- An object of the catalog. -/
inductive Object
  | table (db schema table : String)
  | schema (db schema : String)
  | database (name : String)
  deriving DecidableEq

/-- The kinds of statements that act on named objects. -/
inductive Kind
  | insert
  | select
  | update
  | delete
  | createTable
  | alterTable
  | drop (objectType : ObjectType)
  deriving DecidableEq

/-- The kind of a statement that acts on named objects. -/
def Statement.kind? : Statement → Option Kind
  | .dml (.insert _ _ _) _ => some .insert
  | .dml (.update _ _ _) _ => some .update
  | .dml (.delete _ _) _ => some .delete
  | .dml (.select _ _) _ => some .select
  | .dml .queryOther _ => some .select
  | .createTable _ _ => some .createTable
  | .alterTable _ _ => some .alterTable
  | .drop objectType _ => some (.drop objectType)
  | _ => none

/-- The type of the objects that a statement names. -/
def Statement.objectType : Statement → ObjectType
  | .drop objectType _ => objectType
  | _ => .table

/-- The names in a statement. -/
def Statement.named : Statement → List ObjectName
  | .dml stmt elsewhere => stmt.named ++ elsewhere
  | .createTable name _ => [name]
  | .alterTable name _ => [name]
  | .drop _ names => names
  | _ => []

/-- The operations of an ALTER TABLE. -/
def Statement.operations : Statement → List AlterTableOperation
  | .alterTable _ operations => operations
  | _ => []

/-! ### What a resolved statement acts on -/

namespace Resolved

/-- The kind of a resolved statement. -/
def kind? : Resolved → Option Kind
  | .dml (.dml (.insert _ _ _ _)) => some .insert
  | .dml (.dml (.update _ _ _ _ _)) => some .update
  | .dml (.dml (.delete _ _ _ _)) => some .delete
  | .dml (.select _) => some .select
  | .createTable _ _ _ _ => some .createTable
  | .alterTable _ _ _ _ => some .alterTable
  | .dropTable _ _ _ => some (.drop .table)
  | .dropDatabase _ => some (.drop .database)
  | .dropSchema _ _ => some (.drop .schema)
  | _ => none

/-- The objects that a resolved statement acts on. -/
def objects : Resolved → List Object
  | .dml (.dml (.insert db schema table _)) => [.table db schema table]
  | .dml (.dml (.update db schema table _ _)) => [.table db schema table]
  | .dml (.dml (.delete db schema table _)) => [.table db schema table]
  | .dml (.select s) =>
    .table s.db s.schema s.table :: s.dependencies.map fun t => .table s.db s.schema t
  | .createTable db schema table _ => [.table db schema table]
  | .alterTable db schema table _ => [.table db schema table]
  | .dropTable db schema table => [.table db schema table]
  | .dropDatabase name => [.database name]
  | .dropSchema db schema => [.schema db schema]
  | _ => []

/-- The action of an ALTER TABLE. -/
def action? : Resolved → Option AlterAction
  | .alterTable _ _ _ action => some action
  | _ => none

end Resolved

/-- The action that an operation asks for. -/
def AlterTableOperation.action? : AlterTableOperation → Option AlterAction
  | .addColumn column => some (.addColumn column.name column.dataType)
  | .other => none

namespace Resolver

variable (a : Resolver)

/-- The object that a name means: the defaults stand for the leading parts that are left out. -/
def object? : ObjectType → ObjectName → Option Object
  | .table, [table] => some (.table a.defaultDb a.defaultSchema table)
  | .table, [schema, table] => some (.table a.defaultDb schema table)
  | .table, [db, schema, table] => some (.table db schema table)
  | .schema, [schema] => some (.schema a.defaultDb schema)
  | .schema, [db, schema] => some (.schema db schema)
  | .database, [name] => some (.database name)
  | _, _ => none

/-- The object with the last part `name` under the defaults. -/
def home (name : String) : ObjectType → Object
  | .schema => .schema a.defaultDb name
  | .database => .database name
  | _ => .table a.defaultDb a.defaultSchema name

/-- The resolved statement acts on the objects that the statement names, and on no others. -/
structure ActsOnNamed (stmt : Statement) (r : Resolved) : Prop where
  kind : r.kind? = stmt.kind?
  named : ∀ name ∈ stmt.named, ∃ o ∈ r.objects, a.object? stmt.objectType name = some o
  acted : ∀ o ∈ r.objects, ∃ name ∈ stmt.named, a.object? stmt.objectType name = some o
  operations : ∀ op ∈ stmt.operations, op.action? = r.action?

/-- **Qualified names**: resolution fails or yields a statement that acts on what is named. -/
def QualifiedNames (stmt : Statement) : Prop :=
  stmt.kind?.isSome = true → (∃ e, a.resolve stmt = .error e) ∨
    ∃ r, a.resolve stmt = .ok r ∧ a.ActsOnNamed stmt r

/-! ### What the analyzer refuses -/

/-- The payload of a marker is refused. -/
def MarkerRejected (rest : Str) : DropMarker → Prop
  | .showStreams => rest ≠ [] ∧ ¬∃ s, decodeHexPayload rest = .ok s
  | .streamPreviewHex => ∀ streamHex sqlHex, Str.splitOnce? rest (text "__") =
      some (streamHex, sqlHex) → ¬((∃ s, decodeHexPayload streamHex = .ok s) ∧
        ∃ s, decodeHexPayload sqlHex = .ok s)
  | .showGrantsOn => ¬∃ x, a.resolveFunctionSignatureText rest = .ok x
  | _ => False

/-- What follows a marker in the first name of a DROP. -/
def markerRest (names : List ObjectName) (m : DropMarker) : Str :=
  (text (dropName names)).drop (text m.start).length

end Resolver

open Resolver

/-- The statements, of those that act on named objects, that the analyzer refuses. -/
def Statement.Rejected (a : Resolver) : Statement → Prop
  | .dml (.insert tableName _ source) _ => tableName = [] ∨
      ∃ rows, source = some (.values rows) ∧ ∃ row ∈ rows, ∃ e ∈ row, ¬e.IsLiteral
  | .dml (.select _ tables) _ => ¬TableFactor.AllSupported (fromRelations tables) ∨
      ∀ t, tables.head? = some t → ¬t.relation.IsTable
  | .dml .queryOther _ => True
  | .dml stmt _ => stmt.Unsupported
  | .createTable name _ => name = []
  | .alterTable _ operations => ∀ op ∈ operations, op = .other
  | .drop objectType names => match DropMarker.of? (text (dropName names)) with
    | some m => a.MarkerRejected (markerRest names m) m
    | none => objectType = .other
  | _ => False

namespace Resolver

variable (a : Resolver)

/-- The names all mean the object that has the last part of the first of them. -/
def OneAtHome (objectType : ObjectType) (names : List ObjectName) : Prop :=
  names ≠ [] ∧ ∀ name ∈ names,
    a.object? objectType name = some (a.home (Analyzer.lastPart (names.headD [])) objectType)

/-- No part of the name starts with a marker of CREATE TABLE. -/
def Unmarked (name : ObjectName) : Prop :=
  marked? "__dt_" name = none ∧ marked? "__CLONE__" name = none ∧ marked? "__STREAM__" name = none

/-- The names of the statement mean the objects that the analyzer takes. -/
def Exact : Statement → Prop
  | .dml (.select _ tables) elsewhere =>
    ∀ name ∈ TableFactor.namesOf (fromRelations tables) ++ elsewhere,
      ∃ m ∈ TableFactor.namesOf (fromRelations tables),
        a.object? .table name = some (a.home (Analyzer.lastPart m) .table)
  | .dml stmt elsewhere => a.OneAtHome .table (stmt.named ++ elsewhere)
  | .createTable name _ => Unmarked name ∧ a.OneAtHome .table [name]
  | .alterTable name operations => a.OneAtHome .table [name] ∧
      ∃ action, ∀ op ∈ operations, op.action? = some action
  | .drop objectType names =>
    DropMarker.of? (text (dropName names)) = none ∧ a.OneAtHome objectType names
  | _ => True

end Resolver

/-! ### Objects -/

namespace Resolver

variable {a : Resolver} {stmt : Statement} {r : Resolved}

theorem lastPart_of_getLast? {t : String} (h : name.getLast? = some t) : lastPart name = t := by
  rw [lastPart, getLastD_eq_getLast?, h, Option.getD_some]

/-- Acting on one object. -/
theorem forall_single_iff (names : List ObjectName) (f : ObjectName → Option Object) (o : Object) :
    ((∀ name ∈ names, ∃ o' ∈ [o], f name = some o') ∧
      ∀ o' ∈ [o], ∃ name ∈ names, f name = some o') ↔
      names ≠ [] ∧ ∀ name ∈ names, f name = some o := by
  simp only [mem_singleton, exists_eq_left, forall_eq]
  constructor
  · rintro ⟨hall, name, hmem, -⟩
    exact ⟨ne_nil_of_mem hmem, hall⟩
  · rintro ⟨hne, hall⟩
    obtain ⟨name, hmem⟩ := exists_mem_of_ne_nil names hne
    exact ⟨hall, name, hmem, hall name hmem⟩

/-- A resolved statement that acts on one object, the one with the last part of the first name. -/
theorem actsOnNamed_iff_oneAtHome (hkind : r.kind? = stmt.kind?)
    (hobjects : r.objects = [a.home (lastPart (stmt.named.headD [])) stmt.objectType])
    (hop : stmt.operations = []) :
    a.ActsOnNamed stmt r ↔ a.OneAtHome stmt.objectType stmt.named := by
  have hsingle := forall_single_iff stmt.named (a.object? stmt.objectType)
    (a.home (lastPart (stmt.named.headD [])) stmt.objectType)
  rw [← hobjects] at hsingle
  constructor
  · exact fun h => hsingle.1 ⟨h.named, h.acted⟩
  · intro h
    obtain ⟨hnamed, hacted⟩ := hsingle.2 h
    refine ⟨hkind, hnamed, hacted, ?_⟩
    rw [hop]
    exact fun op hmem => absurd hmem not_mem_nil

/-- The statement is refused, or resolved to a statement of which it is known when it acts on what
is named. -/
structure Outcome (a : Resolver) (stmt : Statement) : Prop where
  ok_iff : (∃ r, a.resolve stmt = .ok r) ↔ ¬stmt.Rejected a
  acts_iff : ∀ r, a.resolve stmt = .ok r → (a.ActsOnNamed stmt r ↔ a.Exact stmt)

theorem Outcome.of_error {stmt : Statement} {e : NovaError} (hresolve : a.resolve stmt = .error e)
    (hrej : stmt.Rejected a) : a.Outcome stmt := by
  refine ⟨iff_of_false ?_ (not_not.2 hrej), fun r hr => ?_⟩
  · rintro ⟨r, hr⟩
    cases hresolve.symm.trans hr
  · cases hresolve.symm.trans hr

theorem Outcome.of_ok {stmt : Statement} (hresolve : a.resolve stmt = .ok r)
    (hrej : ¬stmt.Rejected a) (hacts : a.ActsOnNamed stmt r ↔ a.Exact stmt) : a.Outcome stmt := by
  refine ⟨iff_of_true ⟨r, hresolve⟩ hrej, fun r' hr => ?_⟩
  cases hresolve.symm.trans hr
  exact hacts

/-! ### INSERT, UPDATE and DELETE -/

variable {elsewhere names : List ObjectName} {table : TableFactor} {selection : Option Expr}
  {source : Option InsertSource} {projection : List SelectItem} {resolved : ResolvedStatement}

theorem resolve_dml_iff {s : SqlStatement} : a.resolve (.dml s elsewhere) = .ok r ↔
      ∃ resolved, a.toAnalyzer.resolve s = .ok resolved ∧ r = .dml resolved := by
  rw [resolve, except_map_eq_ok]
  simp only [eq_comm]

theorem exists_resolve_dml_iff {s : SqlStatement} : (∃ r, a.resolve (.dml s elsewhere) = .ok r) ↔
      ∃ resolved, a.toAnalyzer.resolve s = .ok resolved := by
  simp only [resolve_dml_iff]
  exact ⟨fun ⟨_, resolved, h, _⟩ => ⟨resolved, h⟩, fun ⟨resolved, h⟩ => ⟨_, resolved, h, rfl⟩⟩

/-- The values that an INSERT is resolved to. -/
def InsertValues (a : Analyzer) (values : List (List ResolvedExpr)) : Option InsertSource → Prop
  | some (.values rows) => (rows.mapM fun row => row.mapM a.resolveExpr) = .ok values
  | _ => values = []

theorem resolve_insert_iff (a : Analyzer) {tableName columns : List String} :
    a.resolve (.insert tableName columns source) = .ok resolved ↔ ∃ table values,
      tableName.getLast? = some table ∧ InsertValues a values source ∧
        resolved = .dml (.insert a.defaultDb a.defaultSchema table values) := by
  simp only [Analyzer.resolve, resolveInsert, except_map_eq_ok]
  rcases tableName.getLast? with _ | table
  · constructor
    · rintro ⟨_, ⟨⟩, -⟩
    · rintro ⟨_, _, ⟨⟩, -⟩
  · rcases source with _ | rows | _
    case some.values =>
      constructor
      · rintro ⟨_, h, rfl⟩
        obtain ⟨_, ⟨⟩, h⟩ := except_bind_eq_ok.1 h
        obtain ⟨values, hvalues, ⟨⟩⟩ := except_bind_eq_ok.1 h
        exact ⟨table, values, rfl, hvalues, rfl⟩
      · rintro ⟨_, values, ⟨⟩, hvalues, rfl⟩
        exact ⟨_, except_bind_eq_ok.2 ⟨table, rfl, except_bind_eq_ok.2 ⟨values, hvalues, rfl⟩⟩, rfl⟩
    all_goals
      constructor
      · rintro ⟨_, ⟨⟩, rfl⟩
        exact ⟨table, [], rfl, rfl, rfl⟩
      · rintro ⟨_, _, ⟨⟩, rfl, rfl⟩
        exact ⟨_, rfl, rfl⟩

theorem outcome_insert {tableName columns : List String} :
    a.Outcome (.dml (.insert tableName columns source) elsewhere) := by
  constructor
  · simp only [resolve_dml_iff, resolve_insert_iff, Statement.Rejected, not_or]
    have hvalues : (∃ values, InsertValues a.toAnalyzer values source) ↔
        ¬∃ rows, source = some (.values rows) ∧ ∃ row ∈ rows, ∃ e ∈ row, ¬e.IsLiteral := by
      rcases source with _ | rows | _
      · simp [InsertValues]
      · simp [InsertValues, exists_mapM_eq_ok_iff, a.exists_resolveExpr_iff]
      · simp [InsertValues]
    rw [← hvalues]
    constructor
    · rintro ⟨_, _, ⟨table, values, htable, hval, -⟩, -⟩
      refine ⟨?_, values, hval⟩
      rintro rfl
      cases htable
    · rintro ⟨hne, values, hval⟩
      exact ⟨_, _, ⟨_, values, getLast?_eq_some_getLast hne, hval, rfl⟩, rfl⟩
  · intro r hr
    obtain ⟨_, hresolved, rfl⟩ := resolve_dml_iff.1 hr
    obtain ⟨table, values, htable, -, rfl⟩ := (resolve_insert_iff _).1 hresolved
    refine actsOnNamed_iff_oneAtHome rfl ?_ rfl
    have hlast := lastPart_of_getLast? htable
    simp [Resolved.objects, home, Statement.objectType, Statement.named, SqlStatement.named, hlast]

theorem exists_name_of_isTable (h : table.IsTable) : ∃ name, table = .table name := by
  cases table with
  | table name => exact ⟨name, rfl⟩
  | derived _ | derivedOther | other => cases h

theorem eq_table_of_plainTable {message table : String} {factor : TableFactor}
    (h : plainTable message factor = .ok table) :
    ∃ name, factor = .table name ∧ lastPart name = table := by
  cases factor with
  | table name =>
    cases h
    exact ⟨name, rfl, rfl⟩
  | derived _ | derivedOther | other => cases h

theorem outcome_update {assignments : List (AssignmentTarget × Expr)} :
    a.Outcome (.dml (.update table assignments selection) elsewhere) := by
  constructor
  · exact exists_resolve_dml_iff.trans a.exists_resolve_update_iff
  · intro r hr
    obtain ⟨_, hresolved, rfl⟩ := resolve_dml_iff.1 hr
    obtain ⟨table', values, htable, -, rfl⟩ := (resolve_update_iff _).1 hresolved
    obtain ⟨name, rfl, rfl⟩ := eq_table_of_plainTable htable
    exact actsOnNamed_iff_oneAtHome rfl rfl rfl

theorem outcome_delete {tables : List TableFactor} :
    a.Outcome (.dml (.delete tables selection) elsewhere) := by
  constructor
  · exact exists_resolve_dml_iff.trans a.exists_resolve_delete_iff
  · intro r hr
    obtain ⟨_, hresolved, rfl⟩ := resolve_dml_iff.1 hr
    obtain ⟨table, last, hhead, htable, rfl⟩ := (resolve_delete_iff _).1 hresolved
    obtain ⟨name, rfl, rfl⟩ := eq_table_of_plainTable htable
    cases tables with
    | nil => cases hhead
    | cons first rest =>
      cases hhead
      exact actsOnNamed_iff_oneAtHome rfl rfl rfl

/-! ### SELECT -/

/-- A walk over relations succeeds if they are supported, with the last parts of their names. -/
structure Collects (supported : Prop) (names : List ObjectName)
    (result : Except NovaError (List String)) : Prop where
  ok_iff : (∃ tables, result = .ok tables) ↔ supported
  mem_iff : ∀ tables, result = .ok tables → ∀ t, t ∈ tables ↔ ∃ name ∈ names, name.getLast? = some t

mutual

theorem collectTableFactor_spec : ∀ factor : TableFactor,
    Collects factor.Supported factor.names (collectTableFactor factor)
  | .table name => by
    refine ⟨iff_of_true ⟨_, rfl⟩ trivial, ?_⟩
    rintro _ ⟨⟩ t
    simp [TableFactor.names]
  | .derived relations => by
    have ih := collectTableFactors_spec relations
    constructor
    · rw [TableFactor.Supported, ← ih.ok_iff, collectTableFactor]
      simp only [except_bind_eq_ok]
      constructor
      · rintro ⟨_, tables, htables, -⟩
        exact ⟨tables, htables⟩
      · rintro ⟨tables, htables⟩
        exact ⟨_, tables, htables, rfl⟩
    · intro tables h t
      obtain ⟨collected, hcollected, ⟨⟩⟩ := except_bind_eq_ok.1 h
      rw [mem_dedup, mem_insertionSort]
      exact ih.mem_iff collected hcollected t
  | .derivedOther | .other => ⟨iff_of_false (by rintro ⟨_, ⟨⟩⟩) id, by rintro _ ⟨⟩⟩

theorem collectTableFactors_spec : ∀ factors : List TableFactor,
    Collects (TableFactor.AllSupported factors) (TableFactor.namesOf factors)
      (collectTableFactors factors)
  | [] => by
    refine ⟨iff_of_true ⟨_, rfl⟩ trivial, ?_⟩
    rintro _ ⟨⟩ t
    simp [TableFactor.namesOf]
  | factor :: factors => by
    have ih1 := collectTableFactor_spec factor
    have ih2 := collectTableFactors_spec factors
    constructor
    · rw [TableFactor.AllSupported, ← ih1.ok_iff, ← ih2.ok_iff, collectTableFactors]
      simp only [except_bind_eq_ok]
      constructor
      · rintro ⟨_, tables, htables, rest, hrest, -⟩
        exact ⟨⟨tables, htables⟩, rest, hrest⟩
      · rintro ⟨⟨tables, htables⟩, rest, hrest⟩
        exact ⟨_, tables, htables, rest, hrest, rfl⟩
    · intro all h t
      obtain ⟨tables, htables, h⟩ := except_bind_eq_ok.1 h
      obtain ⟨rest, hrest, ⟨⟩⟩ := except_bind_eq_ok.1 h
      rw [mem_append, ih1.mem_iff tables htables, ih2.mem_iff rest hrest, TableFactor.namesOf]
      simp only [mem_append, or_and_right, exists_or]

end

theorem resolve_select_iff (a : Analyzer) :
    a.resolve (.select projection tables) = .ok resolved ↔ ∃ first name dependencies,
      tables.head? = some first ∧ first.relation = .table name ∧
      selectTables tables = .ok dependencies ∧
      resolved = .select {
        db := a.defaultDb
        schema := a.defaultSchema
        table := lastPart name
        dependencies
        projection := projection.map projectionColumn
        atTimestamp := none
        rawSql := none } := by
  rw [Analyzer.resolve, except_map_eq_ok]
  cases tables with
  | nil =>
    constructor
    · rintro ⟨_, ⟨⟩, -⟩
    · rintro ⟨_, _, _, ⟨⟩, -⟩
  | cons first rest =>
    simp only [resolveSelect, except_bind_eq_ok]
    constructor
    · rintro ⟨_, ⟨_, ⟨⟩, dependencies, hdeps, table, htable, ⟨⟩⟩, rfl⟩
      obtain ⟨name, hrel, rfl⟩ := eq_table_of_plainTable htable
      exact ⟨first, name, dependencies, rfl, hrel, hdeps, rfl⟩
    · rintro ⟨_, name, dependencies, ⟨⟩, hrel, hdeps, rfl⟩
      exact ⟨_, ⟨first, rfl, dependencies, hdeps, lastPart name, by rw [hrel]; rfl, rfl⟩, rfl⟩

theorem mem_namesOf_fromRelations {first : TableWithJoins} (hfirst : tables.head? = some first)
    (hrel : first.relation = .table name) : name ∈ TableFactor.namesOf (fromRelations tables) := by
  cases tables with
  | nil => cases hfirst
  | cons t ts =>
    cases hfirst
    rw [fromRelations, flatMap_cons, hrel]
    exact mem_append_left _ mem_cons_self

/-- A SELECT acts on the last parts of the names in its FROM clause. -/
theorem actsOnNamed_select_iff {s : ResolvedSelect}
    (hname : name ∈ TableFactor.namesOf (fromRelations tables))
    (hdeps : ∀ t, t ∈ s.dependencies ↔
      ∃ m ∈ TableFactor.namesOf (fromRelations tables), m.getLast? = some t)
    (hs : s.db = a.defaultDb ∧ s.schema = a.defaultSchema ∧ s.table = lastPart name) :
    a.ActsOnNamed (.dml (.select projection tables) elsewhere) (.dml (.select s)) ↔
      a.Exact (.dml (.select projection tables) elsewhere) := by
  obtain ⟨hdb, hschema, htable⟩ := hs
  have hobject : ∀ o ∈ (Resolved.dml (.select s)).objects,
      ∃ m ∈ TableFactor.namesOf (fromRelations tables), o = a.home (lastPart m) .table := by
    intro o ho
    rw [Resolved.objects, hdb, hschema, htable, mem_cons, mem_map] at ho
    rcases ho with rfl | ⟨t, ht, rfl⟩
    · exact ⟨name, hname, rfl⟩
    · obtain ⟨m, hm, hlast⟩ := (hdeps t).1 ht
      exact ⟨m, hm, by rw [lastPart_of_getLast? hlast]; rfl⟩
  constructor
  · intro h n hn
    obtain ⟨o, ho, hobj⟩ := h.named n hn
    obtain ⟨m, hm, rfl⟩ := hobject o ho
    exact ⟨m, hm, hobj⟩
  · intro h
    -- a name of the FROM clause means the object with its own last part
    have hown : ∀ m ∈ TableFactor.namesOf (fromRelations tables),
        a.object? .table m = some (a.home (lastPart m) .table) := by
      intro m hm
      obtain ⟨m', -, hobj⟩ := h m (mem_append_left _ hm)
      have hlast : lastPart m = lastPart m' := by
        unfold object? at hobj
        split at hobj <;> cases hobj <;> rfl
      rwa [hlast]
    refine ⟨rfl, fun n hn => ?_, fun o ho => ?_, fun op hop => absurd hop not_mem_nil⟩
    · obtain ⟨m, hm, hobj⟩ := h n hn
      refine ⟨_, ?_, hobj⟩
      have hne : m ≠ [] := by
        rintro rfl
        cases hown _ hm
      have hlast := getLast?_eq_some_getLast hne
      have hdep := (hdeps _).2 ⟨m, hm, hlast⟩
      rw [Resolved.objects, hdb, hschema, lastPart_of_getLast? hlast]
      exact mem_cons_of_mem _ (mem_map_of_mem hdep)
    · obtain ⟨m, hm, rfl⟩ := hobject o ho
      exact ⟨m, mem_append_left _ hm, hown m hm⟩

theorem outcome_select : a.Outcome (.dml (.select projection tables) elsewhere) := by
  have hspec := collectTableFactor_spec (.derived (fromRelations tables))
  constructor
  · simp only [resolve_dml_iff, resolve_select_iff, Statement.Rejected, not_or, not_not, not_forall]
    rw [← TableFactor.Supported.eq_2, ← hspec.ok_iff]
    constructor
    · rintro ⟨_, _, ⟨first, name, deps, hfirst, hrel, hdeps, -⟩, -⟩
      exact ⟨⟨deps, hdeps⟩, first, hfirst, by rw [hrel]; trivial⟩
    · rintro ⟨⟨deps, hdeps⟩, first, hfirst, htable⟩
      obtain ⟨name, hrel⟩ := exists_name_of_isTable htable
      exact ⟨_, _, ⟨first, name, deps, hfirst, hrel, hdeps, rfl⟩, rfl⟩
  · intro r hr
    obtain ⟨_, hresolved, rfl⟩ := resolve_dml_iff.1 hr
    obtain ⟨first, name, deps, hfirst, hrel, hdeps, rfl⟩ := (resolve_select_iff _).1 hresolved
    exact actsOnNamed_select_iff (mem_namesOf_fromRelations hfirst hrel) (hspec.mem_iff deps hdeps)
      ⟨rfl, rfl, rfl⟩

/-! ### CREATE TABLE, ALTER TABLE and DROP -/

/-- Only names without a marker become tables. -/
theorem resolveCreateTable_of_marked (columns : List ColumnDef) (h : ¬Unmarked name) :
    ∃ r, a.resolveCreateTable name columns = .ok r ∧ r.kind? = none := by
  unfold resolveCreateTable
  split
  · exact ⟨_, rfl, rfl⟩
  · next hdt =>
    split
    · exact ⟨_, rfl, rfl⟩
    · next hclone =>
      split
      · exact ⟨_, rfl, rfl⟩
      · next hstream => exact absurd ⟨hdt, hclone, hstream⟩ h

theorem outcome_createTable {columns : List ColumnDef} : a.Outcome (.createTable name columns) := by
  by_cases hmarked : Unmarked name
  · rcases hlast : name.getLast? with _ | table
    · rw [getLast?_eq_none_iff] at hlast
      subst hlast
      exact .of_error rfl rfl
    · have hresolve : a.resolve (.createTable name columns) =
          .ok (.createTable a.defaultDb a.defaultSchema table
            (columns.map fun c => ⟨c.name, c.dataType, .notNull ∉ c.options⟩)) := by
        simp only [resolve, resolveCreateTable, hmarked.1, hmarked.2.1, hmarked.2.2, hlast]
      refine .of_ok hresolve ?_ ?_
      · rintro rfl
        cases hlast
      · rw [actsOnNamed_iff_oneAtHome rfl _ rfl]
        · exact (and_iff_right hmarked).symm
        · simp [Resolved.objects, home, Statement.objectType, Statement.named,
            lastPart_of_getLast? hlast]
  · obtain ⟨r', hresolve, hkind⟩ := a.resolveCreateTable_of_marked columns hmarked
    refine .of_ok hresolve ?_ (iff_of_false (fun h => ?_) fun h => hmarked h.1)
    · rintro rfl
      exact hmarked ⟨rfl, rfl, rfl⟩
    · cases hkind.symm.trans h.kind

theorem outcome_alterTable {operations : List AlterTableOperation} :
    a.Outcome (.alterTable name operations) := by
  rcases hfind : operations.findSome? addedColumn? with _ | column
  · have hother : ∀ op ∈ operations, op = .other := by
      intro op hop
      have hnone := findSome?_eq_none_iff.1 hfind op hop
      cases op with
      | addColumn column => cases hnone
      | other => rfl
    have hresolve : a.resolve (.alterTable name operations) =
        fail "unsupported ALTER TABLE operation" := by
      rw [resolve, resolveAlterTable, hfind]
    exact .of_error hresolve hother
  · obtain ⟨op, hop, hadded⟩ := exists_of_findSome?_eq_some hfind
    have hresolve : a.resolve (.alterTable name operations) =
        .ok (.alterTable a.defaultDb a.defaultSchema (name.getLastD "")
          (.addColumn column.name column.dataType)) := by
      rw [resolve, resolveAlterTable, hfind]
    have hother : ¬∀ op ∈ operations, op = .other := by
      intro hall
      rw [hall op hop] at hadded
      cases hadded
    refine .of_ok hresolve hother ?_
    have hsingle := forall_single_iff [name] (a.object? .table) (a.home (lastPart name) .table)
    have haction : op.action? = some (.addColumn column.name column.dataType) := by
      cases op with
      | addColumn c =>
        cases hadded
        rfl
      | other => cases hadded
    constructor
    · exact fun h => ⟨hsingle.1 ⟨h.named, h.acted⟩, _, h.operations⟩
    · rintro ⟨hhome, action, hall⟩
      obtain ⟨hnamed, hacted⟩ := hsingle.2 hhome
      refine ⟨rfl, hnamed, hacted, fun op' hop' => ?_⟩
      exact (hall op' hop').trans ((hall op hop).symm.trans haction)

theorem dropLast_eq : dropLast names = lastPart (names.headD []) := by
  cases names with
  | nil => rfl
  | cons name names => simp [dropLast, lastPart, getLastD_eq_getLast?]

/-- A marker is resolved unless its payload is refused, and never to a DROP. -/
theorem resolveMarker_spec (name rest : Str) (m : DropMarker) :
    ((∃ r, a.resolveMarker name rest m = .ok r) ↔ ¬a.MarkerRejected rest m) ∧
      ∀ r, a.resolveMarker name rest m = .ok r → ∀ objectType, r.kind? ≠
        some (.drop objectType) := by
  -- most markers are resolved whatever follows them
  have htotal : ∀ r0, a.resolveMarker name rest m = .ok r0 →
      (∀ objectType, r0.kind? ≠ some (.drop objectType)) → ¬a.MarkerRejected rest m →
      ((∃ r, a.resolveMarker name rest m = .ok r) ↔ ¬a.MarkerRejected rest m) ∧
        ∀ r, a.resolveMarker name rest m = .ok r →
          ∀ objectType, r.kind? ≠ some (.drop objectType) := by
    intro r0 h hkind hrej
    refine ⟨iff_of_true ⟨r0, h⟩ hrej, fun r hr => ?_⟩
    rw [h] at hr
    cases hr
    exact hkind
  cases m with
  | showStreams =>
    by_cases hrest : rest = []
    · exact htotal (.showStreams a.defaultDb a.defaultSchema none) (if_pos hrest) nofun
        fun h => h.1 hrest
    · have heq : a.resolveMarker name rest .showStreams = (do
          let pattern ← decodeHexPayload rest
          return .showStreams a.defaultDb a.defaultSchema (some pattern)) := if_neg hrest
      simp only [heq, except_bind_eq_ok, MarkerRejected, not_and, not_not]
      constructor
      · constructor
        · rintro ⟨_, pattern, hpattern, -⟩ _
          exact ⟨pattern, hpattern⟩
        · intro h
          obtain ⟨pattern, hpattern⟩ := h hrest
          exact ⟨_, pattern, hpattern, rfl⟩
      · rintro _ ⟨pattern, -, ⟨⟩⟩ _ ⟨⟩
  | streamPreviewHex =>
    rcases hsplit : Str.splitOnce? rest (text "__") with _ | ⟨streamHex, sqlHex⟩
    · have heq : a.resolveMarker name rest .streamPreviewHex =
          .error (.unsupportedStreamSyntax "invalid stream preview marker") := by
        simp only [resolveMarker, hsplit]
      rw [heq]
      refine ⟨iff_of_false (by rintro ⟨_, ⟨⟩⟩) (not_not.2 ?_), by rintro _ ⟨⟩⟩
      intro streamHex sqlHex h
      rw [hsplit] at h
      cases h
    · have heq : a.resolveMarker name rest .streamPreviewHex = (do
          let streamName ← decodeHexPayload streamHex
          let rawSql ← decodeHexPayload sqlHex
          return .readStream a.defaultDb a.defaultSchema streamName rawSql) := by
        simp only [resolveMarker, hsplit]
      simp only [heq, except_bind_eq_ok]
      constructor
      · constructor
        · rintro ⟨_, s, hs, q, hq, -⟩ h
          exact h streamHex sqlHex hsplit ⟨⟨s, hs⟩, q, hq⟩
        · intro h
          by_contra hnone
          refine h fun streamHex' sqlHex' hsplit' hdecoded => ?_
          rw [hsplit] at hsplit'
          cases hsplit'
          obtain ⟨⟨s, hs⟩, q, hq⟩ := hdecoded
          exact hnone ⟨_, s, hs, q, hq, rfl⟩
      · rintro _ ⟨s, -, q, -, ⟨⟩⟩ _ ⟨⟩
  | showGrantsOn =>
    simp only [resolveMarker, except_bind_eq_ok, MarkerRejected, not_not]
    constructor
    · constructor
      · rintro ⟨_, x, hx, -⟩
        exact ⟨x, hx⟩
      · rintro ⟨x, hx⟩
        exact ⟨_, x, hx, rfl⟩
    · rintro _ ⟨x, -, ⟨⟩⟩ _ ⟨⟩
  | alterDynamicTable =>
    refine htotal _ rfl (fun objectType => ?_) id
    unfold resolveAlterDynamicTable
    dsimp only
    split_ifs <;> exact nofun
  | _ => exact htotal _ rfl nofun id

theorem outcome_drop {objectType : ObjectType} : a.Outcome (.drop objectType names) := by
  rcases hmarker : DropMarker.of? (text (dropName names)) with _ | m
  · by_cases hother : objectType = .other
    · subst hother
      have hresolve : a.resolve (.drop .other names) =
          fail s!"unsupported DROP: {dropName names}" := by
        simp only [resolve, resolveDrop, hmarker]
      exact .of_error hresolve (by simp [Statement.Rejected, hmarker])
    · obtain ⟨r0, hresolve, hkind, hobjects⟩ : ∃ r, a.resolve (.drop objectType names) = .ok r ∧
          r.kind? = some (.drop objectType) ∧
          r.objects = [a.home (lastPart (names.headD [])) objectType] := by
        simp only [resolve, resolveDrop, hmarker, dropLast_eq]
        cases objectType with
        | table | database | schema => exact ⟨_, rfl, rfl, rfl⟩
        | other => exact absurd rfl hother
      refine .of_ok hresolve (by simpa [Statement.Rejected, hmarker] using hother) ?_
      rw [actsOnNamed_iff_oneAtHome hkind hobjects rfl]
      exact (and_iff_right hmarker).symm
  · obtain ⟨hok, hkind⟩ := a.resolveMarker_spec (text (dropName names)) (markerRest names m) m
    have hresolve : a.resolve (.drop objectType names) =
        a.resolveMarker (text (dropName names)) (markerRest names m) m := by
      simp only [resolve, resolveDrop, hmarker]
      rfl
    constructor
    · rw [hresolve, hok, Statement.Rejected, hmarker]
    · intro r hr
      rw [hresolve] at hr
      refine iff_of_false (fun h => hkind r hr objectType h.kind) ?_
      rintro ⟨hnone, -⟩
      rw [hmarker] at hnone
      cases hnone

/-! ### All statements -/

theorem outcome (stmt : Statement) (h : stmt.kind?.isSome = true) : a.Outcome stmt := by
  cases stmt with
  | dml s elsewhere =>
    cases s with
    | insert => exact outcome_insert
    | update => exact outcome_update
    | delete => exact outcome_delete
    | select => exact outcome_select
    | queryOther => exact .of_error rfl trivial
  | createTable => exact outcome_createTable
  | alterTable => exact outcome_alterTable
  | drop => exact outcome_drop
  | _ => cases h

end Resolver

/-- **Qualified names.**  A statement that acts on named objects acts on exactly what it names if
and only if the analyzer refuses it or all its names mean the object that the analyzer takes. -/
theorem qualifiedNames_iff (a : Resolver) (stmt : Statement) :
    a.QualifiedNames stmt ↔ (stmt.kind?.isSome = true → stmt.Rejected a ∨ a.Exact stmt) := by
  refine imp_congr_right fun hkind => ?_
  obtain ⟨hok, hacts⟩ := outcome stmt hkind
  constructor
  · rintro (⟨e, he⟩ | ⟨r, hr, hnamed⟩)
    · left
      by_contra hrej
      obtain ⟨r, hr⟩ := hok.2 hrej
      rw [he] at hr
      cases hr
    · exact .inr ((hacts r hr).1 hnamed)
  · intro h
    rcases hr : a.resolve stmt with e | r
    · exact .inl ⟨e, rfl⟩
    · rcases h with hrej | hexact
      · exact absurd hrej (hok.1 ⟨r, hr⟩)
      · exact .inr ⟨r, rfl, (hacts r hr).2 hexact⟩

/-- Outside database `d` a statement is resolved to one that does not act on the objects it
names. -/
def ResolvedElsewhere (stmt : Statement) (resolved : Resolver → Resolved) : Prop :=
  ∀ a : Resolver, a.defaultDb ≠ "d" →
    a.resolve stmt = .ok (resolved a) ∧ ¬a.QualifiedNames stmt

/-- `DROP TABLE x, y` drops `x` alone, and `DELETE FROM d.s.t` deletes from the table `t` of the
default schema. -/
theorem resolve_other_objects :
    ResolvedElsewhere (.drop .table [["x"], ["y"]])
      (fun a => .dropTable a.defaultDb a.defaultSchema "x") ∧
    ResolvedElsewhere (.dml (.delete [.table ["d", "s", "t"]] none) [])
      (fun a => .dml (.dml (.delete a.defaultDb a.defaultSchema "t" none))) := by
  have hdrop : ∀ a : Resolver, a.resolve (.drop .table [["x"], ["y"]]) =
      .ok (.dropTable a.defaultDb a.defaultSchema "x") := by
    intro a
    have hmarker : DropMarker.of? (text (dropName [["x"], ["y"]])) = none := by decide +kernel
    rfl
  have hdelete : ∀ a : Resolver, a.resolve (.dml (.delete [.table ["d", "s", "t"]] none) []) =
      .ok (.dml (.dml (.delete a.defaultDb a.defaultSchema "t" none))) := fun a => rfl
  refine ⟨fun a _ => ⟨hdrop a, fun h => ?_⟩, fun a hdb => ⟨hdelete a, fun h => ?_⟩⟩
  · rcases h rfl with ⟨e, he⟩ | ⟨r, hr, hacts⟩
    · rw [hdrop] at he
      cases he
    · rw [hdrop] at hr
      cases hr
      obtain ⟨o, ho, hobj⟩ := hacts.named ["y"] (by simp [Statement.named])
      cases mem_singleton.1 ho
      simp [object?, Statement.objectType] at hobj
  · rcases h rfl with ⟨e, he⟩ | ⟨r, hr, hacts⟩
    · rw [hdelete] at he
      cases he
    · rw [hdelete] at hr
      cases hr
      obtain ⟨o, ho, hobj⟩ := hacts.named ["d", "s", "t"] mem_cons_self
      cases mem_singleton.1 ho
      simp only [object?, Statement.objectType, Option.some.injEq, Object.table.injEq] at hobj
      exact hdb hobj.1.symm

end Sql

end NovaCore

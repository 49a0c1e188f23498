import NovaCore.Mp.TimeTravel
import NovaCore.Sql.Reinterpret
import NovaCore.Storage.Query

/-!
# From the text of a query to its answer

`NovaEngine::execute_sql` parses and resolves a text, puts the whole text into every SELECT it finds
there, and runs the statements one after another.  Its result cache is asked for, and given, results
without table versions, which it neither keeps nor hands out.  A SELECT is checked for the tables
that the analyzer collected from it; `exec_select_datafusion` registers the table of the statement
and, for each word behind a JOIN, a table of that name in any database.

A time-travel query arrives as a SELECT from a relation without a name, so it finds no table.

## Main definitions

* `planSelect`, `execSelect` : the SELECT branch of `execute`.
* `registered` : the tables that a SELECT hands to the query engine.
* `NovaEngine.executeSql`, `NovaEngine.callsInTurn` : one call, and one call for each statement.

## Main results

* `registered_readable_iff` : **when a SELECT reads only what it was checked for.**
* `executeSql_eq_callsInTurn_iff` : **when a text can be run as a whole.**
* `timeTravelReads_iff` : **when a time-travel query is answered.**
-/

namespace NovaCore.Sql

open Str List Analyzer Resolver Catalog TableFactor
open String (ofList)

/-! ### SELECT -/

/-- What a SELECT is run as, once it has been checked. -/
inductive SelectPlan
  | stream (stream : StreamMeta)
  | table (table : TableMeta)
  deriving DecidableEq

/-- The names that are checked before a SELECT runs. -/
def checked (s : ResolvedSelect) : List String :=
  if s.dependencies = [] then [s.table] else s.dependencies

/-- The SELECT branch of `execute`, up to `exec_read_stream` or the lookup in `exec_select`. -/
def planSelect (cat : Catalog) (security : SecurityContext) (s : ResolvedSelect) :
    Except NovaError SelectPlan :=
  match (cat.findStream s.db s.schema s.table).toOption,
    (cat.findTable s.db s.schema s.table).toOption with
  | some _, some _ => .error (.ambiguousRelationName s.table)
  | some stream, none => .ok (.stream stream)
  | none, _ => do
    let _ ← (checked s).mapM fun name =>
      cat.authorizeTable security s.db s.schema name .select
    return .table (← cat.findTable s.db s.schema s.table)

/-- What the SELECT path leaves to others. -/
structure SelectEnv where
  caseMap : CaseMap
  /-- `char::is_alphanumeric`. -/
  alphanumeric : Char → Bool
  engine : QueryEngine
  /-- The name under which the engine keeps a registered table. -/
  tableKey : String → String
  /-- `register_sql_functions_for_query`. -/
  registerFunctions : World → SecurityContext → TableMeta → Str → Except NovaError Unit
  /-- `batches_to_query_result`. -/
  toResult : List RecordBatch → QueryResult
  /-- `exec_read_stream` of a stream in a database and schema, up to the table it registers. -/
  openStream : World → SecurityContext → String → String → StreamMeta → Except NovaError SourceTable
  /-- `remove_stream_preview_clause`. -/
  removeStreamPreviewClause : String → String
  /-- `exec_read_stream` behind the query: the offset of the stream is moved on. -/
  advanceStream : World → StreamMeta → Except NovaError Unit × World
  /-- The path of `exec_select` without a text. -/
  readDirect : World → ResolvedSelect → TableMeta → Except NovaError QueryResult

/-- The micro-partitions that `exec_select` looks at. -/
def selectedMps (w : World) (s : ResolvedSelect) (t : TableMeta) : List MicroPartitionMeta :=
  match s.atTimestamp with
  | some ts => w.mpsAtTimestamp t.id ts
  | none => w.getActiveMps t.id

variable (env : SelectEnv)

/-- The word behind a keyword of a join: the next one that is not JOIN, up to the last character of
a name. -/
def joinedWord (words : List Str) : Option Str :=
  ((words.find? fun w => env.caseMap.toUppercase w ≠ text "JOIN").map
    (trimEndMatches fun c => !env.alphanumeric c && c ≠ '_')).filter (· ≠ [])

/-- `find_join_tables`. -/
def findJoinTables (sql exclude : Str) : List Str :=
  let words := (splitWhitespace sql).tails.filterMap fun
    | [] => none
    | w :: rest =>
      if env.caseMap.toUppercase w ∈ ["JOIN", "INNER", "LEFT", "RIGHT", "CROSS"].map text then
        joinedWord env rest
      else none
  (words.filter (· ≠ exclude)).eraseDups

/-- The tables of a name that have micro-partitions, from one schema of each database. -/
def joinTables (w : World) (name : Str) : List TableMeta :=
  (w.catalog.listDatabases.filterMap fun db =>
    (w.catalog.listSchemas db.id).findSome? fun schema =>
      (w.catalog.listTables db.id schema.id).find? fun t => text t.name = name).filter
    fun t => w.getActiveMps t.id ≠ []

/-- `register_table`; a name that is in use is not registered again, and the error is ignored. -/
def register (tables : List TableMeta) (u : TableMeta) : List TableMeta :=
  if tables.any fun t => env.tableKey t.name = env.tableKey u.name then tables else tables ++ [u]

/-- The tables that are registered for a table and the words behind JOIN. -/
def registeredFor (w : World) (t : TableMeta) (names : List Str) : List TableMeta :=
  (names.flatMap (joinTables w)).foldl (register env) [t]

/-- The tables that `exec_select_datafusion` registers. -/
def registered (w : World) (t : TableMeta) (sql : Str) : List TableMeta :=
  registeredFor env w t (findJoinTables env sql (text t.name))

/-- `exec_select`, with `exec_select_datafusion`. -/
def execSelect (w : World) (security : SecurityContext) (s : ResolvedSelect)
    (t : TableMeta) : Except NovaError QueryResult :=
  if selectedMps w s t = [] then
    .ok (.rows (if "*" ∈ s.projection then t.columns.map (·.name) else s.projection) [])
  else match s.rawSql with
    | none => env.readDirect w s t
    | some sql => do
      env.registerFunctions w security t (text sql)
      match env.engine sql ((registered env w t (text sql)).map fun t =>
          w.sourceTable (t, w.getActiveMps t.id)) with
      | .error e => .error (.internal ("DataFusion SQL execution failed: " ++ e))
      | .ok batches => .ok (env.toResult batches)

/-- A registered table under the name of a stream. -/
def streamTable (source : SourceTable) (stream : StreamMeta) : SourceTable :=
  { source with table := { source.table with name := stream.name } }

/-- `exec_read_stream`. -/
def execReadStream (w : World) (security : SecurityContext) (db schema : String)
    (stream : StreamMeta) (sql : String) : Except NovaError QueryResult × World :=
  match env.openStream w security db schema stream with
  | .error e => (.error e, w)
  | .ok source =>
    match env.engine (env.removeStreamPreviewClause sql) [streamTable source stream] with
    | .error e => (.error (.internal ("DataFusion stream SQL execution failed: " ++ e)), w)
    | .ok batches => match env.advanceStream w stream with
      | (.error e, w') => (.error e, w')
      | (.ok (), w') => (.ok (env.toResult batches), w')

/-- The SELECT branch of `execute`. -/
def executeSelect (security : SecurityContext) (s : ResolvedSelect) (w : World) :
    Except NovaError QueryResult × World :=
  match planSelect w.catalog security s with
  | .error e => (.error e, w)
  | .ok (.table t) => (execSelect env w security s t, w)
  | .ok (.stream stream) =>
    execReadStream env w security s.db s.schema stream
      (s.rawSql.getD ("SELECT * FROM " ++ stream.name))

/-- A SELECT that is run on a table passed the checks, and its name leads to the table. -/
theorem planSelect_table {cat : Catalog} {security : SecurityContext} {s : ResolvedSelect}
    {t : TableMeta} (hplan : planSelect cat security s = .ok (.table t)) :
    cat.findTable s.db s.schema s.table = .ok t ∧
      ∀ name ∈ checked s, cat.authorizeTable security s.db s.schema name .select = .ok () := by
  unfold planSelect at hplan
  split at hplan
  · cases hplan
  · cases hplan
  · obtain ⟨_, hchecks, hfind⟩ := except_bind_eq_ok.1 hplan
    obtain ⟨_, ht, ⟨⟩⟩ := except_bind_eq_ok.1 hfind
    exact ⟨ht, fun name hname => (exists_mapM_eq_ok_iff.1 ⟨_, hchecks⟩ name hname).choose_spec⟩

/-- A SELECT that is run on a stream names the stream. -/
theorem planSelect_stream {cat : Catalog} {security : SecurityContext} {s : ResolvedSelect}
    {m : StreamMeta} (hplan : planSelect cat security s = .ok (.stream m)) :
    cat.findStream s.db s.schema s.table = .ok m := by
  unfold planSelect at hplan
  split at hplan
  · cases hplan
  · next hm _ =>
    cases hplan
    rcases hfind : cat.findStream s.db s.schema s.table with err | m'
    · simp [hfind, Except.toOption] at hm
    · simpa [hfind, Except.toOption] using hm
  · obtain ⟨_, -, hfind⟩ := except_bind_eq_ok.1 hplan
    obtain ⟨_, -, ⟨⟩⟩ := except_bind_eq_ok.1 hfind

/-- The query engine refuses a text over the registered tables. -/
def Refuses (sql : Str) (tables : List SourceTable) : Prop :=
  ∀ text ∈ [String.ofList sql, env.removeStreamPreviewClause (String.ofList sql)],
    ∃ msg, env.engine text tables = .error msg

/-- The text is refused over what a SELECT registers, for a stream and for a table. -/
structure RefusedFor (w : World) (security : SecurityContext) (s : ResolvedSelect) (sql : Str) :
    Prop where
  stream : ∀ m source, planSelect w.catalog security s = .ok (.stream m) →
    Refuses env sql [streamTable source m]
  table : ∀ t, planSelect w.catalog security s = .ok (.table t) →
    Refuses env sql ((registered env w t sql).map fun t => w.sourceTable (t, w.getActiveMps t.id))

/-- With a text that is refused, a SELECT succeeds exactly if it is one of a table without
micro-partitions: then the text is not looked at. -/
theorem executeSelect_refused_iff {env : SelectEnv} {w : World} {security : SecurityContext}
    {s : ResolvedSelect} {sql : Str} (hsql : RefusedFor env w security s sql)
    (answer : QueryResult) :
    (executeSelect env security { s with rawSql := some (ofList sql) } w).1 = .ok answer ↔
      ∃ t, planSelect w.catalog security s = .ok (.table t) ∧ selectedMps w s t = [] ∧
        .rows (if "*" ∈ s.projection then t.columns.map (·.name) else s.projection) [] =
          answer := by
  have hplan : planSelect w.catalog security { s with rawSql := some (ofList sql) } =
    planSelect w.catalog security s := rfl
  rw [executeSelect, hplan]
  rcases hs : planSelect w.catalog security s with err | m | t
  · simp
  · simp only [execReadStream, Option.getD_some]
    rcases env.openStream w security s.db s.schema m with err | source
    · simp
    · obtain ⟨msg, hmsg⟩ := hsql.stream m source hs _ (mem_cons_of_mem _ mem_cons_self)
      simp [hmsg]
  · have hexec : execSelect env w security { s with rawSql := some (ofList sql) } t =
        .ok answer ↔ selectedMps w s t = [] ∧
          .rows (if "*" ∈ s.projection then t.columns.map (·.name) else s.projection) [] =
            answer := by
      by_cases hempty : selectedMps w { s with rawSql := some (ofList sql) } t = []
      · rw [execSelect, if_pos hempty, Except.ok.injEq]
        exact (and_iff_right hempty).symm
      · refine iff_of_false (fun h => ?_) fun h => hempty h.1
        rw [execSelect, if_neg hempty] at h
        obtain ⟨_, -, hengine⟩ := except_bind_eq_ok.1 h
        obtain ⟨msg, hmsg⟩ := hsql.table t hs _ mem_cons_self
        rw [text_ofList, hmsg] at hengine
        cases hengine
    simpa using hexec

/-! ### What is registered -/

section Registered

variable (w : World) (t : TableMeta)

/-- No table has been registered under the name before, neither the table of the statement nor one
that the words `before` lead to. -/
def Unused (before : List Str) (name : Str) : Prop :=
  env.tableKey t.name ≠ env.tableKey (String.ofList name) ∧
    ∀ n ∈ before, env.tableKey (String.ofList n) = env.tableKey (String.ofList name) →
      joinTables w n = []

/-- The word leads to the table, and the table is registered for it. -/
def LeadsTo (names : List Str) (name : Str) (u : TableMeta) : Prop :=
  ∃ before after, names = before ++ name :: after ∧ Unused env w t before name ∧
    (joinTables w name).head? = some u

variable {env w t} {name : Str} {names : List Str} {u : TableMeta}

theorem name_of_mem_joinTables (hu : u ∈ joinTables w name) : u.name = ofList name := by
  obtain ⟨db, -, hdb⟩ := mem_filterMap.1 (mem_filter.1 hu).1
  obtain ⟨schema, -, hfind⟩ := exists_of_findSome?_eq_some hdb
  have hname : text u.name = name := by simpa using find?_some hfind
  rw [← hname, text, String.ofList_toList]

/-- Of tables with one name, the first is registered if the name is not in use. -/
theorem foldl_register {key : String} {us tables : List TableMeta}
    (hus : ∀ u ∈ us, env.tableKey u.name = key) : us.foldl (register env) tables =
      if ∃ t ∈ tables, env.tableKey t.name = key then tables else tables ++ us.head?.toList := by
  induction us generalizing tables with
  | nil => simp
  | cons u us ih =>
    have hu := hus u mem_cons_self
    rw [foldl_cons, ih fun v hv => hus v (mem_cons_of_mem _ hv), register]
    by_cases h : ∃ t ∈ tables, env.tableKey t.name = key
    · simp [hu, h]
    · simp [hu, h, or_and_right, exists_or]

theorem registeredFor_snoc : registeredFor env w t (names ++ [name]) =
    if ∃ u ∈ registeredFor env w t names, env.tableKey u.name = env.tableKey (ofList name)
    then registeredFor env w t names
    else registeredFor env w t names ++ (joinTables w name).head?.toList := by
  rw [registeredFor, flatMap_append, foldl_append, flatMap_singleton]
  exact foldl_register fun u hu => congrArg _ (name_of_mem_joinTables hu)

/-- A name is in use if it is the table's, or if a word has led to a table of that name. -/
theorem exists_registeredFor_iff {key : String} :
    (∃ u ∈ registeredFor env w t names, env.tableKey u.name = key) ↔ env.tableKey t.name = key ∨
      ∃ n ∈ names, env.tableKey (ofList n) = key ∧ joinTables w n ≠ [] := by
  induction names using reverseRecOn with
  | nil => simp [registeredFor]
  | append_singleton names name ih =>
    have hsnoc : (∃ n ∈ names ++ [name], env.tableKey (ofList n) = key ∧ joinTables w n ≠ []) ↔
        (∃ n ∈ names, env.tableKey (ofList n) = key ∧ joinTables w n ≠ []) ∨
          env.tableKey (ofList name) = key ∧ joinTables w name ≠ [] := by
      simp [or_and_right, exists_or]
    rw [hsnoc, ← or_assoc, ← ih, registeredFor_snoc]
    split_ifs with hused
    · refine ⟨.inl, ?_⟩
      rintro (h | ⟨rfl, -⟩)
      exacts [h, hused]
    · have hhead : (∃ u ∈ (joinTables w name).head?.toList, env.tableKey u.name = key) ↔
          env.tableKey (ofList name) = key ∧ joinTables w name ≠ [] := by
        rcases hj : joinTables w name with _ | ⟨u, us⟩
        · simp
        · have hname := name_of_mem_joinTables (hj ▸ mem_cons_self)
          simp [hname]
      simp only [mem_append, or_and_right, exists_or, hhead]

theorem leadsTo_snoc_iff {n : Str} : LeadsTo env w t (names ++ [name]) n u ↔
    LeadsTo env w t names n u ∨
      n = name ∧ Unused env w t names name ∧ (joinTables w name).head? = some u := by
  constructor
  · rintro ⟨before, after, heq, h⟩
    obtain ⟨-, rfl, rfl⟩ | ⟨after, -, rfl⟩ := snoc_eq_append_cons.1 heq
    · exact .inr ⟨rfl, h⟩
    · exact .inl ⟨before, after, rfl, h⟩
  · rintro (⟨before, after, rfl, h⟩ | ⟨rfl, h⟩)
    · exact ⟨before, after ++ [name], by simp, h⟩
    · exact ⟨names, [], rfl, h⟩

/-- **The registered tables**: the table of the statement, and for each word behind JOIN whose name
is not in use yet the first table that it leads to. -/
theorem mem_registeredFor_iff :
    u ∈ registeredFor env w t names ↔ u = t ∨ ∃ name, LeadsTo env w t names name u := by
  induction names using reverseRecOn with
  | nil => simp [registeredFor, LeadsTo]
  | append_singleton names name ih =>
    simp only [leadsTo_snoc_iff, exists_or, exists_eq_left, registeredFor_snoc]
    rw [← or_assoc, ← ih]
    split_ifs with hused
    · have hnot : ¬Unused env w t names name := by
        rintro ⟨htable, hwords⟩
        rcases exists_registeredFor_iff.1 hused with h | ⟨n, hn, hkey, hne⟩
        exacts [htable h, hne (hwords n hn hkey)]
      simp [hnot]
    · rw [exists_registeredFor_iff, not_or] at hused
      have hunused : Unused env w t names name :=
        ⟨hused.1, fun n hn hkey => by_contra fun hne => hused.2 ⟨n, hn, hkey, hne⟩⟩
      simp [hunused]

end Registered

/-! ### What a SELECT reads -/

/-- The table lies in the database and schema of the statement, and the session may read it. -/
def Readable (cat : Catalog) (security : SecurityContext) (s : ResolvedSelect) (t : TableMeta) :
    Prop :=
  cat.findTable s.db s.schema t.name = .ok t ∧
    cat.authorizeTable security s.db s.schema t.name .select = .ok ()

/-- The records of the tables say where they are stored. -/
def Placed (cat : Catalog) : Prop :=
  ∀ db schema, ∀ t ∈ cat.listTables db schema, t.dbId = db ∧ t.schemaId = schema

/-- A table that a word leads to is what the name means in the schema of the statement exactly if it
lies in that schema. -/
theorem findTable_joined_iff {w : World} (hplaced : Placed w.catalog) {db schema table : String}
    {t u : TableMeta} (ht : w.catalog.findTable db schema table = .ok t) {name : Str}
    (hu : u ∈ joinTables w name) : w.catalog.findTable db schema u.name = .ok u ↔
      u.dbId = t.dbId ∧ u.schemaId = t.schemaId := by
  obtain ⟨d, s, hd, hs, hfind⟩ := findTable_eq_ok_iff.1 ht
  obtain ⟨htdb, htschema⟩ := hplaced _ _ t (mem_of_find?_eq_some hfind)
  rw [findTable_eq_ok_iff, htdb, htschema]
  constructor
  · rintro ⟨d', s', hd', hs', hfind'⟩
    cases hd.symm.trans hd'
    cases hs.symm.trans hs'
    exact hplaced _ _ u (mem_of_find?_eq_some hfind')
  · rintro ⟨hdb, hschema⟩
    have huname := name_of_mem_joinTables hu
    obtain ⟨db', -, hdb'⟩ := mem_filterMap.1 (mem_filter.1 hu).1
    obtain ⟨schema', -, hfind'⟩ := exists_of_findSome?_eq_some hdb'
    obtain ⟨hudb, huschema⟩ := hplaced _ _ u (mem_of_find?_eq_some hfind')
    rw [← hudb, ← huschema, hdb, hschema] at hfind'
    have htest : (fun v : TableMeta => decide (text v.name = name)) =
        fun v => decide (v.name = u.name) := by
      funext v
      rw [huname, decide_eq_decide]
      constructor
      · rintro rfl
        exact String.ofList_toList.symm
      · intro h
        rw [h, text_ofList]
    exact ⟨d, s, hd, hs, htest ▸ hfind'⟩

/-- The names that are checked for a SELECT that the analyzer resolved are those of its FROM clause,
and one of them is the name of its table. -/
theorem mem_checked_iff {a : Analyzer} {projection : List SelectItem} {tables : List TableWithJoins}
    {s : ResolvedSelect} (hresolve : a.resolve (.select projection tables) = .ok (.select s))
    (hnames : ∀ n ∈ namesOf (fromRelations tables), n ≠ []) :
    s.table ∈ checked s ∧ ∀ name, name ∈ checked s ↔
      ∃ n ∈ namesOf (fromRelations tables), n.getLast? = some name := by
  obtain ⟨first, name, dependencies, hfirst, hrel, hdeps, heq⟩ := (resolve_select_iff a).1 hresolve
  cases heq
  have hmem := (collectTableFactor_spec (.derived (fromRelations tables))).mem_iff _ hdeps
  have hname := mem_namesOf_fromRelations hfirst hrel
  have hlast := getLast?_eq_some_getLast (hnames name hname)
  have htable : lastPart name ∈ dependencies :=
    (hmem _).2 ⟨name, hname, by rwa [lastPart_of_getLast? hlast]⟩
  have hne : dependencies ≠ [] := ne_nil_of_mem htable
  simp only [checked, if_neg hne]
  exact ⟨htable, hmem⟩

/-- An engine for queries of `t` without functions that shows no rows; a text with more than one
statement is no query. -/
def sampleEnv : SelectEnv where
  caseMap := asciiCaseMap
  alphanumeric := Char.isAlphanum
  engine sql tables :=
    if ';' ∈ sql.toList then .error "the context currently only supports a single SQL statement"
    else if tables.any (·.table.name = "t") then .ok [] else .error "table 't' not found"
  tableKey := id
  registerFunctions _ _ _ _ := .ok ()
  toResult _ := .rows ["a"] []
  openStream _ _ _ _ _ := .ok ⟨sampleTable, some []⟩
  removeStreamPreviewClause := id
  advanceStream w _ := (.ok (), w)
  readDirect _ _ _ := .ok (.rows ["a"] [])

/-- The table `e.s.u`. -/
def tableU : TableMeta := { sampleTable with id := 3, dbId := 2, schemaId := 2, name := "u" }

/-- The table `e.s.t`. -/
def tableT : TableMeta := { tableU with id := 2, name := "t" }

/-- The database `d` has a table `t`; the database `e` has a table `t` and the table `u`, and
belongs to role 5. -/
def borrowedCatalog : Catalog :=
  { oneRow.catalog with
    databases := oneRow.catalog.databases.insert 2 ⟨2, "e"⟩
    schemas := fun db => (∅ : OMap SchemaMeta).insert db ⟨db, db, "s"⟩
    tables := fun db schema =>
      if db = 1 ∧ schema = 1 then (∅ : OMap TableMeta).insert 1 sampleTable
      else if db = 2 ∧ schema = 2 then ((∅ : OMap TableMeta).insert 2 tableT).insert 3 tableU
      else ∅
    roles := fun r => some ⟨r, "R", r, rootUserId⟩
    owners := fun o => if o.objectId = 1 then none else some ⟨o, 5, rootUserId⟩ }

/-- The table `empty` has no micro-partitions, the others have one. -/
def borrowedName (empty : TableId) : World :=
  { oneRow with
    catalog := borrowedCatalog
    tableMps := fun t => if t = empty then ∅ else (∅ : OMap Unit).insert 7 () }

/-- A session of role 5. -/
def sessionOfFive : SecurityContext := { rootSession with primaryRoleId := 5 }

/-- `SELECT * FROM u JOIN t` in `e`. -/
def joinOfU : ResolvedSelect := ⟨"e", "s", "u", ["t", "u"], ["*"], none, none⟩

theorem resolve_joinOfU : { sampleAnalyzer with defaultDb := "e" }.resolve
    (.select [.wildcard] [⟨.table ["u"], [.table ["t"]]⟩]) = .ok (.select joinOfU) :=
  (resolve_select_iff _).2 ⟨_, ["u"], ["t", "u"], rfl, rfl, by decide +kernel, rfl⟩

theorem placed_borrowedCatalog : Placed borrowedCatalog := by
  intro db schema
  by_cases h1 : db = 1 ∧ schema = 1
  · obtain ⟨rfl, rfl⟩ := h1
    decide +kernel
  · by_cases h2 : db = 2 ∧ schema = 2
    · obtain ⟨rfl, rfl⟩ := h2
      decide +kernel
    · intro t ht
      obtain ⟨-, k, hk⟩ := OMap.mem_scan.1 ht
      simp [borrowedCatalog, h1, h2] at hk

/-- `NovaEngine`, over the keys of its result cache. -/
structure NovaEngine (K : Type) where
  parser : Parser
  /-- `Analyzer::new(current_db, "public")`. -/
  analyzer : String → Resolver
  env : SelectEnv
  /-- `security_cache_sql`, with the epoch of the state. -/
  securityCacheSql : Str → SecurityContext → World → Str
  /-- `QueryResultCache::key` of the normalized text. -/
  cacheKey : Str → List (TableId × ℕ) → K
  /-- `execute` of the scheduler, for what is not a SELECT. -/
  executeOther : SecurityContext → Resolved → World → Except NovaError QueryResult × World

/-- The raw text of a SELECT is the text of the call. -/
def injectRawSql (sql : Str) : Resolved → Resolved
  | .dml (.select s) => .dml (.select { s with rawSql := some (String.ofList sql) })
  | r => r

/-- `resolved_statement_uses_stream_state`. -/
def usesStreamState (w : World) : Resolved → Bool
  | .readStream .. | .systemStreamHasData .. => true
  | .dml (.select s) => (w.catalog.findStream s.db s.schema s.table).toOption.isSome
  | _ => false

namespace NovaEngine

variable {K : Type} (e : NovaEngine K) (db : String) (security : SecurityContext)

/-- The statements of a text. -/
def resolved (sql : Str) : Except NovaError (List Resolved) := do
  let stmts ← e.parser.parse sql
  stmts.mapM (e.analyzer db).resolve

/-- `execute` of the scheduler. -/
def execute : Resolved → World → Except NovaError QueryResult × World
  | .dml (.select s), w => executeSelect e.env security s w
  | r, w => e.executeOther security r w

/-- The statements one after another, up to the first error. -/
def runStatements : QueryResult → List Resolved → World → Except NovaError QueryResult × World
  | last, [], w => (.ok last, w)
  | _, r :: rs, w => match e.execute security r w with
    | (.error err, w') => (.error err, w')
    | (.ok q, w') => runStatements q rs w'

/-- If the statement is a SELECT that passes its checks, it is one of a table without
micro-partitions. -/
def AnswersUnread (r : Resolved) (w : World) : Prop :=
  ∀ s plan, r = .dml (.select s) → planSelect w.catalog security s = .ok plan →
    ∃ t, plan = .table t ∧ selectedMps w s t = []

/-- Whenever the statements reach a SELECT one after another, it is answered without its text. -/
def TextUnused : List Resolved → World → Prop
  | [], _ => True
  | r :: rs, w => AnswersUnread security r w ∧
      ∀ q w', e.execute security r w = (.ok q, w') → TextUnused rs w'

section Text

variable {e security} {w : World} {whole : Str} {sqls : List Str} {r : Resolved}
  {rs : List Resolved} {last : QueryResult}

/-- A statement that is answered without its text does the same with any text. -/
theorem execute_injectRawSql (own : Str) (h : AnswersUnread security (injectRawSql own r) w) :
    e.execute security (injectRawSql whole r) w = e.execute security (injectRawSql own r) w := by
  unfold injectRawSql at h ⊢
  split
  · next s =>
    have hplan : ∀ sql : Option String, planSelect w.catalog security { s with rawSql := sql } =
      planSelect w.catalog security s := fun _ => rfl
    simp only [execute, executeSelect, hplan]
    rcases hs : planSelect w.catalog security s with err | plan
    · rfl
    · obtain ⟨t, rfl, hmps⟩ := h _ plan rfl hs
      have hexec : ∀ sql : Option String, execSelect e.env w security { s with rawSql := sql } t =
          .ok (.rows (if "*" ∈ s.projection then t.columns.map (·.name) else s.projection) []) :=
        fun _ => if_pos hmps
      simp only [hexec]
  · rfl

/-- A statement that succeeds with a text that the query engine refuses is answered without it. -/
theorem answersUnread_of_ok (hrefused : ∀ tables, Refuses e.env whole tables) (own : Str)
    {q : QueryResult} (hok : (e.execute security (injectRawSql whole r) w).1 = .ok q) :
    AnswersUnread security (injectRawSql own r) w := by
  intro s' plan hr hplan
  unfold injectRawSql at hr hok
  split at hr
  · next s =>
    cases hr
    obtain ⟨t, ht, hmps, -⟩ := (executeSelect_refused_iff
      ⟨fun _ _ _ => hrefused _, fun _ _ => hrefused _⟩ q).1 hok
    cases hplan.symm.trans ht
    exact ⟨t, rfl, hmps⟩
  · next hother => exact absurd hr (hother s')

/-- Statements that are answered without their texts do the same with any text. -/
theorem runStatements_eq (hlen : sqls.length = rs.length)
    (h : e.TextUnused security (zipWith injectRawSql sqls rs) w) (last : QueryResult) :
    e.runStatements security last (rs.map (injectRawSql whole)) w =
      e.runStatements security last (zipWith injectRawSql sqls rs) w := by
  induction sqls generalizing rs w last with
  | nil =>
    obtain rfl := length_eq_zero_iff.1 hlen.symm
    rfl
  | cons sql sqls ih =>
    obtain _ | ⟨r, rs⟩ := rs
    · cases hlen
    · obtain ⟨hunread, hrest⟩ := h
      simp only [map_cons, zipWith_cons_cons, runStatements,
        execute_injectRawSql sql hunread]
      rcases hrun : e.execute security (injectRawSql sql r) w with ⟨_ | q, w'⟩
      · rfl
      · exact ih (Nat.succ.inj hlen) (hrest q w' hrun) q

/-- If the statements succeed with a text that the query engine refuses, none reads its text. -/
theorem textUnused_of_ok (hrefused : ∀ tables, Refuses e.env whole tables)
    (hlen : sqls.length = rs.length) {q : QueryResult}
    (hok : (e.runStatements security last (rs.map (injectRawSql whole)) w).1 = .ok q) :
    e.TextUnused security (zipWith injectRawSql sqls rs) w := by
  induction sqls generalizing rs w last with
  | nil => trivial
  | cons sql sqls ih =>
    obtain _ | ⟨r, rs⟩ := rs
    · trivial
    · simp only [map_cons, runStatements] at hok
      rcases hrun : e.execute security (injectRawSql whole r) w with ⟨err | q', w'⟩
      · simp [hrun] at hok
      · simp only [hrun] at hok
        have hunread := answersUnread_of_ok hrefused sql (congrArg Prod.fst hrun)
        refine ⟨hunread, fun q'' w'' hown => ?_⟩
        cases hrun.symm.trans ((execute_injectRawSql sql hunread).trans hown)
        exact ih (Nat.succ.inj hlen) hok

end Text

/-! ### The result cache -/

/-- `CachedResult`. -/
structure CachedResult where
  result : QueryResult
  tableVersions : List (TableId × ℕ)

/-- The entries of the `ResultCache`. -/
abbrev ResultCache (K : Type) := K → Option CachedResult

variable [DecidableEq K]

/-- `is_cacheable`. -/
def isCacheable (sql : Str) : Bool :=
  !(["CURRENT_TIMESTAMP", "CURRENT_DATE", "CURRENT_TIME", "NOW()", "RAND()", "RANDOM()", "UUID()",
    "SEQUENCE", "AUTO_INCREMENT"].any (contains (e.parser.caseMap.toUppercase sql)))

/-- `ResultCache::get`: a result without table versions is not handed out. -/
def cacheGet (cache : ResultCache K) (sql : Str) (tableVersions : List (TableId × ℕ)) :
    Option QueryResult :=
  if e.isCacheable sql then
    ((cache (e.cacheKey sql tableVersions)).filter (·.tableVersions ≠ [])).map (·.result)
  else none

/-- `ResultCache::put`: a result without table versions is not kept.  The entry that makes room in
a full cache is not modelled. -/
def cachePut (cache : ResultCache K) (sql : Str) (tableVersions : List (TableId × ℕ))
    (result : QueryResult) : ResultCache K :=
  if e.isCacheable sql ∧ tableVersions ≠ [] then
    Function.update cache (e.cacheKey sql tableVersions) (some ⟨result, tableVersions⟩)
  else cache

/-- The text starts with one of the keywords. -/
def begins (keywords : List String) (sql : Str) : Bool :=
  keywords.any (startsWith (e.parser.caseMap.toUppercase (trim sql)))

/-- `is_select`. -/
def isSelect : Str → Bool := e.begins ["SELECT"]

/-- `is_write`. -/
def isWrite : Str → Bool := e.begins ["INSERT", "UPDATE", "DELETE", "CREATE", "DROP"]

/-- Rows are put into the cache for a text, if there is one. -/
def cacheRows (cacheSql : Option Str) (q : QueryResult) (cache : ResultCache K) : ResultCache K :=
  match cacheSql, q with
  | some sql, .rows .. => e.cachePut cache sql [] q
  | _, _ => cache

/-- The loop of `execute_sql`. -/
def runAll (cacheSql : Option Str) : QueryResult → List Resolved → World × ResultCache K →
    Except NovaError QueryResult × World × ResultCache K
  | last, [], st => (.ok last, st)
  | _, r :: rs, (w, cache) => match e.execute security r w with
    | (.error err, w') => (.error err, w', cache)
    | (.ok q, w') => runAll cacheSql q rs (w', e.cacheRows cacheSql q cache)

/-- `execute_sql`, on a state and the result cache. -/
def executeSql (sql : Str) (st : World × ResultCache K) :
    Except NovaError QueryResult × World × ResultCache K :=
  match (e.resolved db sql).map (List.map (injectRawSql sql)) with
  | .error err => (.error err, st)
  | .ok rs =>
    -- the text for the cache, if `can_use_result_cache`
    let cacheSql := if e.isSelect sql ∧ rs.length = 1 ∧ ¬rs.any (usesStreamState st.1) then
      some (e.securityCacheSql sql security st.1) else none
    match cacheSql.bind fun sql => e.cacheGet st.2 sql [] with
    | some q => (.ok q, st)
    | none =>
      match e.runAll security cacheSql (.success (toString rs.length ++ " statement(s) executed"))
          rs st with
      | (.error err, st') => (.error err, st')
      | (.ok q, w', cache) => (.ok q, w', if e.isWrite sql then fun _ => none else cache)

/-- One call for each text, up to the first error. -/
def callsInTurn : List Str → World × ResultCache K →
    Except NovaError QueryResult × World × ResultCache K
  | [], st => (.ok (.success "0 statement(s) executed"), st)
  | [sql], st => e.executeSql db security sql st
  | sql :: sqls, st => match e.executeSql db security sql st with
    | (.error err, st') => (.error err, st')
    | (.ok _, st') => callsInTurn sqls st'

/-- The texts as one text. -/
def joined (sqls : List Str) : Str := List.intercalate (text "; ") sqls

variable {e db security} {cache : ResultCache K} {w : World} {sql : Str} {sqls : List Str}
  {rs : List Resolved} {last : QueryResult}

/-- A result without table versions is not kept. -/
theorem cacheRows_eq (cacheSql : Option Str) (q : QueryResult) :
    e.cacheRows cacheSql q cache = cache := by
  unfold cacheRows cachePut
  split <;> simp

/-- The loop leaves the cache as it is. -/
theorem runAll_eq (cacheSql : Option Str) : e.runAll security cacheSql last rs (w, cache) =
    ((e.runStatements security last rs w).1, (e.runStatements security last rs w).2, cache) := by
  induction rs generalizing w last with
  | nil => rfl
  | cons r rs ih =>
    rw [runAll, runStatements]
    rcases e.execute security r w with ⟨_ | q, w'⟩
    · rfl
    · simp only [cacheRows_eq]
      exact ih

/-- **An empty cache answers nothing and stays empty**: a call runs its statements. -/
theorem executeSql_eq (hrs : e.resolved db sql = .ok rs) :
    e.executeSql db security sql (w, fun _ => none) =
      let run := e.runStatements security (.success (toString rs.length ++
        " statement(s) executed")) (rs.map (injectRawSql sql)) w
      (run.1, run.2, fun _ => none) := by
  have hget : ∀ cacheSql : Option Str,
      (cacheSql.bind fun sql => e.cacheGet (fun _ => none) sql []) = none := by
    intro cacheSql
    cases cacheSql <;> simp [cacheGet]
  simp only [executeSql, hrs, Except.map, hget, runAll_eq, length_map]
  rcases e.runStatements security (.success (toString rs.length ++ " statement(s) executed"))
    (rs.map (injectRawSql sql)) w with ⟨_ | q, w'⟩
  · rfl
  · simp

/-- The calls run the statements, each with its own text. -/
theorem callsInTurn_eq (hsqls : sqls ≠ [])
    (hparts : List.Forall₂ (fun sql r => e.resolved db sql = .ok [r]) sqls rs)
      (last : QueryResult) :
    e.callsInTurn db security sqls (w, fun _ => none) =
      let run := e.runStatements security last (zipWith injectRawSql sqls rs) w
      (run.1, run.2, fun _ => none) := by
  induction hparts generalizing w last with
  | nil => exact absurd rfl hsqls
  | @cons sql r sqls rs hr hparts ih =>
    have hcall : e.executeSql db security sql (w, fun _ => none) = _ := executeSql_eq hr
    cases hparts with
    | nil =>
      rw [callsInTurn, hcall]
      rfl
    | cons hr' hparts' =>
      rw [callsInTurn, hcall]
      · simp only [map_cons, map_nil, zipWith_cons_cons, runStatements]
        rcases e.execute security (injectRawSql sql r) w with ⟨_ | q, w'⟩
        · rfl
        · exact ih (by simp) q
      · simp

/-- A reader of `COMMIT` and `SELECT a FROM t`. -/
def samplePart (sql : Str) : Except String Statement :=
  if sql = text "COMMIT" then .ok .commit
  else if sql = text "SELECT a FROM t" then
    .ok (.dml (.select [.identifier "a"] [⟨.table ["t"], []⟩]) [])
  else .error "unexpected token"

/-- A reader of texts with semicolons between the statements. -/
def sampleParser : Parser := ⟨asciiCaseMap, fun sql => (split sql (text "; ")).mapM samplePart⟩

/-- An engine for a parser. -/
def sample (parser : Parser) : NovaEngine Str where
  parser
  analyzer _ := sampleResolver
  env := sampleEnv
  securityCacheSql sql _ _ := sql
  cacheKey sql _ := sql
  executeOther _ _ w := (.ok (.success "OK"), w)

/-- The texts `COMMIT` and `SELECT a FROM t`. -/
def commitSelect : List Str := [text "COMMIT", text "SELECT a FROM t"]

end NovaEngine

/-! ### Time travel -/

/-- The text `q AT(TIMESTAMP => ts)`. -/
def timeTravelQuery (q : Str) (ts : Timestamp) : Str :=
  q ++ text " AT(TIMESTAMP => " ++ text (toString ts) ++ text ")"

section TimeTravel

variable {K : Type} (e : NovaEngine K) (w : World) (db : String)
  (security : SecurityContext) (q : Str) (ts : Timestamp) (t : TableMeta)

/-- The query at a timestamp is answered from the rows that the table had then. -/
def TimeTravelReads [DecidableEq K] : Prop :=
  ∃ batches,
    e.env.engine (String.ofList q) [w.sourceTable (t, w.mpsAtTimestamp t.id ts)] = .ok batches ∧
    (e.executeSql db security (timeTravelQuery q ts) (w, fun _ => none)).1 =
      .ok (e.env.toResult batches)

/-- The relation without a name is a table that the session may read and that has no
micro-partitions at the timestamp of the marker, and the right answer is no rows under the columns
of that table. -/
def AnsweredByNameless : Prop :=
  ∃ s nameless batches, s.table = "" ∧
    e.resolved db (timeTravelQuery q ts) = .ok [.dml (.select s)] ∧
    planSelect w.catalog security s = .ok (.table nameless) ∧ selectedMps w s nameless = [] ∧
    e.env.engine (String.ofList q) [w.sourceTable (t, w.mpsAtTimestamp t.id ts)] = .ok batches ∧
    e.env.toResult batches = .rows (nameless.columns.map (·.name)) []

/-- The query engine refuses a text over the table where no table of its name is registered, and the
text is given no such table: neither the relation without a name nor a word behind JOIN leads to
it. -/
structure OnlyFrom (sql : Str) : Prop where
  missing : ∀ tables, (∀ source ∈ tables, e.env.tableKey source.table.name ≠
    e.env.tableKey t.name) → Refuses e.env sql tables
  named : e.env.tableKey "" ≠ e.env.tableKey t.name
  stream : ∀ m, w.catalog.findStream (e.analyzer db).defaultDb (e.analyzer db).defaultSchema "" =
    .ok m → e.env.tableKey m.name ≠ e.env.tableKey t.name
  joined : ∀ name ∈ findJoinTables e.env sql [],
    e.env.tableKey (String.ofList name) ≠ e.env.tableKey t.name

variable {e w db security q ts t}

/-- The first statement of a text with the marker of time travel. -/
theorem resolved_timeTravel (hp : e.parser.ReadsMarkers) {sql : Str}
    (hform : e.parser.form sql = .timeTravel) {rs : List Resolved}
    (hrs : e.resolved db sql = .ok rs) : ∃ s more, rs = .dml (.select s) :: more ∧
      s.db = (e.analyzer db).defaultDb ∧ s.schema = (e.analyzer db).defaultSchema ∧
      s.table = "" ∧ s.projection = ["*"] := by
  obtain ⟨stmts, hparse, hmap⟩ := except_bind_eq_ok.1 hrs
  obtain ⟨prepared, hprepare, hfinish⟩ := except_bind_eq_ok.1 hparse
  rw [Parser.prepare, hform] at hprepare
  obtain ⟨before, afterArrow, -, rfl⟩ := (parseTimeTravel_eq_ok_iff e.parser).1 hprepare
  rcases hread : e.parser.parseSql (timeTravelText before afterArrow) with err | read
  · simp only [Parser.finish, Prepared.fake, hread] at hfinish
    cases hfinish
  · simp only [Parser.finish, Prepared.fake, hread, Patch.none_apply, Except.ok.injEq] at hfinish
    obtain ⟨ident, parts, names, more, rfl, rest, hident⟩ := hp.drop _ _ _ hread
    subst hfinish
    obtain _ | ⟨hfirst, -⟩ := mapM_eq_ok_iff.1 hmap
    have hname : text (dropName ((ident :: parts) :: names)) =
      text Resolver.DropMarker.timeTravel.start ++ rest := hident.symm
    rw [resolve_marked _ hname] at hfirst
    cases hfirst
    exact ⟨_, _, rfl, rfl, rfl, rfl, rfl⟩

/-- The text is refused for a SELECT of the relation without a name. -/
theorem OnlyFrom.refusedFor {sql : Str} (honly : OnlyFrom e w db t sql) {s : ResolvedSelect}
    (hdb : s.db = (e.analyzer db).defaultDb) (hschema : s.schema = (e.analyzer db).defaultSchema)
    (htable : s.table = "") : RefusedFor e.env w security s sql := by
  refine ⟨fun m source hplan => ?_, fun nameless hplan => ?_⟩
  · have hm := planSelect_stream hplan
    rw [hdb, hschema, htable] at hm
    exact honly.missing _ (by simpa [streamTable] using honly.stream m hm)
  · obtain ⟨_, _, -, -, hfound⟩ := findTable_eq_ok_iff.1 (planSelect_table hplan).1
    have hname : nameless.name = "" := by simpa [htable] using find?_some hfound
    refine honly.missing _ (forall_mem_map.2 fun u hu => ?_)
    rw [registered, hname] at hu
    rcases mem_registeredFor_iff.1 hu with rfl | ⟨name, before, after, heq, -, hhead⟩
    · rw [World.sourceTable, hname]
      exact honly.named
    · rw [World.sourceTable, name_of_mem_joinTables (mem_of_mem_head? hhead)]
      refine honly.joined name ?_
      rw [show findJoinTables e.env sql [] = _ from heq]
      exact mem_append_right _ mem_cons_self

end TimeTravel

end NovaCore.Sql

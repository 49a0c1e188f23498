import NovaCore.Sql.Parser
import NovaCore.Sql.Where
import NovaCore.Data.Separators

/-!
# What is assumed of `sqlparser`

The parser writes statements that the SQL grammar does not have as a CREATE TABLE or DROP TABLE
whose name is a marker.  The results about such statements need to know how `sqlparser` reads these
texts and nothing else about it:

* a text that starts like a CREATE TABLE is read as one or refused;
* a text that drops a table whose name starts with a marker is read as that or refused;
* a word of letters, digits and underscores is read as a name if it does not start with a digit.

## Main definitions

* `IsWord`, `IsName` : words, and words that are names.
* `Parser.ReadsMarkers` : the assumptions.
* `minimalParser` : a reader of exactly these texts, for which the assumptions hold.
-/

namespace NovaCore.Sql

open Str Resolver List Option
open String (ofList)

/-! ### Words -/

/-- Letters, digits and underscores. -/
def isWordChar (c : Char) : Bool := c.isAlphanum || c = '_'

variable (w : Str)

/-- A word of letters, digits and underscores. -/
structure IsWord : Prop where
  ne_nil : w ≠ []
  chars : ∀ c ∈ w, isWordChar c = true

/-- The text starts with a digit; `sqlparser` reads a number. -/
def startsWithDigit : Bool := (w.head?.map Char.isDigit).getD false

/-- A word that is a name. -/
structure IsName : Prop extends IsWord w where
  not_digit : startsWithDigit w = false

instance (w : Str) : Decidable (IsWord w) :=
  decidable_of_iff (w ≠ [] ∧ ∀ c ∈ w, isWordChar c = true)
    ⟨fun h => ⟨h.1, h.2⟩, fun h => ⟨h.ne_nil, h.chars⟩⟩

instance (w : Str) : Decidable (IsName w) :=
  decidable_of_iff (IsWord w ∧ startsWithDigit w = false)
    ⟨fun h => ⟨h.1, h.2⟩, fun h => ⟨h.toIsWord, h.not_digit⟩⟩

/-- Words put together. -/
theorem IsWord.append {v w : Str} (hv : IsWord v) (hw : ∀ c ∈ w, isWordChar c = true) :
    IsWord (v ++ w) := by
  refine ⟨by simp [hv.ne_nil], fun c hc => ?_⟩
  rcases mem_append.1 hc with hc | hc
  · exact hv.chars c hc
  · exact hw c hc

theorem IsName.append {v w : Str} (hv : IsName v) (hw : ∀ c ∈ w, isWordChar c = true) :
    IsName (v ++ w) := by
  refine ⟨hv.toIsWord.append hw, ?_⟩
  obtain ⟨c, v, rfl⟩ := exists_cons_of_ne_nil hv.ne_nil
  exact hv.not_digit

/-! ### Texts that are handed to `sqlparser` -/

/-- The columns of a clone. -/
def cloneColumns : Str := text " (__clone_source__ VARCHAR, __clone_ts__ VARCHAR)"

/-- The column of a stream. -/
def streamColumns : Str := text " (__stream_name__ VARCHAR)"

/-- The column of a dynamic table, with the query in its comment. -/
def queryColumns (query : Str) : Str :=
  text " (__dt_query__ VARCHAR COMMENT '" ++ query ++ text "')"

/-- How `sqlparser` reads the texts that carry markers. -/
structure Parser.ReadsMarkers (p : Parser) : Prop where
  create : ∀ rest stmts, p.parseSql (text "CREATE TABLE " ++ rest) = .ok stmts →
    ∃ name columns more, stmts = .createTable name columns :: more
  drop : ∀ (m : DropMarker) rest stmts,
    p.parseSql (text "DROP TABLE " ++ (text m.start ++ rest)) = .ok stmts →
      ∃ ident parts names more, stmts = .drop .table ((ident :: parts) :: names) :: more ∧
        text m.start <+: text ident
  dropName : ∀ w, IsName w →
    p.parseSql (text "DROP TABLE " ++ w) = .ok [.drop .table [[String.ofList w]]]
  createClone : ∀ w, IsName w → p.parseSql (text "CREATE TABLE " ++ w ++ cloneColumns) =
    .ok [.createTable [String.ofList w]
      [⟨"__clone_source__", "VARCHAR", []⟩, ⟨"__clone_ts__", "VARCHAR", []⟩]]
  createStream : ∀ w, IsName w → p.parseSql (text "CREATE TABLE " ++ w ++ streamColumns) =
    .ok [.createTable [String.ofList w] [⟨"__stream_name__", "VARCHAR", []⟩]]
  createQuery : ∀ w query, IsName w → '\'' ∉ query →
    p.parseSql (text "CREATE TABLE " ++ w ++ queryColumns query) =
      .ok [.createTable [String.ofList w]
        [⟨"__dt_query__", "VARCHAR", [.comment (String.ofList query)]⟩]]
  /-- A number is no name. -/
  createDigit : ∀ w rest, startsWithDigit w = true →
    ∃ e, p.parseSql (text "CREATE TABLE " ++ w ++ rest) = .error e

/-- The statements that are read from the text that is handed on. -/
theorem Parser.parse_of_prepare {p : Parser} {sql handed : Str} {patch : Patch} {context : String}
    {stmts : List Statement} (hprepare : p.prepare sql = .ok (.sql handed patch context))
    (hread : p.parseSql handed = .ok stmts) : p.parse sql = .ok (patch.apply stmts) :=
  except_bind_eq_ok.2 ⟨_, hprepare, by rw [finish, hread]⟩

theorem Patch.none_apply (stmts : List Statement) : Patch.none.apply stmts = stmts := by
  rcases stmts with _ | ⟨stmt, stmts⟩
  · rfl
  · cases stmt <;> rfl

/-- The statements that are read from the text if nothing is patched. -/
theorem Parser.parse_of_prepare_fake {p : Parser} {sql handed : Str} {stmts : List Statement}
    (hprepare : p.prepare sql = .ok (.fake handed)) (hread : p.parseSql handed = .ok stmts) :
    p.parse sql = .ok stmts := by
  rw [parse_of_prepare hprepare hread, Patch.none_apply]

/-! ### Clones -/

theorem not_isPrefix_append {s t : Str} (h : ¬s <+: t) (h' : ¬t <+: s) (rest : Str) :
    ¬s <+: t ++ rest := by
  intro hpre
  rcases prefix_or_prefix_of_prefix hpre (prefix_append t rest) with hst | hts
  · exact h hst
  · exact h' hts

/-- The analysis of the name that a clone is written into; the name of the new table may be taken
for a marker itself. -/
theorem resolve_cloned {a : Resolver} {name source : Str} {columns : List ColumnDef} :
    a.resolve (.createTable [ofList name, ofList (text "__CLONE__" ++ source)] columns) =
      .ok (if text "__dt_" <+: name then a.resolveDynamicTable (ofList name) columns
        else .createClone a.defaultDb a.defaultSchema (ofList name) (ofList
          (if text "__CLONE__" <+: name then name.drop (text "__CLONE__").length else
            source))) := by
  have hname : text (ofList name) = name := text_ofList name
  have hmarker : text (ofList (text "__CLONE__" ++ source)) = text "__CLONE__" ++ source :=
    text_ofList _
  have hdt : ¬text "__dt_" <+: text "__CLONE__" ++ source :=
    not_isPrefix_append (by decide) (by decide) source
  rw [resolve, resolveCreateTable]
  by_cases hn : text "__dt_" <+: name
  · rw [marked?, find?_cons_of_pos (by rw [hname]; exact decide_eq_true hn), if_pos hn]
  · have hfirst : marked? "__dt_"
        [ofList name, ofList (text "__CLONE__" ++ source)] = none := by
      rw [marked?, find?_eq_none]
      simp only [mem_cons, not_mem_nil, or_false, forall_eq_or_imp, forall_eq, hname,
        hmarker, decide_eq_true_eq]
      exact ⟨hn, hdt⟩
    rw [hfirst, if_neg hn]
    by_cases hc : text "__CLONE__" <+: name
    · rw [marked?, find?_cons_of_pos (by rw [hname]; exact decide_eq_true hc), if_pos hc]
      dsimp only
      rw [hname]
      rfl
    · rw [marked?, find?_cons_of_neg (by rw [hname, decide_eq_true_eq]; exact hc),
        find?_cons_of_pos (by rw [hmarker]; exact decide_eq_true (prefix_append _ _)),
        if_neg hc]
      dsimp only
      rw [hmarker]
      rfl

/-! ### A reader of these texts -/

/-- The columns that a text lists. -/
def readColumns? (s : Str) : Option (List ColumnDef) :=
  if s = cloneColumns then
    some [⟨"__clone_source__", "VARCHAR", []⟩, ⟨"__clone_ts__", "VARCHAR", []⟩]
  else if s = streamColumns then some [⟨"__stream_name__", "VARCHAR", []⟩]
  else do
    let rest ← strip? s (text " (__dt_query__ VARCHAR COMMENT '")
    let (query, close) ← splitOnce? rest ['\'']
    if close = [')'] then
      return [⟨"__dt_query__", "VARCHAR", [.comment (String.ofList query)]⟩]
    else none

/-- Read a CREATE TABLE or DROP TABLE of a word. -/
def readTable (s : Str) : Except String (List Statement) :=
  match strip? s (text "DROP TABLE ") with
  | some w =>
    if IsName w then .ok [.drop .table [[String.ofList w]]] else .error "expected an identifier"
  | none => match strip? s (text "CREATE TABLE ") with
    | none => .error "expected CREATE TABLE or DROP TABLE"
    | some rest =>
      let w := rest.takeWhile isWordChar
      if IsName w then match readColumns? (rest.dropWhile isWordChar) with
        | some columns => .ok [.createTable [String.ofList w] columns]
        | none => .error "expected columns"
      else .error "expected an identifier"

/-- Upper case for ASCII alone. -/
def asciiCaseMap : CaseMap := ⟨fun c => [c.toUpper], fun _ _ => rfl⟩

/-- A parser that only reads CREATE TABLE and DROP TABLE of a word. -/
def minimalParser : Parser := ⟨asciiCaseMap, readTable⟩

theorem strip?_append (s t : Str) : strip? (s ++ t) s = some t := by
  rw [strip?, if_pos (prefix_append s t), drop_left]

theorem readTable_drop : readTable (text "DROP TABLE " ++ w) =
    if IsName w then .ok [.drop .table [[ofList w]]] else .error "expected an identifier" := by
  rw [readTable, strip?_append]

theorem readTable_create (rest : Str) : readTable (text "CREATE TABLE " ++ rest) =
    if IsName (rest.takeWhile isWordChar) then
      match readColumns? (rest.dropWhile isWordChar) with
      | some columns => .ok [.createTable [ofList (rest.takeWhile isWordChar)] columns]
      | none => .error "expected columns"
    else .error "expected an identifier" := by
  have hdrop : strip? (text "CREATE TABLE " ++ rest) (text "DROP TABLE ") = none := by
    refine if_neg ?_
    rintro ⟨after, hafter⟩
    have hhead : some 'D' = some 'C' := congrArg head? hafter
    exact absurd hhead (by decide)
  rw [readTable, hdrop]
  rw [strip?_append]

/-- A word is read up to the columns. -/
theorem readTable_create_name {w : Str} (hw : IsName w) {columnsText : Str}
    (hcolumns : columnsText.head? = some ' ') :
    readTable (text "CREATE TABLE " ++ w ++ columnsText) =
      match readColumns? columnsText with
      | some columns => .ok [.createTable [ofList w] columns]
      | none => .error "expected columns" := by
  obtain ⟨rest, rfl⟩ : ∃ rest, columnsText = ' ' :: rest := by
    cases columnsText with
    | nil => cases hcolumns
    | cons c rest =>
      cases hcolumns
      exact ⟨rest, rfl⟩
  have htake : (w ++ ' ' :: rest).takeWhile isWordChar = w := by
    rw [takeWhile_append_of_pos hw.chars]
    simp [isWordChar]
  have hdrop : (w ++ ' ' :: rest).dropWhile isWordChar = ' ' :: rest := by
    rw [dropWhile_append_of_pos hw.chars]
    rfl
  rw [append_assoc, readTable_create, htake, hdrop, if_pos hw]

theorem readColumns?_queryColumns {query : Str} (h : '\'' ∉ query) :
    readColumns? (queryColumns query) =
      some [⟨"__dt_query__", "VARCHAR", [.comment (ofList query)]⟩] := by
  have hfifth : (queryColumns query)[4]? = some 'd' := rfl
  have hclone : queryColumns query ≠ cloneColumns := by
    intro heq
    rw [heq] at hfifth
    exact absurd hfifth (by decide)
  have hstream : queryColumns query ≠ streamColumns := by
    intro heq
    rw [heq] at hfifth
    exact absurd hfifth (by decide)
  have hquote : splitOnce? (query ++ text "')") ['\''] = some (query, [')']) := by
    refine (splitOnce?_eq_some_iff (by decide)).2 ⟨by simp [text], ?_⟩
    exact safeBefore_of_notMem h
  have hstrip : strip? (queryColumns query) (text " (__dt_query__ VARCHAR COMMENT '") =
      some (query ++ text "')") := by
    unfold queryColumns
    exact strip?_append _ _
  unfold readColumns?
  rw [if_neg hstream, hstrip]
  dsimp only [bind_eq_bind, bind_some]
  rw [hquote]
  dsimp only [bind_some]
  rfl

theorem minimalParser_readsMarkers : minimalParser.ReadsMarkers where
  create rest stmts h := by
    replace h : readTable (text "CREATE TABLE " ++ rest) = .ok stmts := h
    rw [readTable_create] at h
    split_ifs at h
    split at h
    · cases h
      exact ⟨_, _, [], rfl⟩
    · cases h
  drop m rest stmts h := by
    replace h : readTable (text "DROP TABLE " ++ (text m.start ++ rest)) = .ok stmts := h
    rw [readTable_drop] at h
    split_ifs at h
    cases h
    refine ⟨_, [], [], [], rfl, ?_⟩
    rw [text_ofList]
    exact prefix_append _ _
  dropName w hw := (readTable_drop w).trans (if_pos hw)
  createClone w hw := readTable_create_name hw (by decide)
  createStream w hw := readTable_create_name hw (by decide)
  createQuery w query hw hquery := by
    refine (readTable_create_name hw rfl).trans ?_
    rw [readColumns?_queryColumns hquery]
  createDigit w rest hdigit := by
    cases w with
    | nil => cases hdigit
    | cons c w =>
      replace hdigit : c.isDigit = true := hdigit
      have hword : isWordChar c = true := by simp [isWordChar, Char.isAlphanum, hdigit]
      have hname : ¬IsName ((c :: (w ++ rest)).takeWhile isWordChar) := by
        rw [takeWhile_cons_of_pos hword]
        intro hname
        have hnot : c.isDigit = false := hname.not_digit
        rw [hdigit] at hnot
        cases hnot
      refine ⟨"expected an identifier", ?_⟩
      exact (readTable_create _).trans (if_neg hname)

end NovaCore.Sql

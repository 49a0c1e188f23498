import NovaCore.Sql.Grammar
import NovaCore.Sql.Names
import NovaCore.Sql.Panics

/-!
# Standard statements that are taken for extensions

`SqlParser::parse` looks for the keywords of its own statements with `contains` on the whole text,
so also inside quotes, and the analyzer recognizes its markers in any table name.  A SELECT, INSERT,
UPDATE, DELETE or DROP TABLE with such a keyword in a literal, or with such a name, may become a
clone, a read of a stream, a time travel, a garbage collection and so on.

Three keywords are looked for anywhere: ` CLONE `, ` WITH (COMMIT` in a SELECT, and ` AT(TIMESTAMP`.
The others must stand at the start of the text, where they are not inside quotes.

## Main definitions

* `Kept` : parsing and resolving fails, or yields the same kind of statement on the same tables.
* `Form.AtStart` : the forms that are recognized by the first words of the text.
* `Parser.KeepsForm` : when a statement whose text has a form is kept.

## Main results

* `decodeHexPayload_hexPayload` : payloads are decoded to what was encoded.
* `streamPreview_roundTrip` : the marker of a read of a stream is decoded to what was encoded.
* `standard_kept_iff` : **when a standard statement is kept.**
-/

namespace NovaCore.Sql

open Str Resolver DropMarker String Bool

/-! ### Standard statements -/

/-- The statement without the tables that it names in subqueries. -/
def Statement.main : Statement → Statement
  | .dml stmt _ => .dml stmt []
  | stmt => stmt

/-- A SELECT of an earlier state, which standard SQL does not have. -/
def Resolved.IsTimeTravel : Resolved → Prop
  | .dml (.select s) => s.atTimestamp ≠ none
  | _ => False

/-- What a text resolves to is the statement that the SQL grammar reads: of the same kind, on the
same tables. -/
def Resolver.IsSame (a : Resolver) (stmt : Statement) (r : Resolved) : Prop :=
  ¬r.IsTimeTravel ∧ a.ActsOnNamed stmt.main r

variable (p : Parser)

/-- Parsing and resolving the text returns errors or the statement that the SQL grammar reads. -/
def Kept (a : Resolver) (sql : Str) (stmt : Statement) : Prop :=
  ParsingReturns p a sql ∧ ∀ stmts, p.parse sql = .ok stmts →
    ∀ s ∈ stmts, Yields (a.resolve s) (a.IsSame stmt)

/-- The forms that are recognized by the first words of the text. -/
def Form.AtStart : Form → Prop
  | .clone | .streamRead | .timeTravel | .plain => False
  | _ => True

/-! ### When a statement is kept -/

/-- The words before and after the first CLONE. -/
def CloneOf (words : List Str) (newTable source : Str) : Prop :=
  5 ≤ words.length ∧ ∃ before, wordPosition words "CLONE" = some (before + 1) ∧
    words[before]? = some newTable ∧ words[before + 2]? = some source

/-- The text that is handed to `sqlparser` for time travel. -/
def timeTravelText (before afterArrow : Str) : Str :=
  text "DROP TABLE " ++ (text DropMarker.timeTravel.start ++
    (text (toString (Parser.timestampOf afterArrow)) ++ text "__" ++
      replace (trimEndMatches (· = ',') (trimEndMatches isWhitespace before)) ' ' '_'))

namespace Parser

variable (p : Parser)

/-- `sqlparser` refuses the text. -/
def Refuses (sql : Str) : Prop := ∃ e, p.parseSql sql = .error e

/-- The texts before AT(TIMESTAMP and after the arrow that follows it. -/
def TimeTravelOf (sql before afterArrow : Str) : Prop :=
  ∃ atPos after beforeArrow, find? (p.caseMap.toUppercase sql) (text "AT(TIMESTAMP") = some atPos ∧
    splitAt? sql atPos = some (before, after) ∧
    splitOnce? after (text "=>") = some (beforeArrow, afterArrow)

/-- A text that is taken for a clone is refused, without a panic. -/
def RefusesClone (sql : Str) : Prop :=
  p.Sliceable sql .clone ∧ ∀ newTable source, CloneOf (splitWhitespace sql) newTable source →
    p.Refuses (text "CREATE TABLE " ++ trimSemicolons newTable ++ cloneColumns)

/-- When a standard statement whose trimmed text has the form is kept. -/
def KeepsForm (a : Resolver) (sql : Str) (stmt : Statement) : Form → Prop
  | .clone => p.RefusesClone sql
  | .streamRead => extractSelectFromRelation sql = none ∨
      (contains (p.caseMap.toUppercase sql) "COMMIT = FALSE" = false ∧
        contains (p.caseMap.toUppercase sql) "COMMIT=FALSE" = false)
  | .timeTravel => p.Sliceable sql .timeTravel ∧ ∀ before afterArrow,
      p.TimeTravelOf sql before afterArrow → p.Refuses (timeTravelText before afterArrow)
  | _ => (stmt.Rejected a ∧ stmt.HexSafe) ∨ a.Exact stmt.main

end Parser

/-! ### Payloads -/

variable (b : UInt8)

theorem hexByte?_hexChars : hexByte? (hexChars b) = some b.toNat :=
  forall_byte (P := fun b => hexByte? (hexChars b) = some b.toNat) (by decide +kernel) b

theorem byteLen_hexChars : byteLen (hexChars b) = 2 :=
  forall_byte (P := fun b => byteLen (hexChars b) = 2) (by decide +kernel) b

theorem isWordChar_of_mem_hexChars : ∀ c ∈ hexChars b, isWordChar c = true ∧ c ≠ '_' :=
  forall_byte (P := fun b => ∀ c ∈ hexChars b, isWordChar c = true ∧ c ≠ '_') (by decide +kernel) b

theorem hexPairs_flatMap (bs : Bytes) : hexPairs bs.length (bs.flatMap hexChars) = .ok bs := by
  induction bs with
  | nil => rfl
  | cons b bs ih =>
    have hcut : splitAt? (hexChars b ++ bs.flatMap hexChars) 2 =
        some (hexChars b, bs.flatMap hexChars) := by
      rw [← byteLen_hexChars b]
      exact splitAt?_append _ _
    rw [List.length_cons, hexPairs, List.flatMap_cons, hcut]
    simp only [hexByte?_hexChars, ih, Except.map, UInt8.ofNat_toNat]

theorem byteLen_flatMap_hexChars (bs : Bytes) : byteLen (bs.flatMap hexChars) = 2 * bs.length := by
  induction bs with
  | nil => rfl
  | cons b bs ih =>
    rw [List.flatMap_cons, byteLen_append, byteLen_hexChars, ih, List.length_cons]
    ring

/-- Payloads are decoded to what was encoded. -/
theorem decodeHexPayload_hexPayload (s : Str) :
    decodeHexPayload (hexPayload s) = .ok (ofList s) := by
  have hlen := byteLen_flatMap_hexChars (utf8 (ofList s))
  rw [decodeHexPayload, hexPayload, hlen, if_neg (by simp), Nat.mul_div_cancel_left _ (by decide)]
  refine except_bind_eq_ok.2 ⟨_, hexPairs_flatMap _, ?_⟩
  rw [ofUtf8_utf8]

theorem isWordChar_of_mem_hexPayload {s : Str} {c : Char} (hc : c ∈ hexPayload s) :
    isWordChar c = true ∧ c ≠ '_' := by
  obtain ⟨b, -, hb⟩ := List.mem_flatMap.1 hc
  exact isWordChar_of_mem_hexChars b c hb

theorem notMem_hexPayload {s : Str} : '_' ∉ hexPayload s :=
  fun hmem => (isWordChar_of_mem_hexPayload hmem).2 rfl

/-! ### The text itself -/

theorem resolve_main (a : Resolver) (stmt : Statement) : a.resolve stmt.main = a.resolve stmt := by
  cases stmt <;> rfl

theorem main_kind? (stmt : Statement) : stmt.main.kind? = stmt.kind? := by
  cases stmt with
  | dml s elsewhere => cases s <;> rfl
  | _ => rfl

theorem main_rejected_iff (a : Resolver) (stmt : Statement) :
    stmt.main.Rejected a ↔ stmt.Rejected a := by
  cases stmt with
  | dml s elsewhere => cases s <;> rfl
  | _ => rfl

theorem Resolved.kind?_of_isTimeTravel {r : Resolved} (h : r.IsTimeTravel) :
    r.kind? = some .select := by
  unfold IsTimeTravel at h
  split at h
  · rfl
  · cases h

variable {stmt : Statement} {a : Resolver} {sql : Str} {k : Kind} {prepared : Prepared}

/-- A statement that acts on what it names is no time travel. -/
theorem not_isTimeTravel {r : Resolved} (hr : a.resolve stmt = .ok r)
    (hnamed : a.ActsOnNamed stmt.main r) : ¬r.IsTimeTravel := by
  intro htravel
  have hkind := hnamed.kind
  rw [Resolved.kind?_of_isTimeTravel htravel] at hkind
  cases stmt with
  | dml s elsewhere =>
    cases s with
    | select projection tables =>
      obtain ⟨_, hresolved, rfl⟩ := resolve_dml_iff.1 hr
      obtain ⟨_, _, _, -, -, -, rfl⟩ := (resolve_select_iff _).1 hresolved
      exact htravel rfl
    | queryOther => cases hr
    | _ => cases hkind
  | _ => cases hkind

theorem hexSafe_of_exact (h : a.Exact stmt.main) : stmt.HexSafe := by
  cases stmt with
  | drop objectType names =>
    intro m hm
    rw [h.1] at hm
    cases hm
  | _ => trivial

/-- A statement that `sqlparser` reads from the text itself. -/
theorem kept_plain_iff {p : Parser} (hkind : stmt.kind? = some k)
    (hparse : p.parse sql = .ok [stmt]) :
    Kept p a sql stmt ↔ (stmt.Rejected a ∧ stmt.HexSafe) ∨ a.Exact stmt.main := by
  have hsome : stmt.main.kind?.isSome = true := by rw [main_kind?, hkind]; rfl
  obtain ⟨hok, hacts⟩ := outcome (a := a) stmt.main hsome
  rw [resolve_main, main_rejected_iff] at hok
  rw [resolve_main] at hacts
  constructor
  · rintro ⟨⟨-, hreturns⟩, hsame⟩
    by_cases hrej : stmt.Rejected a
    · exact .inl ⟨hrej, resolve_noPanic_iff.1 (hreturns _ hparse stmt (by simp))⟩
    · obtain ⟨r, hr⟩ := hok.2 hrej
      exact .inr ((hacts r hr).1 (hsame _ hparse stmt (by simp) r hr).2)
  · intro h
    have hhex : stmt.HexSafe := h.elim And.right hexSafe_of_exact
    refine ⟨⟨by rw [hparse]; exact noPanic_ok, ?_⟩, ?_⟩
    · intro stmts hstmts s hs
      rw [hparse] at hstmts
      cases hstmts
      rw [List.mem_singleton.1 hs]
      exact resolve_noPanic_iff.2 hhex
    · intro stmts hstmts s hs
      rw [hparse] at hstmts
      cases hstmts
      rw [List.mem_singleton.1 hs]
      intro r hr
      have hexact := h.resolve_left fun hrej => hok.1 ⟨r, hr⟩ hrej.1
      have hnamed := (hacts r hr).2 hexact
      exact ⟨not_isTimeTravel hr hnamed, hnamed⟩

/-! ### Rewritten texts -/

theorem not_isSame_of_kind? {r : Resolved} (hkind : stmt.kind? = some k) (hr : r.kind? = none) :
    ¬a.IsSame stmt r := by
  intro h
  have heq := h.2.kind
  rw [hr, main_kind?, hkind] at heq
  cases heq

/-- The text that is handed to `sqlparser` is refused, or read as something else. -/
def Parser.Changes (a : Resolver) (stmt : Statement) : Prepared → Prop
  | .sql handed patch _ => ∀ stmts, p.parseSql handed = .ok stmts →
      ∃ s ∈ patch.apply stmts, ∃ r, a.resolve s = .ok r ∧ ¬a.IsSame stmt r
  | .statements _ => False

/-- A text that is rewritten to something else is kept if the new text is refused. -/
theorem kept_rewritten_iff {p : Parser} (h : Yields (p.prepare sql) (p.Changes a stmt)) :
    Kept p a sql stmt ↔ p.Sliceable (trim sql) (p.form sql) ∧ ∀ handed patch context,
      p.prepare sql = .ok (.sql handed patch context) → p.Refuses handed := by
  constructor
  · rintro ⟨⟨hparse, -⟩, hsame⟩
    refine ⟨(p.noPanic_parse_iff sql).1 hparse, fun handed patch context hprepare => ?_⟩
    rcases hread : p.parseSql handed with e | stmts
    · exact ⟨e, hread⟩
    · obtain ⟨s, hs, r, hr, hnot⟩ := h _ hprepare stmts hread
      exact absurd (hsame _ (Parser.parse_of_prepare hprepare hread) s hs r hr) hnot
  · rintro ⟨hslice, hrefuses⟩
    have hfails : ∀ stmts, p.parse sql ≠ .ok stmts := by
      intro stmts hparse
      obtain ⟨prepared, hprepare, hfinish⟩ := except_bind_eq_ok.1 hparse
      have hchanges := h _ hprepare
      cases prepared with
      | statements built => exact hchanges
      | sql handed patch context =>
        obtain ⟨e, he⟩ := hrefuses _ _ _ hprepare
        rw [Parser.finish, he] at hfinish
        cases hfinish
    exact ⟨⟨(p.noPanic_parse_iff sql).2 hslice, fun stmts hparse => absurd hparse (hfails stmts)⟩,
      fun stmts hparse => absurd hparse (hfails stmts)⟩

/-! ### Clones -/

theorem parseClone_eq_ok_iff : Parser.parseClone sql = .ok prepared ↔ ∃ newTable source,
      CloneOf (splitWhitespace sql) newTable source ∧
        prepared = .sql (text "CREATE TABLE " ++ trimSemicolons newTable ++ cloneColumns)
          (.clone (trimSemicolons source)) "" := by
  have hindex : ∀ (words : List Str) (i : ℕ) (w : Str),
      index words i = .ok w ↔ words[i]? = some w := by
    intro words i w
    rw [index]
    rcases words[i]? with _ | v <;> simp
  rw [Parser.parseClone]
  split_ifs with hlen
  · refine iff_of_false (by rintro ⟨⟩) ?_
    rintro ⟨_, _, ⟨hlen', -⟩, -⟩
    omega
  · rcases hpos : wordPosition (splitWhitespace sql) "CLONE" with _ | _ | before
    iterate 2
      · refine iff_of_false (by rintro ⟨⟩) ?_
        rintro ⟨_, _, ⟨-, before, hbefore, -⟩, -⟩
        rw [hpos] at hbefore
        cases hbefore
    · simp only [except_bind_eq_ok, hindex]
      constructor
      · rintro ⟨newTable, hnew, source, hsource, ⟨⟩⟩
        exact ⟨newTable, source, ⟨by omega, before, hpos, hnew, hsource⟩, rfl⟩
      · rintro ⟨newTable, source, ⟨-, before', hbefore, hnew, hsource⟩, rfl⟩
        rw [hpos] at hbefore
        cases hbefore
        exact ⟨newTable, hnew, source, hsource, rfl⟩

/-- A CREATE TABLE with a marker is none of the standard statements. -/
theorem changes_clone {p : Parser} (hp : p.ReadsMarkers) (hkind : stmt.kind? = some k) (sql : Str) :
    Yields (Parser.parseClone sql) (p.Changes a stmt) := by
  intro prepared h
  obtain ⟨newTable, source, -, rfl⟩ := parseClone_eq_ok_iff.1 h
  intro stmts hread
  obtain ⟨name, columns, more, rfl⟩ := hp.create _ _ hread
  have hmarked : ¬Unmarked (name ++ [ofList (text "__CLONE__" ++ trimSemicolons source)]) := by
    rintro ⟨-, hclone, -⟩
    have hpre : text "__CLONE__" <+: text (ofList (text "__CLONE__" ++ trimSemicolons source)) := by
      rw [text_ofList (text "__CLONE__" ++ _)]
      exact List.prefix_append _ _
    exact List.find?_eq_none.1 hclone _ (List.mem_append_right _ List.mem_cons_self)
      (decide_eq_true hpre)
  obtain ⟨r, hr, hnone⟩ := a.resolveCreateTable_of_marked
    [⟨"__clone_source__", "VARCHAR", []⟩] hmarked
  exact ⟨_, List.mem_cons_self, r, hr, not_isSame_of_kind? hkind hnone⟩

/-! ### Reads of streams -/

theorem parseStreamRead_eq_ok_iff : p.parseStreamRead sql = .ok prepared ↔
      (contains (p.caseMap.toUppercase sql) "COMMIT = FALSE" = true ∨
        contains (p.caseMap.toUppercase sql) "COMMIT=FALSE" = true) ∧
      ∃ name, Parser.extractSelectFromRelation sql = some name ∧
        prepared = .fake (text "DROP TABLE " ++ (text streamPreviewHex.start ++
          (hexPayload name ++ text "__" ++ hexPayload sql))) := by
  rw [Parser.parseStreamRead]
  split_ifs with hcommit
  · refine iff_of_false (by rintro ⟨⟩) ?_
    simp only [and_eq_true, not_eq_true'] at hcommit
    rintro ⟨hsome | hsome, -⟩
    · rw [hcommit.1] at hsome
      cases hsome
    · rw [hcommit.2] at hsome
      cases hsome
  · have hcommit' : contains (p.caseMap.toUppercase sql) "COMMIT = FALSE" = true ∨
        contains (p.caseMap.toUppercase sql) "COMMIT=FALSE" = true := by
      rw [and_eq_true, not_and_or] at hcommit
      simpa using hcommit
    rcases Parser.extractSelectFromRelation sql with _ | name
    · exact iff_of_false (by rintro ⟨⟩) (by rintro ⟨-, _, ⟨⟩, -⟩)
    · constructor
      · rintro ⟨⟩
        exact ⟨hcommit', name, rfl, by simp [start, text]⟩
      · rintro ⟨-, _, ⟨⟩, rfl⟩
        simp [start, text]

/-- The marker of a read of a stream. -/
def streamPreviewWord (name sql : Str) : Str :=
  text DropMarker.streamPreviewHex.start ++ (hexPayload name ++ text "__" ++ hexPayload sql)

theorem isName_streamPreviewWord (name sql : Str) : IsName (streamPreviewWord name sql) := by
  refine IsName.append (by decide +kernel) fun c hc => ?_
  rcases List.mem_append.1 hc with hc | hc
  · rcases List.mem_append.1 hc with hc | hc
    · exact (isWordChar_of_mem_hexPayload hc).1
    · exact (by decide : ∀ c ∈ text "__", isWordChar c = true) c hc
  · exact (isWordChar_of_mem_hexPayload hc).1

theorem splitOnce?_hexPayload (name sql : Str) :
    splitOnce? (hexPayload name ++ text "__" ++ hexPayload sql) (text "__") =
      some (hexPayload name, hexPayload sql) :=
  splitOnce?_append (by decide) (safeBefore_of_notMem notMem_hexPayload) _

theorem resolve_streamPreviewWord {a : Resolver} {name sql : Str} :
    a.resolve (.drop .table [[ofList (streamPreviewWord name sql)]]) =
      .ok (.readStream a.defaultDb a.defaultSchema (ofList name) (ofList sql)) := by
  have hname : text (dropName [[ofList (streamPreviewWord name sql)]]) =
      text streamPreviewHex.start ++ (hexPayload name ++ text "__" ++ hexPayload sql) :=
    text_ofList _
  rw [resolve_marked _ hname, resolveMarker, splitOnce?_hexPayload]
  simp only [decodeHexPayload_hexPayload]
  rfl

/-- **The marker of a read of a stream is split and decoded into the name and the text** that the
parser has put into it. -/
theorem streamPreview_roundTrip (a : Resolver) :
    (∀ s, decodeHexPayload (hexPayload s) = .ok (String.ofList s) ∧ '_' ∉ hexPayload s) ∧
      (∀ sql prepared, p.parseStreamRead sql = .ok prepared ↔
        (contains (p.caseMap.toUppercase sql) "COMMIT = FALSE" = true ∨
          contains (p.caseMap.toUppercase sql) "COMMIT=FALSE" = true) ∧
        ∃ name, Parser.extractSelectFromRelation sql = some name ∧
          prepared = .fake (text "DROP TABLE " ++ streamPreviewWord name sql)) ∧
      ∀ name sql, splitOnce? (hexPayload name ++ text "__" ++ hexPayload sql) (text "__") =
          some (hexPayload name, hexPayload sql) ∧
        a.resolve (.drop .table [[String.ofList (streamPreviewWord name sql)]]) =
          .ok (.readStream a.defaultDb a.defaultSchema (String.ofList name) (String.ofList sql)) :=
  ⟨fun s => ⟨decodeHexPayload_hexPayload s, notMem_hexPayload⟩,
    fun _ _ => parseStreamRead_eq_ok_iff p,
    fun name sql => ⟨splitOnce?_hexPayload name sql, resolve_streamPreviewWord⟩⟩

theorem kept_streamRead_iff {p : Parser} (hp : p.ReadsMarkers) (hkind : stmt.kind? = some k)
    (hform : p.form sql = .streamRead) :
    Kept p a sql stmt ↔ p.KeepsForm a (trim sql) stmt .streamRead := by
  have hprepare : p.prepare sql = p.parseStreamRead (trim sql) := by
    rw [Parser.prepare, hform, Parser.prepareForm]
  have hread : ∀ name, p.parseSql (text "DROP TABLE " ++ streamPreviewWord name (trim sql)) =
      .ok [.drop .table [[ofList (streamPreviewWord name (trim sql))]]] :=
    fun name => hp.dropName _ (isName_streamPreviewWord _ _)
  rw [kept_rewritten_iff]
  · rw [hform, Parser.KeepsForm, hprepare]
    constructor
    · rintro ⟨-, hrefuses⟩
      rcases hrelation : Parser.extractSelectFromRelation (trim sql) with _ | name
      · exact .inl rfl
      · refine .inr ?_
        by_contra hcommit
        rw [not_and_or, not_eq_false, not_eq_false] at hcommit
        obtain ⟨e, he⟩ := hrefuses _ _ _
          ((parseStreamRead_eq_ok_iff p).2 ⟨hcommit, name, hrelation, rfl⟩)
        have heq := (hread name).symm.trans he
        cases heq
    · intro h
      refine ⟨trivial, fun handed patch context hok => ?_⟩
      obtain ⟨hcommit, name, hrelation, -⟩ := (parseStreamRead_eq_ok_iff p).1 hok
      rcases h with hnone | ⟨hspaced, htight⟩
      · rw [hnone] at hrelation
        cases hrelation
      · rw [hspaced, htight] at hcommit
        simp at hcommit
  · rw [hprepare]
    intro prepared h
    obtain ⟨-, name, -, rfl⟩ := (parseStreamRead_eq_ok_iff p).1 h
    intro stmts hstmts
    have heq := (hread name).symm.trans hstmts
    cases heq
    exact ⟨_, List.mem_cons_self, _, resolve_streamPreviewWord, not_isSame_of_kind? hkind rfl⟩

/-! ### Time travel -/

theorem parseTimeTravel_eq_ok_iff : p.parseTimeTravel sql = .ok prepared ↔ ∃ before afterArrow,
      p.TimeTravelOf sql before afterArrow ∧ prepared =
        .fake (timeTravelText before afterArrow) := by
  have hfrom : ∀ {s : Str} {n : ℕ} {after : Str},
      sliceFrom s n = .ok after ↔ ∃ before, splitAt? s n = some (before, after) := by
    intro s n after
    rw [sliceFrom]
    rcases splitAt? s n with _ | ⟨before, after'⟩ <;> simp
  have hto : ∀ {s : Str} {n : ℕ} {before : Str},
      sliceTo s n = .ok before ↔ ∃ after, splitAt? s n = some (before, after) := by
    intro s n before
    rw [sliceTo]
    rcases splitAt? s n with _ | ⟨before', after⟩ <;> simp
  have htext : ∀ before afterArrow, timeTravelText before afterArrow = text "DROP TABLE __tt_" ++
      text (toString (Parser.timestampOf afterArrow)) ++ text "__" ++
        replace (trimEndMatches (· = ',') (trimEndMatches isWhitespace before)) ' ' '_' := by
    intro before afterArrow
    have hmarker : text "DROP TABLE __tt_" =
        text "DROP TABLE " ++ text timeTravel.start := by decide +kernel
    have hassoc : ∀ d m ts u q : Str, d ++ (m ++ (ts ++ u ++ q)) = d ++ m ++ ts ++ u ++ q := by simp
    exact hmarker ▸ hassoc _ _ _ _ _
  rw [Parser.parseTimeTravel]
  unfold Parser.TimeTravelOf
  rcases find? (p.caseMap.toUppercase sql) (text "AT(TIMESTAMP") with _ | atPos
  · refine iff_of_false (by rintro ⟨⟩) ?_
    rintro ⟨_, _, ⟨_, _, _, ⟨⟩, -⟩, -⟩
  · simp only [except_bind_eq_ok, hfrom]
    constructor
    · rintro ⟨after, ⟨before, hcut⟩, h⟩
      rcases harrow : splitOnce? after (text "=>") with _ | ⟨beforeArrow, afterArrow⟩
      · rw [harrow] at h
        cases h
      · rw [harrow] at h
        obtain ⟨before', hbefore, ⟨⟩⟩ := except_bind_eq_ok.1 h
        obtain ⟨_, hcut'⟩ := hto.1 hbefore
        rw [hcut] at hcut'
        cases hcut'
        refine ⟨before, afterArrow, ⟨atPos, after, beforeArrow, rfl, hcut, harrow⟩, ?_⟩
        rw [htext]
    · rintro ⟨before, afterArrow, ⟨_, after, beforeArrow, ⟨⟩, hcut, harrow⟩, rfl⟩
      refine ⟨after, ⟨before, hcut⟩, ?_⟩
      rw [harrow]
      refine except_bind_eq_ok.2 ⟨before, hto.2 ⟨after, hcut⟩, ?_⟩
      rfl

/-- A name with the marker of time travel is resolved to a SELECT at a timestamp. -/
theorem changes_timeTravel {p : Parser} (hp : p.ReadsMarkers) (sql : Str) :
    Yields (p.parseTimeTravel sql) (p.Changes a stmt) := by
  intro prepared h
  obtain ⟨before, afterArrow, -, rfl⟩ := (parseTimeTravel_eq_ok_iff p).1 h
  intro stmts hread
  obtain ⟨ident, parts, names, more, rfl, rest, hident⟩ := hp.drop _ _ _ hread
  have hresolve : a.resolve (.drop .table ((ident :: parts) :: names)) =
      .ok (a.resolveTimeTravel rest) := by
    have hname : text (dropName ((ident :: parts) :: names)) =
        text timeTravel.start ++ rest := hident.symm
    rw [resolve_marked _ hname, resolveMarker]
  exact ⟨_, List.mem_cons_self, _, hresolve, fun hsame => hsame.1 (by rintro ⟨⟩)⟩

/-! ### All texts -/

/-- The texts that a scanner hands on are refused. -/
theorem refuses_all_iff {p : Parser} {x : Except NovaError Prepared} {q : Str → Str → Prop}
    {handed : Str → Str → Str} {patch : Str → Str → Patch}
    (hx : ∀ prepared, x = .ok prepared ↔
      ∃ u v, q u v ∧ prepared = .sql (handed u v) (patch u v) "") :
    (∀ s patch context, x = .ok (.sql s patch context) → p.Refuses s) ↔
      ∀ u v, q u v → p.Refuses (handed u v) := by
  constructor
  · exact fun h u v huv => h _ _ _ ((hx _).2 ⟨u, v, huv, rfl⟩)
  · intro h s patch' context' hs
    obtain ⟨u, v, huv, heq⟩ := (hx _).1 hs
    cases heq
    exact h u v huv

theorem parse_of_form_plain {p : Parser} {stmts : List Statement} (hform : p.form sql = .plain)
    (hread : p.parseSql (trim sql) = .ok stmts) : p.parse sql = .ok stmts := by
  refine Parser.parse_of_prepare_fake ?_ hread
  rw [Parser.prepare, hform]
  rfl

/-- **Standard statements are kept.**  A text that `sqlparser` reads as one standard statement, and
that does not start with the words of an extension, is parsed and resolved to an error or to that
statement on the tables it names if and only if its form keeps it. -/
theorem standard_kept_iff (p : Parser) (a : Resolver) (sql : Str) (stmt : Statement) (k : Kind)
    (hp : p.ReadsMarkers) (hread : p.parseSql (trim sql) = .ok [stmt])
    (hkind : stmt.kind? = some k) (hstart : ¬(p.form sql).AtStart) :
    Kept p a sql stmt ↔ p.KeepsForm a (trim sql) stmt (p.form sql) := by
  have hprepare : p.prepare sql = p.prepareForm (trim sql) (p.form sql) := rfl
  rcases hform : p.form sql
  all_goals rw [hform] at hprepare hstart
  case clone =>
    rw [kept_rewritten_iff (by rw [hprepare]; exact changes_clone hp hkind _), hform, hprepare]
    exact and_congr_right fun _ => refuses_all_iff fun _ => parseClone_eq_ok_iff
  case streamRead => exact kept_streamRead_iff hp hkind hform
  case timeTravel =>
    rw [kept_rewritten_iff (by rw [hprepare]; exact changes_timeTravel hp _), hform, hprepare]
    exact and_congr_right fun _ => refuses_all_iff fun _ => parseTimeTravel_eq_ok_iff p
  case plain => exact kept_plain_iff hkind (parse_of_form_plain hform hread)
  all_goals exact absurd trivial hstart

/-- An analyzer for schema `d.s`. -/
def sampleResolver : Resolver :=
  { sampleAnalyzer with
    caseMap := asciiCaseMap
    displayName := fun _ => ""
    debugStatement := fun _ => "" }

/-- DROP TABLE of a plain name is kept, and of a name like a marker is not. -/
theorem standard_kept_drop :
    Kept minimalParser sampleResolver (text "DROP TABLE t") (.drop .table [["t"]]) ∧
    ¬Kept minimalParser sampleResolver (text "DROP TABLE __gc_0__")
      (.drop .table [["__gc_0__"]]) := by
  have hplain : minimalParser.form (text "DROP TABLE t") = .plain := by decide +kernel
  have hmarker : minimalParser.form (text "DROP TABLE __gc_0__") = .plain := by decide +kernel
  constructor
  · rw [standard_kept_iff minimalParser sampleResolver (text "DROP TABLE t")
      (.drop .table [["t"]]) (.drop .table) minimalParser_readsMarkers
      (minimalParser_readsMarkers.dropName (text "t") (by decide +kernel)) rfl
      (by rw [hplain]; exact id)]
    refine .inr ⟨by decide +kernel, by decide, ?_⟩
    simp [object?, home, Analyzer.lastPart]
  · rw [standard_kept_iff minimalParser sampleResolver (text "DROP TABLE __gc_0__")
      (.drop .table [["__gc_0__"]]) (.drop .table) minimalParser_readsMarkers
      (minimalParser_readsMarkers.dropName (text "__gc_0__") (by decide +kernel)) rfl
      (by rw [hmarker]; exact id)]
    have hgc : of? (text "__gc_0__") = some .gc := by decide +kernel
    rintro (⟨hrejected, -⟩ | ⟨hnone, -⟩)
    · have hname : text (dropName [["__gc_0__"]]) = text "__gc_0__" := rfl
      exact hrejected
    · have heq := hgc.symm.trans hnone
      cases heq

/-- The SELECT of a literal from table `t`. -/
def selectLiteral (literal : String) : Statement :=
  .dml (.select [.other literal] [⟨.table ["t"], []⟩]) []

/-- With every grammar that reads the text as `stmt`, and every analyzer, the text is taken for
another statement. -/
def TakenFor (sql : String) (stmt : Statement) (resolved : Resolver → Resolved) : Prop :=
  ∀ (p : Parser) (a : Resolver), p.ReadsMarkers → p.parseSql (text sql) = .ok [stmt] →
    ∃ s, p.parse (text sql) = .ok [s] ∧ a.resolve s = .ok (resolved a)

/-- A literal and a quoted name that turn a SELECT into a clone or a read of a stream, and a DROP
TABLE into a garbage collection that keeps nothing. -/
theorem standard_reinterpreted :
    TakenFor "SELECT ' x CLONE y ' FROM t" (selectLiteral "' x CLONE y '")
      (fun a => .createClone a.defaultDb a.defaultSchema "x" "y") ∧
    TakenFor "SELECT ' WITH (COMMIT = FALSE' FROM t" (selectLiteral "' WITH (COMMIT = FALSE'")
      (fun a => .readStream a.defaultDb a.defaultSchema "t"
        "SELECT ' WITH (COMMIT = FALSE' FROM t") ∧
    TakenFor "DROP TABLE \"__gc_0__\"" (.drop .table [["__gc_0__"]]) (fun _ => .gc 0) := by
  refine ⟨fun p a hp _ => ?_, fun p a hp _ => ?_, fun p a hp hread => ?_⟩
  · have hupper := p.caseMap.toUppercase_of_ascii
      (s := trim (text "SELECT ' x CLONE y ' FROM t")) (by decide +kernel)
    have hform : p.form (text "SELECT ' x CLONE y ' FROM t") = .clone := by
      rw [Parser.form, hupper]
      decide +kernel
    have hprepare : p.prepare (text "SELECT ' x CLONE y ' FROM t") =
        .ok (.sql (text "CREATE TABLE " ++ text "x" ++ cloneColumns) (.clone (text "y")) "") := by
      have hwords : CloneOf (splitWhitespace (trim (text "SELECT ' x CLONE y ' FROM t")))
          (text "x") (text "y") :=
        ⟨by decide +kernel, 2, by decide +kernel, by decide +kernel, by decide +kernel⟩
      rw [Parser.prepare, hform]
      exact parseClone_eq_ok_iff.2 ⟨_, _, hwords, rfl⟩
    have hread := hp.createClone (text "x") (by decide +kernel)
    refine ⟨_, Parser.parse_of_prepare hprepare hread, ?_⟩
    refine resolve_cloned.trans ?_
    rfl
  · have hupper := p.caseMap.toUppercase_of_ascii
      (s := trim (text "SELECT ' WITH (COMMIT = FALSE' FROM t")) (by decide +kernel)
    have hform : p.form (text "SELECT ' WITH (COMMIT = FALSE' FROM t") = .streamRead := by
      rw [Parser.form, hupper]
      decide +kernel
    have hprepare : p.prepare (text "SELECT ' WITH (COMMIT = FALSE' FROM t") =
        .ok (.fake (text "DROP TABLE " ++ streamPreviewWord (text "t")
          (trim (text "SELECT ' WITH (COMMIT = FALSE' FROM t")))) := by
      rw [Parser.prepare, hform]
      refine (parseStreamRead_eq_ok_iff p).2 ⟨.inl ?_, text "t", by decide +kernel, rfl⟩
      rw [hupper]
      decide +kernel
    have hname := isName_streamPreviewWord (text "t")
      (trim (text "SELECT ' WITH (COMMIT = FALSE' FROM t"))
    exact ⟨_, Parser.parse_of_prepare_fake hprepare (hp.dropName _ hname),
      resolve_streamPreviewWord⟩
  · have hform : p.form (text "DROP TABLE \"__gc_0__\"") = .plain := by
      rw [Parser.form, p.caseMap.toUppercase_of_ascii (by decide +kernel)]
      decide +kernel
    refine ⟨_, parse_of_form_plain hform hread, ?_⟩
    have hgc : of? (text (dropName [["__gc_0__"]])) = some .gc := by decide +kernel
    have hdays : gcRetention (text (dropName [["__gc_0__"]])) = 0 := by decide +kernel
    rw [resolve]
    unfold resolveDrop
    dsimp only
    rw [hgc]
    dsimp only
    rw [resolveMarker, hdays]

end NovaCore.Sql

import NovaCore.Sql.Parser

/-!
# Panics of the parser and the analyzer

The scanners of `SqlParser::parse` index lists of words and slice the text at byte positions that
they found in its upper-case form.  Upper case may change the number of bytes of a character, so
such a position may lie inside a character or behind the end; keywords in an unexpected order and
missing operands lead out of bounds.  The analyzer slices the hexadecimal payload of a marker every
two bytes.

## Main definitions

* `NoPanic` : a computation returns a value or an error.
* `Parser.Sliceable` : what each scanner needs of the text.
* `HexAligned`, `Statement.HexSafe` : what the analyzer needs of a payload.

## Main results

* `decodeHexPayload_noPanic_iff`, `resolve_noPanic_iff` : panics of the analyzer.
* `prepare_noPanic_iff` : panics of the scanners.
* `parsing_noPanic_iff` : **when parsing and resolving a text returns.**
-/

namespace NovaCore.Sql

open Str Resolver List Option Statement CaseMap

/-- The computation does not panic. -/
def NoPanic {α : Type} (x : Except NovaError α) : Prop := ∀ message, x ≠ .error (.panicked message)

/-! ### Computations without panics -/

section NoPanic

variable {α β : Type}

@[simp] theorem noPanic_ok {v : α} : NoPanic (.ok v : Except NovaError α) := nofun

@[simp] theorem noPanic_pure (v : α) : NoPanic (pure v : Except NovaError α) := nofun

variable (message : String)

@[simp] theorem noPanic_fail : NoPanic (fail message : Except NovaError α) := nofun

@[simp] theorem noPanic_parseFail : NoPanic (parseFail message : Except NovaError α) := nofun

@[simp] theorem noPanic_streamFail : NoPanic (streamFail message : Except NovaError α) := nofun

@[simp] theorem noPanic_sqlAnalysisError :
    NoPanic (.error (.sqlAnalysisError message) : Except NovaError α) := nofun

@[simp] theorem not_noPanic :
    ¬NoPanic (.error (.panicked message) : Except NovaError α) := fun h => h message rfl

variable {f : α → Except NovaError β} {x : Except NovaError α}

theorem noPanic_bind_iff : NoPanic (x >>= f) ↔ NoPanic x ∧ ∀ v, x = .ok v → NoPanic (f v) := by
  cases x with
  | ok v =>
    constructor
    · refine fun h => ⟨noPanic_ok, ?_⟩
      rintro _ ⟨⟩
      exact h
    · exact fun h => h.2 v rfl
  | error e =>
    constructor
    · refine fun h => ⟨?_, ?_⟩
      · rintro m ⟨⟩
        exact h m rfl
      · rintro _ ⟨⟩
    · rintro ⟨h, -⟩ m heq
      cases heq
      exact h m rfl

theorem noPanic_map_iff {f : α → β} : NoPanic (x.map f) ↔ NoPanic x := by
  cases x with
  | ok v => exact iff_of_true nofun nofun
  | error e =>
    constructor
    · rintro h m ⟨⟩
      exact h m rfl
    · rintro h m heq
      cases heq
      exact h m rfl

theorem noPanic_bind (hx : NoPanic x) (hf : ∀ v, NoPanic (f v)) : NoPanic (x >>= f) :=
  noPanic_bind_iff.2 ⟨hx, fun v _ => hf v⟩

theorem noPanic_mapM (xs : List α) (hf : ∀ x, NoPanic (f x)) : NoPanic (xs.mapM f) := by
  induction xs with
  | nil => exact noPanic_pure _
  | cons x xs ih =>
    rw [mapM_cons]
    exact noPanic_bind (hf x) fun _ => noPanic_bind ih fun _ => noPanic_pure _

end NoPanic

/-! ### Slices and indices -/

section

variable {s : Str} {n : ℕ} {β : Type} {f : Str → Except NovaError β} {P : Prop}
  (hf : ∀ v, NoPanic (f v) ↔ P)
include hf

theorem noPanic_sliceFrom_bind : NoPanic (sliceFrom s n >>= f) ↔ IsBoundary s n ∧ P := by
  rw [← splitAt?_isSome_iff, sliceFrom]
  rcases splitAt? s n with _ | ⟨before, after⟩
  · exact iff_of_false (not_noPanic _) fun h => nomatch h.1
  · exact (hf after).trans (and_iff_right rfl).symm

theorem noPanic_sliceTo_bind : NoPanic (sliceTo s n >>= f) ↔ IsBoundary s n ∧ P := by
  rw [← splitAt?_isSome_iff, sliceTo]
  rcases splitAt? s n with _ | ⟨before, after⟩
  · exact iff_of_false (not_noPanic _) fun h => nomatch h.1
  · exact (hf before).trans (and_iff_right rfl).symm

theorem noPanic_slice_bind {m : ℕ} :
    NoPanic (slice s m n >>= f) ↔ (m ≤ n ∧ IsBoundary s m ∧ IsBoundary s n) ∧ P := by
  unfold slice
  split_ifs with hlt
  · exact iff_of_false (not_noPanic _) fun h => absurd h.1.1 (by omega)
  · rcases hsplit : splitAt? s n with _ | ⟨before, after⟩
    · rw [sliceTo, hsplit]
      exact iff_of_false (not_noPanic _) fun h => splitAt?_eq_none_iff.1 hsplit h.1.2.2
    · rw [sliceTo, hsplit]
      obtain ⟨rfl, hlen⟩ := splitAt?_eq_some_iff.1 hsplit
      refine (noPanic_sliceFrom_bind hf).trans (and_congr_left fun _ => ?_)
      rw [isBoundary_append_iff (by omega)]
      exact ⟨fun h => ⟨by omega, h, before, after, rfl, hlen⟩, fun h => h.2.1⟩

theorem noPanic_index_bind {parts : List Str} {i : ℕ} :
    NoPanic (index parts i >>= f) ↔ i < parts.length ∧ P := by
  rw [index]
  rcases h : parts[i]? with _ | part
  · rw [getElem?_eq_none_iff] at h
    exact iff_of_false (not_noPanic _) fun hlt => absurd hlt.1 (by omega)
  · exact (hf part).trans (and_iff_right (List.getElem?_eq_some_iff.1 h).1).symm

end

/-! ### Payloads -/

/-- Wherever pairs of hexadecimal digits are followed by more text, its first two bytes end at a
character. -/
def PairsAligned (value : Str) : Prop :=
  ∀ (pairs : List Str) (rest : Str), value = pairs.flatten ++ rest →
    (∀ x ∈ pairs, (hexByte? x).isSome = true) → rest ≠ [] → IsBoundary rest 2

/-- The payload has an odd number of bytes, which is an error, or its pairs end at characters. -/
def HexAligned (value : Str) : Prop := byteLen value % 2 = 1 ∨ PairsAligned value

theorem utf8Size_of_hexDigit? {c : Char} (h : (hexDigit? c).isSome = true) : c.utf8Size = 1 := by
  have hle : c ≤ 'f' := by
    unfold hexDigit? at h
    split_ifs at h with h1 h2 h3
    · exact h1.2.trans (by decide)
    · exact h2.2
    · exact h3.2.trans (by decide)
    · cases h
  have hval : c.val.toNat ≤ 'f'.val.toNat := UInt32.le_iff_toNat_le.1 hle
  exact utf8Size_of_ascii (hval.trans_lt (by decide))

theorem byteLen_of_hexByte? {pair : Str} (h : (hexByte? pair).isSome = true) :
    byteLen pair = 2 := by
  unfold hexByte? at h
  split at h
  · next d =>
    have hd := utf8Size_of_hexDigit? h
    have hplus : ('+' : Char).utf8Size = 1 := rfl
    simp [hd, hplus]
  · next c d =>
    obtain ⟨b, hb⟩ := isSome_iff_exists.1 h
    obtain ⟨high, hhigh, hrest⟩ := bind_eq_some_iff.1 hb
    obtain ⟨low, hlow, -⟩ := bind_eq_some_iff.1 hrest
    have hc := utf8Size_of_hexDigit? (isSome_iff_exists.2 ⟨high, hhigh⟩)
    have hd := utf8Size_of_hexDigit? (isSome_iff_exists.2 ⟨low, hlow⟩)
    simp [hc, hd]
  · cases h

theorem pairsAligned_cons_iff {pair rest : Str} (h : (hexByte? pair).isSome = true) :
    PairsAligned (pair ++ rest) ↔ PairsAligned rest := by
  have hlen := byteLen_of_hexByte? h
  constructor
  · intro halign pairs tail heq hpairs hne
    refine halign (pair :: pairs) tail (by simp [heq]) ?_ hne
    exact forall_mem_cons.2 ⟨h, hpairs⟩
  · intro halign pairs tail heq hpairs hne
    cases pairs with
    | nil =>
      rw [flatten_nil, nil_append] at heq
      exact heq ▸ ⟨pair, rest, rfl, hlen⟩
    | cons x pairs =>
      obtain ⟨hx, hxs⟩ := forall_mem_cons.1 hpairs
      -- both first pairs are the first two bytes
      have hcut := splitAt?_append x (pairs.flatten ++ tail)
      rw [byteLen_of_hexByte? hx, ← append_assoc, ← flatten_cons, ← heq, ← hlen,
        splitAt?_append] at hcut
      cases hcut
      exact halign pairs tail rfl hxs hne

theorem hexPairs_noPanic_iff {value : Str} (hlen : byteLen value = 2 * n) :
    NoPanic (hexPairs n value) ↔ PairsAligned value := by
  induction n generalizing value with
  | zero =>
    obtain rfl := eq_nil_of_byteLen hlen
    refine iff_of_true noPanic_ok fun pairs rest heq _ hne => absurd ?_ hne
    exact (append_eq_nil_iff.1 heq.symm).2
  | succ n ih =>
    have hne : value ≠ [] := by
      rintro rfl
      cases hlen
    rw [hexPairs]
    rcases hsplit : splitAt? value 2 with _ | ⟨pair, rest⟩
    · refine iff_of_false (not_noPanic _) fun h => ?_
      exact splitAt?_eq_none_iff.1 hsplit (h [] value (by simp) (by simp) hne)
    · obtain ⟨rfl, hpair⟩ := splitAt?_eq_some_iff.1 hsplit
      dsimp only
      rcases hbyte : hexByte? pair with _ | b
      · refine iff_of_true (noPanic_fail _) fun pairs tail heq hpairs htail => ?_
        cases pairs with
        | nil =>
          rw [flatten_nil, nil_append] at heq
          exact heq ▸ ⟨pair, rest, rfl, hpair⟩
        | cons x pairs =>
          -- the first pair would have to be `pair`, which is none
          have hx := (forall_mem_cons.1 hpairs).1
          have hcut := splitAt?_append x (pairs.flatten ++ tail)
          rw [byteLen_of_hexByte? hx, ← append_assoc, ← flatten_cons, ← heq, hsplit] at hcut
          cases hcut
          rw [hbyte] at hx
          cases hx
      · rw [noPanic_map_iff, pairsAligned_cons_iff (by rw [hbyte]; rfl)]
        refine ih ?_
        rw [byteLen_append] at hlen
        omega

/-- **Panics of `decode_hex_payload`.** -/
theorem decodeHexPayload_noPanic_iff {value : Str} :
    NoPanic (decodeHexPayload value) ↔ HexAligned value := by
  unfold decodeHexPayload HexAligned
  split_ifs with hodd
  · exact iff_of_true (noPanic_fail _) (.inl (by omega))
  · have heven : byteLen value = 2 * (byteLen value / 2) := by omega
    rw [noPanic_bind_iff, hexPairs_noPanic_iff heven, or_iff_right (by omega)]
    refine and_iff_left fun bytes _ => ?_
    split
    · exact noPanic_ok
    · exact noPanic_fail _

/-! ### The analyzer -/

namespace Resolver

variable (a : Resolver)

theorem noPanic_resolveObjectName (name : ObjectName) : NoPanic (a.resolveObjectName name) := by
  unfold resolveObjectName
  split <;> simp

theorem noPanic_resolveFunctionSignatureText (functionText : Str) :
    NoPanic (a.resolveFunctionSignatureText functionText) := by
  unfold resolveFunctionSignatureText
  dsimp only
  split
  · exact noPanic_fail _
  · split
    · exact noPanic_fail _
    · split_ifs
      · exact noPanic_fail _
      · exact noPanic_fail _
      · split <;> simp
      · split <;> simp

theorem noPanic_encodedFunctionGrantObject (objects : GrantObjects) :
    NoPanic (encodedFunctionGrantObject objects) := by
  unfold encodedFunctionGrantObject
  split
  iterate 4 exact noPanic_fail _
  · split
    · exact noPanic_fail _
    · split <;> simp

theorem noPanic_resolveFunctionArgs (args : List OperateFunctionArg) :
    NoPanic (resolveFunctionArgs args) := by
  refine noPanic_mapM _ fun x => ?_
  dsimp only
  split_ifs <;> simp

theorem noPanic_resolveFunctionUsage (what : String) (privileges : Privileges)
    (objects : GrantObjects) (grantees : List String) :
    NoPanic (a.resolveFunctionUsage what privileges objects grantees) := by
  refine noPanic_bind ?_ fun _ => noPanic_bind ?_ fun _ => noPanic_bind ?_ fun _ =>
    noPanic_bind (a.noPanic_resolveFunctionSignatureText _) fun _ => noPanic_pure _
  · unfold requireFunctionUsagePrivilege
    split <;> simp
  · unfold grantee
    split <;> simp
  · exact noPanic_encodedFunctionGrantObject objects

theorem noPanic_resolveCreateFunction (f : CreateFunction) :
    NoPanic (a.resolveCreateFunction f) := by
  refine noPanic_bind (a.noPanic_resolveObjectName _) fun _ => ?_
  dsimp only
  split_ifs
  · exact noPanic_fail _
  · split <;> refine noPanic_bind (by simp) fun _ => ?_
    all_goals split <;> exact noPanic_bind (by simp) fun _ =>
      noPanic_bind (noPanic_resolveFunctionArgs _) fun _ => noPanic_pure _

end Resolver

theorem noPanic_resolveExpr {a : Analyzer} {e : Expr} : NoPanic (a.resolveExpr e) := by
  unfold Analyzer.resolveExpr
  split <;> simp

mutual

theorem noPanic_collectTableFactor : ∀ factor : TableFactor,
    NoPanic (Analyzer.collectTableFactor factor)
  | .table _ => noPanic_ok
  | .derived relations =>
    noPanic_bind (noPanic_collectTableFactors relations) fun _ => noPanic_pure _
  | .derivedOther | .other => noPanic_sqlAnalysisError _

theorem noPanic_collectTableFactors : ∀ factors : List TableFactor,
    NoPanic (Analyzer.collectTableFactors factors)
  | [] => noPanic_ok
  | factor :: factors => noPanic_bind (noPanic_collectTableFactor factor) fun _ =>
    noPanic_bind (noPanic_collectTableFactors factors) fun _ => noPanic_pure _

end

theorem noPanic_plainTable {message : String} {table : TableFactor} :
    NoPanic (Analyzer.plainTable message table) := by
  cases table <;> simp [Analyzer.plainTable]

/-- The analysis of INSERT, SELECT, UPDATE and DELETE does not panic. -/
theorem noPanic_analyzer_resolve (a : Analyzer) (stmt : SqlStatement) :
    NoPanic (a.resolve stmt) := by
  cases stmt with
  | insert tableName columns source =>
    rw [Analyzer.resolve, noPanic_map_iff, Analyzer.resolveInsert]
    split <;> refine noPanic_bind (by simp) fun _ => ?_
    all_goals split
    all_goals refine noPanic_bind ?_ fun _ => noPanic_pure _
    all_goals first
      | exact noPanic_ok
      | exact noPanic_mapM _ fun _ => noPanic_mapM _ fun e => noPanic_resolveExpr
  | update table assignments selection =>
    rw [Analyzer.resolve, noPanic_map_iff]
    refine noPanic_bind noPanic_plainTable fun _ => noPanic_bind ?_ fun _ => noPanic_pure _
    exact noPanic_mapM _ fun x => noPanic_bind noPanic_resolveExpr fun _ => noPanic_pure _
  | delete tables selection =>
    rw [Analyzer.resolve, noPanic_map_iff]
    unfold Analyzer.resolveDelete
    split <;> exact noPanic_bind (by simp) fun _ =>
      noPanic_bind noPanic_plainTable fun _ => noPanic_pure _
  | select projection tables =>
    rw [Analyzer.resolve, noPanic_map_iff]
    unfold Analyzer.resolveSelect
    split <;> exact noPanic_bind (by simp) fun _ => noPanic_bind (noPanic_collectTableFactor _)
      fun _ => noPanic_bind noPanic_plainTable fun _ => noPanic_pure _
  | queryOther => exact noPanic_sqlAnalysisError _

/-- The payload of a DROP marker is not cut inside a character. -/
def MarkerSafe (rest : Str) : DropMarker → Prop
  | .showStreams => rest ≠ [] → HexAligned rest
  | .streamPreviewHex => ∀ streamHex sqlHex, splitOnce? rest (text "__") =
      some (streamHex, sqlHex) →
      HexAligned streamHex ∧ ((∃ s, decodeHexPayload streamHex = .ok s) → HexAligned sqlHex)
  | _ => True

/-- The statement is not a marker whose payload is cut inside a character. -/
def Statement.HexSafe : Statement → Prop
  | .drop _ names => ∀ m, DropMarker.of? (text (dropName names)) = some m →
      MarkerSafe ((text (dropName names)).drop (text m.start).length) m
  | _ => True

theorem noPanic_resolveMarker_iff (a : Resolver) (name rest : Str) (m : DropMarker) :
    NoPanic (a.resolveMarker name rest m) ↔ MarkerSafe rest m := by
  cases m with
  | showStreams =>
    rw [resolveMarker]
    split_ifs with hrest
    · exact iff_of_true noPanic_ok fun h => absurd hrest h
    · rw [noPanic_bind_iff, decodeHexPayload_noPanic_iff]
      exact ⟨fun h _ => h.1, fun h => ⟨h hrest, fun _ _ => noPanic_pure _⟩⟩
  | streamPreviewHex =>
    rw [resolveMarker, MarkerSafe]
    rcases splitOnce? rest (text "__") with _ | ⟨streamHex, sqlHex⟩
    · exact iff_of_true nofun nofun
    · dsimp only
      rw [noPanic_bind_iff, decodeHexPayload_noPanic_iff]
      constructor
      · rintro ⟨hstream, hsql⟩ _ _ ⟨⟩
        refine ⟨hstream, ?_⟩
        rintro ⟨s, hs⟩
        exact decodeHexPayload_noPanic_iff.1 (noPanic_bind_iff.1 (hsql s hs)).1
      · intro h
        obtain ⟨hstream, hsql⟩ := h _ _ rfl
        refine ⟨hstream, fun s hs => noPanic_bind ?_ fun _ => noPanic_pure _⟩
        exact decodeHexPayload_noPanic_iff.2 (hsql ⟨s, hs⟩)
  | showGrantsOn =>
    exact iff_of_true (noPanic_bind (a.noPanic_resolveFunctionSignatureText _)
      fun _ => noPanic_pure _) trivial
  | _ => exact iff_of_true noPanic_ok trivial

/-- **Panics of the analyzer.** -/
theorem resolve_noPanic_iff {a : Resolver} {stmt : Statement} :
    NoPanic (a.resolve stmt) ↔ stmt.HexSafe := by
  cases stmt
  case drop objectType names =>
    rw [resolve, Statement.HexSafe]
    unfold resolveDrop
    dsimp only
    rcases DropMarker.of? (text (dropName names)) with _ | m
    · refine iff_of_true ?_ (by simp)
      cases objectType <;> simp
    · dsimp only
      rw [noPanic_resolveMarker_iff]
      constructor
      · rintro h _ ⟨⟩
        exact h
      · exact fun h => h m rfl
  all_goals
    refine iff_of_true ?_ trivial
    rw [resolve]
  case createDatabase name => split <;> simp
  case createFunction function => exact a.noPanic_resolveCreateFunction _
  case createTable name columns =>
    unfold resolveCreateTable
    repeat' split
    all_goals simp
  case grant privileges objects grantees withGrantOption grantedBy =>
    rw [resolveGrant]
    split_ifs
    · exact noPanic_fail _
    · exact noPanic_fail _
    · exact noPanic_bind (a.noPanic_resolveFunctionUsage _ _ _ _) fun _ => noPanic_pure _
  case revoke privileges objects grantees grantedBy cascade =>
    rw [resolveRevoke]
    split_ifs
    · exact noPanic_fail _
    · exact noPanic_fail _
    · exact noPanic_bind (a.noPanic_resolveFunctionUsage _ _ _ _) fun _ => noPanic_pure _
  case dml stmt elsewhere =>
    rw [noPanic_map_iff]
    exact noPanic_analyzer_resolve _ _
  case dropFunction ifExists functions =>
    unfold resolveDropFunction
    split
    · exact noPanic_fail _
    · exact noPanic_fail _
    · exact noPanic_bind (a.noPanic_resolveObjectName _) fun _ =>
        noPanic_bind (noPanic_resolveFunctionArgs _) fun _ => noPanic_pure _
  case alterTable name operations =>
    unfold resolveAlterTable
    split <;> simp
  case startTransaction | commit | rollback => exact noPanic_ok
  case other debug => exact noPanic_fail _

/-! ### The scanners -/

namespace Parser

variable (p : Parser) (sql : Str)

/-- What the scanner of GRANT and REVOKE needs of the text. -/
def GrantSliceable (revoke : Bool) : Prop :=
  ∀ onPos markerPos, find? (p.caseMap.toUppercase sql) (text " ON FUNCTION ") = some onPos →
    toAsciiUppercase (trim ((splitWhitespace sql).getD 1 [])) = text "USAGE" →
    find? (p.caseMap.toUppercase sql) (text (roleMarker revoke)) = some markerPos →
      (onPos + 13 ≤ markerPos ∧ IsBoundary sql (onPos + 13) ∧ IsBoundary sql markerPos) ∧
        IsBoundary sql (markerPos + (roleMarker revoke).length)

/-- What the scanner of SHOW GRANTS needs of the trimmed text. -/
def ShowSliceable (trimmed : Str) : Prop :=
  (∀ pos, find? (p.caseMap.toUppercase trimmed) (text "SHOW GRANTS ON FUNCTION ") = some pos →
    IsBoundary trimmed (pos + 24)) ∧
  (find? (p.caseMap.toUppercase trimmed) (text "SHOW GRANTS ON FUNCTION ") = none →
    ∀ pos, find? (p.caseMap.toUppercase trimmed) (text "SHOW GRANTS TO ROLE ") = some pos →
      IsBoundary trimmed (pos + 20))

/-- What a scanner needs of the text: positions found in upper case are ends of characters of the
text, operands stand where they are expected, and the lag fits in 64 bits. -/
def Sliceable : Form → Prop
  | .clone => 5 ≤ (splitWhitespace sql).length → ∀ pos,
      wordPosition (splitWhitespace sql) "CLONE" = some pos →
        0 < pos ∧ pos + 1 < (splitWhitespace sql).length
  | .createStream => contains (p.caseMap.toUppercase sql) "APPEND ONLY" = false →
      6 ≤ (splitWhitespace sql).length → ∀ pos,
        wordPosition (splitWhitespace sql) "TABLE" = some pos →
          pos + 1 < (splitWhitespace sql).length
  | .showStreams | .showDynamicTables => ∀ pos,
      find? (p.caseMap.toUppercase sql) (text " LIKE ") = some pos → IsBoundary sql (pos + 6)
  | .dynamicTable => ∀ header rest,
      splitOnce? (p.caseMap.toUppercase sql) (text " AS ") = some (header, rest) →
        IsBoundary sql (byteLen header + 4) ∧ IsBoundary sql (byteLen header) ∧
          ∀ n multiplier, p.targetLag? header = some (n, multiplier) → n * multiplier < 2 ^ 64
  | .functionGrant => p.GrantSliceable sql false
  | .functionRevoke => p.GrantSliceable sql true
  | .showGrants => p.ShowSliceable (trim (trimSemicolons (trim sql)))
  | .timeTravel => ∀ pos,
      find? (p.caseMap.toUppercase sql) (text "AT(TIMESTAMP") = some pos → IsBoundary sql pos
  | _ => True

theorem noPanic_parseClone_iff : NoPanic (parseClone sql) ↔ p.Sliceable sql .clone := by
  rw [parseClone, Sliceable]
  split_ifs with hlen
  · exact iff_of_true (noPanic_parseFail _) fun h => absurd hlen (by omega)
  · rcases wordPosition (splitWhitespace sql) "CLONE" with _ | _ | before
    · exact iff_of_true (noPanic_parseFail _) nofun
    · refine iff_of_false (by simp) fun h => ?_
      exact absurd (h (by omega) 0 rfl).1 (by omega)
    · refine (noPanic_index_bind fun _ => noPanic_index_bind fun _ =>
        iff_true_intro (noPanic_pure _)).trans ?_
      simp only [some.injEq, forall_eq', and_true]
      omega

theorem noPanic_parseStream_iff : NoPanic (p.parseStream sql) ↔ p.Sliceable sql .createStream := by
  rw [parseStream, Sliceable]
  dsimp only
  split_ifs with happend hlen
  · exact iff_of_true nofun fun h => absurd happend (by simp [h])
  · exact iff_of_true (noPanic_parseFail _) fun _ h => absurd hlen (by omega)
  · rcases wordPosition (splitWhitespace sql) "TABLE" with _ | pos
    · refine (noPanic_index_bind fun _ => iff_true_intro (noPanic_parseFail _)).trans ?_
      exact iff_of_true ⟨by omega, trivial⟩ nofun
    · refine (noPanic_index_bind fun _ => noPanic_index_bind fun _ =>
        iff_true_intro (noPanic_pure _)).trans ?_
      simp only [some.injEq, forall_eq', happend, and_true, forall_const]
      omega

theorem noPanic_parseStreamName (usage marker : String) (sql : Str) :
    NoPanic (parseStreamName usage marker sql) := by
  rw [parseStreamName]
  split <;> simp

theorem noPanic_likePattern_iff : NoPanic (p.likePattern sql) ↔ ∀ pos,
      find? (p.caseMap.toUppercase sql) (text " LIKE ") = some pos → IsBoundary sql (pos + 6) := by
  rw [likePattern]
  rcases find? (p.caseMap.toUppercase sql) (text " LIKE ") with _ | pos
  · exact iff_of_true noPanic_ok nofun
  · refine (noPanic_sliceFrom_bind fun _ => iff_true_intro (noPanic_pure _)).trans ?_
    simp

theorem noPanic_parseStreamRead : NoPanic (p.parseStreamRead sql) := by
  rw [parseStreamRead]
  split_ifs
  · simp
  · split <;> simp

theorem noPanic_parseSystemStreamHasData : NoPanic (parseSystemStreamHasData sql) := by
  rw [parseSystemStreamHasData]
  rcases hopen : splitOnce? sql ['('] with _ | ⟨beforeOpen, afterOpen⟩
  · simp
  rcases hclose : rsplitOnce? sql ')' with _ | ⟨beforeClose, afterClose⟩
  · simp
  dsimp only
  split_ifs with hle
  · simp
  -- both brackets take one byte, so the bytes of the argument are between them
  refine (noPanic_slice_bind fun argument => iff_true_intro ?_).2 ⟨⟨by omega, ?_, ?_⟩, trivial⟩
  · split_ifs <;> simp
  · have h := eq_append_of_splitOnce? hopen
    refine ⟨beforeOpen ++ ['('], afterOpen, by rw [h], ?_⟩
    have hone : byteLen ['('] = 1 := by decide
    rw [byteLen_append, hone]
  · have h := eq_append_of_rsplitOnce? hclose
    exact ⟨beforeClose, ')' :: afterClose, by simpa using h, rfl⟩

theorem noPanic_parseTargetLag_iff (header : Str) : NoPanic (p.parseTargetLag header) ↔
      ∀ n multiplier, p.targetLag? header = some (n, multiplier) → n * multiplier < 2 ^ 64 := by
  rw [parseTargetLag]
  rcases p.targetLag? header with _ | ⟨n, multiplier⟩
  · exact iff_of_true noPanic_ok nofun
  · dsimp only
    split_ifs with h
    · refine iff_of_true noPanic_ok ?_
      rintro _ _ ⟨⟩
      exact h
    · exact iff_of_false (not_noPanic _) fun hlt => h (hlt _ _ rfl)

theorem noPanic_parseDynamicTable_iff :
    NoPanic (p.parseDynamicTable sql) ↔ p.Sliceable sql .dynamicTable := by
  rw [parseDynamicTable, Sliceable]
  rcases splitOnce? (p.caseMap.toUppercase sql) (text " AS ") with _ | ⟨header, rest⟩
  · exact iff_of_true (noPanic_parseFail _) nofun
  · dsimp only
    refine (noPanic_sliceFrom_bind fun _ => noPanic_sliceTo_bind fun _ =>
      noPanic_bind_iff.trans ((and_iff_left ?_).trans (p.noPanic_parseTargetLag_iff header))).trans
        ?_
    · exact fun _ _ => noPanic_pure _
    · simp

theorem noPanic_parseAlterDynamicTable : NoPanic (p.parseAlterDynamicTable sql) := by
  rw [parseAlterDynamicTable]
  split_ifs with hlen
  · exact noPanic_parseFail _
  · refine (noPanic_index_bind fun _ => noPanic_index_bind fun _ =>
      iff_true_intro (noPanic_pure _)).2 ⟨?_, ?_, trivial⟩
    all_goals omega

theorem noPanic_parseDropDynamicTable : NoPanic (parseDropDynamicTable sql) := by
  rw [parseDropDynamicTable]
  split_ifs with hlen
  · exact noPanic_parseFail _
  · exact (noPanic_index_bind fun _ => iff_true_intro (noPanic_pure _)).2 ⟨by omega, trivial⟩

theorem noPanic_parseFunctionGrant_iff (revoke : Bool) :
    NoPanic (p.parseFunctionGrant sql revoke) ↔ p.GrantSliceable sql revoke := by
  rw [parseFunctionGrant, GrantSliceable]
  rcases find? (p.caseMap.toUppercase sql) (text " ON FUNCTION ") with _ | onPos
  · exact iff_of_true (noPanic_parseFail _) nofun
  by_cases husage : toAsciiUppercase (trim ((splitWhitespace sql).getD 1 [])) = text "USAGE"
  case neg =>
    dsimp only
    rw [if_pos husage]
    exact iff_of_true (noPanic_parseFail _) fun _ _ _ h => absurd h husage
  dsimp only
  rw [if_neg (not_not_intro husage)]
  rcases find? (p.caseMap.toUppercase sql) (text (roleMarker revoke)) with _ | markerPos
  · exact iff_of_true (noPanic_parseFail _) nofun
  refine (noPanic_slice_bind fun _ => noPanic_sliceFrom_bind fun _ => iff_true_intro ?_).trans ?_
  · split_ifs <;> simp
  · refine ⟨?_, fun h => (h _ _ rfl husage rfl).imp_right fun hrole => ⟨hrole, trivial⟩⟩
    rintro ⟨hfunction, hrole, -⟩ _ _ ⟨⟩ - ⟨⟩
    exact ⟨hfunction, hrole⟩

theorem noPanic_parseShowGrants_iff :
    NoPanic (p.parseShowGrants sql) ↔ p.Sliceable sql .showGrants := by
  rw [parseShowGrants, Sliceable, ShowSliceable]
  generalize trim (trimSemicolons (trim sql)) = trimmed
  rcases find? (p.caseMap.toUppercase trimmed) (text "SHOW GRANTS ON FUNCTION ") with _ | pos
  · rcases find? (p.caseMap.toUppercase trimmed) (text "SHOW GRANTS TO ROLE ") with _ | pos
    · exact iff_of_true (noPanic_parseFail _) ⟨nofun, nofun⟩
    · refine (noPanic_sliceFrom_bind fun _ => iff_true_intro ?_).trans ?_
      · split_ifs <;> simp
      · simp
  · refine (noPanic_sliceFrom_bind fun _ => iff_true_intro ?_).trans ?_
    · split_ifs <;> simp
    · simp

theorem noPanic_parseTimeTravel_iff :
    NoPanic (p.parseTimeTravel sql) ↔ p.Sliceable sql .timeTravel := by
  rw [parseTimeTravel, Sliceable]
  rcases find? (p.caseMap.toUppercase sql) (text "AT(TIMESTAMP") with _ | atPos
  · exact iff_of_true (noPanic_parseFail _) nofun
  · by_cases hcut : IsBoundary sql atPos
    · refine (noPanic_sliceFrom_bind fun afterAt => iff_true_intro ?_).trans (by simp [hcut])
      rcases splitOnce? afterAt (text "=>") with _ | ⟨_, afterArrow⟩
      · exact noPanic_parseFail _
      · exact (noPanic_sliceTo_bind fun _ => iff_true_intro (noPanic_pure _)).2 ⟨hcut, trivial⟩
    · refine iff_of_false (fun h => hcut ?_) fun h => hcut (h _ rfl)
      have hfrom := noPanic_bind (noPanic_bind_iff.1 h).1 fun v => noPanic_pure v
      exact ((noPanic_sliceFrom_bind fun v => iff_true_intro (noPanic_pure v)).1 hfrom).1

/-- The search for keywords panics on the texts that are not sliceable only. -/
theorem noPanic_prepareForm_iff (form : Form) :
    NoPanic (p.prepareForm sql form) ↔ p.Sliceable sql form := by
  cases form with
  | clone => exact p.noPanic_parseClone_iff sql
  | createStream => exact p.noPanic_parseStream_iff sql
  | dropStream | describeStream => exact iff_of_true (noPanic_parseStreamName _ _ _) trivial
  | showStreams | showDynamicTables =>
    refine noPanic_bind_iff.trans ((and_iff_left fun _ _ => noPanic_pure _).trans ?_)
    exact noPanic_likePattern_iff ..
  | streamHasData => exact iff_of_true (noPanic_parseSystemStreamHasData _) trivial
  | streamRead => exact iff_of_true (p.noPanic_parseStreamRead _) trivial
  | dynamicTable => exact p.noPanic_parseDynamicTable_iff sql
  | alterDynamicTable => exact iff_of_true (p.noPanic_parseAlterDynamicTable _) trivial
  | dropDynamicTable => exact iff_of_true (noPanic_parseDropDynamicTable _) trivial
  | functionGrant => exact p.noPanic_parseFunctionGrant_iff sql false
  | functionRevoke => exact p.noPanic_parseFunctionGrant_iff sql true
  | showGrants => exact p.noPanic_parseShowGrants_iff sql
  | gc | backup | restore | plain => exact iff_of_true noPanic_ok trivial
  | timeTravel => exact p.noPanic_parseTimeTravel_iff sql

/-! ### The parser -/

theorem prepare_noPanic_iff : NoPanic (p.prepare sql) ↔ p.Sliceable (trim sql) (p.form sql) :=
  p.noPanic_prepareForm_iff _ _

theorem noPanic_finish (prepared : Prepared) : NoPanic (p.finish prepared) := by
  cases prepared with
  | statements stmts => exact noPanic_ok
  | sql sql patch context =>
    rw [finish]
    split <;> simp

theorem noPanic_parse_iff : NoPanic (p.parse sql) ↔ p.Sliceable (trim sql) (p.form sql) := by
  rw [parse, noPanic_bind_iff, prepare_noPanic_iff]
  exact and_iff_left fun _ _ => p.noPanic_finish _

end Parser

/-! ### Payloads of the statements that the parser returns -/

/-- The patches are about CREATE TABLE, which has no payload. -/
theorem Patch.forall_hexSafe_apply_iff (patch : Patch) (stmts : List Statement) :
    (∀ stmt ∈ patch.apply stmts, stmt.HexSafe) ↔ ∀ stmt ∈ stmts, stmt.HexSafe := by
  rcases stmts with _ | ⟨stmt, stmts⟩
  · rfl
  · cases stmt with
    | createTable name columns =>
      have hpatched : (patch.applyTable name columns).HexSafe := by cases patch <;> trivial
      simp only [Patch.apply, forall_mem_cons]
      exact and_congr_left fun _ => iff_of_true hpatched trivial
    | _ => rfl

theorem Statement.hexSafe_drop (objectType : ObjectType) {m : DropMarker} (rest : Str)
    (h : MarkerSafe rest m) :
    (drop objectType [[String.ofList (text m.start ++ rest)]]).HexSafe := by
  intro n hn
  have hname : text (dropName [[String.ofList (text m.start ++ rest)]]) = text m.start ++ rest :=
    String.toList_ofList
  rw [hname] at hn ⊢
  rw [DropMarker.of?_start_append] at hn
  cases hn
  rwa [drop_left]

/-- The statements that are built without `sqlparser` have no payload. -/
def Prepared.HexSafe : Prepared → Prop
  | .sql .. => True
  | .statements stmts => ∀ stmt ∈ stmts, stmt.HexSafe

variable (p : Parser) (sql : Str)

theorem yields_statement {stmt : Statement} (h : stmt.HexSafe) :
    Yields (pure (.statements [stmt]) : Except NovaError Prepared) Prepared.HexSafe := by
  rw [yields_pure_iff]
  intro stmt' hstmt
  rwa [mem_singleton.1 hstmt]

theorem Parser.yields_parseFunctionGrant (revoke : Bool) :
    Yields (p.parseFunctionGrant sql revoke) Prepared.HexSafe := by
  rw [parseFunctionGrant]
  dsimp only
  split
  · exact yields_error _ _
  · split
    · exact yields_error _ _
    · split
      · exact yields_error _ _
      · refine yields_bind fun functionText => yields_bind fun roleText => ?_
        split
        · exact yields_error _ _
        · exact yields_statement (by cases revoke <;> trivial)

theorem Parser.yields_parseShowGrants : Yields (p.parseShowGrants sql) Prepared.HexSafe := by
  rw [parseShowGrants]
  split
  · refine yields_bind fun rest => ?_
    split
    · exact yields_error _ _
    · exact yields_statement (hexSafe_drop (m := .showGrantsOn) .table _ trivial)
  · split
    · refine yields_bind fun rest => ?_
      split
      · exact yields_error _ _
      · exact yields_statement (hexSafe_drop (m := .showGrantsTo) .table _ trivial)
    · exact yields_error _ _

/-- Only the scanners of grants build statements themselves. -/
theorem Parser.yields_prepareForm (form : Form) :
    Yields (p.prepareForm sql form) Prepared.HexSafe := by
  cases form with
  | functionGrant => exact p.yields_parseFunctionGrant sql false
  | functionRevoke => exact p.yields_parseFunctionGrant sql true
  | showGrants => exact p.yields_parseShowGrants sql
  | _ =>
    simp only [prepareForm, parseClone, parseStream, parseDropStream, parseDescribeStream,
      parseStreamName, parseShowStreams, parseShowDynamicTables, parseSystemStreamHasData,
      parseStreamRead, parseDynamicTable, parseAlterDynamicTable, parseDropDynamicTable,
      parseTimeTravel]
    -- each way through a scanner ends in an error or in a text for `sqlparser`
    repeat' first | refine yields_bind fun _ => ?_ | split
    all_goals first | exact yields_error _ _ | exact yields_ok_iff.2 trivial

/-! ### Texts -/

/-- `SqlParser::parse` and `Analyzer::resolve` of each statement that it returns do not panic. -/
def ParsingReturns (a : Resolver) (sql : Str) : Prop :=
  NoPanic (p.parse sql) ∧
    ∀ stmts, p.parse sql = .ok stmts → ∀ stmt ∈ stmts, NoPanic (a.resolve stmt)

/-- The statements that `sqlparser` reads from the text that it is handed have payloads that are not
cut inside a character. -/
def Parser.PayloadsAligned : Prop :=
  ∀ handed patch context, p.prepare sql = .ok (.sql handed patch context) →
    ∀ stmts, p.parseSql handed = .ok stmts → ∀ stmt ∈ stmts, stmt.HexSafe

theorem Parser.forall_hexSafe_parse_iff :
    (∀ stmts, p.parse sql = .ok stmts → ∀ stmt ∈ stmts, stmt.HexSafe) ↔ p.PayloadsAligned sql := by
  constructor
  · intro h handed patch context hprepare stmts hread
    refine (patch.forall_hexSafe_apply_iff stmts).1 (h _ ?_)
    exact except_bind_eq_ok.2 ⟨_, hprepare, by rw [finish, hread]⟩
  · intro h stmts hparse
    obtain ⟨prepared, hprepare, hfinish⟩ := except_bind_eq_ok.1 hparse
    cases prepared with
    | statements built =>
      cases hfinish
      exact p.yields_prepareForm _ _ _ hprepare
    | sql handed patch context =>
      rw [finish] at hfinish
      rcases hread : p.parseSql handed with e | read
      · rw [hread] at hfinish
        cases hfinish
      · rw [hread] at hfinish
        cases hfinish
        exact (patch.forall_hexSafe_apply_iff read).2 (h handed patch context hprepare read hread)

/-- **When parsing and resolving a text returns a value or an error.** -/
theorem parsing_noPanic_iff (p : Parser) (a : Resolver) (sql : Str) :
    ParsingReturns p a sql ↔ p.Sliceable (trim sql) (p.form sql) ∧ p.PayloadsAligned sql := by
  simp only [ParsingReturns, p.noPanic_parse_iff, resolve_noPanic_iff, p.forall_hexSafe_parse_iff]

theorem not_parsingReturns {p : Parser} (a : Resolver) {sql upper : Str} (form : Form)
    (hupper : p.caseMap.toUppercase (trim sql) = upper) (hform : Form.of upper = form)
    (h : ¬p.Sliceable (trim sql) form) : ¬ParsingReturns p a sql := by
  intro hreturns
  refine h ?_
  rw [← hform, ← hupper]
  exact (p.noPanic_parse_iff sql).1 hreturns.1

theorem Parser.targetLag?_minutes :
    p.targetLag? (text "CREATE DYNAMIC TABLE D TARGET_LAG = '18446744073709551615 MINUTES'") =
      some (18446744073709551615, 60) := by
  have hlag : splitOnce? (text "CREATE DYNAMIC TABLE D TARGET_LAG = '18446744073709551615 MINUTES'")
      (text "TARGET_LAG") = some (text "CREATE DYNAMIC TABLE D ",
        text " = '18446744073709551615 MINUTES'") := by decide +kernel
  have hquote : splitOnce? (text " = '18446744073709551615 MINUTES'") ['\''] =
      some (text " = ", text "18446744073709551615 MINUTES'") := by decide +kernel
  have hclose : splitOnce? (text "18446744073709551615 MINUTES'") ['\''] =
      some (text "18446744073709551615 MINUTES", []) := by decide +kernel
  have hupper := p.caseMap.toUppercase_of_ascii
    (s := trim (text "18446744073709551615 MINUTES")) (by decide +kernel)
  unfold targetLag?
  rw [hlag]
  dsimp only [bind_eq_bind, bind_some]
  rw [hquote]
  dsimp only [bind_some]
  rw [hclose]
  dsimp only [bind_some]
  rw [hupper]
  decide +kernel

/-- Parsing and resolving a text panics with every grammar and analyzer, with the upper case that
Unicode has for `ŉ`. -/
def ParsingPanics : Prop :=
  ∀ (p : Parser) (a : Resolver), p.caseMap.upper 'ŉ' = ['ʼ', 'N'] → ¬ParsingReturns p a sql

/-- Texts that panic: no word before the first CLONE, no word after the first TABLE, a role before
the function, a lag over 64 bits, and LIKE behind a character that is longer in upper case. -/
theorem parsing_panics :
    ParsingPanics (text "CLONE a CLONE b c") ∧
    ParsingPanics (text "CREATE STREAM a b c TABLE") ∧
    ParsingPanics (text "GRANT USAGE TO ROLE r ON FUNCTION f()") ∧
    ParsingPanics
      (text "CREATE DYNAMIC TABLE d TARGET_LAG = '18446744073709551615 MINUTES' AS SELECT 1") ∧
    ParsingPanics (text "SHOW STREAMS ŉ LIKE ŉ") := by
  refine ⟨fun p a _ => ?_, fun p a _ => ?_, fun p a _ => ?_, fun p a _ => ?_, fun p a hlong => ?_⟩
  · refine not_parsingReturns a .clone
      (p.caseMap.toUppercase_of_ascii (by decide +kernel)) (by decide +kernel) ?_
    intro h
    exact absurd (h (by decide +kernel) 0 (by decide +kernel)).1 (by decide)
  · refine not_parsingReturns a .createStream
      (p.caseMap.toUppercase_of_ascii (by decide +kernel)) (by decide +kernel) ?_
    intro h
    refine absurd (h ?_ (by decide +kernel) 5 (by decide +kernel)) (by decide +kernel)
    rw [p.caseMap.toUppercase_of_ascii (by decide +kernel)]
    decide +kernel
  · have hupper := p.caseMap.toUppercase_of_ascii
      (s := trim (text "GRANT USAGE TO ROLE r ON FUNCTION f()")) (by decide +kernel)
    refine not_parsingReturns a .functionGrant hupper (by decide +kernel) ?_
    intro h
    refine absurd (h 21 11 ?_ (by decide +kernel) ?_).1.1 (by decide)
    · rw [hupper]
      decide +kernel
    · rw [hupper]
      decide +kernel
  · have hupper := p.caseMap.toUppercase_of_ascii (s := trim
      (text "CREATE DYNAMIC TABLE d TARGET_LAG = '18446744073709551615 MINUTES' AS SELECT 1"))
      (by decide +kernel)
    refine not_parsingReturns a .dynamicTable hupper (by decide +kernel) ?_
    intro h
    have hheader := h (text "CREATE DYNAMIC TABLE D TARGET_LAG = '18446744073709551615 MINUTES'")
      (text "SELECT 1") (by rw [hupper]; decide +kernel)
    exact absurd (hheader.2.2 _ _ p.targetLag?_minutes) (by decide)
  · have hupper : p.caseMap.toUppercase (trim (text "SHOW STREAMS ŉ LIKE ŉ")) =
        text "SHOW STREAMS ʼN LIKE ʼN" := by
      have hsplit : trim (text "SHOW STREAMS ŉ LIKE ŉ") =
          text "SHOW STREAMS " ++ (['ŉ'] ++ (text " LIKE " ++ ['ŉ'])) := by decide +kernel
      have hone : p.caseMap.toUppercase ['ŉ'] = ['ʼ', 'N'] := by
        simp [toUppercase, hlong]
      rw [hsplit, toUppercase_append, toUppercase_append,
        toUppercase_append, hone, p.caseMap.toUppercase_of_ascii (by decide +kernel),
        p.caseMap.toUppercase_of_ascii (by decide +kernel)]
      decide +kernel
    refine not_parsingReturns a .showStreams hupper (by decide +kernel) ?_
    intro h
    have hcut := h 16 (by rw [hupper]; decide +kernel)
    rw [← splitAt?_isSome_iff] at hcut
    exact absurd hcut (by decide +kernel)

end NovaCore.Sql

import NovaCore.Common.Types
import NovaCore.Data.Bytes

/-!
# Result sets on the wire

The answer to a command is a list of payloads: one for an OK or an error; for a result set the
number of columns, a definition for each of them, the rows and a terminator.  A cell is a length and
a text, or the byte `0xfb` for NULL.

A reader knows the end of the rows by a packet that starts with `0xfe` and is too short for a row.
Without CLIENT_DEPRECATE_EOF the terminator is an EOF packet, which is one.  With it the terminator
is an OK packet that starts with `0x00`: it reads as one more row, and no end comes.  The number of
columns of a result set without columns is `0x00` too, the header of an OK packet.

## Main definitions

* `response` : the payloads sent for an answer.
* `readAnswer` : a reader of the text protocol.
* `decodeLenencInt`, `decodeLenencString` : the decoders of the codec.
* `UniquelyDecodable` : an answer can be told from all others, and is read back.

## Main results

* `response_injective` : different answers are sent as different payloads.
* `uniquelyDecodable_iff` : **which answers are read back.**
* `lenenc_decoded` : **length-encoded values are decoded.**
-/

namespace NovaCore.Mysql

open List Option UInt8

/-- A `String` of the source, whose length is a `usize`. -/
structure Text where
  text : String
  length_lt : (utf8 text).length < 2 ^ 64
  deriving DecidableEq

/-- The bytes of a text. -/
def Text.bytes (t : Text) : Bytes := utf8 t.text

variable (bs : Bytes)

/-- Read a text off its bytes. -/
def Text.ofBytes : Option Text :=
  (ofUtf8 bs).bind fun s => if h : (utf8 s).length < 2 ^ 64 then some ⟨s, h⟩ else none

theorem Text.ofBytes_bytes (t : Text) : ofBytes t.bytes = some t := by
  rw [ofBytes, bytes, ofUtf8_utf8, bind_some, dif_pos t.length_lt]

/-! ### Length-encoded integers and strings -/

/-- `encode_lenenc_int`. -/
def encodeLenencInt (val : ℕ) : Bytes :=
  if val < 251 then [UInt8.ofNat val]
  else if val < 65536 then 0xfc :: leBytes 2 val
  else if val < 16777216 then 0xfd :: leBytes 3 val
  else 0xfe :: leBytes 8 val

/-- `encode_lenenc_string`. -/
def encodeLenencString (s : Text) : Bytes := encodeLenencInt s.bytes.length ++ s.bytes

/-- Take a length-encoded integer off the front. -/
def readLenencInt : Bytes → Option (ℕ × Bytes)
  | [] => none
  | b :: bs =>
    if b.toNat < 251 then some (b.toNat, bs)
    else if b = 0xfc then readLe 2 bs
    else if b = 0xfd then readLe 3 bs
    else if b = 0xfe then readLe 8 bs
    else none

/-- Take a length-encoded string off the front. -/
def readLenencString : Option (Text × Bytes) := do
  let (len, bs) ← readLenencInt bs
  if bs.length < len then none
  else return (← Text.ofBytes (bs.take len), bs.drop len)

theorem readLenencInt_append {val : ℕ} (hval : val < 2 ^ 64) (rest : Bytes) :
    readLenencInt (encodeLenencInt val ++ rest) = some (val, rest) := by
  unfold encodeLenencInt
  split_ifs with h1 h2 h3
  · have hbyte := toNat_ofNat_of_lt' (lt_trans h1 (by decide))
    simp [readLenencInt, hbyte, h1]
  · simp [readLenencInt, readLe_append (k := 2) (by omega)]
  · simp [readLenencInt, readLe_append (k := 3) (by omega)]
  · simp [readLenencInt, readLe_append (k := 8) (by omega)]

/-- No length is the start of another one. -/
theorem encodeLenencInt_prefixFree {m n : ℕ} (hm : m < 2 ^ 64) (hn : n < 2 ^ 64)
    (h : encodeLenencInt m <+: encodeLenencInt n) : m = n := by
  obtain ⟨rest, h⟩ := h
  have hread := readLenencInt_append hm rest
  rw [h, ← append_nil (encodeLenencInt n), readLenencInt_append hn] at hread
  exact (congrArg Prod.fst (some.inj hread)).symm

theorem readLenencString_append (s : Text) (rest : Bytes) :
    readLenencString (encodeLenencString s ++ rest) = some (s, rest) := by
  have hlen : s.bytes.length < 2 ^ 64 := s.length_lt
  simp [readLenencString, encodeLenencString, readLenencInt_append hlen, s.ofBytes_bytes]

/-! ### Columns -/

/-- `ColumnType`. -/
inductive ColumnType
  | decimal
  | tiny
  | short
  | long
  | float
  | double
  | null
  | timestamp
  | longLong
  | int24
  | date
  | time
  | dateTime
  | year
  | newDate
  | varchar
  | bit
  | timestamp2
  | dateTime2
  | time2
  | json
  | newDecimal
  | enum
  | set
  | tinyBlob
  | mediumBlob
  | longBlob
  | blob
  | varString
  | string
  | geometry
  deriving DecidableEq

namespace ColumnType

/-- `ColumnType::to_u8`. -/
def toU8 : ColumnType → UInt8
  | decimal => 0x00
  | tiny => 0x01
  | short => 0x02
  | long => 0x03
  | float => 0x04
  | double => 0x05
  | null => 0x06
  | timestamp => 0x07
  | longLong => 0x08
  | int24 => 0x09
  | date => 0x0a
  | time => 0x0b
  | dateTime => 0x0c
  | year => 0x0d
  | newDate => 0x0e
  | varchar => 0x0f
  | bit => 0x10
  | timestamp2 => 0x11
  | dateTime2 => 0x12
  | time2 => 0x13
  | json => 0xf5
  | newDecimal => 0xf6
  | enum => 0xf7
  | set => 0xf8
  | tinyBlob => 0xf9
  | mediumBlob => 0xfa
  | longBlob => 0xfb
  | blob => 0xfc
  | varString => 0xfd
  | string => 0xfe
  | geometry => 0xff

/-- All column types. -/
def all : List ColumnType :=
  [decimal, tiny, short, long, float, double, null, timestamp, longLong, int24, date, time,
    dateTime, year, newDate, varchar, bit, timestamp2, dateTime2, time2, json, newDecimal, enum,
    set, tinyBlob, mediumBlob, longBlob, blob, varString, string, geometry]

/-- `ColumnType::from_u8`. -/
def fromU8 (val : UInt8) : Option ColumnType := all.find? fun t => t.toU8 = val

theorem fromU8_toU8 (t : ColumnType) : fromU8 t.toU8 = some t := by
  cases t <;> rfl

/-- `column_length`. -/
def columnLength : ColumnType → ℕ
  | tiny => 4
  | short => 6
  | long => 11
  | longLong => 20
  | float => 12
  | double => 22
  | date => 10
  | time => 10
  | dateTime => 19
  | timestamp => 19
  | year => 4
  | varString => 255
  | string => 255
  | blob => 65535
  | tinyBlob => 255
  | mediumBlob => 16777215
  | longBlob => 4294967295
  | _ => 255

end ColumnType

/-- `ColumnDef`. -/
structure ColumnDef where
  name : Text
  colType : ColumnType
  flags : UInt16
  decimals : UInt8
  deriving DecidableEq

/-- The catalogue name that every column definition starts with. -/
def defText : Text := ⟨"def", by decide⟩

def emptyText : Text := ⟨"", by decide⟩

/-- `build_column_def_packet`. -/
def buildColumnDefPacket (col : ColumnDef) : Bytes :=
  encodeLenencString defText ++ (encodeLenencString emptyText ++ (encodeLenencString emptyText ++
    (encodeLenencString emptyText ++ (encodeLenencString col.name ++
    (encodeLenencString col.name ++ (0x0c :: (leBytes 2 45 ++
    (leBytes 4 col.colType.columnLength ++ (col.colType.toU8 :: (leBytes 2 col.flags.toNat ++
    (col.decimals :: leBytes 2 0)))))))))))

/-- Read a column definition. -/
def readColumnDef : Option ColumnDef := do
  let (_, bs) ← readLenencString bs
  let (_, bs) ← readLenencString bs
  let (_, bs) ← readLenencString bs
  let (_, bs) ← readLenencString bs
  let (name, bs) ← readLenencString bs
  let (_, bs) ← readLenencString bs
  let (_, bs) ← readLe 1 bs
  let (_, bs) ← readLe 2 bs
  let (_, bs) ← readLe 4 bs
  let (colType, bs) ← readLe 1 bs
  let (flags, bs) ← readLe 2 bs
  let (decimals, bs) ← readLe 1 bs
  let (_, _) ← readLe 2 bs
  return {
    name
    colType := ← ColumnType.fromU8 (UInt8.ofNat colType)
    flags := UInt16.ofNat flags
    decimals := UInt8.ofNat decimals }

theorem readColumnDef_build (col : ColumnDef) :
    readColumnDef (buildColumnDefPacket col) = some col := by
  have hlength : col.colType.columnLength < 256 ^ 4 := by
    cases col.colType <;> decide
  have hflags : col.flags.toNat < 256 ^ 2 := col.flags.toNat_lt
  have hfill : readLe 2 (leBytes 2 0) = some (0, []) := rfl
  simp only [readColumnDef, buildColumnDefPacket, readLenencString_append, readLe_one,
    readLe_append (k := 2) (n := 45) (by decide), readLe_append hlength, readLe_append hflags,
    hfill, UInt8.ofNat_toNat, UInt16.ofNat_toNat, ColumnType.fromU8_toU8, bind_eq_bind, bind_some,
    Option.pure_def]

/-! ### Rows -/

/-- A row; a missing cell is NULL. -/
abbrev Row := List (Option Text)

/-- The bytes of a cell. -/
def encodeCell : Option Text → Bytes
  | some v => encodeLenencString v
  | none => [0xfb]

/-- `build_row_packet`. -/
def buildRowPacket (values : Row) : Bytes := values.flatMap encodeCell

/-- Take a cell off the front. -/
def readCell : Bytes → Option (Option Text × Bytes)
  | [] => none
  | b :: bs =>
    if b = 0xfb then some (none, bs)
    else (readLenencString (b :: bs)).map fun y => (some y.1, y.2)

/-- Read the cells of a packet; `fuel` bounds their number. -/
def readCells : ℕ → Bytes → Option Row
  | _, [] => some []
  | 0, _ => none
  | fuel + 1, bs => do
    let (cell, bs) ← readCell bs
    return cell :: (← readCells fuel bs)

/-- Read a row packet. -/
def readRow : Option Row := readCells bs.length bs

/-- The first byte of a length is never that of NULL or of an error, and that of an OK only for
0. -/
theorem encodeLenencInt_cons (val : ℕ) : ∃ b bs, encodeLenencInt val = b :: bs ∧ b ≠ 0xfb ∧
    b ≠ 0xff ∧ (val ≠ 0 → b ≠ 0x00) := by
  unfold encodeLenencInt
  split_ifs with h1
  · have hbyte := toNat_ofNat_of_lt' (lt_trans h1 (by decide))
    refine ⟨_, _, rfl, fun h => ?_, fun h => ?_, fun hval h => ?_⟩
    · rw [h] at hbyte
      have h251 : (0xfb : UInt8).toNat = 251 := rfl
      omega
    · rw [h] at hbyte
      have h255 : (0xff : UInt8).toNat = 255 := rfl
      omega
    · rw [h] at hbyte
      exact hval hbyte.symm
  all_goals exact ⟨_, _, rfl, by decide, by decide, fun _ => by decide⟩

theorem readCell_append (cell : Option Text) (rest : Bytes) :
    readCell (encodeCell cell ++ rest) = some (cell, rest) := by
  cases cell with
  | none => rfl
  | some v =>
    obtain ⟨b, bs, hlen, hb, -⟩ := encodeLenencInt_cons v.bytes.length
    have hread := readLenencString_append v rest
    simp only [encodeCell, encodeLenencString, hlen, cons_append] at hread ⊢
    rw [readCell, if_neg hb, hread, map_some]

theorem length_encodeCell_pos (cell : Option Text) : 0 < (encodeCell cell).length := by
  cases cell with
  | none => decide
  | some v =>
    obtain ⟨b, bs, hlen, -⟩ := encodeLenencInt_cons v.bytes.length
    simp [encodeCell, encodeLenencString, hlen]

theorem readCells_build (row : Row) {fuel : ℕ} (hfuel : (buildRowPacket row).length ≤ fuel) :
    readCells fuel (buildRowPacket row) = some row := by
  induction row generalizing fuel with
  | nil => cases fuel <;> rfl
  | cons cell row ih =>
    have hpos := length_encodeCell_pos cell
    have hread := readCell_append cell (buildRowPacket row)
    have hcons : buildRowPacket (cell :: row) = encodeCell cell ++ buildRowPacket row := rfl
    rw [hcons] at hfuel ⊢
    rw [length_append] at hfuel
    obtain ⟨fuel, rfl⟩ : ∃ n, fuel = n + 1 := ⟨fuel - 1, by omega⟩
    have ih : readCells fuel (buildRowPacket row) = some row := ih (by omega)
    cases hbytes : encodeCell cell ++ buildRowPacket row with
    | nil => simp [append_eq_nil_iff.1 hbytes] at hpos
    | cons b bs =>
      rw [hbytes] at hread
      simp [readCells, hread, ih]

/-- A row packet is read back. -/
theorem readRow_build (row : Row) : readRow (buildRowPacket row) = some row :=
  readCells_build row le_rfl

/-! ### Answers -/

variable (capabilities : UInt32)

/-- `ClientCapabilities::supports_deprecate_eof`. -/
def supportsDeprecateEof : Bool := capabilities &&& 0x01000000 ≠ 0

/-- `ServerStatus::AUTOCOMMIT`: the server never changes the status of a session to anything
else. -/
def autocommit : ℕ := 0x0002

/-- The table of `MySqlError::sql_state`. -/
def sqlStates : List (ℕ × String) :=
  [(1043, "08S01"), (1045, "28000"), (1049, "42000"), (1044, "42000"), (1130, "HY000"),
    (1064, "42000"), (1146, "42S02"), (1054, "42S22"), (1096, "42S02"), (1050, "42S01"),
    (1047, "08S01"), (1235, "42000"), (1149, "42000"), (1317, "70100"), (1053, "08S01"),
    (1152, "08S01"), (1243, "HY000"), (1325, "HY000"), (1318, "21S01")]

/-- `MySqlError::sql_state`. -/
def sqlState (code : ℕ) : String :=
  match sqlStates.find? fun x => x.1 = code with
  | some x => x.2
  | none => "HY000"

/-- `build_ok_packet`. -/
def buildOkPacket (affectedRows lastInsertId : UInt64) (status : ℕ) (message : Text) : Bytes :=
  0x00 :: (encodeLenencInt affectedRows.toNat ++ (encodeLenencInt lastInsertId.toNat ++
    (leBytes 2 status ++ (leBytes 2 0 ++ message.bytes))))

/-- `build_error_packet`; `0x23` is the marker `#`. -/
def buildErrorPacket (code : UInt16) (message : Text) : Bytes :=
  0xff :: (leBytes 2 code.toNat ++ (0x23 :: (utf8 (sqlState code.toNat) ++ message.bytes)))

/-- `build_eof_packet`. -/
def buildEofPacket (status warnings : ℕ) : Bytes := 0xfe :: (leBytes 2 status ++ leBytes 2 warnings)

/-- `build_column_count_packet`. -/
def buildColumnCountPacket (count : ℕ) : Bytes := encodeLenencInt count

/-- The arms of `CommandResult` that carry something; the number of columns is a `usize`. -/
inductive Answer
  | ok (affectedRows lastInsertId : UInt64) (message : Text)
  | error (code : UInt16) (message : Text)
  | resultSet (columns : List ColumnDef) (rows : List Row) (h : columns.length < 2 ^ 64)

/-- The packet behind the rows. -/
def terminator : Bytes :=
  if supportsDeprecateEof capabilities then buildOkPacket 0 0 autocommit emptyText
  else buildEofPacket autocommit 0

/-- The packet between columns and rows, if there is one. -/
def columnEnd : List Bytes :=
  if supportsDeprecateEof capabilities then [] else [buildEofPacket autocommit 0]

/-- The payloads sent for an answer. -/
def response : Answer → List Bytes
  | .ok affectedRows lastInsertId message =>
    [buildOkPacket affectedRows lastInsertId autocommit message]
  | .error code message => [buildErrorPacket code message]
  | .resultSet columns rows _ =>
    buildColumnCountPacket columns.length :: (columns.map buildColumnDefPacket ++
      (columnEnd capabilities ++ (rows.map buildRowPacket ++ [terminator capabilities])))

/-! ### A reader -/

/-- Read the rest of an OK packet. -/
def readOk (bs : Bytes) : Option Answer := do
  let (affectedRows, bs) ← readLenencInt bs
  let (lastInsertId, bs) ← readLenencInt bs
  let (_, bs) ← readLe 2 bs
  let (_, bs) ← readLe 2 bs
  return .ok (UInt64.ofNat affectedRows) (UInt64.ofNat lastInsertId) (← Text.ofBytes bs)

/-- Read the rest of an error packet: the code, six bytes with the state, the message. -/
def readError (bs : Bytes) : Option Answer := do
  let (code, bs) ← readLe 2 bs
  return .error (UInt16.ofNat code) (← Text.ofBytes (bs.drop 6))

/-- Whether a packet is one that ends columns or rows.  A row may start with `0xfe` too, but then
its first cell is longer than these packets are: an EOF packet, and an OK packet in its place, which
fits one packet of the wire. -/
def endsRows (p : Bytes) : Bool :=
  p.head? = some 0xfe ∧ p.length < if supportsDeprecateEof capabilities then 0xffffff else 9

/-- Read rows until the packet that ends them, and return what follows it. -/
def readRows : List Bytes → Option (List Row × List Bytes)
  | [] => none
  | p :: ps =>
    if endsRows capabilities p then some ([], ps)
    else do
      let row ← readRow p
      let (rows, ps) ← readRows ps
      return (row :: rows, ps)

/-- Skip the packet between columns and rows, if there is one. -/
def skipColumnEnd (ps : List Bytes) : Option (List Bytes) :=
  if supportsDeprecateEof capabilities then some ps
  else match ps with
    | [] => none
    | p :: ps => if endsRows capabilities p then some ps else none

/-- Read a result set of `count` columns. -/
def readResultSet (count : ℕ) (ps : List Bytes) : Option (Answer × List Bytes) := do
  let columns ← (ps.take count).mapM readColumnDef
  let ps ← skipColumnEnd capabilities (ps.drop count)
  let (rows, ps) ← readRows capabilities ps
  if h : columns.length < 2 ^ 64 then return (.resultSet columns rows h, ps) else none

/-- A reader of the text protocol.  The first byte tells an OK, an error and a number of columns
apart; it returns the answer and the payloads behind it. -/
def readAnswer : List Bytes → Option (Answer × List Bytes)
  | [] => none
  | [] :: _ => none
  | (header :: bs) :: ps =>
    if header = 0x00 then (readOk bs).map fun a => (a, ps)
    else if header = 0xff then (readError bs).map fun a => (a, ps)
    else do
      let (count, rest) ← readLenencInt (header :: bs)
      if rest = [] then readResultSet capabilities count ps else none

theorem length_utf8_sqlState {code : ℕ} : (utf8 (sqlState code)).length = 5 := by
  have htable : ∀ x ∈ sqlStates, (utf8 x.2).length = 5 := by decide
  unfold sqlState
  split
  · next x hx => exact htable x (mem_of_find?_eq_some hx)
  · rfl

theorem readOk_build (affectedRows lastInsertId : UInt64) (message : Text) :
    (readOk (encodeLenencInt affectedRows.toNat ++ (encodeLenencInt lastInsertId.toNat ++
      (leBytes 2 autocommit ++ (leBytes 2 0 ++ message.bytes))))) =
      some (.ok affectedRows lastInsertId message) := by
  simp [readOk, readLenencInt_append affectedRows.toNat_lt,
    readLenencInt_append lastInsertId.toNat_lt,
    readLe_append (k := 2) (n := autocommit) (by decide),
    readLe_append (k := 2) (n := 0) (by decide), Text.ofBytes_bytes]

theorem readError_build (code : UInt16) (message : Text) :
    readError (leBytes 2 code.toNat ++ (0x23 :: (utf8 (sqlState code.toNat) ++ message.bytes))) =
      some (.error code message) := by
  have hcode : code.toNat < 256 ^ 2 := code.toNat_lt
  have hdrop : (0x23 :: (utf8 (sqlState code.toNat) ++ message.bytes)).drop 6 = message.bytes :=
    drop_left' length_utf8_sqlState
  simp [readError, readLe_append hcode, hdrop, Text.ofBytes_bytes]

/-! ### Different answers -/

theorem mapM_map_of_inverse {α β : Type} {f : α → β} {g : β → Option α}
    (h : ∀ x, g (f x) = some x) (xs : List α) : (xs.map f).mapM g = some xs := by
  induction xs with
  | nil => rfl
  | cons x xs ih => simp [h x, ih]

theorem injective_of_inverse {α β : Type} {f : α → β} {g : β → Option α}
    (h : ∀ x, g (f x) = some x) : Function.Injective f := by
  intro x y hxy
  exact mem_unique (h x) ((congrArg g hxy).trans (h y))

theorem buildRowPacket_injective : Function.Injective buildRowPacket :=
  injective_of_inverse readRow_build

/-- **Different answers are sent as different payloads.** -/
theorem response_injective : Function.Injective (response capabilities) := by
  intro a a' h
  cases a with
  | ok affectedRows lastInsertId message =>
    cases a' with
    | ok affectedRows' lastInsertId' message' =>
      have hbody := tail_eq_of_cons_eq (head_eq_of_cons_eq h)
      have hread := readOk_build affectedRows lastInsertId message
      rw [hbody, readOk_build] at hread
      exact (some.inj hread).symm
    | error => exact absurd (head_eq_of_cons_eq (head_eq_of_cons_eq h)) (by decide)
    | resultSet => simp [response] at h
  | error code message =>
    cases a' with
    | ok => exact absurd (head_eq_of_cons_eq (head_eq_of_cons_eq h)) (by decide)
    | error code' message' =>
      have hbody := tail_eq_of_cons_eq (head_eq_of_cons_eq h)
      have hread := readError_build code message
      rw [hbody, readError_build] at hread
      exact (some.inj hread).symm
    | resultSet => simp [response] at h
  | resultSet columns rows hcount =>
    cases a' with
    | ok | error => simp [response] at h
    | resultSet columns' rows' hcount' =>
      obtain ⟨hlen, hrest⟩ := cons_eq_cons.1 h
      have hlen := encodeLenencInt_prefixFree hcount hcount' ⟨[], (append_nil _).trans hlen⟩
      obtain ⟨hcols, hrest⟩ := append_inj hrest (by simp [hlen])
      have hrows := append_cancel_right (append_cancel_left hrest)
      obtain rfl := map_injective_iff.2 (injective_of_inverse readColumnDef_build) hcols
      obtain rfl := map_injective_iff.2 buildRowPacket_injective hrows
      rfl

/-! ### Reading an answer back -/

variable {capabilities : UInt32}

/-- A row that starts with `0xfe` has a cell of at least 2 ^ 24 bytes. -/
theorem endsRows_buildRowPacket (row : Row) :
    endsRows capabilities (buildRowPacket row) = false := by
  have hlimit : (if supportsDeprecateEof capabilities then 0xffffff else 9) ≤ 0xffffff := by
    split_ifs <;> decide
  rw [endsRows, decide_eq_false_iff_not]
  rintro ⟨hhead, hlength⟩
  rcases row with _ | ⟨_ | v, row⟩
  · cases hhead
  · cases hhead
  · have hcons : buildRowPacket (some v :: row) =
        encodeLenencInt v.bytes.length ++ (v.bytes ++ buildRowPacket row) := by
      simp [buildRowPacket, encodeCell, encodeLenencString]
    rw [hcons] at hhead hlength
    rw [length_append, length_append] at hlength
    have hsmall : v.bytes.length < 16777216 := by omega
    unfold encodeLenencInt at hhead
    split_ifs at hhead with h1
    · have hbyte := toNat_ofNat_of_lt' (lt_trans h1 (by decide))
      rw [some.inj hhead] at hbyte
      have h254 : (0xfe : UInt8).toNat = 254 := rfl
      omega
    all_goals exact absurd (some.inj hhead) (by decide)

theorem endsRows_buildEofPacket (h : ¬supportsDeprecateEof capabilities = true) :
    endsRows capabilities (buildEofPacket autocommit 0) = true := by
  have hlength : (buildEofPacket autocommit 0).length < 9 := by decide
  rw [endsRows, decide_eq_true_iff, if_neg h]
  exact ⟨rfl, hlength⟩

/-- Rows are read until a packet comes that ends them. -/
theorem readRows_append (rows : List Row) (ps : List Bytes) :
    readRows capabilities (rows.map buildRowPacket ++ ps) =
      (readRows capabilities ps).map fun y => (rows ++ y.1, y.2) := by
  induction rows with
  | nil => simp
  | cons row rows ih =>
    simp only [map_cons, cons_append, readRows, endsRows_buildRowPacket, readRow_build, ih]
    cases readRows capabilities ps <;> rfl

/-- The terminator ends the rows exactly if the client does not deprecate EOF. -/
theorem readRows_terminator : readRows capabilities [terminator capabilities] =
    if supportsDeprecateEof capabilities then none else some ([], []) := by
  by_cases h : supportsDeprecateEof capabilities = true
  · have hok : (buildOkPacket 0 0 autocommit emptyText).head? = some 0x00 := rfl
    rw [if_pos h, readRows, terminator, if_pos h, if_neg (by simp [endsRows, hok])]
    simp [readRows]
  · rw [if_neg h, readRows, terminator, if_neg h, if_pos (endsRows_buildEofPacket h)]

/-- Reading a result set that was sent. -/
theorem readResultSet_response {columns : List ColumnDef} {rows : List Row}
    (hcount : columns.length < 2 ^ 64) :
    readResultSet capabilities columns.length (columns.map buildColumnDefPacket ++
      (columnEnd capabilities ++ (rows.map buildRowPacket ++ [terminator capabilities]))) =
      if supportsDeprecateEof capabilities then none else
        some (.resultSet columns rows hcount, []) := by
  have hlen : (columns.map buildColumnDefPacket).length = columns.length := length_map _
  have hskip (ps : List Bytes) :
      skipColumnEnd capabilities (columnEnd capabilities ++ ps) = some ps := by
    unfold skipColumnEnd columnEnd
    split_ifs with h
    · rfl
    · simp [endsRows_buildEofPacket h]
  simp only [readResultSet, take_left' hlen, drop_left' hlen, hskip,
    mapM_map_of_inverse readColumnDef_build, readRows_append, readRows_terminator, bind_eq_bind,
    bind_some, dif_pos hcount]
  split_ifs <;> simp

/-- A number of columns other than 0 is not taken for an OK or an error. -/
theorem readAnswer_count {count : ℕ} (hpos : count ≠ 0) (hcount : count < 2 ^ 64)
    (ps : List Bytes) :
    readAnswer capabilities (buildColumnCountPacket count :: ps) =
      readResultSet capabilities count ps := by
  have hread := readLenencInt_append hcount []
  obtain ⟨b, bs, hlen, -, herror, hok⟩ := encodeLenencInt_cons count
  rw [append_nil, hlen] at hread
  rw [buildColumnCountPacket, hlen, readAnswer, if_neg (hok hpos), if_neg herror, hread]
  simp

/-- An answer can be told from all others and is read back, none of its rows is the terminator, and
a result set does not start like an OK packet. -/
structure UniquelyDecodable (capabilities : UInt32) (a : Answer) : Prop where
  distinct : ∀ a', response capabilities a' = response capabilities a → a' = a
  recovers : readAnswer capabilities (response capabilities a) = some (a, [])
  rows : ∀ columns rows h, a = .resultSet columns rows h → ∀ row ∈ rows,
    buildRowPacket row ≠ terminator capabilities
  header : ∀ columns rows h, a = .resultSet columns rows h →
    (response capabilities a).head?.bind List.head? ≠ some 0x00

/-- A row packet is no EOF packet. -/
theorem buildRowPacket_ne_terminator (h : supportsDeprecateEof capabilities = false) (row : Row) :
    buildRowPacket row ≠ terminator capabilities := by
  have hdep : ¬supportsDeprecateEof capabilities = true := by simp [h]
  intro heq
  have hends := @endsRows_buildRowPacket capabilities row
  rw [heq, terminator, if_neg hdep, endsRows_buildEofPacket hdep] at hends
  cases hends

/-- **Decoding of answers.**  An answer is read back exactly if it is an OK, an error, or a result
set with columns that is sent to a client that does not deprecate EOF. -/
theorem uniquelyDecodable_iff (capabilities : UInt32) (a : Answer) :
    UniquelyDecodable capabilities a ↔ ∀ columns rows h, a = .resultSet columns rows h →
      columns ≠ [] ∧ supportsDeprecateEof capabilities = false := by
  constructor
  · rintro hdec columns rows h rfl
    have hcolumns : columns ≠ [] := by
      rintro rfl
      exact hdec.header [] rows h rfl rfl
    refine ⟨hcolumns, ?_⟩
    have hread := hdec.recovers
    rw [response, readAnswer_count (by simpa using hcolumns) h, readResultSet_response h] at hread
    by_contra hdep
    rw [if_pos (by simpa using hdep)] at hread
    cases hread
  · intro hcond
    refine ⟨fun a' h => response_injective capabilities h, ?_, ?_, ?_⟩
    · cases a with
      | ok affectedRows lastInsertId message =>
        simp [response, buildOkPacket, readAnswer, readOk_build]
      | error code message => simp [response, buildErrorPacket, readAnswer, readError_build]
      | resultSet columns rows h =>
        obtain ⟨hcolumns, hdep⟩ := hcond columns rows h rfl
        rw [response, readAnswer_count (by simpa using hcolumns) h, readResultSet_response h, hdep]
        rfl
    · exact fun columns rows h ha row _ =>
        buildRowPacket_ne_terminator (hcond columns rows h ha).2 row
    · rintro columns rows h rfl
      have hpos : columns.length ≠ 0 := by simpa using (hcond columns rows h rfl).1
      obtain ⟨b, bs, hlen, -, -, hok⟩ := encodeLenencInt_cons columns.length
      simpa [response, buildColumnCountPacket, hlen] using hok hpos

/-- A column of texts. -/
def textColumn : ColumnDef := ⟨⟨"a", by decide⟩, .varString, 0, 0⟩

/-- The row whose packet is the terminator of a client that deprecates EOF. -/
def terminatorRow : Row :=
  [some emptyText, some emptyText, some emptyText, some ⟨"\x00\x00", by decide⟩, some emptyText]

/-- A client that deprecates EOF finds no end of the rows of any result set, and five cells make up
the packet behind them. -/
theorem response_deprecateEof :
    let a := Answer.resultSet [textColumn] [[some emptyText]] (by decide)
    readAnswer 0x01000000 (response 0x01000000 a) = none ∧ ¬UniquelyDecodable 0x01000000 a ∧
      buildRowPacket terminatorRow = terminator 0x01000000 := by
  intro a
  have hnone : readAnswer 0x01000000 (response 0x01000000 a) = none := by
    rw [response, readAnswer_count (by decide) (by decide), readResultSet_response (by decide)]
    rfl
  refine ⟨hnone, fun h => ?_, by decide⟩
  cases hnone.symm.trans h.recovers

/-! ### The codec -/

/-- `encode_lenenc_int` of the codec. -/
def Codec.encodeLenencInt (val : ℕ) : Bytes :=
  if val < 251 then [UInt8.ofNat val]
  else if val < 65536 then 0xfc :: leBytes 2 (val % 2 ^ 16)
  else if val < 16777216 then 0xfd :: (leBytes 4 (val % 2 ^ 32)).take 3
  else 0xfe :: leBytes 8 val

/-- `encode_lenenc_string` of the codec. -/
def Codec.encodeLenencString (s : Text) : Bytes :=
  encodeLenencInt s.bytes.length ++ s.bytes

/-- The branch of `decode_lenenc_int` for a number of `k` bytes. -/
def decodeLe (k : ℕ) (needs : String) (bs : Bytes) : Except NovaError (ℕ × ℕ) :=
  match readLe k bs with
  | none => .error (.internal needs)
  | some x => .ok (x.1, k + 1)

/-- `decode_lenenc_int`: the value and the number of bytes it took. -/
def decodeLenencInt : Bytes → Except NovaError (ℕ × ℕ)
  | [] => .error (.internal "empty buffer for lenenc_int")
  | b :: bs =>
    if b.toNat < 251 then .ok (b.toNat, 1)
    else if b = 0xfc then decodeLe 2 "lenenc_int 0xfc needs 3 bytes" bs
    else if b = 0xfd then decodeLe 3 "lenenc_int 0xfd needs 4 bytes" bs
    else if b = 0xfe then decodeLe 8 "lenenc_int 0xfe needs 9 bytes" bs
    else .error (.internal ("invalid lenenc_int prefix: 0x" ++ if b = 0xfb then "fb" else "ff"))

-- the text that `from_utf8_lossy` makes of bytes that are not UTF-8
variable (lossy : Bytes → String)

/-- `decode_lenenc_string`; it panics if the length overflows a `usize`. -/
def decodeLenencString (buf : Bytes) : Option (Except NovaError (String × ℕ)) :=
  match decodeLenencInt buf with
  | .error e => some (.error e)
  | .ok (len, lenSize) =>
    let total := lenSize + len
    if 2 ^ 64 ≤ total then none
    else if buf.length < total then
      some (.error (.internal ("lenenc_string needs " ++ toString total ++ " bytes, got " ++
        toString buf.length)))
    else
      let bytes := (buf.take total).drop lenSize
      some (.ok ((ofUtf8 bytes).getD (lossy bytes), total))

/-- The cells of a row packet, decoded one after another; `fuel` bounds their number. -/
def decodeCells : ℕ → Bytes → Option (List (Option String))
  | _, [] => some []
  | 0, _ => none
  | fuel + 1, b :: bs =>
    if b = 0xfb then (decodeCells fuel bs).map (none :: ·)
    else match decodeLenencString lossy (b :: bs) with
      | some (.ok (v, n)) => (decodeCells fuel ((b :: bs).drop n)).map (some v :: ·)
      | _ => none

variable {lossy}

theorem Codec.encodeLenencInt_eq (val : ℕ) : encodeLenencInt val = Mysql.encodeLenencInt val := by
  unfold encodeLenencInt Mysql.encodeLenencInt
  split_ifs with h1 h2 h3
  · rfl
  · rw [Nat.mod_eq_of_lt (by omega)]
  · rw [Nat.mod_eq_of_lt (by omega)]
    rfl
  · rfl

theorem length_encodeLenencInt_le (val : ℕ) : (encodeLenencInt val).length ≤ 9 := by
  unfold encodeLenencInt
  split_ifs <;> simp

theorem decodeLenencInt_append {val : ℕ} (hval : val < 2 ^ 64) (rest : Bytes) :
    decodeLenencInt (encodeLenencInt val ++ rest) = .ok (val, (encodeLenencInt val).length) := by
  unfold encodeLenencInt
  split_ifs with h1 h2 h3
  · have hbyte := toNat_ofNat_of_lt' (lt_trans h1 (by decide))
    simp [decodeLenencInt, hbyte, h1]
  · simp [decodeLenencInt, decodeLe, readLe_append (k := 2) (by omega)]
  · simp [decodeLenencInt, decodeLe, readLe_append (k := 3) (by omega)]
  · simp [decodeLenencInt, decodeLe, readLe_append (k := 8) (by omega)]

theorem decodeLenencString_append {x : Text} (hx : x.bytes.length < 2 ^ 63) (rest : Bytes) :
    decodeLenencString lossy (encodeLenencString x ++ rest) =
      some (.ok (x.text, (encodeLenencString x).length)) := by
  have hlen : x.bytes.length < 2 ^ 64 := x.length_lt
  have hsize := length_encodeLenencInt_le x.bytes.length
  have hfits : (encodeLenencInt x.bytes.length).length + x.bytes.length < 2 ^ 64 := by omega
  have hutf8 : ofUtf8 x.bytes = some x.text := ofUtf8_utf8 x.text
  rw [encodeLenencString, append_assoc, decodeLenencString, decodeLenencInt_append hlen]
  simp [hutf8, take_append]
  exact hfits

theorem decodeCells_build {row : Row} (hrow : ∀ x ∈ row, ∀ v ∈ x, v.bytes.length < 2 ^ 63)
    {fuel : ℕ} (hfuel : (buildRowPacket row).length ≤ fuel) :
    decodeCells lossy fuel (buildRowPacket row) = some (row.map (Option.map Text.text)) := by
  induction row generalizing fuel with
  | nil => cases fuel <;> rfl
  | cons cell row ih =>
    have hpos := length_encodeCell_pos cell
    have hcons : buildRowPacket (cell :: row) = encodeCell cell ++ buildRowPacket row := rfl
    rw [hcons, length_append] at hfuel
    obtain ⟨fuel, rfl⟩ : ∃ n, fuel = n + 1 := ⟨fuel - 1, by omega⟩
    have ih := @ih (forall_mem_of_forall_mem_cons hrow) fuel (by omega)
    rw [hcons]
    cases cell with
    | none => simp [encodeCell, decodeCells, ih]
    | some v =>
      have hv : v.bytes.length < 2 ^ 63 := hrow _ mem_cons_self v rfl
      have hdecode := @decodeLenencString_append lossy v hv (buildRowPacket row)
      obtain ⟨b, bs, hlen, hb, -⟩ := encodeLenencInt_cons v.bytes.length
      simp only [encodeCell, encodeLenencString, hlen, cons_append] at hdecode ⊢
      rw [decodeCells, if_neg hb, hdecode]
      simp [ih]

/-- **Length-encoded values can be told apart and are decoded.**  Both encoders agree; no encoding
is the start of another one, or starts like NULL or an error. -/
theorem lenenc_decoded :
    (∀ v, Codec.encodeLenencInt v = encodeLenencInt v) ∧
    (∀ x, Codec.encodeLenencString x = encodeLenencString x) ∧
    (∀ (v : UInt64) rest, decodeLenencInt (encodeLenencInt v.toNat ++ rest) =
      .ok (v.toNat, (encodeLenencInt v.toNat).length)) ∧
    (∀ x : Text, x.bytes.length < 2 ^ 63 → ∀ rest,
      decodeLenencString lossy (encodeLenencString x ++ rest) =
        some (.ok (x.text, (encodeLenencString x).length))) ∧
    (∀ v w : UInt64, encodeLenencInt v.toNat <+: encodeLenencInt w.toNat → v = w) ∧
    (∀ x y, encodeLenencString x <+: encodeLenencString y → x = y) ∧
    (∀ v, ∀ b ∈ (encodeLenencInt v).head?, b ≠ 0xfb ∧ b ≠ 0xff) ∧
    (∀ x, ∀ b ∈ (encodeLenencString x).head?, b ≠ 0xfb ∧ b ≠ 0xff) ∧
    ∀ row : Row, (∀ x ∈ row, ∀ v ∈ x, v.bytes.length < 2 ^ 63) →
      decodeCells lossy (buildRowPacket row).length (buildRowPacket row) =
        some (row.map (Option.map Text.text)) := by
  have hhead : ∀ v rest, ∀ b ∈ (encodeLenencInt v ++ rest).head?, b ≠ 0xfb ∧ b ≠ 0xff := by
    intro v rest b hb
    obtain ⟨b', bs, hlen, hnull, herror, -⟩ := encodeLenencInt_cons v
    rw [hlen] at hb
    cases hb
    exact ⟨hnull, herror⟩
  refine ⟨Codec.encodeLenencInt_eq, fun x => congrArg (· ++ _) (Codec.encodeLenencInt_eq _),
    fun v => decodeLenencInt_append v.toNat_lt, fun x => decodeLenencString_append, ?_, ?_,
    fun v => append_nil (encodeLenencInt v) ▸ hhead v [], fun x => hhead _ _,
    fun row hrow => decodeCells_build hrow le_rfl⟩
  · exact fun v w h => UInt64.toNat_inj.1 (encodeLenencInt_prefixFree v.toNat_lt w.toNat_lt h)
  · rintro x y ⟨rest, hy⟩
    have hread := readLenencString_append x rest
    rw [hy, ← append_nil (encodeLenencString y), readLenencString_append] at hread
    exact (congrArg Prod.fst (some.inj hread)).symm

end NovaCore.Mysql

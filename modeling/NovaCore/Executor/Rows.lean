import Mathlib.Data.List.Forall2
import Mathlib.Data.List.OfFn

/-!
# Rows as texts

`batches_to_query_result` turns the batches of a query into the texts that a client sees.  Values
of a type that `array_value_to_string` does not know are all written `?`, a NULL is written like the
string `NULL`, and without batches there are no column names.  Nothing else is lost
(`batchesToQueryResult_faithful_iff`).
-/

namespace NovaCore

open List Nat

/-- The types of the columns of a result. -/
inductive ColumnKind
  | int8 | int16 | int32 | int64 | uint64 | boolean | utf8 | date32 | timestamp
  deriving DecidableEq

namespace ColumnKind

/-- The values of a column. -/
abbrev Value : ColumnKind → Type
  | int8 => Int8
  | int16 => Int16
  | int32 | date32 => Int32
  | int64 | timestamp => Int64
  | uint64 => UInt64
  | boolean => Bool
  | utf8 => String

/-- `array_value_to_string`. -/
def arrayValueToString : (k : ColumnKind) → Option k.Value → String
  | _, none => "NULL"
  | int64, some v => v.toInt.repr
  | utf8, some v => v
  | int32, some v => v.toInt.repr
  | uint64, some v => v.toNat.repr
  | boolean, some v => toString v
  | _, some _ => "?"

/-- Cells of a column that a client cannot tell apart. -/
inductive Alike : (k : ColumnKind) → Option k.Value → Option k.Value → Prop
  | refl {k : ColumnKind} (a : Option k.Value) : Alike k a a
  | unknown {k : ColumnKind} (hk : k ∈ [int8, int16, date32, timestamp]) (v w : k.Value) :
      Alike k (some v) (some w)
  | nullText : Alike utf8 none (some "NULL")
  | textNull : Alike utf8 (some "NULL") none

variable {k : ColumnKind} {a b : Option k.Value}

/-- A number is written with digits, behind a minus sign if it is negative. -/
theorem not_mem_repr {c : Char} (hc : c.isDigit = false) (m : ℕ) : c ∉ m.repr.toList := fun hm => by
  have hdigit := isDigit_of_mem_toDigits (by decide) (by decide) (toList_repr ▸ hm)
  rw [hc] at hdigit
  cases hdigit

/-- A number is not written `NULL`. -/
theorem repr_ne_null (n : ℤ) : n.repr ≠ "NULL" := by
  intro h
  have hmem : 'N' ∈ n.repr.toList := by simp [h]
  rw [Int.repr_eq_if] at hmem
  split_ifs at hmem
  · exact not_mem_repr rfl _ hmem
  · exact not_mem_repr (c := 'N') rfl _ (by simpa using hmem)

theorem natRepr_injective : Function.Injective Nat.repr := fun m n h => by
  have hdigits : toDigits 10 m = toDigits 10 n := by
    rw [← toList_repr, h, toList_repr]
  rw [← @ofDigitChars_ten_toDigits m, hdigits, ofDigitChars_ten_toDigits]

theorem intRepr_injective : Function.Injective Int.repr := by
  -- the sign of a number is the first character of its text
  have hsign : ∀ (k m : ℕ), "-" ++ k.repr ≠ m.repr := fun k m h =>
    not_mem_repr (c := '-') rfl m (by simp [← h])
  intro m n h
  rw [Int.repr_eq_if, Int.repr_eq_if] at h
  split_ifs at h with hm hn hn
  · have habs := natRepr_injective h
    omega
  · exact absurd h.symm (hsign _ _)
  · exact absurd h (hsign _ _)
  · have habs := natRepr_injective (String.append_right_inj _ |>.1 h)
    omega

/-- Only the string `NULL` is written like a NULL. -/
theorem alike_of_eq_null {v : k.Value} (h : k.arrayValueToString (some v) = "NULL") :
    k.Alike none (some v) ∧ k.Alike (some v) none := by
  cases k with
  | utf8 =>
    obtain rfl : v = "NULL" := h
    exact ⟨.nullText, .textNull⟩
  | int32 | int64 => exact absurd h (repr_ne_null v.toInt)
  | uint64 => exact absurd h (repr_ne_null v.toNat)
  | boolean => cases v <;> exact absurd h (by decide)
  | _ => simp [arrayValueToString] at h

theorem arrayValueToString_eq_iff :
    k.arrayValueToString a = k.arrayValueToString b ↔ k.Alike a b := by
  constructor
  · intro h
    match a, b with
    | none, none => exact .refl none
    | none, some v => exact (alike_of_eq_null h.symm).1
    | some v, none => exact (alike_of_eq_null h).2
    | some v, some w =>
      cases k with
      | int8 | int16 | date32 | timestamp => exact .unknown (by decide) v w
      | int32 => exact Int32.toInt_inj.1 (intRepr_injective h) ▸ .refl _
      | int64 => exact Int64.toInt_inj.1 (intRepr_injective h) ▸ .refl _
      | uint64 => exact UInt64.toNat_inj.1 (natRepr_injective h) ▸ .refl _
      | utf8 => exact (show v = w from h) ▸ .refl _
      | boolean =>
        have hvw : v = w := by revert v w; decide
        exact hvw ▸ .refl _
  · intro h
    cases h with
    | unknown hk v w =>
      simp only [mem_cons, not_mem_nil, or_false] at hk
      rcases hk with rfl | rfl | rfl | rfl <;> rfl
    | _ => rfl

end ColumnKind

/-- The names and types of the columns of a result. -/
abbrev ResultSchema := List (String × ColumnKind)

/-- A row of a batch with the given columns. -/
abbrev ResultRow (schema : ResultSchema) := (i : Fin schema.length) → Option (schema.get i).2.Value

open ColumnKind

variable {schema : ResultSchema}

/-- `batches_to_query_result`, of batches that are lists of rows. -/
def batchesToQueryResult : List (List (ResultRow schema)) → List String × List (List String)
  | [] => ([], [])
  | batches => (schema.map Prod.fst, batches.flatten.map fun row =>
      ofFn fun i => (schema.get i).2.arrayValueToString (row i))

theorem batchesToQueryResult_rows (batches : List (List (ResultRow schema))) :
    (batchesToQueryResult batches).2 = batches.flatten.map fun row =>
      ofFn fun i => (schema.get i).2.arrayValueToString (row i) := by
  cases batches <;> rfl

/-- **What a client can tell apart.** -/
theorem batchesToQueryResult_faithful_iff (xs ys : List (List (ResultRow schema))) :
    ((xs.flatten ≠ ys.flatten → (batchesToQueryResult xs).2 ≠ (batchesToQueryResult ys).2) ↔
      (xs.flatten = ys.flatten ∨
        ¬Forall₂ (fun x y => ∀ i, (schema.get i).2.Alike (x i) (y i)) xs.flatten ys.flatten)) ∧
    ((xs.flatten = [] → (batchesToQueryResult xs).1 = schema.map Prod.fst) ↔
      xs ≠ [] ∨ schema = []) := by
  have hrows : (batchesToQueryResult xs).2 = (batchesToQueryResult ys).2 ↔
      Forall₂ (fun x y => ∀ i, (schema.get i).2.Alike (x i) (y i)) xs.flatten ys.flatten := by
    rw [batchesToQueryResult_rows, batchesToQueryResult_rows, ← forall₂_eq_eq_eq,
      forall₂_map_left_iff, forall₂_map_right_iff]
    simp only [ofFn_inj, funext_iff, arrayValueToString_eq_iff]
  refine ⟨?_, ?_⟩
  · rw [← hrows, or_iff_not_imp_left]
  · cases xs with
    | nil => simp [batchesToQueryResult, eq_comm (a := [])]
    | cons x xs => simp [batchesToQueryResult]

/-- One row with one date. -/
def oneDate (days : Int32) : List (List (ResultRow [("d", .date32)])) :=
    [[fun | ⟨0, _⟩ => some days]]

/-- Two dates that are written the same, and a result without column names. -/
theorem batchesToQueryResult_date :
    (oneDate 0).flatten ≠ (oneDate 1).flatten ∧
      batchesToQueryResult (oneDate 0) = batchesToQueryResult (oneDate 1) ∧
      (batchesToQueryResult ([] : List (List (ResultRow [("d", .date32)])))).1 = [] := by
  refine ⟨fun h => ?_, rfl, rfl⟩
  have hrow : some (0 : Int32) = some 1 := congrFun (head_eq_of_cons_eq h) ⟨0, by decide⟩
  exact absurd hrow (by decide)

end NovaCore

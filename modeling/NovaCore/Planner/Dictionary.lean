import Mathlib.Algebra.Ring.Nat
import Mathlib.Data.List.Dedup

/-!
# Dictionary encoding of string columns

`DictionaryEncoding` numbers the distinct values of a column in the order in which they occur.
The map and the table of values stay inverse to each other through the loop of `build`: that is a
field of the structure, and `encodeColumn_faithful` follows from it.
-/

namespace NovaCore

open List

/-- `DictionaryEncoding`: the code of each value, and the value of each code. -/
structure DictionaryEncoding where
  dictionary : String → Option UInt32
  reverseDict : List String
  nodup : reverseDict.Nodup
  dictionary_eq : ∀ v, dictionary v =
    if v ∈ reverseDict then some (UInt32.ofNat (reverseDict.idxOf v)) else none

namespace DictionaryEncoding

/-- One round of the loop of `build`. -/
def insert (d : DictionaryEncoding) (value : String) : DictionaryEncoding :=
  if h : d.dictionary value = none then
    have hnew : value ∉ d.reverseDict := by simpa [d.dictionary_eq] using h
    { dictionary := Function.update d.dictionary value (some (UInt32.ofNat d.reverseDict.length))
      reverseDict := d.reverseDict ++ [value]
      nodup := d.nodup.append (nodup_singleton value) (by simpa using hnew)
      dictionary_eq := fun v => by
        by_cases hv : v = value
        · simp [hv, idxOf_append, hnew]
        · simp +contextual [hv, d.dictionary_eq, idxOf_append] }
  else d

/-- `DictionaryEncoding::build`. -/
def build (values : List String) : DictionaryEncoding :=
  values.foldl insert ⟨fun _ => none, [], nodup_nil, fun _ => rfl⟩

variable (d : DictionaryEncoding)

/-- `DictionaryEncoding::encode`. -/
def encode (value : String) : Option UInt32 := d.dictionary value

/-- `DictionaryEncoding::decode`. -/
def decode (code : UInt32) : Option String := d.reverseDict[code.toNat]?

/-- `DictionaryEncoding::encode_column`, with `u32::MAX` for a value without a code. -/
def encodeColumn (values : List String) : List UInt32 :=
  values.map fun v => (d.encode v).getD 0xFFFFFFFF

/-- `DictionaryEncoding::decode_column`. -/
def decodeColumn (codes : List UInt32) : List String := codes.map fun c => (d.decode c).getD ""

variable {d} {v w : String} {values : List String}

theorem mem_insert : w ∈ (d.insert v).reverseDict ↔ w ∈ d.reverseDict ∨ w = v := by
  unfold insert
  split_ifs with h
  · simp
  · have hold : v ∈ d.reverseDict := by simpa [d.dictionary_eq] using h
    exact (or_iff_left_of_imp fun hw => hw ▸ hold).symm

theorem mem_build : w ∈ (build values).reverseDict ↔ w ∈ values := by
  suffices h : ∀ d, w ∈ (values.foldl insert d).reverseDict ↔ w ∈ d.reverseDict ∨ w ∈ values by
    exact (h _).trans (or_iff_right not_mem_nil)
  intro d
  induction values generalizing d with
  | nil => simp
  | cons v values ih => rw [foldl_cons, ih, mem_insert, mem_cons, or_assoc]

theorem length_build : (build values).reverseDict.length = values.dedup.length := by
  refine ((perm_ext_iff_of_nodup (build values).nodup (nodup_dedup values)).2 fun w => ?_).length_eq
  rw [mem_build, mem_dedup]

/-- A value of the column has a code, from which it is decoded. -/
theorem exists_code (hlt : values.dedup.length < 2 ^ 32) (hv : v ∈ values) :
    ∃ code, (build values).encode v = some code ∧ (build values).decode code = some v ∧
      code.toNat < values.dedup.length := by
  have hmem := mem_build.2 hv
  have hidx := idxOf_lt_length_of_mem hmem
  have hnat : (UInt32.ofNat ((build values).reverseDict.idxOf v)).toNat = _ :=
    UInt32.toNat_ofNat_of_lt' (Nat.lt_trans hidx (length_build ▸ hlt))
  refine ⟨_, by rw [encode, dictionary_eq, if_pos hmem], ?_, ?_⟩
  · rw [decode, hnat, getElem?_eq_getElem hidx, getElem_idxOf]
  · rwa [hnat, ← length_build]

/-- **The dictionary of a column is faithful.**  A column of its values is decoded to itself,
different values have different codes, the codes are those below the number of different values,
and a value that does not occur has no code and is not encoded as one that does. -/
theorem encodeColumn_faithful (values : List String) (hlt : values.dedup.length < 2 ^ 32) :
    (∀ column ⊆ values,
      (build values).decodeColumn ((build values).encodeColumn column) = column) ∧
    (∀ v ∈ values, ∀ w ∈ values, (build values).encode v = (build values).encode w → v = w) ∧
    (∀ code, (∃ v ∈ values, (build values).encode v = some code) ↔
      code.toNat < values.dedup.length) ∧
    ∀ v ∉ values, (build values).encode v = none ∧
      ∀ w ∈ values, (build values).encodeColumn [v] ≠ (build values).encodeColumn [w] := by
  refine ⟨fun column hsub => ?_, fun v hv w hw heq => ?_, fun code => ⟨?_, fun hcode => ?_⟩,
    fun v hv => ?_⟩
  · rw [decodeColumn, encodeColumn, map_map]
    refine (map_congr_left fun v hv => ?_).trans (map_id column)
    obtain ⟨code, hcode, hdecode, -⟩ := exists_code hlt (hsub hv)
    rw [Function.comp_apply, hcode, Option.getD_some, hdecode, Option.getD_some, id]
  · obtain ⟨code, hcode, hdecode, -⟩ := exists_code hlt hv
    obtain ⟨code', hcode', hdecode', -⟩ := exists_code hlt hw
    cases hcode.symm.trans (heq.trans hcode')
    exact Option.some.inj (hdecode.symm.trans hdecode')
  · rintro ⟨v, hv, hcode⟩
    obtain ⟨code', hcode', -, hcodelt⟩ := exists_code hlt hv
    cases hcode.symm.trans hcode'
    exact hcodelt
  · rw [← length_build] at hcode
    have hmem := getElem_mem hcode
    refine ⟨_, mem_build.1 hmem, ?_⟩
    rw [encode, dictionary_eq, if_pos hmem, (build values).nodup.idxOf_getElem, UInt32.ofNat_toNat]
  · have hnone : (build values).encode v = none := by
      rw [encode, dictionary_eq, if_neg fun h => hv (mem_build.1 h)]
    refine ⟨hnone, fun w hw heq => ?_⟩
    obtain ⟨code, hcode, -, hcodelt⟩ := exists_code hlt hw
    have hmax : (0xFFFFFFFF : UInt32) = code := by simpa [encodeColumn, hnone, hcode] using heq
    have hnat : code.toNat = 2 ^ 32 - 1 := hmax ▸ rfl
    omega

/-- A column with a repeated value. -/
theorem encodeColumn_faithful_repeated :
    (build ["a", "b", "a"]).decodeColumn ((build ["a", "b", "a"]).encodeColumn ["b", "a"]) =
      ["b", "a"] :=
  (encodeColumn_faithful ["a", "b", "a"] (by decide)).1 ["b", "a"] (by simp)

end DictionaryEncoding

end NovaCore

import Mathlib.Algebra.Ring.Nat
import Mathlib.Data.List.Infix
import Mathlib.Data.List.DropRight

/-!
# Texts and byte offsets

A text is the list of its characters.  Offsets count bytes of the UTF-8 form, as they do in Rust: a
text can be cut only where a character ends, and a search returns the offset of what it found.

## Main definitions

* `Str.byteLen`, `Str.splitAt?` : lengths and cuts in bytes.
* `Str.find?` : the first occurrence of a text in another.
* `Str.trim`, `Str.splitWhitespace` : white space as Unicode has it.
* `Str.splitOnce?`, `Str.splitn`, `Str.split` : cuts at a separator.
* `CaseMap` : upper case, which may change the length of a text.

## Main results

* `Str.splitAt?_eq_some_iff`, `Str.splitAt?_isSome_iff` : a text is cut where a character ends.
-/

namespace NovaCore

open List Option

/-- A text, as the list of its characters. -/
abbrev Str := List Char

namespace Str

/-- What holds of the characters of a text is decided by going through the text, not through all
characters. -/
instance (priority := high) {p : Char → Prop} [DecidablePred p] (s : Str) :
    Decidable (∀ c ∈ s, p c) :=
  List.decidableBAll p s

/-! ### Bytes -/

variable (s : Str)

/-- The number of bytes of a text. -/
def byteLen : ℕ := (s.map Char.utf8Size).sum

/-- Cut a text at a byte offset; there is none unless a character ends there. -/
def splitAt? : Str → ℕ → Option (Str × Str)
  | s, 0 => some ([], s)
  | [], _ + 1 => none
  | c :: s, n + 1 =>
    if c.utf8Size ≤ n + 1 then (splitAt? s (n + 1 - c.utf8Size)).map fun y => (c :: y.1, y.2)
    else none

@[simp] theorem byteLen_nil : byteLen [] = 0 := rfl

variable (c : Char)

@[simp] theorem byteLen_cons (s : Str) : byteLen (c :: s) = c.utf8Size + byteLen s := by
  simp [byteLen]

@[simp] theorem byteLen_append (s t : Str) : byteLen (s ++ t) = byteLen s + byteLen t := by
  simp [byteLen]

theorem utf8Size_of_ascii {c : Char} (h : c.toNat < 128) : c.utf8Size = 1 := by
  have hval : c.val ≤ 0x7f := by
    exact Nat.le_of_lt_succ h
  exact if_pos hval

/-- A text can be cut behind any part of it. -/
theorem splitAt?_append (s t : Str) : splitAt? (s ++ t) (byteLen s) = some (s, t) := by
  induction s with
  | nil =>
    cases t <;> rfl
  | cons c s ih =>
    have hpos : 0 < c.utf8Size := c.utf8Size_pos
    rw [cons_append, byteLen_cons]
    obtain ⟨n, hn⟩ : ∃ n, c.utf8Size + byteLen s = n + 1 := ⟨c.utf8Size + byteLen s - 1, by omega⟩
    rw [hn, splitAt?, if_pos (by omega)]
    have hrest : n + 1 - c.utf8Size = byteLen s := by omega
    rw [hrest, ih, map_some]

theorem eq_nil_of_byteLen {s : Str} (h : byteLen s = 0) : s = [] := by
  cases s with
  | nil => rfl
  | cons c s =>
    have hpos : 0 < c.utf8Size := c.utf8Size_pos
    rw [byteLen_cons] at h
    omega

/-- A character ends at the byte offset. -/
def IsBoundary (n : ℕ) : Prop := ∃ before after, s = before ++ after ∧ byteLen before = n

theorem splitAt?_eq_some_iff {s before after : Str} {n : ℕ} :
    splitAt? s n = some (before, after) ↔ s = before ++ after ∧ byteLen before = n := by
  constructor
  · intro h
    induction s generalizing n before with
    | nil =>
      cases n with
      | zero =>
        cases h
        exact ⟨rfl, rfl⟩
      | succ n => cases h
    | cons c s ih =>
      cases n with
      | zero =>
        cases h
        exact ⟨rfl, rfl⟩
      | succ n =>
        rw [splitAt?] at h
        split_ifs at h with hsize
        obtain ⟨⟨before', after'⟩, hrest, heq⟩ := map_eq_some_iff.1 h
        cases heq
        obtain ⟨rfl, hlen⟩ := ih hrest
        refine ⟨rfl, ?_⟩
        rw [byteLen_cons, hlen]
        omega
  · rintro ⟨rfl, rfl⟩
    exact splitAt?_append before after

theorem splitAt?_isSome_iff {s : Str} {n : ℕ} : (splitAt? s n).isSome = true ↔ IsBoundary s n := by
  rw [isSome_iff_exists]
  constructor
  · rintro ⟨⟨before, after⟩, h⟩
    exact ⟨before, after, splitAt?_eq_some_iff.1 h⟩
  · rintro ⟨before, after, h⟩
    exact ⟨(before, after), splitAt?_eq_some_iff.2 h⟩

theorem splitAt?_eq_none_iff {s : Str} {n : ℕ} : splitAt? s n = none ↔ ¬IsBoundary s n := by
  rw [← splitAt?_isSome_iff, Bool.not_eq_true, isSome_eq_false_iff, isNone_iff_eq_none]

/-- Offsets in a part at the front are offsets in the whole text. -/
theorem isBoundary_append_iff {s t : Str} {n : ℕ} (h : n ≤ byteLen s) :
    IsBoundary (s ++ t) n ↔ IsBoundary s n := by
  constructor
  · rintro ⟨before, after, heq, rfl⟩
    rcases append_eq_append_iff.1 heq with ⟨d, rfl, rfl⟩ | ⟨d, rfl, rfl⟩
    · -- the cut is behind `s`, so there is nothing between
      have hd : d = [] := eq_nil_of_byteLen (by rw [byteLen_append] at h; omega)
      subst hd
      exact ⟨s, [], by simp, by simp⟩
    · exact ⟨before, d, rfl, rfl⟩
  · rintro ⟨before, after, rfl, rfl⟩
    exact ⟨before, after ++ t, by simp, rfl⟩

/-! ### Search -/

/-- The byte offset of the first occurrence of a text in another. -/
def find? : Str → Str → Option ℕ
  | [], needle => if needle = [] then some 0 else none
  | c :: s, needle =>
    if needle <+: c :: s then some 0 else (find? s needle).map (c.utf8Size + ·)

/-! ### Letters and white space -/

/-- `char::is_whitespace`. -/
def isWhitespace : Bool :=
  let n := c.toNat
  (0x9 ≤ n && n ≤ 0xd) || n = 0x20 || n = 0x85 || n = 0xa0 || n = 0x1680 ||
    (0x2000 ≤ n && n ≤ 0x200a) || n = 0x2028 || n = 0x2029 || n = 0x202f || n = 0x205f || n = 0x3000

/-- `str::trim_end_matches` for characters. -/
def trimEndMatches (p : Char → Bool) (s : Str) : Str := s.rdropWhile p

/-- `str::trim_matches` for characters. -/
def trimMatches (p : Char → Bool) (s : Str) : Str := trimEndMatches p (s.dropWhile p)

/-- `str::trim`. -/
def trim : Str := trimMatches isWhitespace s

/-- `str::split_whitespace`. -/
def splitWhitespace : List Str := (s.splitOnP isWhitespace).filter fun w => w ≠ []

/-- `str::to_ascii_lowercase`. -/
def toAsciiLowercase : Str := s.map Char.toLower

/-- `str::eq_ignore_ascii_case`. -/
def eqIgnoreAsciiCase (s t : Str) : Bool := toAsciiLowercase s = toAsciiLowercase t

/-- `str::to_ascii_uppercase`. -/
def toAsciiUppercase : Str := s.map Char.toUpper

/-! ### Prefixes and separators -/

/-- `str::strip_prefix`. -/
def strip? (s p : Str) : Option Str := if p <+: s then some (s.drop p.length) else none

/-- `str::trim_start_matches` for a text, which is removed as often as it stands there. -/
def trimStartText (p : Str) : ℕ → Str → Str
  | 0, s => s
  | n + 1, s => match strip? s p with
    | some rest => trimStartText p n rest
    | none => s

/-- `str::split_once`. -/
def splitOnce? : Str → Str → Option (Str × Str)
  | [], sep => if sep = [] then some ([], []) else none
  | c :: s, sep =>
    if sep <+: c :: s then some ([], (c :: s).drop sep.length)
    else (splitOnce? s sep).map fun y => (c :: y.1, y.2)

theorem eq_append_of_splitOnce? {s sep before after : Str}
    (h : splitOnce? s sep = some (before, after)) : s = before ++ sep ++ after := by
  induction s generalizing before with
  | nil =>
    unfold splitOnce? at h
    split_ifs at h with hnil
    cases h
    simp [hnil]
  | cons c s ih =>
    unfold splitOnce? at h
    split_ifs at h with hpre
    · cases h
      obtain ⟨rest, hrest⟩ := hpre
      rw [← hrest]
      simp
    · obtain ⟨⟨before', after'⟩, hsplit, heq⟩ := map_eq_some_iff.1 h
      cases heq
      rw [ih hsplit]
      simp

/-- `str::splitn`. -/
def splitn : ℕ → Str → Str → List Str
  | 0, _, _ => []
  | 1, s, _ => [s]
  | n + 2, s, sep => match splitOnce? s sep with
    | some (before, after) => before :: splitn (n + 1) after sep
    | none => [s]

/-- `str::split` for a separator that is not empty. -/
def split (s sep : Str) : List Str := splitn (s.length + 1) s sep

/-- The text before and after the last occurrence of a character. -/
def rsplitOnce? : Option (Str × Str) :=
  (splitOnce? s.reverse [c]).map fun y => (y.2.reverse, y.1.reverse)

theorem eq_append_of_rsplitOnce? {s before after : Str} {c : Char}
    (h : rsplitOnce? s c = some (before, after)) : s = before ++ c :: after := by
  obtain ⟨⟨x, y⟩, hsplit, heq⟩ := map_eq_some_iff.1 h
  cases heq
  have hrev := congrArg reverse (eq_append_of_splitOnce? hsplit)
  simpa using hrev

/-- `str::replace` for two characters. -/
def replace (c d : Char) : Str := s.map fun x => if x = c then d else x

/-! ### Numbers -/

/-- The value of a hexadecimal digit. -/
def hexDigit? : Option ℕ :=
  if '0' ≤ c ∧ c ≤ '9' then some (c.toNat - '0'.toNat)
  else if 'a' ≤ c ∧ c ≤ 'f' then some (c.toNat - 'a'.toNat + 10)
  else if 'A' ≤ c ∧ c ≤ 'F' then some (c.toNat - 'A'.toNat + 10)
  else none

/-- `u8::from_str_radix(pair, 16)` for a text of two bytes. -/
def hexByte? : Str → Option ℕ
  | ['+', d] => hexDigit? d
  | [c, d] => do
    let high ← hexDigit? c
    let low ← hexDigit? d
    return 16 * high + low
  | _ => none

/-- The two hexadecimal digits of a byte. -/
def hexChars (b : UInt8) : Str := [Nat.digitChar (b.toNat / 16), Nat.digitChar (b.toNat % 16)]

end Str

/-- `char::to_uppercase`: letters of ASCII have the upper case of ASCII, and any other character may
become several. -/
structure CaseMap where
  upper : Char → Str
  ascii : ∀ c : Char, c.toNat < 128 → upper c = [c.toUpper]

/-- `str::to_uppercase`. -/
def CaseMap.toUppercase (m : CaseMap) (s : Str) : Str := s.flatMap m.upper

namespace CaseMap

variable (m : CaseMap)

@[simp] theorem toUppercase_append (s t : Str) :
    m.toUppercase (s ++ t) = m.toUppercase s ++ m.toUppercase t :=
  flatMap_append

/-- A text of ASCII keeps its length in upper case. -/
theorem toUppercase_of_ascii {s : Str} (h : ∀ c ∈ s, c.toNat < 128) :
    m.toUppercase s = s.map Char.toUpper := by
  induction s with
  | nil => rfl
  | cons c s ih =>
    rw [forall_mem_cons] at h
    rw [toUppercase, flatMap_cons, m.ascii c h.1, map_cons, ← ih h.2]
    rfl

end CaseMap

end NovaCore

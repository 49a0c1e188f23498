import Mathlib.Data.Nat.Digits.Lemmas

/-!
# Numbers and records as bytes

Fixed-width numbers in little-endian and big-endian order, and readers that take a value off the
front of a byte string.

## Main results

* `ofLe_leBytes`, `ofBe_beBytes` : reading a written number returns it modulo the width.
* `readLe_append`, `readOption_append` : a reader returns what the writer wrote and leaves the rest.
-/

namespace NovaCore

/-- A byte string. -/
abbrev Bytes := List UInt8

/-- The bytes of a text. -/
def utf8 (s : String) : Bytes := s.toUTF8.data.toList

/-- The text that bytes stand for, if they are UTF-8. -/
def ofUtf8 (bs : Bytes) : Option String := String.fromUTF8? ⟨bs.toArray⟩

theorem ofUtf8_utf8 (s : String) : ofUtf8 (utf8 s) = some s := by
  exact dif_pos s.isValidUTF8

/-- What holds of the 256 values holds of every byte. -/
theorem forall_byte {P : UInt8 → Prop} (h : ∀ n < 256, P (UInt8.ofNat n)) (b : UInt8) : P b := by
  have hb := h b.toNat b.toNat_lt
  rwa [UInt8.ofNat_toNat] at hb

/-- The `k` low bytes of a number, lowest first. -/
def leBytes : ℕ → ℕ → Bytes
  | 0, _ => []
  | k + 1, n => UInt8.ofNat (n % 256) :: leBytes k (n / 256)

/-- The number that bytes stand for, lowest first. -/
def ofLe : Bytes → ℕ
  | [] => 0
  | b :: bs => b.toNat + 256 * ofLe bs

variable (k n : ℕ)

/-- The `k` low bytes of a number, highest first. -/
def beBytes : Bytes := (leBytes k n).reverse

/-- The number that bytes stand for, highest first. -/
def ofBe (bs : Bytes) : ℕ := ofLe bs.reverse

@[simp] theorem length_leBytes : (leBytes k n).length = k := by
  induction k generalizing n with
  | zero => rfl
  | succ k ih => simp [leBytes, ih]

@[simp] theorem length_beBytes : (beBytes k n).length = k := by simp [beBytes]

theorem ofLe_leBytes : ofLe (leBytes k n) = n % 256 ^ k := by
  induction k generalizing n with
  | zero => simp [leBytes, ofLe, Nat.mod_one]
  | succ k ih =>
    have hbyte : (UInt8.ofNat (n % 256)).toNat = n % 256 := by
      simp
    rw [leBytes, ofLe, ih, hbyte, pow_succ', Nat.mod_mul]

theorem ofLe_lt (bs : Bytes) : ofLe bs < 256 ^ bs.length := by
  induction bs with
  | nil => simp [ofLe]
  | cons b bs ih =>
    have hb : b.toNat < 256 := b.toNat_lt
    rw [ofLe, List.length_cons]
    omega

theorem ofBe_beBytes : ofBe (beBytes k n) = n % 256 ^ k := by
  rw [ofBe, beBytes, List.reverse_reverse, ofLe_leBytes]

/-! ### Readers -/

/-- Take a number of `k` bytes off the front. -/
def readLe (k : ℕ) (bs : Bytes) : Option (ℕ × Bytes) :=
  if bs.length < k then none else some (ofLe (bs.take k), bs.drop k)

theorem readLe_append {k n : ℕ} (hn : n < 256 ^ k) (rest : Bytes) :
    readLe k (leBytes k n ++ rest) = some (n, rest) := by
  have hlen : ¬(leBytes k n ++ rest).length < k := by simp
  rw [readLe, if_neg hlen, List.take_left' (length_leBytes k n),
    List.drop_left' (length_leBytes k n), ofLe_leBytes, Nat.mod_eq_of_lt hn]

theorem readLe_one (b : UInt8) (rest : Bytes) : readLe 1 (b :: rest) = some (b.toNat, rest) := by
  simp [readLe, ofLe]

/-- A value that may be missing: a tag byte, and the value behind the tag 1. -/
def optionBytes {α : Type} (write : α → Bytes) : Option α → Bytes
  | none => [0]
  | some a => 1 :: write a

/-- Take a value that may be missing off the front. -/
def readOption {α : Type} (read : Bytes → Option (α × Bytes)) :
    Bytes → Option (Option α × Bytes)
  | [] => none
  | tag :: bs =>
    if tag = 0 then some (none, bs)
    else if tag = 1 then (read bs).map fun y => (some y.1, y.2)
    else none

theorem readOption_append {α : Type} {write : α → Bytes} {read : Bytes → Option (α × Bytes)}
    {a : Option α} (rest : Bytes) (h : ∀ x ∈ a, read (write x ++ rest) = some (x, rest)) :
    readOption read (optionBytes write a ++ rest) = some (a, rest) := by
  cases a with
  | none => rfl
  | some x => simp [optionBytes, readOption, h x rfl]

end NovaCore

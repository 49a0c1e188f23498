import Mathlib.Data.List.Basic
import Mathlib.Data.Nat.Basic

/-!
# Walking over ranges without a gap

`Contiguous.advance next ranges` walks over closed ranges of numbers in the order of their starts
and returns the first number the walk does not pass: ranges that end before `next` are skipped, a
range that starts after `next` is a gap and ends the walk.

## Main results

* `exists_mem_of_lt_advance` : every number passed lies in one of the ranges.
* `advance_eq_or_exists` : the walk ends where it began or just after the end of a range.
* `lt_advance_of_covered` : over ranges sorted by start, the walk passes every number up to which
  there is no gap.
* `advance_le_of_not_covered` : the walk never passes a number outside all ranges.
-/

namespace NovaCore

open List

namespace Contiguous

/-- The number `s` lies in one of the closed ranges. -/
def Covered (ranges : List (ℕ × ℕ)) (s : ℕ) : Prop := ∃ r ∈ ranges, r.1 ≤ s ∧ s ≤ r.2

/-- The first number, from `next` on, that a walk over the ranges does not pass. -/
def advance (next : ℕ) : List (ℕ × ℕ) → ℕ
  | [] => next
  | (start, stop) :: ranges =>
    if stop < next then advance next ranges
    else if next < start then next
    else advance (stop + 1) ranges

variable {ranges : List (ℕ × ℕ)}

theorem Covered.cons {r : ℕ × ℕ} {s : ℕ} (h : Covered ranges s) : Covered (r :: ranges) s := by
  obtain ⟨q, hq, hs⟩ := h
  exact ⟨q, mem_cons_of_mem r hq, hs⟩

theorem le_advance (next : ℕ) (ranges : List (ℕ × ℕ)) : next ≤ advance next ranges := by
  induction ranges generalizing next with
  | nil => exact le_rfl
  | cons r ranges ih =>
    unfold advance
    split_ifs with hstop hstart
    · exact ih next
    · exact le_rfl
    · have := ih (r.2 + 1)
      omega

/-- **The walk only passes covered numbers.** -/
theorem exists_mem_of_lt_advance {next s : ℕ} (hs : next ≤ s)
    (hlt : s < advance next ranges) : Covered ranges s := by
  induction ranges generalizing next with
  | nil => exact absurd hlt (not_lt.2 hs)
  | cons r ranges ih =>
    unfold advance at hlt
    split_ifs at hlt with hstop hstart
    · exact (ih hs hlt).cons
    · exact absurd hlt (not_lt.2 hs)
    · by_cases h : s ≤ r.2
      · exact ⟨r, by simp, by omega, h⟩
      · exact (ih (by omega) hlt).cons

theorem advance_le_of_not_covered {next s : ℕ} (hs : next ≤ s)
    (hc : ¬Covered ranges s) : advance next ranges ≤ s := by
  by_contra hlt
  exact hc (exists_mem_of_lt_advance hs (not_le.1 hlt))

/-- Where the walk ends. -/
theorem advance_eq_or_exists (next : ℕ) (ranges : List (ℕ × ℕ)) :
    advance next ranges = next ∨ ∃ r ∈ ranges, advance next ranges = r.2 + 1 := by
  induction ranges generalizing next with
  | nil => exact .inl rfl
  | cons r ranges ih =>
    unfold advance
    split_ifs with hstop hstart
    · rcases ih next with h | ⟨q, hq, h⟩
      · exact .inl h
      · exact .inr ⟨q, mem_cons_of_mem r hq, h⟩
    · exact .inl rfl
    · rcases ih (r.2 + 1) with h | ⟨q, hq, h⟩
      · exact .inr ⟨r, by simp, h⟩
      · exact .inr ⟨q, mem_cons_of_mem r hq, h⟩

/-- **The walk passes everything up to the first gap**, if the ranges are sorted by start. -/
theorem lt_advance_of_covered {next m : ℕ} (hsorted : ranges.Pairwise fun a b => a.1 ≤ b.1)
    (hc : ∀ s, next ≤ s → s ≤ m → Covered ranges s) : m < next ∨ m < advance next ranges := by
  induction ranges generalizing next with
  | nil =>
    by_contra hlt
    obtain ⟨r, hr, -⟩ := hc m (by omega) le_rfl
    simp at hr
  | cons r ranges ih =>
    obtain ⟨hle, hsorted⟩ := pairwise_cons.1 hsorted
    unfold advance
    split_ifs with hstop hstart
    · refine ih hsorted fun s hs hsm => ?_
      obtain ⟨q, hq, hqs⟩ := hc s hs hsm
      rcases mem_cons.1 hq with rfl | hq
      · omega
      · exact ⟨q, hq, hqs⟩
    · -- `next` itself would have to lie in a range that starts no earlier than `r`
      by_contra hlt
      obtain ⟨q, hq, hqs⟩ := hc next le_rfl (by omega)
      rcases mem_cons.1 hq with rfl | hq
      · omega
      · have := hle q hq
        omega
    · rcases lt_or_ge m next with hm | hm
      · exact .inl hm
      have key : m < r.2 + 1 ∨ m < advance (r.2 + 1) ranges := by
        refine ih hsorted fun s hs hsm => ?_
        obtain ⟨q, hq, hqs⟩ := hc s (by omega) hsm
        rcases mem_cons.1 hq with rfl | hq
        · omega
        · exact ⟨q, hq, hqs⟩
      have := le_advance (r.2 + 1) ranges
      right
      omega

end Contiguous

end NovaCore

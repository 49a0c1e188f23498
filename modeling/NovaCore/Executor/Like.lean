import Mathlib.Computability.Language
import NovaCore.Data.Text

/-!
# LIKE patterns

`SHOW STREAMS LIKE` keeps the streams whose name matches a pattern; `matches_inner` tries every
length for a `%`.  A pattern denotes a language, the product of the languages of its characters,
and `matches_inner` decides it (`matchesInner_iff`), so patterns compose as languages do
(`sqlLikeMatches_append`).
-/

namespace NovaCore

open List

/-- `matches_inner` of `sql_like_matches`. -/
def matchesInner : Str → Str → Bool
  | value, [] => value.isEmpty
  | value, '%' :: rest => matchesInner value rest || match value with
    | [] => false
    | _ :: tail => matchesInner tail ('%' :: rest)
  | value, '_' :: rest => match value with
    | [] => false
    | _ :: tail => matchesInner tail rest
  | value, expected :: rest => match value with
    | [] => false
    | actual :: tail => actual = expected && matchesInner tail rest
termination_by value pattern => (pattern, value)

/-- `Executor::sql_like_matches`. -/
def sqlLikeMatches (value pattern : Str) : Bool := matchesInner value pattern

/-- The values that one character of a pattern stands for. -/
def likeChar (c : Char) : Language Char := {u | c = '%' ∨ ∃ d, u = [d] ∧ (c = '_' ∨ d = c)}

/-- The values that a pattern stands for. -/
noncomputable def likeLanguage (pattern : Str) : Language Char := (pattern.map likeChar).prod

variable {value rest s : Str} {c : Char}

theorem mem_likeLanguage_percent :
    value ∈ likeLanguage ('%' :: rest) ↔ ∃ t ∈ likeLanguage rest, t <:+ value := by
  constructor
  · rintro ⟨u, -, t, ht, rfl⟩
    exact ⟨t, ht, suffix_append u t⟩
  · rintro ⟨t, ht, u, rfl⟩
    exact ⟨u, .inl rfl, t, ht, rfl⟩

/-- Any other character of a pattern stands for one character. -/
theorem mem_likeLanguage_cons (hc : c ≠ '%') : value ∈ likeLanguage (c :: rest) ↔
    ∃ d, (c = '_' ∨ d = c) ∧ ∃ t ∈ likeLanguage rest, d :: t = value := by
  constructor
  · rintro ⟨_, hu | ⟨d, rfl, hd⟩, t, ht, rfl⟩
    · exact absurd hu hc
    · exact ⟨d, hd, t, ht, rfl⟩
  · rintro ⟨d, hd, t, ht, rfl⟩
    exact ⟨[d], .inr ⟨d, rfl, hd⟩, t, ht, rfl⟩

/-- **`matches_inner` decides the language of a pattern.** -/
theorem matchesInner_iff (value pattern : Str) :
    matchesInner value pattern = true ↔ value ∈ likeLanguage pattern := by
  fun_induction matchesInner value pattern with
  | case1 value => exact isEmpty_iff
  | case2 value rest ihrest ihtail =>
    rw [Bool.or_eq_true, ihrest, mem_likeLanguage_percent]
    cases value with
    | nil => simp
    | cons c tail =>
      refine (or_congr_right (ihtail.trans mem_likeLanguage_percent)).trans ?_
      simp only [suffix_cons_iff, and_or_left, exists_or, exists_eq_right]
  | case3 => simp [mem_likeLanguage_cons]
  | case4 rest d tail ih => simp [mem_likeLanguage_cons, ih]
  | case5 c rest h1 => simp [mem_likeLanguage_cons h1]
  | case6 c rest h1 h2 d tail ih =>
    have hne : c ≠ '_' := h2
    rw [Bool.and_eq_true, ih, mem_likeLanguage_cons h1]
    simp [hne, eq_comm, and_comm]

/-- A text without wildcards stands for itself. -/
theorem mem_likeLanguage_of_plain (hs : ∀ c ∈ s, c ≠ '%' ∧ c ≠ '_') :
    value ∈ likeLanguage s ↔ value = s := by
  induction s generalizing value with
  | nil => rfl
  | cons c s ih =>
    obtain ⟨hc, hs⟩ := forall_mem_cons.1 hs
    simp [mem_likeLanguage_cons hc.1, hc.2, ih hs, eq_comm]

theorem mem_likeLanguage_append {p q : Str} : value ∈ likeLanguage (p ++ q) ↔
    ∃ u ∈ likeLanguage p, ∃ t ∈ likeLanguage q, u ++ t = value := by
  rw [likeLanguage, map_append, prod_append]
  rfl

/-- **Patterns compose.**  A value matches two patterns in sequence exactly if it can be cut into
values that match them.  So a text between two `%` matches exactly if it occurs in the value, and
adjacent `%` are as good as one. -/
theorem sqlLikeMatches_append :
    (∀ v p₁ p₂ : Str, sqlLikeMatches v (p₁ ++ p₂) = true ↔ ∃ v₁ v₂, v = v₁ ++ v₂ ∧
      sqlLikeMatches v₁ p₁ = true ∧ sqlLikeMatches v₂ p₂ = true) ∧
    (∀ v s : Str, (∀ c ∈ s, c ≠ '%' ∧ c ≠ '_') →
      (sqlLikeMatches v ('%' :: s ++ ['%']) = true ↔ s <:+: v)) ∧
    ∀ v p₁ p₂ : Str, sqlLikeMatches v (p₁ ++ '%' :: '%' :: p₂) =
      sqlLikeMatches v (p₁ ++ '%' :: p₂) := by
  refine ⟨fun v p q => ?_, fun v s hs => ?_, fun v p q => ?_⟩
  · simp only [sqlLikeMatches, matchesInner_iff, mem_likeLanguage_append]
    constructor
    · rintro ⟨u, hu, t, ht, rfl⟩
      exact ⟨u, t, rfl, hu, ht⟩
    · rintro ⟨u, t, rfl, hu, ht⟩
      exact ⟨u, hu, t, ht, rfl⟩
  · have hpre : ∀ t, t ∈ likeLanguage (s ++ ['%']) ↔ s <+: t := by
      intro t
      simp only [mem_likeLanguage_append, mem_likeLanguage_of_plain hs, exists_eq_left]
      refine exists_congr fun u => and_iff_right (mem_likeLanguage_percent.2 ⟨[], rfl, nil_suffix⟩)
    rw [sqlLikeMatches, matchesInner_iff, cons_append, mem_likeLanguage_percent]
    simp only [hpre, infix_iff_prefix_suffix]
  · have htwice : likeLanguage ('%' :: '%' :: q) = likeLanguage ('%' :: q) := by
      ext t
      simp only [mem_likeLanguage_percent]
      constructor
      · rintro ⟨u, ⟨r, hr, hru⟩, hut⟩
        exact ⟨r, hr, hru.trans hut⟩
      · rintro ⟨r, hr, hrt⟩
        exact ⟨r, ⟨r, hr, suffix_rfl⟩, hrt⟩
    rw [Bool.eq_iff_iff]
    simp only [sqlLikeMatches, matchesInner_iff, mem_likeLanguage_append, htwice]

end NovaCore

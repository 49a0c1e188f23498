import NovaCore.Data.Text

/-!
# Texts with separators

When a text that was put together with separators is taken apart into the same pieces again.  A
separator of several characters may also be found where it overlaps the end of a piece, so a piece
is safe if the separator does not stand in the piece followed by all but the last character of the
separator.

## Main results

* `Str.splitOnce?_eq_some_iff` : **which cut is the first one.**
-/

namespace NovaCore.Str

open List

/-- The separator does not stand in the piece, nor across its end. -/
def SafeBefore (sep piece : Str) : Prop := ¬sep <:+: piece ++ sep.dropLast

instance (sep piece : Str) : Decidable (SafeBefore sep piece) :=
  inferInstanceAs (Decidable (¬_))

variable {sep : Str}

theorem safeBefore_nil (hsep : sep ≠ []) : SafeBefore sep [] := by
  intro hin
  have hle := hin.length_le
  have hpos := length_pos_of_ne_nil hsep
  rw [nil_append, length_dropLast] at hle
  omega

variable {piece : Str}

/-- A piece without the first character of the separator is safe. -/
theorem safeBefore_of_notMem {c : Char} (h : c ∉ piece) : SafeBefore (c :: sep) piece := by
  induction piece with
  | nil => exact safeBefore_nil (cons_ne_nil c sep)
  | cons d piece ih =>
    rw [mem_cons, not_or] at h
    intro hin
    rcases infix_cons_iff.1 hin with hpre | htail
    · exact h.1 (cons_prefix_cons.1 hpre).1
    · exact ih h.2 htail

theorem SafeBefore.tail {c : Char} (h : SafeBefore sep (c :: piece)) : SafeBefore sep piece := by
  intro hin
  exact h (hin.trans (suffix_cons c _).isInfix)

theorem not_isPrefix_of_safeBefore (hsep : sep ≠ []) {c : Char}
    (h : SafeBefore sep (c :: piece)) (rest : Str) : ¬sep <+: c :: piece ++ sep ++ rest := by
  intro hpre
  refine h (List.IsPrefix.isInfix ?_)
  -- the prefix is too short to reach behind the separator without its last character
  have hsplit : c :: piece ++ sep ++ rest =
      c :: piece ++ sep.dropLast ++ (sep.getLast hsep :: rest) := by
    conv_lhs => rw [← dropLast_append_getLast hsep]
    simp
  rw [hsplit] at hpre
  have hlen : sep.length ≤ (c :: piece ++ sep.dropLast).length := by
    simp
    omega
  exact prefix_of_prefix_length_le hpre (prefix_append _ _) hlen

theorem splitOnce?_append (hsep : sep ≠ []) (h : SafeBefore sep piece)
    (rest : Str) : splitOnce? (piece ++ sep ++ rest) sep = some (piece, rest) := by
  induction piece with
  | nil =>
    obtain ⟨d, sep', rfl⟩ := exists_cons_of_ne_nil hsep
    have hpre : d :: sep' <+: d :: (sep' ++ rest) := prefix_append (d :: sep') rest
    rw [nil_append, cons_append, splitOnce?]
    simp
  | cons c piece ih =>
    have hnot := not_isPrefix_of_safeBefore hsep h rest
    rw [cons_append, cons_append] at hnot ⊢
    rw [splitOnce?, if_neg hnot, ih h.tail]
    rfl

/-- **The first cut.**  A text is cut at the first place where the separator stands. -/
theorem splitOnce?_eq_some_iff (hsep : sep ≠ []) {s before after : Str} :
    splitOnce? s sep = some (before, after) ↔
      s = before ++ sep ++ after ∧ SafeBefore sep before := by
  constructor
  · intro h
    refine ⟨eq_append_of_splitOnce? h, ?_⟩
    induction s generalizing before with
    | nil =>
      rw [splitOnce?, if_neg hsep] at h
      cases h
    | cons c s ih =>
      unfold splitOnce? at h
      split_ifs at h with hpre
      · cases h
        exact safeBefore_nil hsep
      · obtain ⟨⟨before', after'⟩, hsplit, heq⟩ := Option.map_eq_some_iff.1 h
        cases heq
        intro hin
        rcases infix_cons_iff.1 hin with hhead | htail
        · -- the separator would stand at the front
          refine hpre (hhead.trans ?_)
          rw [eq_append_of_splitOnce? hsplit]
          conv_rhs => rw [← dropLast_append_getLast hsep]
          exact ⟨sep.getLast hsep :: after', by simp⟩
        · exact ih hsplit htail
  · rintro ⟨rfl, hsafe⟩
    exact splitOnce?_append hsep hsafe after

end NovaCore.Str

import NovaCore.Prog.Interleave

/-!
# One thread under interference

To one thread the others are changes of the world between its own operations.  If every step of the
others moves the world along a preorder `R`, then the thread does what its program does alone,
except that the world may move along `R` before each operation (`interfered R step`).  The rules for
programs that run alone then apply to it.

## Main results

* `Run.exec_interfered` : **a thread of a run, as a program under interference.**
-/

namespace NovaCore

open Function

variable {ι Op W α : Type} {Res : Op → Type} {ρ : ι → Type} [DecidableEq ι]
  {step : W → (o : Op) → Res o → W → Prop} {R : W → W → Prop}

/-- The world moves along `R` before it answers. -/
def interfered (R : W → W → Prop) (step : W → (o : Op) → Res o → W → Prop) :
    W → (o : Op) → Res o → W → Prop :=
  fun w o r w' => ∃ v, R w v ∧ step v o r w'

/-- The world may also move before the program starts. -/
theorem Exec.interfered_of_rel (htrans : ∀ u v w, R u v → R v w → R u w) {w w1 w' : W}
    {p : Prog Op Res α} {a : α} (hw : R w w1) (he : Exec (interfered R step) w1 p a w') :
    ∃ w'', Exec (interfered R step) w p a w'' := by
  cases p with
  | ret b =>
    obtain ⟨rfl, -⟩ := exec_ret_iff.1 he
    exact ⟨w, exec_ret_iff.2 ⟨rfl, rfl⟩⟩
  | op o k =>
    obtain ⟨r, w2, ⟨v, hv, hs⟩, hrest⟩ := exec_op_iff.1 he
    exact ⟨w', exec_op_iff.2 ⟨r, w2, ⟨v, htrans _ _ _ hw hv, hs⟩, hrest⟩⟩

/-- A thread that has not moved is where it was. -/
theorem Run.threads_eq {c c' : Config ι Op Res W ρ} {h : History ι Op Res} (hr : Run step c h c')
    {i : ι} (hi : ∀ x ∈ h, x.1 ≠ i) : c'.threads i = c.threads i := by
  induction hr with
  | nil => rfl
  | @snoc h c1 j o k r w' _ _ _ ih =>
    have hji : i ≠ j := Ne.symm (hi (j, ⟨o, r⟩) (by simp))
    exact (update_of_ne hji _ _).trans (ih fun x hx => hi x (List.mem_append_left _ hx))

/-- **A thread of a run, as a program under interference.** -/
theorem Run.exec_interfered (hrefl : ∀ w, R w w) (htrans : ∀ u v w, R u v → R v w → R u w)
    {i : ι} {a : ρ i} {c c' : Config ι Op Res W ρ} {h : History ι Op Res} (hr : Run step c h c')
    (henv : ∀ h1 x h2 c1 c2, h = h1 ++ x :: h2 → x.1 ≠ i → Run step c h1 c1 →
      Run step c1 [x] c2 → R c1.world c2.world)
    (hend : c'.threads i = .ret a) :
    ∃ w', Exec (interfered R step) c.world (c.threads i) a w' := by
  induction h generalizing c with
  | nil =>
    obtain rfl := hr.eq_of_nil
    rw [hend]
    exact ⟨_, exec_ret_iff.2 ⟨rfl, rfl⟩⟩
  | cons x h ih =>
    obtain ⟨j, o, r⟩ := x
    have hr' : Run step c ([(j, ⟨o, r⟩)] ++ h) c' := hr
    obtain ⟨c1, hx, hrest⟩ := hr'.split
    obtain ⟨w', he⟩ := ih hrest fun h1 y h2 c2 c3 heq hy hr1 hr2 =>
      henv ((j, ⟨o, r⟩) :: h1) y h2 c2 c3 (by rw [heq]; rfl) hy (hx.append hr1) hr2
    obtain ⟨k, w1, hop, hst, hnil⟩ := hx.cons_inv
    obtain rfl := hnil.eq_of_nil
    by_cases hji : j = i
    · subst hji
      rw [hop]
      refine ⟨w', exec_op_iff.2 ⟨r, w1, ⟨c.world, hrefl _, hst⟩, ?_⟩⟩
      simpa using he
    · -- the thread has not moved
      have hworld : R c.world w1 := henv [] _ h c _ rfl hji .nil hx
      have hthread : update c.threads j (k r) i = c.threads i :=
        update_of_ne (Ne.symm hji) _ _
      rw [← hthread]
      exact he.interfered_of_rel htrans hworld

end NovaCore

import NovaCore.Prog.Interleave

/-!
# Programs that are cut off

A process that crashes leaves its program after some of its operations.  `Cut step w p w'` says that
the program `p`, started alone in `w`, can leave the world `w'` behind in this way; the rules reduce
it to the parts of a program.

## Main results

* `Cut.invariant` : what every operation of a kind keeps, a cut program of such operations keeps.
* `cutE_bind` : **a sequence is cut in its first part, or in its second part after the first one.**
-/

namespace NovaCore

variable {Op W α β ε : Type} {Res : Op → Type} {step : W → (o : Op) → Res o → W → Prop} {w w' : W}

/-- Run alone from `w`, the program `p` can be cut off in `w'`: before its first operation, between
two operations, or at its end. -/
inductive Cut (step : W → (o : Op) → Res o → W → Prop) : W → Prog Op Res α → W → Prop
  | here {w : W} {p : Prog Op Res α} : Cut step w p w
  | op {w w₁ w₂ : W} {o : Op} {k : Res o → Prog Op Res α} {r : Res o} :
      step w o r w₁ → Cut step w₁ (k r) w₂ → Cut step w (.op o k) w₂

variable {p : Prog Op Res α}

theorem Cut.invariant {A : Op → Prop} {J : W → Prop} (hc : Cut step w p w')
    (hp : p.Issues A) (hJ : J w) (hstep : ∀ w o r w', J w → A o → step w o r w' → J w') : J w' := by
  induction hc with
  | here => exact hJ
  | op hs _ ih => exact ih (hp.2 _) (hstep _ _ _ _ hJ hp.1 hs)

theorem cut_bind {f : α → Prog Op Res β} (hc : Cut step w (p >>= f) w') :
    Cut step w p w' ∨ ∃ a w1, Exec step w p a w1 ∧ Cut step w1 (f a) w' := by
  induction p generalizing w with
  | ret a => exact .inr ⟨a, w, .ret, hc⟩
  | op o k ih =>
    cases hc with
    | here => exact .inl .here
    | op hs hc =>
      rcases ih _ hc with h | ⟨a, w1, he, h⟩
      · exact .inl (.op hs h)
      · exact .inr ⟨a, w1, .op hs he, h⟩

/-- A program that has ended is cut off at its end. -/
theorem Exec.cut {a : α} (he : Exec step w p a w') : Cut step w p w' := by
  induction he with
  | ret => exact .here
  | op hs _ ih => exact .op hs ih

theorem cut_ret {a : α} (hc : Cut step w (.ret a) w') : w' = w := by
  cases hc
  rfl

/-- **A sequence is cut in its first part, or in its second part after the first one.** -/
theorem cutE_bind {p : ExceptT ε (Prog Op Res) α} {f : α → ExceptT ε (Prog Op Res) β}
    (hc : Cut step w (p >>= f).run w') :
    Cut step w p.run w' ∨ ∃ a w1, Ends step w p a w1 ∧ Cut step w1 (f a).run w' := by
  rcases cut_bind hc with h | ⟨r, w1, he, h⟩
  · exact .inl h
  · cases r with
    | ok a => exact .inr ⟨a, w1, he, h⟩
    | error e =>
      obtain rfl := cut_ret h
      exact .inl he.cut

theorem cutE_map {p : ExceptT ε (Prog Op Res) α} {f : α → β} (hc : Cut step w (f <$> p).run w') :
    Cut step w p.run w' := by
  rcases cutE_bind hc with h | ⟨a, w1, he, h⟩
  · exact h
  · obtain rfl := cut_ret h
    exact he.cut

theorem cutE_call {Ret : Op → Type} {step : W → (o : Op) → Except ε (Ret o) → W → Prop} {o : Op}
    (hc : Cut step w (Prog.call o : ExceptT ε (Prog Op fun o => Except ε (Ret o)) (Ret o)).run w') :
    w' = w ∨ ∃ r, step w o r w' := by
  cases hc with
  | here => exact .inl rfl
  | op hs hc =>
    obtain rfl := cut_ret hc
    exact .inr ⟨_, hs⟩

end NovaCore

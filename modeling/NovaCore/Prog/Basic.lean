import Mathlib.Data.List.Basic

/-!
# Programs over an effect signature

Asynchronous code that talks to a store is modelled as a tree of *operations*: each node names
one indivisible operation of the store (a transaction, an object read, a clock read) and
continues with whatever result the store returns.  Between two operations of one program any
other program may run, so the tree fixes exactly the interleaving points of the code.

## Main definitions

* `Prog Op Res α` : programs with operations `Op`, results `Res o` and final value `α`.
* `Prog.call` : one fallible operation, in the error monad over `Prog`.
* `Protocol` : a thread-local log of the results seen so far, and which operation the log allows
  next.
* `Prog.Follows`, `Prog.FollowsE` : whatever results it receives, the program only issues
  allowed operations and ends in a log and value satisfying a postcondition.
* `Prog.Issues` : every operation of the program is of a given kind.

The rules `followsE_bind`, `followsE_call` and `followsE_foldlM` reduce `FollowsE` for a program
to `FollowsE` for its parts.
-/

namespace NovaCore

open List

/-- A program that issues operations `o : Op` and continues with their results `Res o`. -/
inductive Prog (Op : Type) (Res : Op → Type) (α : Type) : Type
  /-- Finished with the value `a`. -/
  | ret (a : α)
  /-- Issue `o` and continue with its result. -/
  | op (o : Op) (k : Res o → Prog Op Res α)

/-- A thread-local protocol: how the log of a thread grows with the result of an operation, and
which operations are allowed after a log. -/
structure Protocol (Op : Type) (Res : Op → Type) (σ : Type) where
  /-- The log after operation `o` returned `r`. -/
  record : σ → (o : Op) → Res o → σ
  /-- `Allowed s o` : after log `s` the thread may issue `o`. -/
  Allowed : σ → Op → Prop

/-- The protocol that allows the operations of one kind. -/
def Protocol.only {Op : Type} {Res : Op → Type} (A : Op → Prop) : Protocol Op Res Unit where
  record _ _ _ := ()
  Allowed _ o := A o

/-- The protocol that allows every operation. -/
def Protocol.free (Op : Type) (Res : Op → Type) : Protocol Op Res Unit where
  record _ _ _ := ()
  Allowed _ _ := True

namespace Prog

variable {Op : Type} {Res : Op → Type} {α β γ δ σ : Type}

/-- Run `p`, then `f` on its value. -/
protected def bind (p : Prog Op Res α) (f : α → Prog Op Res β) : Prog Op Res β :=
  match p with
  | .ret a => f a
  | .op o k => .op o fun r => (k r).bind f

instance : Monad (Prog Op Res) where
  pure := .ret
  bind := Prog.bind

@[simp] theorem ret_bind (a : α) (f : α → Prog Op Res β) : (Prog.ret a >>= f) = f a := rfl

@[simp] theorem op_bind (o : Op) (k : Res o → Prog Op Res α) (f : α → Prog Op Res β) :
    (Prog.op o k >>= f) = Prog.op o fun r => k r >>= f := rfl

/-- The same program over a signature that contains the operations of its own. -/
def embed {Op' : Type} {Res' : Op' → Type} (f : Op → Op') (back : ∀ o, Res' (f o) → Res o) :
    Prog Op Res α → Prog Op' Res' α
  | .ret a => .ret a
  | .op o k => .op (f o) fun r => (k (back o r)).embed f back

/-! ### Following a protocol -/

/-- Starting from log `s`, whatever results the store returns, `p` only issues operations that
`P` allows, and a final value `a` at log `s'` satisfies `Q s' a`. -/
def Follows (P : Protocol Op Res σ) (Q : σ → α → Prop) : Prog Op Res α → σ → Prop
  | .ret a, s => Q s a
  | .op o k, s => P.Allowed s o ∧ ∀ r, Follows P Q (k r) (P.record s o r)

variable {P : Protocol Op Res σ} {s : σ}

variable {Q : σ → α → Prop} {p : Prog Op Res α}

theorem Follows.mono {Q' : σ → α → Prop} (h : Follows P Q p s) (hQ : ∀ s a, Q s a → Q' s a) :
    Follows P Q' p s := by
  induction p generalizing s with
  | ret a => exact hQ _ _ h
  | op o k ih => exact ⟨h.1, fun r => ih r (h.2 r)⟩

/-- A program that follows a protocol follows every protocol that keeps the same log and allows
more. -/
theorem Follows.weaken {P' : Protocol Op Res σ} (h : Follows P Q p s) (hrec : P'.record = P.record)
    (hall : ∀ s o, P.Allowed s o → P'.Allowed s o) : Follows P' Q p s := by
  induction p generalizing s with
  | ret a => exact h
  | op o k ih =>
    refine ⟨hall s o h.1, fun r => ?_⟩
    rw [hrec]
    exact ih r (h.2 r)

theorem Follows.bind {Q' : σ → β → Prop} {f : α → Prog Op Res β} (h : Follows P Q p s)
    (hf : ∀ s a, Q s a → Follows P Q' (f a) s) : Follows P Q' (p >>= f) s := by
  induction p generalizing s with
  | ret a => exact hf _ _ h
  | op o k ih => exact ⟨h.1, fun r => ih r (h.2 r)⟩

/-- A program that follows `P` follows `P'` over a larger signature, if `P'` allows what `P` allows
and the two logs stay related. -/
theorem Follows.embed {Op' σ' : Type} {Res' : Op' → Type} {P' : Protocol Op' Res' σ'} {f : Op → Op'}
    {back : ∀ o, Res' (f o) → Res o} (R : σ → σ' → Prop)
    (hR : ∀ s s' o, R s s' → P.Allowed s o → P'.Allowed s' (f o) ∧
      ∀ r, R (P.record s o (back o r)) (P'.record s' (f o) r)) {s' : σ'} (hp : Follows P Q p s)
    (hs : R s s') :
    Follows P' (fun s' a => ∃ s, R s s' ∧ Q s a) (p.embed f back) s' := by
  induction p generalizing s s' with
  | ret a => exact ⟨s, hs, hp⟩
  | op o k ih =>
    obtain ⟨hallowed, hrecord⟩ := hR s s' o hs hp.1
    exact ⟨hallowed, fun r => ih _ (hp.2 _) (hrecord r)⟩

theorem follows_free {p : Prog Op Res α} : Follows (.free Op Res) (fun _ _ => True) p () := by
  induction p with
  | ret a => exact trivial
  | op o k ih => exact ⟨trivial, fun r => ih r⟩

/-! ### Fallible programs -/

section Fallible

variable {Ret : Op → Type} {ε : Type}

/-- Issue `o` and fail if it fails. -/
def call (o : Op) : ExceptT ε (Prog Op fun o => Except ε (Ret o)) (Ret o) :=
  ExceptT.mk (.op o .ret)

/-- `Follows` for a fallible program: `Q` relates the final log to the value of a run that
succeeds, `E` holds of the final log of a run that fails. -/
def FollowsE (P : Protocol Op Res σ) (Q : σ → α → Prop) (E : σ → Prop)
    (p : ExceptT ε (Prog Op Res) α) (s : σ) : Prop :=
  Follows P (fun s r => match r with | .ok a => Q s a | .error _ => E s) p.run s

/-- The program follows the protocol, whatever it returns. -/
abbrev Obeys (P : Protocol Op Res σ) (p : ExceptT ε (Prog Op Res) α) (s : σ) : Prop :=
  FollowsE P (fun _ _ => True) (fun _ => True) p s

variable {E : σ → Prop} {p : ExceptT ε (Prog Op Res) α}

theorem FollowsE.mono {Q' : σ → α → Prop} (h : FollowsE P Q E p s)
    (hQ : ∀ s a, Q s a → Q' s a) : FollowsE P Q' E p s := by
  refine Follows.mono h fun s r hr => ?_
  cases r with
  | ok a => exact hQ _ _ hr
  | error e => exact hr

theorem FollowsE.mono_error {E' : σ → Prop} (h : FollowsE P Q E p s)
    (hE : ∀ s, E s → E' s) : FollowsE P Q E' p s := by
  refine Follows.mono h fun s r hr => ?_
  cases r with
  | ok a => exact hr
  | error e => exact hE _ hr

theorem followsE_pure {a : α} (h : Q s a) :
    FollowsE P Q E (pure a : ExceptT ε (Prog Op Res) α) s := h

theorem followsE_throw {e : ε} (h : E s) :
    FollowsE P Q E (throw e : ExceptT ε (Prog Op Res) α) s := h

theorem followsE_bind {Q' : σ → β → Prop}
    {f : α → ExceptT ε (Prog Op Res) β} (h : FollowsE P Q E p s)
    (hf : ∀ s a, Q s a → FollowsE P Q' E (f a) s) : FollowsE P Q' E (p >>= f) s := by
  refine Follows.bind h fun s r hr => ?_
  cases r with
  | ok a => exact hf _ _ hr
  | error e => exact hr

theorem followsE_map {Q : σ → β → Prop} {f : α → β}
    (h : FollowsE P (fun s a => Q s (f a)) E p s) : FollowsE P Q E (f <$> p) s := by
  refine Follows.bind h fun s r hr => ?_
  cases r with
  | ok a | error e => exact hr

theorem followsE_liftExcept {x : Except ε α} (hok : ∀ a, x = .ok a → Q s a)
    (herr : ∀ e, x = .error e → E s) :
    FollowsE P Q E (liftExcept x : ExceptT ε (Prog Op Res) α) s := by
  cases x with
  | ok a => exact hok a rfl
  | error e => exact herr e rfl

theorem followsE_lift {Q : σ → β → Prop} {x : Except ε α} {f : α → ExceptT ε (Prog Op Res) β}
    (hE : E s) (hf : ∀ a, x = .ok a → FollowsE P Q E (f a) s) :
    FollowsE P Q E (liftExcept x >>= f) s :=
  followsE_bind (Q := fun s' a => s = s' ∧ x = .ok a)
    (followsE_liftExcept (fun _ h => ⟨rfl, h⟩) fun _ _ => hE) fun _ a h => h.1 ▸ hf a h.2

theorem followsE_call {P : Protocol Op (fun o => Except ε (Ret o)) σ} {o : Op}
    {Q : σ → Ret o → Prop} (ha : P.Allowed s o) (hok : ∀ a, Q (P.record s o (.ok a)) a)
    (herr : ∀ e, E (P.record s o (.error e))) :
    FollowsE P Q E (call o : ExceptT ε (Prog Op fun o => Except ε (Ret o)) (Ret o)) s := by
  refine ⟨ha, fun r => ?_⟩
  cases r with
  | ok a => exact hok a
  | error e => exact herr e

/-- Changing the error of a program does not change what it does. -/
theorem followsE_adapt {f : ε → ε} (h : FollowsE P Q E p s) : FollowsE P Q E (p.adapt f) s := by
  refine Follows.bind h fun s r hr => ?_
  cases r with
  | ok a | error e => exact hr

/-- The loop rule: an invariant `I` of the elements done so far, the accumulator and the log
carries through a `foldlM`. -/
theorem followsE_foldlM {xs : List δ} {f : γ → δ → ExceptT ε (Prog Op Res) γ}
    (I : List δ → γ → σ → Prop)
    (hstep : ∀ done x rest acc s, xs = done ++ x :: rest → I done acc s →
      FollowsE P (fun s acc' => I (done ++ [x]) acc' s) E (f acc x) s) {acc : γ} (h : I [] acc s) :
    FollowsE P (fun s acc => I xs acc s) E (xs.foldlM f acc) s := by
  suffices H : ∀ rest done acc s, xs = done ++ rest → I done acc s →
      FollowsE P (fun s acc => I xs acc s) E (rest.foldlM f acc) s from H xs [] acc s rfl h
  intro rest
  induction rest with
  | nil =>
    intro done acc s hxs hI
    rw [append_nil] at hxs
    exact followsE_pure (hxs ▸ hI)
  | cons x rest ih =>
    intro done acc s hxs hI
    refine followsE_bind (hstep done x rest acc s hxs hI) fun s' acc' hI' => ?_
    exact ih (done ++ [x]) acc' s' (by simpa using hxs) hI'

theorem followsE_forM {xs : List δ} {f : δ → ExceptT ε (Prog Op Res) PUnit} (I : σ → Prop)
    (hstep : ∀ x ∈ xs, ∀ s, I s → FollowsE P (fun s _ => I s) E (f x) s) (h : I s) :
    FollowsE P (fun s _ => I s) E (xs.forM f) s := by
  induction xs generalizing s with
  | nil => exact followsE_pure h
  | cons x xs ih =>
    refine followsE_bind (hstep x mem_cons_self s h) fun s' _ h' => ?_
    exact ih (fun y hy => hstep y (mem_cons_of_mem x hy)) h'

end Fallible

/-! ### Programs that issue one kind of operations -/

section Issues

variable {Ret : Op → Type} {ε : Type} {A B : Op → Prop}

/-- Whatever results it receives, the program only issues operations in `A`. -/
def Issues (A : Op → Prop) (p : Prog Op Res α) : Prop :=
  p.Follows (.only A) (fun _ _ => True) ()

/-- A protocol that allows these operations whatever happened before. -/
theorem Issues.follows {P : Protocol Op Res σ} (h : Issues A p) (hP : ∀ s o, A o → P.Allowed s o)
    (s : σ) : p.Follows P (fun _ _ => True) s := by
  induction p generalizing s with
  | ret a => trivial
  | op o k ih => exact ⟨hP s o h.1, fun r => ih r (h.2 r) _⟩

theorem issues_bind {f : α → Prog Op Res β} (h : Issues A p) (hf : ∀ a, Issues A (f a)) :
    Issues A (p >>= f) :=
  Follows.bind h fun _ a _ => hf a

theorem issuesE_pure {a : α} : Issues A (pure a : ExceptT ε (Prog Op Res) α).run := trivial

theorem issuesE_throw {e : ε} : Issues A (throw e : ExceptT ε (Prog Op Res) α).run := trivial

theorem issuesE_bind {p : ExceptT ε (Prog Op Res) α} {f : α → ExceptT ε (Prog Op Res) β}
    (h : Issues A p.run) (hf : ∀ a, Issues A (f a).run) : Issues A (p >>= f).run := by
  refine issues_bind h fun r => ?_
  cases r with
  | ok a => exact hf a
  | error e => trivial

theorem issuesE_liftExcept {x : Except ε α} :
    Issues A (liftExcept x : ExceptT ε (Prog Op Res) α).run := by
  cases x <;> trivial

theorem issuesE_call {o : Op} (ho : A o) :
    Issues A (call o : ExceptT ε (Prog Op fun o => Except ε (Ret o)) (Ret o)).run :=
  ⟨ho, fun _ => trivial⟩

theorem issuesE_forM {f : δ → ExceptT ε (Prog Op Res) PUnit} {xs : List δ}
    (hf : ∀ x, Issues A (f x).run) : Issues A (xs.forM f).run := by
  induction xs with
  | nil => trivial
  | cons x xs ih => exact issuesE_bind (hf x) fun _ => ih

theorem issuesE_foldlM {f : γ → δ → ExceptT ε (Prog Op Res) γ} {xs : List δ} {acc : γ}
    (hf : ∀ acc x, Issues A (f acc x).run) : Issues A (xs.foldlM f acc).run := by
  induction xs generalizing acc with
  | nil => trivial
  | cons x xs ih => exact issuesE_bind (hf acc x) fun _ => ih

theorem Issues.embed_of {Op' : Type} {Res' : Op' → Type} {A' : Op' → Prop} {f : Op → Op'}
    {back : ∀ o, Res' (f o) → Res o} (h : Issues A p) (hf : ∀ o, A o → A' (f o)) :
    Issues A' (p.embed f back) := by
  induction p with
  | ret a => trivial
  | op o k ih => exact ⟨hf o h.1, fun r => ih (back o r) (h.2 (back o r))⟩

/-- Operations of another signature in place of the program's own. -/
theorem Issues.embed {Op' : Type} {Res' : Op' → Type} {A : Op' → Prop} {f : Op → Op'}
    {back : ∀ o, Res' (f o) → Res o} (hf : ∀ o, A (f o)) : Issues A (p.embed f back) := by
  induction p with
  | ret a => trivial
  | op o k ih => exact ⟨hf o, fun r => ih (back o r)⟩

end Issues

/-! ### Programs whose operations are answered -/

/-- The value of a program whose operations return what `answer` says. -/
def eval (answer : ∀ o, Res o) : Prog Op Res α → α
  | .ret a => a
  | .op o k => (k (answer o)).eval answer

variable (answer : ∀ o, Res o)

theorem eval_bind (p : Prog Op Res α) (f : α → Prog Op Res β) :
    (p >>= f).eval answer = (f (p.eval answer)).eval answer := by
  induction p with
  | ret a => rfl
  | op o k ih => exact ih (answer o)

theorem evalE_foldlM (f : γ → δ → ExceptT ε (Prog Op Res) γ) (xs : List δ)
    (acc : γ) : (xs.foldlM f acc).run.eval answer =
      xs.foldlM (fun acc x => (f acc x).run.eval answer) acc := by
  induction xs generalizing acc with
  | nil => rfl
  | cons x xs ih =>
    rw [foldlM_cons, foldlM_cons, ExceptT.run_bind, eval_bind]
    cases (f acc x).run.eval answer with
    | error e => rfl
    | ok acc => exact ih acc

end Prog

end NovaCore

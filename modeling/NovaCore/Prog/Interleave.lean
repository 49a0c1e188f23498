import NovaCore.Data.Lists
import NovaCore.Prog.Basic

/-!
# Interleaved and solitary runs

A `Config` is one shared world and a family of threads, each a `Prog`.  One step lets one thread
issue its next operation; the world answers according to a step relation
`step : W → (o : Op) → Res o → W → Prop`.  A `Run` collects the history of these steps, so that
properties of the order of events of different threads can be stated over it.

## Main results

* `Run.follows` : a thread that follows its protocol keeps following it in every interleaving.
* `Run.invariant`, `Run.invariant_after` : an invariant of history and world that every allowed
  step keeps holds after every run, or from some configuration on.
* `Run.invariant_iff` : the same as an equivalence, where a step tells exactly whether it keeps the
  invariant.
* `Run.relyGuarantee` : the same with an assertion about the log of each thread.
* `Run.split` : a run over `h₁ ++ h₂` passes through a configuration reached by `h₁`.
* `Exec.follows` : the invariant rule for a program that runs alone.
* `execE_bind_iff`, `execE_call_iff`, `execE_foldlM_iff` : what a fallible program that runs alone
  does.
* `run_of_schedule`, `exists_run_of_schedule`, `exists_run_of_passes` : an executable schedule
  yields a run.
-/

namespace NovaCore

open List Option Function Except Protocol

/-- One operation together with the result it returned. -/
abbrev Event (Op : Type) (Res : Op → Type) : Type := (o : Op) × Res o

/-- Events of all threads, oldest first, tagged with the thread that performed them. -/
abbrev History (ι Op : Type) (Res : Op → Type) : Type := List (ι × Event Op Res)

/-- A shared world and the remaining program of each thread. -/
structure Config (ι Op : Type) (Res : Op → Type) (W : Type) (ρ : ι → Type) where
  /-- The shared state. -/
  world : W
  /-- What each thread still has to do. -/
  threads : (i : ι) → Prog Op Res (ρ i)

/-- Whether a program has ended. -/
def Prog.ended {Op α : Type} {Res : Op → Type} : Prog Op Res α → Bool
  | .ret _ => true
  | .op _ _ => false

/-- Whether a fallible program has ended successfully. -/
def Prog.succeeded {Op α ε : Type} {Res : Op → Type} : Prog Op Res (Except ε α) → Bool
  | .ret (.ok _) => true
  | _ => false

/-- No thread is in flight: each has ended (or, in the initial configuration, not started). -/
def Config.Quiescent {ι W : Type} {ρ : ι → Type} {Op : Type} {Res : Op → Type}
    (c : Config ι Op Res W ρ) : Prop :=
  ∀ i, (c.threads i).ended = true

theorem Prog.ended_of_succeeded {Op α ε : Type} {Res : Op → Type}
    {p : Prog Op Res (Except ε α)} (hp : p.succeeded = true) : p.ended = true := by
  cases p with
  | ret => rfl
  | op => cases hp

theorem Prog.eq_ok_of_succeeded {Op α ε : Type} {Res : Op → Type}
    {p : Prog Op Res (Except ε α)} (hp : p.succeeded = true) : ∃ a, p = .ret (.ok a) := by
  unfold Prog.succeeded at hp
  split at hp
  · exact ⟨_, rfl⟩
  · cases hp

section

variable {ι Op W σ : Type} {Res : Op → Type} {ρ : ι → Type} [DecidableEq ι]

/-- The events of thread `i` in a history. -/
def eventsOf (i : ι) (h : History ι Op Res) : List (Event Op Res) :=
  (h.filter fun x => x.1 = i).map Prod.snd

variable (P : Protocol Op Res σ)

/-- The log that protocol `P` keeps of a list of events. -/
def Protocol.logAfter (s : σ) (es : List (Event Op Res)) : σ :=
  es.foldl (fun s e => P.record s e.1 e.2) s

@[simp] theorem Protocol.logAfter_nil (s : σ) : P.logAfter s [] = s := rfl

@[simp] theorem Protocol.logAfter_snoc (s : σ) (es : List (Event Op Res)) (e : Event Op Res) :
    P.logAfter s (es ++ [e]) = P.record (P.logAfter s es) e.1 e.2 := by
  simp [logAfter]

@[simp] theorem eventsOf_snoc_self (i : ι) (h : History ι Op Res) (e : Event Op Res) :
    eventsOf i (h ++ [(i, e)]) = eventsOf i h ++ [e] := by
  simp [eventsOf]

variable {i : ι} {P : ι → Protocol Op Res σ} {s₀ : σ} {h₁ h₂ : History ι Op Res}
  {Q : (i : ι) → σ → ρ i → Prop}

theorem eventsOf_snoc_ne {j : ι} (hij : j ≠ i) (h : History ι Op Res) (e : Event Op Res) :
    eventsOf i (h ++ [(j, e)]) = eventsOf i h := by
  simp [eventsOf, hij]

theorem mem_eventsOf {h : History ι Op Res} {e : Event Op Res} : e ∈ eventsOf i h ↔ (i, e) ∈ h := by
  simp [eventsOf]

/-- An event of a thread, and what the thread has done since. -/
theorem eventsOf_eq_append_cons {h : History ι Op Res} {s t : List (Event Op Res)}
    {e : Event Op Res} (heq : eventsOf i h = s ++ e :: t) :
    ∃ h₁ h₂, h = h₁ ++ (i, e) :: h₂ ∧ eventsOf i h₂ = t := by
  obtain ⟨l, l', hfilter, -, hl'⟩ := map_eq_append_iff.1 heq
  obtain ⟨⟨j, e'⟩, l₂, rfl, rfl, rfl⟩ := map_eq_cons_iff.1 hl'
  obtain ⟨g, g', rfl, -, hg'⟩ := filter_eq_append_iff.1 hfilter
  obtain ⟨g₁, g₂, rfl, -, hj, rfl⟩ := filter_eq_cons_iff.1 hg'
  obtain rfl : j = i := of_decide_eq_true hj
  exact ⟨g ++ g₁, g₂, by simp, rfl⟩

/-- What `f` says about the last event that it says something about, given the history before it. -/
def lastOf {α : Type} (f : History ι Op Res → ι × Event Op Res → Option α)
    (h : History ι Op Res) : Option α :=
  go h.reverse
where
  /-- The events from the last to the first. -/
  go : List (ι × Event Op Res) → Option α
    | [] => none
    | x :: past => (f past.reverse x).or (go past)

omit [DecidableEq ι] in
theorem lastOf_snoc {α : Type} (f : History ι Op Res → ι × Event Op Res → Option α)
    (h : History ι Op Res) (x : ι × Event Op Res) :
    lastOf f (h ++ [x]) = (f h x).or (lastOf f h) := by
  simp [lastOf, lastOf.go]

/-- `Run step c₀ h c` : from `c₀` the threads can perform the events `h`, in that order, and
reach `c`. -/
inductive Run (step : W → (o : Op) → Res o → W → Prop) (c₀ : Config ι Op Res W ρ) :
    History ι Op Res → Config ι Op Res W ρ → Prop
  | nil : Run step c₀ [] c₀
  | snoc {h : History ι Op Res} {c : Config ι Op Res W ρ} {i : ι} {o : Op}
      {k : Res o → Prog Op Res (ρ i)} {r : Res o} {w' : W} :
      Run step c₀ h c → c.threads i = .op o k → step c.world o r w' →
      Run step c₀ (h ++ [(i, ⟨o, r⟩)]) ⟨w', Function.update c.threads i (k r)⟩

variable {step : W → (o : Op) → Res o → W → Prop} {c₀ c : Config ι Op Res W ρ}
  {h : History ι Op Res}

/-! ### Per-thread protocols -/

/-- **A thread that follows its protocol keeps following it**, whatever the other threads do. -/
theorem Run.follows {Q : (i : ι) → σ → ρ i → Prop} (hr : Run step c₀ h c)
    (hf : ∀ i, (c₀.threads i).Follows (P i) (Q i) s₀) (i : ι) :
    (c.threads i).Follows (P i) (Q i) ((P i).logAfter s₀ (eventsOf i h)) := by
  induction hr with
  | nil => exact hf i
  | @snoc h c j o k r w' _ hop _ ih =>
    by_cases hij : j = i
    · subst hij
      rw [hop] at ih
      simpa using ih.2 r
    · simpa [eventsOf_snoc_ne hij, update_of_ne (Ne.symm hij)] using ih

/-- The protocol whose log is the list of the thread's own events. -/
def Protocol.ofEvents (Allowed : List (Event Op Res) → Op → Prop) :
    Protocol Op Res (List (Event Op Res)) where
  record s o r := s ++ [⟨o, r⟩]
  Allowed := Allowed

theorem Protocol.logAfter_ofEvents (Allowed : List (Event Op Res) → Op → Prop)
    (s es : List (Event Op Res)) : (ofEvents Allowed).logAfter s es = s ++ es := by
  induction es generalizing s with
  | nil => simp
  | cons e es ih =>
    refine (ih (s ++ [e])).trans ?_
    rw [append_assoc, singleton_append]

/-! ### Composing runs -/

variable {c₁ : Config ι Op Res W ρ}

theorem Run.append (hr1 : Run step c₀ h₁ c₁) (hr2 : Run step c₁ h₂ c) :
    Run step c₀ (h₁ ++ h₂) c := by
  induction hr2 with
  | nil => simpa using hr1
  | snoc _ hop hst ih =>
    rw [← append_assoc]
    exact Run.snoc ih hop hst

theorem Run.split (hr : Run step c₀ (h₁ ++ h₂) c) : ∃ c₁, Run step c₀ h₁ c₁ ∧ Run step c₁ h₂ c := by
  generalize he : h₁ ++ h₂ = h at hr
  induction hr generalizing h₂ with
  | nil =>
    obtain ⟨rfl, rfl⟩ := append_eq_nil_iff.1 he
    exact ⟨c₀, Run.nil, Run.nil⟩
  | @snoc h c i o k r w' hrun hop hst ih =>
    rcases eq_nil_or_concat h₂ with rfl | ⟨h₂, x, rfl⟩
    · rw [append_nil] at he
      subst he
      exact ⟨_, Run.snoc hrun hop hst, Run.nil⟩
    · rw [concat_eq_append, ← append_assoc] at he
      obtain ⟨rfl, hx⟩ := append_inj' he rfl
      obtain ⟨c₁, hr1, hr2⟩ := ih rfl
      cases hx
      exact ⟨c₁, hr1, by rw [concat_eq_append]; exact Run.snoc hr2 hop hst⟩

theorem Run.eq_of_nil (hr : Run step c₀ [] c) : c = c₀ := by
  generalize he : ([] : History ι Op Res) = h at hr
  cases hr with
  | nil => rfl
  | snoc => simp at he

/-- The first event of a run. -/
theorem Run.cons_inv {o : Op} {r : Res o} (hr : Run step c₀ ((i, ⟨o, r⟩) :: h) c) :
    ∃ k w', c₀.threads i = .op o k ∧ step c₀.world o r w' ∧
      Run step ⟨w', update c₀.threads i (k r)⟩ h c := by
  have hr' : Run step c₀ ([(i, ⟨o, r⟩)] ++ h) c := hr
  obtain ⟨c₁, hr1, hr2⟩ := hr'.split
  generalize he : [(i, (⟨o, r⟩ : Event Op Res))] = h₁ at hr1
  cases hr1 with
  | nil => cases he
  | @snoc h' c' j o' k r' w' hrun hop hst =>
    cases h' with
    | nil =>
      cases he
      obtain rfl := hrun.eq_of_nil
      exact ⟨k, w', hop, hst, hr2⟩
    | cons y h' => simp at he

/-- A run of one event is a step. -/
theorem Run.step_of_singleton {o : Op} {r : Res o} (hr : Run step c₀ [(i, ⟨o, r⟩)] c) :
    step c₀.world o r c.world := by
  obtain ⟨k, w', -, hst, hnil⟩ := hr.cons_inv
  obtain rfl := hnil.eq_of_nil
  exact hst

/-! ### Invariants -/

/-- The next operation of a thread in a run is one that its protocol allows. -/
theorem Run.allowed {Q : (i : ι) → σ → ρ i → Prop} (hr : Run step c₀ h c)
    (hf : ∀ i, (c₀.threads i).Follows (P i) (Q i) s₀) {o : Op} {k : Res o → Prog Op Res (ρ i)}
    (hop : c.threads i = .op o k) : (P i).Allowed ((P i).logAfter s₀ (eventsOf i h)) o := by
  have hfol := hr.follows hf i
  rw [hop] at hfol
  exact hfol.1

/-- **The invariant rule, from a configuration on.**  A property of history and world that holds
at some point of a run and is kept by every later step that the protocols and the side condition
`C` allow holds at the end.  `C` may speak of the history and the world before the step. -/
theorem Run.invariant_after {C : History ι Op Res → W → ι × Event Op Res → Prop}
    (J : History ι Op Res → W → Prop) (hr1 : Run step c₀ h₁ c₁)
    (hr2 : Run step c₁ h₂ c) (hf : ∀ i, (c₀.threads i).Follows (P i) (Q i) s₀)
    (hC : ∀ h x h' c', h₂ = h ++ x :: h' → Run step c₁ h c' → Run step c' (x :: h') c →
      C (h₁ ++ h) c'.world x) (h1 : J h₁ c₁.world)
    (hstep : ∀ h c i o r w', Run step c₀ h c → J h c.world → C h c.world (i, ⟨o, r⟩) →
      (P i).Allowed ((P i).logAfter s₀ (eventsOf i h)) o → step c.world o r w' →
      J (h ++ [(i, ⟨o, r⟩)]) w') :
    J (h₁ ++ h₂) c.world := by
  induction hr2 with
  | nil => simpa using h1
  | @snoc h c j o k r w' hrun hop hst ih =>
    have hJ := ih fun h' x h'' c' he hr hr' => by
      refine hC h' x (h'' ++ [(j, ⟨o, r⟩)]) c' (by simp [he]) hr ?_
      exact Run.snoc hr' hop hst
    have hCj := hC h _ [] c rfl hrun (Run.snoc Run.nil hop hst)
    have hallowed := (hr1.append hrun).allowed hf hop
    rw [← append_assoc]
    exact hstep (h₁ ++ h) c j o r w' (hr1.append hrun) hJ hCj hallowed hst

/-- **The invariant rule.** -/
theorem Run.invariant {C : History ι Op Res → W → ι × Event Op Res → Prop}
    (J : History ι Op Res → W → Prop) (hr : Run step c₀ h c)
    (hf : ∀ i, (c₀.threads i).Follows (P i) (Q i) s₀)
    (hC : ∀ h₁ x h₂ c₁, h = h₁ ++ x :: h₂ → Run step c₀ h₁ c₁ → Run step c₁ (x :: h₂) c →
      C h₁ c₁.world x) (h0 : J [] c₀.world)
    (hstep : ∀ h c i o r w', Run step c₀ h c → J h c.world → C h c.world (i, ⟨o, r⟩) →
      (P i).Allowed ((P i).logAfter s₀ (eventsOf i h)) o → step c.world o r w' →
      J (h ++ [(i, ⟨o, r⟩)]) w') :
    J h c.world :=
  Run.invariant_after J .nil hr hf hC h0 hstep

section Always

variable (J : History ι Op Res → W → Prop) (hf : ∀ i, (c₀.threads i).Follows (P i) (Q i) s₀)
  (hstep : ∀ h c i o r w', Run step c₀ h c → J h c.world →
    (P i).Allowed ((P i).logAfter s₀ (eventsOf i h)) o → step c.world o r w' →
    J (h ++ [(i, ⟨o, r⟩)]) w')
include hf hstep

/-- The rule without a side condition. -/
theorem Run.always_after (hr1 : Run step c₀ h₁ c₁)
    (hr2 : Run step c₁ h₂ c) (h1 : J h₁ c₁.world) : J (h₁ ++ h₂) c.world :=
  Run.invariant_after (C := fun _ _ _ => True) J hr1 hr2 hf (fun _ _ _ _ _ _ _ => trivial) h1
    fun h c i o r w' hr hJ _ => hstep h c i o r w' hr hJ

theorem Run.always (hr : Run step c₀ h c) (h0 : J [] c₀.world) : J h c.world :=
  Run.always_after J hf hstep .nil hr h0

end Always

/-- **Exact invariants.**  If a step from a state with `J` leads to one with `J`, and has `B`,
exactly under the condition `C`, then `J` and `B` hold throughout a run exactly if `C` does. -/
theorem Run.invariant_iff {J : W → Prop} {B C : W → Event Op Res → Prop} (hr : Run step c₀ h c)
    (hf : ∀ i, (c₀.threads i).Follows (P i) (Q i) s₀) (h0 : J c₀.world)
    (hstep : ∀ s i w o r w', J w → (P i).Allowed s o → step w o r w' →
      (J w' ∧ B w ⟨o, r⟩ ↔ C w ⟨o, r⟩)) :
    (∀ h₁ x h₂ c₁ c2, h = h₁ ++ x :: h₂ → Run step c₀ h₁ c₁ → Run step c₁ [x] c2 →
      Run step c2 h₂ c → J c2.world ∧ B c₁.world x.2) ↔
    ∀ h₁ x h₂ c₁, h = h₁ ++ x :: h₂ → Run step c₀ h₁ c₁ → Run step c₁ (x :: h₂) c →
      C c₁.world x.2 := by
  constructor
  · rintro hall h₁ ⟨i, o, r⟩ h₂ c₁ rfl hr1 hr2
    -- `J` holds before the step: at the start, or after the step before it
    have hJ : J c₁.world := by
      rcases eq_nil_or_concat h₁ with rfl | ⟨h3, x, rfl⟩
      · rw [hr1.eq_of_nil]
        exact h0
      · rw [concat_eq_append] at hr1 hall
        obtain ⟨c3, hr3, hx⟩ := hr1.split
        exact (hall h3 x _ c3 c₁ (by simp) hr3 hx hr2).1
    have hr₂' : Run step c₁ ([(i, ⟨o, r⟩)] ++ h₂) c := hr2
    obtain ⟨c2, hx, hrest⟩ := hr₂'.split
    obtain ⟨k, w', hop, -⟩ := hr2.cons_inv
    exact (hstep _ i _ o r _ hJ (hr1.allowed hf hop) hx.step_of_singleton).1
      (hall h₁ _ h₂ c₁ c2 rfl hr1 hx hrest)
  · rintro hC h₁ ⟨i, o, r⟩ h₂ c₁ c2 rfl hr1 hx hr2
    have hJ : J c₁.world := by
      refine Run.invariant (C := fun _ w x => C w x.2) (fun _ w => J w) hr1 hf ?_ h0
        fun _ _ j _ _ _ _ hJ hCx hallowed hs => ((hstep _ j _ _ _ _ hJ hallowed hs).2 hCx).1
      rintro h3 x h4 c3 rfl hr3 hr4
      exact hC h3 x _ c3 (by simp) hr3 (hr4.append (hx.append hr2))
    obtain ⟨k, w', hop, -⟩ := hx.cons_inv
    exact (hstep _ i _ o r _ hJ (hr1.allowed hf hop) hx.step_of_singleton).2
      (hC h₁ _ h₂ c₁ rfl hr1 (hx.append hr2))

/-- **The rely-guarantee rule.**  `L` relates what a thread has seen to the world.  If every
allowed step keeps the invariant `J`, extends the log of the thread that takes it consistently
with `L`, and leaves `L` intact for the logs of the others, then `J` and all the `L` hold after
every run. -/
theorem Run.relyGuarantee (J : W → Prop) (L : σ → W → Prop) (hr : Run step c₀ h c)
    (hf : ∀ i, (c₀.threads i).Follows (P i) (Q i) s₀) (hJ : J c₀.world) (hL : L s₀ c₀.world)
    (hstep : ∀ i s w o r w', J w → L s w → (P i).Allowed s o → step w o r w' →
      J w' ∧ L ((P i).record s o r) w')
    (hstable : ∀ i s s' w o r w', J w → L s w → L s' w → (P i).Allowed s o → step w o r w' →
      L s' w') :
    J c.world ∧ ∀ i, L ((P i).logAfter s₀ (eventsOf i h)) c.world := by
  induction hr with
  | nil => exact ⟨hJ, fun i => hL⟩
  | @snoc h c i o k r w' hrun hop hst ih =>
    obtain ⟨hJc, hLc⟩ := ih
    have hallowed := hrun.allowed hf hop
    obtain ⟨hJ', hL'⟩ := hstep i _ _ o r w' hJc (hLc i) hallowed hst
    refine ⟨hJ', fun j => ?_⟩
    by_cases hij : i = j
    · subst hij
      rw [eventsOf_snoc_self, logAfter_snoc]
      exact hL'
    · rw [eventsOf_snoc_ne hij]
      exact hstable i _ _ _ o r w' hJc (hLc i) (hLc j) hallowed hst

/-! ### Executable schedules -/

section Schedule

variable {X : Type} (sem : W → (o : Op) → X → Option (Res o × W))

/-- What an operation does, for some choice of the world. -/
abbrev Steps (w : W) (o : Op) (r : Res o) (w' : W) : Prop := ∃ x, sem w o x = some (r, w')

/-- Let thread `i` perform its next operation, with the world's choices given by `x`. -/
def Config.advance (c : Config ι Op Res W ρ) (i : ι) (x : X) :
    Option (Event Op Res × Config ι Op Res W ρ) :=
  match c.threads i with
  | .ret _ => none
  | .op o k => (sem c.world o x).map fun y =>
      (⟨o, y.1⟩, ⟨y.2, Function.update c.threads i (k y.1)⟩)

/-- Let the threads of a list perform one operation each, in order. -/
def Config.schedule : Config ι Op Res W ρ → List (ι × X) →
    Option (History ι Op Res × Config ι Op Res W ρ)
  | c, [] => some ([], c)
  | c, (i, x) :: xs => (c.advance sem i x).bind fun y =>
      (Config.schedule y.2 xs).map fun z => ((i, y.1) :: z.1, z.2)

variable {sem}

theorem run_of_advance {x : X} {e : Event Op Res} {c' : Config ι Op Res W ρ}
    (ha : c.advance sem i x = some (e, c')) : Run (Steps sem) c [(i, e)] c' := by
  unfold Config.advance at ha
  split at ha
  · cases ha
  · next o k hop =>
    obtain ⟨⟨r, w'⟩, hs, he⟩ := map_eq_some_iff.1 ha
    cases he
    exact Run.snoc Run.nil hop ⟨x, hs⟩

variable {xs : List (ι × X)}

/-- **A schedule that executes is a run.** -/
theorem run_of_schedule {c' : Config ι Op Res W ρ} (hs : c.schedule sem xs = some (h, c')) :
    Run (Steps sem) c h c' := by
  induction xs generalizing c h with
  | nil =>
    cases hs
    exact Run.nil
  | cons y ys ih =>
    simp only [Config.schedule, bind_eq_some_iff, map_eq_some_iff] at hs
    obtain ⟨⟨e, c₁⟩, ha, ⟨h₁, c2⟩, hs1, he⟩ := hs
    cases he
    exact (run_of_advance ha).append (ih hs1)

/-- A check that passes on the outcome of a schedule passes on the outcome of some run. -/
theorem exists_run_of_schedule {p : History ι Op Res × Config ι Op Res W ρ → Bool}
    (hs : (c.schedule sem xs).any p = true) :
    ∃ h c', Run (Steps sem) c h c' ∧ p (h, c') = true := by
  obtain ⟨⟨h, c'⟩, hsch, hp⟩ := (any_eq_true p _).1 hs
  exact ⟨h, c', run_of_schedule hsch, hp⟩

/-- Two schedules, one after the other, with checks on both outcomes. -/
theorem exists_runs_of_schedule {ys : List (ι × X)}
    {p q : History ι Op Res × Config ι Op Res W ρ → Bool}
    (hs : (c.schedule sem xs).any (fun y => p y && (y.2.schedule sem ys).any q) = true) :
    ∃ h₁ c₁ h₂ c2, Run (Steps sem) c h₁ c₁ ∧ p (h₁, c₁) = true ∧ Run (Steps sem) c₁ h₂ c2 ∧
      q (h₂, c2) = true := by
  obtain ⟨h₁, c₁, hr1, hpq⟩ := exists_run_of_schedule hs
  obtain ⟨hp, hq⟩ := Bool.and_eq_true_iff.1 hpq
  obtain ⟨h₂, c2, hr2, hq⟩ := exists_run_of_schedule hq
  exact ⟨h₁, c₁, h₂, c2, hr1, hp, hr2, hq⟩

/-- The schedule passes the check `p` before each operation and the check `q` at its end; `g` is the
history so far. -/
def Config.passes (sem : W → (o : Op) → X → Option (Res o × W))
    (p : History ι Op Res → W → ι × Event Op Res → Bool)
    (q : History ι Op Res × Config ι Op Res W ρ → Bool) :
    Config ι Op Res W ρ → History ι Op Res → List (ι × X) → Bool
  | c, g, [] => q (g, c)
  | c, g, (i, x) :: xs => (c.advance sem i x).any fun y =>
      p g c.world (i, y.1) && Config.passes sem p q y.2 (g ++ [(i, y.1)]) xs

/-- A run is determined by its history as far as the steps are by their results. -/
theorem Run.unique_snoc {x : ι × Event Op Res} {c' : Config ι Op Res W ρ}
    (huniq : ∀ c₁, Run step c₀ h c₁ → c₁ = c)
    (hdet : ∀ w1 w2, step c.world x.2.1 x.2.2 w1 → step c.world x.2.1 x.2.2 w2 → w1 = w2)
    (hr : Run step c [x] c') {c₁ : Config ι Op Res W ρ} (hr₁ : Run step c₀ (h ++ [x]) c₁) :
    c₁ = c' := by
  obtain ⟨i, o, r⟩ := x
  obtain ⟨c2, hpre, hlast⟩ := hr₁.split
  obtain rfl := huniq c2 hpre
  obtain ⟨k1, w1, hop1, hs1, he1⟩ := hlast.cons_inv
  obtain ⟨k2, w2, hop2, hs2, he2⟩ := hr.cons_inv
  obtain rfl := hdet w1 w2 hs1 hs2
  cases hop1.symm.trans hop2
  exact he1.eq_of_nil.trans he2.eq_of_nil.symm

/-- **A schedule that passes its checks is a run whose steps pass them**, in every state that the
history before the step leads to. -/
theorem exists_run_of_passes {p : History ι Op Res → W → ι × Event Op Res → Bool}
    {q : History ι Op Res × Config ι Op Res W ρ → Bool}
    (hdet : ∀ g w x, p g w x = true → ∀ w1 w2, Steps sem w x.2.1 x.2.2 w1 →
      Steps sem w x.2.1 x.2.2 w2 → w1 = w2)
    (hs : c.passes sem p q [] xs = true) : ∃ h c', Run (Steps sem) c h c' ∧ q (h, c') = true ∧
      ∀ h₁ x h₂ c₁, h = h₁ ++ x :: h₂ → Run (Steps sem) c h₁ c₁ → p h₁ c₁.world x = true := by
  -- the induction carries the history so far, which leads to one configuration only
  suffices ∀ g c', Run (Steps sem) c g c' → (∀ c₁, Run (Steps sem) c g c₁ → c₁ = c') →
      (∀ h₁ x h₂ c₁, g = h₁ ++ x :: h₂ → Run (Steps sem) c h₁ c₁ → p h₁ c₁.world x = true) →
      c'.passes sem p q g xs = true → ∃ h c', Run (Steps sem) c h c' ∧ q (h, c') = true ∧
        ∀ h₁ x h₂ c₁, h = h₁ ++ x :: h₂ → Run (Steps sem) c h₁ c₁ → p h₁ c₁.world x = true from
    this [] c Run.nil (fun _ hr => hr.eq_of_nil) (by simp) hs
  clear hs
  induction xs with
  | nil => exact fun g c' hr _ hp hq => ⟨g, c', hr, hq, hp⟩
  | cons y ys ih =>
    obtain ⟨i, x⟩ := y
    intro g c' hr huniq hp hpass
    obtain ⟨⟨e, c2⟩, ha, hpass⟩ := (any_eq_true _ _).1 hpass
    obtain ⟨hpe, hpass⟩ := Bool.and_eq_true_iff.1 hpass
    have hstep := run_of_advance ha
    refine ih (g ++ [(i, e)]) c2 (hr.append hstep)
      (fun _ hr₁ => Run.unique_snoc huniq (hdet g c'.world (i, e) hpe) hstep hr₁) ?_ hpass
    intro h₁ z h₂ c₁ heq hr₁
    obtain ⟨-, rfl, rfl⟩ | ⟨h3, -, rfl⟩ := snoc_eq_append_cons.1 heq
    · rw [huniq c₁ hr₁]
      exact hpe
    · exact hp h₁ z h3 c₁ rfl hr₁

end Schedule

end

/-! ### Solitary runs -/

section

variable {Op W σ α β : Type} {Res : Op → Type}

/-- `Exec step w p a w'` : run alone from `w`, the program `p` ends with value `a` in `w'`. -/
inductive Exec (step : W → (o : Op) → Res o → W → Prop) : W → Prog Op Res α → α → W → Prop
  | ret {w : W} {a : α} : Exec step w (.ret a) a w
  | op {w w₁ w₂ : W} {o : Op} {k : Res o → Prog Op Res α} {r : Res o} {a : α} :
      step w o r w₁ → Exec step w₁ (k r) a w₂ → Exec step w (.op o k) a w₂

variable {step : W → (o : Op) → Res o → W → Prop} {w w' : W}

variable {a : α}

@[simp] theorem exec_ret_iff {b : α} : Exec step w (.ret a) b w' ↔ b = a ∧ w' = w := by
  constructor
  · rintro ⟨⟩
    exact ⟨rfl, rfl⟩
  · rintro ⟨rfl, rfl⟩
    exact Exec.ret

theorem exec_op_iff {o : Op} {k : Res o → Prog Op Res α} :
    Exec step w (.op o k) a w' ↔ ∃ r w1, step w o r w1 ∧ Exec step w1 (k r) a w' := by
  constructor
  · rintro (_ | ⟨hs, he⟩)
    exact ⟨_, _, hs, he⟩
  · rintro ⟨r, w1, hs, he⟩
    exact Exec.op hs he

variable {p : Prog Op Res α}

theorem exec_bind_iff {f : α → Prog Op Res β} {b : β} :
    Exec step w (p >>= f) b w' ↔ ∃ a w1, Exec step w p a w1 ∧ Exec step w1 (f a) b w' := by
  induction p generalizing w with
  | ret a => simp
  | op o k ih =>
    simp only [Prog.op_bind, exec_op_iff, ih]
    constructor
    · rintro ⟨r, w1, hs, a, w2, hp, hf⟩
      exact ⟨a, w2, ⟨r, w1, hs, hp⟩, hf⟩
    · rintro ⟨a, w2, ⟨r, w1, hs, hp⟩, hf⟩
      exact ⟨r, w1, hs, a, w2, hp, hf⟩

/-- The run of a single thread to its end is a solitary run of its program. -/
theorem Run.exec {ρ : Unit → Type} {c₀ c : Config Unit Op Res W ρ} {h : History Unit Op Res}
    {a : ρ ()} (hr : Run step c₀ h c) (ha : c.threads () = .ret a) :
    Exec step c₀.world (c₀.threads ()) a c.world := by
  induction h generalizing c₀ with
  | nil =>
    obtain rfl := hr.eq_of_nil
    rw [ha]
    exact Exec.ret
  | cons e h ih =>
    obtain ⟨⟨⟩, o, r⟩ := e
    obtain ⟨k, w', hop, hs, hr⟩ := hr.cons_inv
    rw [hop]
    have hnext : update c₀.threads () (k r) () = k r := update_self ..
    exact Exec.op hs (hnext ▸ ih hr)

/-- A solitary run is a run of a single thread. -/
theorem Exec.exists_run (he : Exec step w p a w') :
    ∃ h, Run step (⟨w, fun _ => p⟩ : Config Unit Op Res W fun _ => α) h ⟨w', fun _ => .ret a⟩ := by
  induction he with
  | ret => exact ⟨[], Run.nil⟩
  | @op w w1 w2 o k r a hs _ ih =>
    obtain ⟨h, hr⟩ := ih
    have hfirst : Run step (⟨w, fun _ => .op o k⟩ : Config Unit Op Res W fun _ => α) [((), ⟨o, r⟩)]
        ⟨w1, update (fun _ => .op o k) () (k r)⟩ := Run.snoc Run.nil rfl hs
    have hthreads : update (fun _ => .op o k) () (k r) =
        fun _ : Unit => k r := funext fun _ => update_self ..
    exact ⟨_, hfirst.append hr⟩

/-- **The invariant rule for solitary runs**: a property of log and world that every allowed step
keeps holds at the end, together with what the protocol says of the value. -/
theorem Exec.follows {P : Protocol Op Res σ} {Q : σ → α → Prop} {J : σ → W → Prop}
    {s : σ} (he : Exec step w p a w') (hf : p.Follows P Q s) (hJ : J s w)
    (hstep : ∀ s w o r w', J s w → P.Allowed s o → step w o r w' → J (P.record s o r) w') :
    ∃ s', Q s' a ∧ J s' w' := by
  induction he generalizing s with
  | ret => exact ⟨s, hf, hJ⟩
  | op hs _ ih => exact ih (hf.2 _) (hstep _ _ _ _ _ hJ hf.1 hs)

/-- A property that every operation of a kind keeps is kept by a program that only issues such
operations. -/
theorem Exec.issues {A : Op → Prop} {J : W → Prop} (he : Exec step w p a w')
    (hp : p.Issues A) (hJ : J w) (hstep : ∀ w o r w', J w → A o → step w o r w' → J w') : J w' := by
  obtain ⟨-, -, h⟩ := he.follows hp hJ fun _ => hstep
  exact h

/-- A program over the part `g v` of a state `v`, where each step of the larger system puts back
with `u` what a step did to the part. -/
theorem exec_embed_iff {Op' W' : Type} {Res' : Op' → Type}
    {step' : W' → (o : Op') → Res' o → W' → Prop} {f : Op → Op'} {back : ∀ o, Res' (f o) → Res o}
    (g : W' → W) (u : W' → W → W')
    (hstep : ∀ v o r v', step' v (f o) r v' ↔ ∃ w', step (g v) o (back o r) w' ∧ v' = u v w')
    (hback : ∀ o r, ∃ r', back o r' = r) (hget : ∀ v w, g (u v w) = w)
    (hput : ∀ v w w', u (u v w) w' = u v w') (hsame : ∀ v, u v (g v) = v)
    {v v' : W'} :
    Exec step' v (p.embed f back) a v' ↔ ∃ w', Exec step (g v) p a w' ∧ v' = u v w' := by
  induction p generalizing v with
  | ret b =>
    change Exec step' v (.ret b) a v' ↔ _
    simp only [exec_ret_iff]
    constructor
    · rintro ⟨rfl, rfl⟩
      exact ⟨_, ⟨rfl, rfl⟩, (hsame _).symm⟩
    · rintro ⟨w', ⟨rfl, rfl⟩, rfl⟩
      exact ⟨rfl, hsame v⟩
  | op o k ih =>
    change Exec step' v (.op (f o) fun r => (k (back o r)).embed f back) a v' ↔ _
    simp only [exec_op_iff, hstep, ih]
    constructor
    · rintro ⟨r, v1, ⟨w1, hs, rfl⟩, w', he, rfl⟩
      rw [hget] at he
      exact ⟨w', ⟨back o r, w1, hs, he⟩, hput _ _ _⟩
    · rintro ⟨w', ⟨r, w1, hs, he⟩, rfl⟩
      obtain ⟨r', rfl⟩ := hback o r
      refine ⟨r', _, ⟨w1, hs, rfl⟩, w', ?_, (hput _ _ _).symm⟩
      rwa [hget]

/-- Run a program alone, with the world's choices given by a list. -/
def Prog.runAlone {X : Type} (sem : W → (o : Op) → X → Option (Res o × W)) :
    Prog Op Res α → W → List X → Option (α × W)
  | .ret a, w, _ => some (a, w)
  | .op _ _, _, [] => none
  | .op o k, w, x :: xs => (sem w o x).bind fun y => (k y.1).runAlone sem y.2 xs

theorem exec_of_runAlone {X : Type} {sem : W → (o : Op) → X → Option (Res o × W)} {xs : List X}
    (h : p.runAlone sem w xs = some (a, w')) : Exec (Steps sem) w p a w' := by
  induction p generalizing w xs with
  | ret b =>
    cases h
    exact Exec.ret
  | op o k ih =>
    cases xs with
    | nil => cases h
    | cons x xs =>
      obtain ⟨⟨r, w1⟩, hs, hk⟩ := bind_eq_some_iff.1 h
      exact Exec.op ⟨x, hs⟩ (ih r hk)

/-- A check that passes on the outcome of a program run alone passes on some outcome. -/
theorem exists_exec_of_runAlone {X : Type} {sem : W → (o : Op) → X → Option (Res o × W)}
    {xs : List X} {q : α × W → Bool} (h : (p.runAlone sem w xs).any q = true) :
    ∃ a w', Exec (Steps sem) w p a w' ∧ q (a, w') = true := by
  obtain ⟨⟨a, w'⟩, hsome, hq⟩ := (any_eq_true _ _).1 h
  exact ⟨a, w', exec_of_runAlone hsome, hq⟩

/-! ### Solitary runs of fallible programs -/

section Fallible

variable {Ret : Op → Type} {ε γ δ : Type}

/-- Run alone from `w`, the program returns `a` and leaves `w'`. -/
abbrev Ends (step : W → (o : Op) → Res o → W → Prop) (w : W) (p : ExceptT ε (Prog Op Res) α) (a : α)
    (w' : W) : Prop :=
  Exec step w p.run (.ok a) w'

@[simp] theorem execE_pure_iff {b : α} :
    Ends step w (pure a : ExceptT ε (Prog Op Res) α) b w' ↔ b = a ∧ w' = w := by
  change Exec step w (.ret (ok a)) (ok b) w' ↔ _
  simp

theorem execE_throw_false {e : ε}
    (he : Ends step w (throw e : ExceptT ε (Prog Op Res) α) a w') : False := by
  have he : Exec step w (.ret (error e)) (ok a) w' := he
  simp at he

variable {p : ExceptT ε (Prog Op Res) α} {xs : List δ} {f : δ → ExceptT ε (Prog Op Res) PUnit}

theorem execE_bind_iff {f : α → ExceptT ε (Prog Op Res) β} {b : β} : Ends step w (p >>= f) b w' ↔
      ∃ a w1, Ends step w p a w1 ∧ Ends step w1 (f a) b w' := by
  refine exec_bind_iff.trans ⟨?_, ?_⟩
  · rintro ⟨r, w1, hp, hf⟩
    cases r with
    | ok a => exact ⟨a, w1, hp, hf⟩
    | error e =>
      change Exec step w1 (.ret (error e)) (ok b) w' at hf
      simp at hf
  · rintro ⟨a, w1, hp, hf⟩
    exact ⟨.ok a, w1, hp, hf⟩

/-- A program that starts with a read goes on with what is there. -/
theorem execE_read_bind_iff {f : α → ExceptT ε (Prog Op Res) β} {b : β} {x : α}
    (hp : ∀ a w1, Ends step w p a w1 ↔ a = x ∧ w1 = w) :
    Ends step w (p >>= f) b w' ↔ Ends step w (f x) b w' := by
  simp [execE_bind_iff, hp, and_assoc]

theorem execE_map_iff {f : α → β} {b : β} :
    Ends step w (f <$> p) b w' ↔ ∃ a, Ends step w p a w' ∧ b = f a := by
  refine (execE_bind_iff).trans ⟨?_, ?_⟩
  · rintro ⟨a, w1, hp, hf⟩
    obtain ⟨rfl, rfl⟩ := execE_pure_iff.1 hf
    exact ⟨a, hp, rfl⟩
  · rintro ⟨a, hp, rfl⟩
    exact ⟨a, w', hp, execE_pure_iff.2 ⟨rfl, rfl⟩⟩

/-- A sequence fails in its first part, or goes on from where that ended. -/
theorem execE_bind_cases {f : α → ExceptT ε (Prog Op Res) β} {r : Except ε β}
    (he : Exec step w (p >>= f).run r w') :
    (∃ e, Exec step w p.run (.error e) w') ∨
      ∃ a w1, Ends step w p a w1 ∧ Exec step w1 (f a).run r w' := by
  obtain ⟨x, w1, hp, hf⟩ := exec_bind_iff.1 he
  cases x with
  | ok a => exact .inr ⟨a, w1, hp, hf⟩
  | error e =>
    obtain ⟨-, rfl⟩ := exec_ret_iff.1 hf
    exact .inl ⟨e, hp⟩

/-- A sequence whose first part fails. -/
theorem Exec.bind_error {f : α → ExceptT ε (Prog Op Res) β} {e : ε}
    (he : Exec step w p.run (.error e) w') : Exec step w (p >>= f).run (.error e) w' :=
  exec_bind_iff.2 ⟨.error e, w', he, Exec.ret⟩

theorem execE_call_iff {step : W → (o : Op) → Except ε (Ret o) → W → Prop} {o : Op} {a : Ret o} :
    Ends step w (Prog.call o : ExceptT ε (Prog Op fun o => Except ε (Ret o)) (Ret o)) a
      w' ↔ step w o (.ok a) w' := by
  change Exec step w (.op o .ret) (ok a) w' ↔ _
  simp [exec_op_iff]

/-- A loop whose body only reads. -/
theorem execE_foldlM_iff {f : γ → δ → ExceptT ε (Prog Op Res) γ} {g : γ → δ → γ}
    (hf : ∀ x ∈ xs, ∀ acc acc' w1, Ends step w (f acc x) acc' w1 ↔ acc' = g acc x ∧ w1 = w)
    {acc acc' : γ} : Ends step w (xs.foldlM f acc) acc' w' ↔ acc' = xs.foldl g acc ∧ w' = w := by
  induction xs generalizing acc with
  | nil => exact execE_pure_iff
  | cons x xs ih =>
    have hx := hf x mem_cons_self
    have ih := @ih fun y hy => hf y (mem_cons_of_mem x hy)
    rw [foldlM_cons, execE_bind_iff]
    constructor
    · rintro ⟨acc1, w1, h1, hxs⟩
      obtain ⟨rfl, rfl⟩ := (hx _ _ _).1 h1
      exact ih.1 hxs
    · rintro ⟨rfl, rfl⟩
      exact ⟨_, _, (hx _ _ _).2 ⟨rfl, rfl⟩, ih.2 ⟨rfl, rfl⟩⟩

/-- A loop whose body does nothing to the accumulator and the state. -/
theorem execE_foldlM_skip_iff {f : γ → δ → ExceptT ε (Prog Op Res) γ} {acc acc' : γ}
    (hf : ∀ x ∈ xs, ∀ acc acc1 w1, Ends step w (f acc x) acc1 w1 ↔ acc1 = acc ∧ w1 = w) :
    Ends step w (xs.foldlM f acc) acc' w' ↔ acc' = acc ∧ w' = w := by
  rw [execE_foldlM_iff hf, foldl_fixed]

/-- A loop that only reads, and in which each iteration collects some of what its element has. -/
theorem execE_foldlM_sublist_iff {f : List γ → δ → ExceptT ε (Prog Op Res) (List γ)}
    {g : δ → List γ} (hf : ∀ acc x acc' w1, Ends step w (f acc x) acc' w1 ↔
      (∃ ys, ys.Sublist (g x) ∧ acc' = acc ++ ys) ∧ w1 = w) {acc acc' : List γ} :
    Ends step w (xs.foldlM f acc) acc' w' ↔
      (∃ ys, ys.Sublist (xs.flatMap g) ∧ acc' = acc ++ ys) ∧ w' = w := by
  induction xs generalizing acc with
  | nil =>
    refine execE_pure_iff.trans (and_congr_left' ?_)
    simp
  | cons x xs ih =>
    rw [foldlM_cons, execE_bind_iff]
    constructor
    · rintro ⟨acc1, w1, hx, hxs⟩
      obtain ⟨⟨ys, hys, rfl⟩, rfl⟩ := (hf _ _ _ _).1 hx
      obtain ⟨⟨zs, hzs, rfl⟩, rfl⟩ := ih.1 hxs
      exact ⟨⟨ys ++ zs, hys.append hzs, append_assoc ..⟩, rfl⟩
    · rintro ⟨⟨l, hl, rfl⟩, rfl⟩
      obtain ⟨ys, zs, rfl, hys, hzs⟩ := sublist_append_iff.1 hl
      refine ⟨acc ++ ys, _, (hf _ _ _ _).2 ⟨⟨ys, hys, rfl⟩, rfl⟩, ih.2 ⟨⟨zs, hzs, ?_⟩, rfl⟩⟩
      exact (append_assoc ..).symm

theorem execE_liftExcept_iff {x : Except ε α} :
    Ends step w (liftExcept x : ExceptT ε (Prog Op Res) α) a w' ↔ x = .ok a ∧ w' = w := by
  cases x with
  | ok b =>
    refine execE_pure_iff.trans (and_congr_left' ?_)
    rw [ok.injEq, eq_comm]
  | error e =>
    change Exec step w (.ret (error e)) (ok a) w' ↔ _
    simp

/-- A program that starts with a computation goes on with its value. -/
theorem execE_liftExcept_bind_iff {x : Except ε α} {f : α → ExceptT ε (Prog Op Res) β} {b : β} :
    Ends step w (liftExcept x >>= f) b w' ↔ ∃ a, x = .ok a ∧ Ends step w (f a) b w' := by
  rw [execE_bind_iff]
  constructor
  · rintro ⟨a, w1, hl, hf⟩
    obtain ⟨hx, rfl⟩ := execE_liftExcept_iff.1 hl
    exact ⟨a, hx, hf⟩
  · rintro ⟨a, hx, hf⟩
    exact ⟨a, w, execE_liftExcept_iff.2 ⟨hx, rfl⟩, hf⟩

variable {a : PUnit}

theorem execE_forM_nil_iff : Ends step w (([] : List δ).forM f) a w' ↔ w' = w :=
  execE_pure_iff.trans (and_iff_right rfl)

theorem execE_forM_cons_iff {x : δ} : Ends step w ((x :: xs).forM f) a w' ↔
      ∃ w1, Ends step w (f x) ⟨⟩ w1 ∧ Ends step w1 (xs.forM f) a w' := by
  change Ends step w (f x >>= fun _ => xs.forM f) a w' ↔ _
  rw [execE_bind_iff]
  exact ⟨fun ⟨_, w1, h⟩ => ⟨w1, h⟩, fun ⟨w1, h⟩ => ⟨⟨⟩, w1, h⟩⟩

/-- A loop in which each iteration does its work or nothing. -/
theorem execE_forM_sublist_iff {g : W → δ → W}
    (hf : ∀ x w w1, Ends step w (f x) ⟨⟩ w1 ↔ w1 = w ∨ w1 = g w x) :
    Ends step w (xs.forM f) a w' ↔ ∃ ys : List δ, ys.Sublist xs ∧ w' = ys.foldl g w := by
  induction xs generalizing w with
  | nil =>
    simp
  | cons x xs ih =>
    rw [execE_forM_cons_iff]
    constructor
    · rintro ⟨w1, hx, hxs⟩
      obtain ⟨ys, hys, rfl⟩ := ih.1 hxs
      rcases (hf _ _ _).1 hx with rfl | rfl
      · exact ⟨ys, hys.cons x, rfl⟩
      · exact ⟨x :: ys, hys.cons_cons x, rfl⟩
    · rintro ⟨ys, hys, rfl⟩
      rcases sublist_cons_iff.1 hys with hys | ⟨zs, rfl, hzs⟩
      · exact ⟨w, (hf _ _ _).2 (.inl rfl), ih.2 ⟨ys, hys, rfl⟩⟩
      · exact ⟨g w x, (hf _ _ _).2 (.inr rfl), ih.2 ⟨zs, hzs, rfl⟩⟩

/-- **Loop rule**: what every iteration preserves, the loop preserves. -/
theorem Exec.forM_invariant {I : W → Prop} (he : Ends step w (xs.forM f) a w') (hw : I w)
    (hf : ∀ x ∈ xs, ∀ w1 w2, I w1 → Ends step w1 (f x) ⟨⟩ w2 → I w2) : I w' := by
  induction xs generalizing w with
  | nil => exact execE_forM_nil_iff.1 he ▸ hw
  | cons x xs ih =>
    obtain ⟨w1, hx, hxs⟩ := execE_forM_cons_iff.1 he
    exact ih hxs (hf x (by simp) w w1 hw hx) fun y hy => hf y (mem_cons_of_mem x hy)

/-- **Loop rule**: a loop in which every iteration either leaves the state alone or reaches `G`,
which lasts, leaves the state alone or reaches `G`; and which of the two is told by the elements. -/
theorem Exec.forM_dichotomy {G : W → Prop} {M : δ → Prop} (he : Ends step w (xs.forM f) a w')
    (hfirst : ∀ x ∈ xs, ∀ w1, Ends step w (f x) ⟨⟩ w1 → (w1 = w ∧ ¬M x) ∨ (G w1 ∧ M x))
    (hlast : ∀ x ∈ xs, ∀ w1 w2, G w1 → Ends step w1 (f x) ⟨⟩ w2 → G w2) :
    (w' = w ∧ ∀ x ∈ xs, ¬M x) ∨ (G w' ∧ ∃ x ∈ xs, M x) := by
  induction xs with
  | nil => exact .inl ⟨execE_forM_nil_iff.1 he, by simp⟩
  | cons x xs ih =>
    obtain ⟨w1, hx, hxs⟩ := execE_forM_cons_iff.1 he
    rcases hfirst x (by simp) w1 hx with ⟨rfl, hno⟩ | ⟨hG, hM⟩
    · rcases ih hxs (fun y hy => hfirst y (mem_cons_of_mem x hy))
        (fun y hy => hlast y (mem_cons_of_mem x hy)) with ⟨rfl, hnone⟩ | ⟨hG, y, hy, hM⟩
      · exact .inl ⟨rfl, by simpa [hno] using hnone⟩
      · exact .inr ⟨hG, y, mem_cons_of_mem x hy, hM⟩
    · exact .inr ⟨hxs.forM_invariant hG fun y hy => hlast y (mem_cons_of_mem x hy), x, by simp, hM⟩

end Fallible

end

end NovaCore

import NovaCore.Metadata.Calls

/-!
# The function catalogue

A function is stored under three keys: its record, its name with its signature, and its identifier.
`create_function` writes them in one checked transaction.  `replace_function` and `drop_function`
read the record in one transaction and move or clear the keys it names in another, whatever has
been written in between.

## Main definitions

* `Store.FunctionsAgree` : the three key families are in bijection.
* `MetaOp.UpToDate` : a write goes by the record that is still stored.

## Main results

* `functions_agree` : the families agree in every run whose writes are up to date, and a
  replacement keeps the function's identifier, owner and grants.
* `rename_outlives_drop` : a function renamed during its drop leaves its new name behind.
-/

namespace NovaCore

open Function Option MetaOp

namespace Store

variable (st : Store)

/-- What `get_function_by_id` returns when nothing comes between its reads. -/
def function (id : FunctionId) : Option FunctionMeta :=
  (st.functionById id).bind fun k => st.functions k.1 k.2.1 k.2.2

/-- **The three key families are in bijection**: every record is the one its name, with its
signature, and its identifier lead to, and every entry of an index leads to a record. -/
structure FunctionsAgree : Prop where
  record : ∀ {d s id f}, st.functions d s id = some f → (f.dbId, f.schemaId, f.id) = (d, s, id) ∧
    st.functionByName d s f.nameKey = some id ∧ st.functionById id = some (d, s, id)
  name : ∀ {d s key id}, st.functionByName d s key = some id →
    ∃ f, st.functions d s id = some f ∧ f.nameKey = key
  id : ∀ {id d s i}, st.functionById id = some (d, s, i) → i = id ∧ st.functions d s i ≠ none

end Store

/-! ### The calls -/

/-- A call on functions. -/
inductive FunctionCall
  | create (function : FunctionMeta)
  | replace (function : FunctionMeta)
  | drop (id : FunctionId)

/-- The program of a call. -/
def FunctionCall.exec : FunctionCall → Meta Unit
  | create function => createFunction function
  | replace function => replaceFunction function
  | drop id => dropFunction id

/-- The calls `calls`, all about to start, over the store `st`. -/
def functionConfig {ι : Type} (st : Store) (calls : ι → FunctionCall) :
    Config ι MetaOp MetaOp.Res Store fun _ => Except NovaError Unit where
  world := st
  threads i := (calls i).exec.run

/-- The operations of the calls: reads, the next identifier and the three writes. -/
def FunctionMay : MetaOp → Prop
  | .query _ => True
  | .txn (.takeNextId _) | .txn (.createFunction _) | .txn (.replaceFunction ..)
  | .txn (.clearFunction ..) => True
  | _ => False

open Prog in
theorem FunctionCall.exec_issues (call : FunctionCall) : Issues FunctionMay call.exec.run := by
  have hget (id : FunctionId) : Issues FunctionMay (getFunctionById id).run := by
    refine issuesE_bind (issuesE_call trivial) fun k => ?_
    cases k with
    | none => exact issuesE_pure
    | some k => exact issuesE_call trivial
  cases call with
  | create f =>
    refine issuesE_bind ?_ fun id => issuesE_call trivial
    unfold newFunctionId
    split_ifs
    · exact issuesE_call trivial
    · exact issuesE_pure
  | replace f =>
    refine issuesE_bind (hget f.id) fun old => ?_
    cases old with
    | none => exact issuesE_throw
    | some old =>
      refine issuesE_bind (issuesE_call trivial) fun existing => ?_
      split_ifs
      · exact issuesE_throw
      · exact issuesE_call trivial
  | drop id =>
    refine issuesE_bind (hget id) fun f => ?_
    cases f with
    | none => exact issuesE_pure
    | some f => exact issuesE_bind (issuesE_call trivial) fun _ => issuesE_call trivial

/-! ### What the writes do to the key families -/

/-- The write goes by what is stored: the record read before is still the one its identifier leads
to, and the new name is free or the function's own. -/
def MetaOp.UpToDate (st : Store) : MetaOp → Prop
  | txn (.clearFunction f id _) => st.function id = some f
  | txn (.replaceFunction old f) => st.function f.id = some old ∧
      ∀ id, st.functionByName f.dbId f.schemaId f.nameKey = some id → id = f.id
  | _ => True

namespace Store.FunctionsAgree

variable {st st' : Store} {id : FunctionId} {f old : FunctionMeta}
  (h : st.FunctionsAgree)
include h

theorem congr (hf : st'.functions = st.functions)
    (hn : st'.functionByName = st.functionByName) (hi : st'.functionById = st.functionById) :
    st'.FunctionsAgree :=
  ⟨by rw [hf, hn, hi]; exact h.record, by rw [hf, hn]; exact h.name, by rw [hf, hi]; exact h.id⟩

/-- The record that an identifier leads to is its own. -/
theorem function_eq_some (hf : st.function id = some f) :
    f.id = id ∧ st.functions f.dbId f.schemaId f.id = some f := by
  obtain ⟨⟨d, s, i⟩, hk, hrec⟩ := bind_eq_some_iff.1 hf
  obtain ⟨hloc, -⟩ := h.record hrec
  cases hloc
  exact ⟨(h.id hk).1, hrec⟩

theorem clear (hf : st.function id = some f) : (st.clearFunctionKeys f id).FunctionsAgree := by
  obtain ⟨rfl, hf⟩ := h.function_eq_some hf
  have hr := @h.record
  have hn := @h.name
  have hi := @h.id
  constructor <;> simp only [clearFunctionKeys, update₃_eq, update_apply, update₃]
  all_goals grind [FunctionMeta.nameKey]

theorem set (hi : st.functionById f.id = none)
    (hn : st.functionByName f.dbId f.schemaId f.nameKey = none) :
    (st.setFunction f).FunctionsAgree := by
  have hr := @h.record
  have hn := @h.name
  have hi := @h.id
  constructor <;> simp only [setFunction, update_apply, update₃]
  · grind
  · grind
  · grind

/-- Moving the keys of a record clears the old ones and sets the new ones. -/
theorem replace (hf : st.function f.id = some old)
    (hn : ∀ id, st.functionByName f.dbId f.schemaId f.nameKey = some id → id = f.id) :
    (st.replaceFunction old f).FunctionsAgree := by
  obtain ⟨hid, hold⟩ := h.function_eq_some hf
  have hfree : (st.clearFunctionKeys old f.id).functionByName f.dbId f.schemaId f.nameKey =
      none := by
    simp only [clearFunctionKeys, update₃_eq, update₃]
    rw [ite_eq_left_iff]
    intro hne
    by_contra hsome
    obtain ⟨id, hid'⟩ := ne_none_iff_exists'.1 hsome
    obtain ⟨g, hg, hkey⟩ := h.name hid'
    obtain ⟨hloc, -, hby⟩ := h.record hg
    obtain ⟨-, -, hby'⟩ := h.record hold
    grind [FunctionMeta.nameKey]
  refine ((h.clear hf).set (by simp [clearFunctionKeys]) hfree).congr ?_ ?_ ?_
  · funext d s i
    simp only [replaceFunction, setFunction, clearFunctionKeys, update₃_eq]
    split_ifs <;> grind [update₃]
  · funext d s i
    simp only [replaceFunction, setFunction, clearFunctionKeys, update₃_eq]
    split_ifs <;> grind [update₃, FunctionMeta.nameKey]
  · simp [replaceFunction, setFunction, clearFunctionKeys]

/-- **A step that is up to date keeps the bijection.** -/
theorem step {pq : Parquet} {o : MetaOp} {r : o.Res} (hmay : FunctionMay o)
    (hup : o.UpToDate st) (hs : MetaStep pq st o r st') : st'.FunctionsAgree := by
  cases metaStep_effect hs with
  | query _ | failed => exact h
  | storage _ => cases hmay
  | @txn t _ _ hrun =>
    cases t <;> try (cases hmay; done)
    case takeNextId counter =>
      obtain ⟨-, rfl⟩ := takeNextId_eq_ok hrun
      exact h.congr rfl rfl rfl
    case createFunction f =>
      obtain ⟨hname, hid, rfl⟩ := createFunction_eq_ok (map_unit_eq_ok.1 hrun)
      exact h.set hid hname
    case replaceFunction old f =>
      cases hrun
      exact h.replace hup.1 hup.2
    case clearFunction f id grantees _ =>
      obtain rfl := bumpEpoch_eq_ok (map_unit_eq_ok.1 hrun)
      obtain ⟨_, -, hclear⟩ := clearGrants_eq (st.clearFunctionKeys f id) ⟨.function, id⟩ grantees
      rw [hclear]
      exact (h.clear hup).congr rfl rfl rfl

end Store.FunctionsAgree

/-! ### Runs -/

/-- The function is there before and after, with the same owner and grants. -/
structure Store.KeepsFunction (st st' : Store) (id : FunctionId) : Prop where
  live : st.function id ≠ none ∧ st'.function id ≠ none
  owner : st'.catalog.owners ⟨.function, id⟩ = st.catalog.owners ⟨.function, id⟩
  grants : ∀ r, st'.catalog.grants r ⟨.function, id⟩ = st.catalog.grants r ⟨.function, id⟩

theorem keepsFunction_of_step {pq : Parquet} {st st' : Store} {old f : FunctionMeta}
    (hup : (txn (.replaceFunction old f)).UpToDate st)
    (hs : MetaStep pq st (.txn (.replaceFunction old f)) (.ok ()) st') :
    st.KeepsFunction st' f.id := by
  cases metaStep_effect hs with
  | txn hrun =>
    cases hrun
    refine ⟨⟨by simp [hup.1], ?_⟩, rfl, fun _ => rfl⟩
    simp only [Store.function, Store.replaceFunction, Store.setFunction, update_self,
      bind_some]
    split_ifs with hsame
    · simp [update₃]
    · simp [update₃, Ne.symm hsame]

/-- **The function catalogue is consistent as long as its writes are up to date.**  In every run
whose writes go by what is stored, the three key families are in bijection, no two functions share
a name and signature, and a replacement keeps the identifier, the owner and the grants. -/
theorem functions_agree {pq : Parquet} {ι : Type} [DecidableEq ι] {st : Store}
    {calls : ι → FunctionCall} {h : History ι MetaOp MetaOp.Res}
    {c : Config ι MetaOp MetaOp.Res Store fun _ => Except NovaError Unit}
    (h0 : st.FunctionsAgree) (hr : Run (MetaStep pq) (functionConfig st calls) h c)
    (hup : ∀ h₁ x h₂ c₁, h = h₁ ++ x :: h₂ → Run (MetaStep pq) (functionConfig st calls) h₁ c₁ →
      Run (MetaStep pq) c₁ (x :: h₂) c → x.2.1.UpToDate c₁.world) :
    c.world.FunctionsAgree ∧
    (∀ d s i j f g, c.world.functions d s i = some f → c.world.functions d s j = some g →
      f.nameKey = g.nameKey → i = j) ∧
    ∀ h₁ i old f h₂ c₁ c₂, h = h₁ ++ (i, ⟨.txn (.replaceFunction old f), .ok ()⟩) :: h₂ →
      Run (MetaStep pq) (functionConfig st calls) h₁ c₁ →
      Run (MetaStep pq) c₁ [(i, ⟨.txn (.replaceFunction old f), .ok ()⟩)] c₂ →
      Run (MetaStep pq) c₂ h₂ c → c₁.world.KeepsFunction c₂.world f.id := by
  have hagree : c.world.FunctionsAgree :=
    Run.invariant (C := fun _ w x => x.2.1.UpToDate w)
      (fun _ w => w.FunctionsAgree) hr (fun i => (calls i).exec_issues) hup h0
      fun _ _ _ _ _ _ _ h hup hmay hs => h.step hmay hup hs
  refine ⟨hagree, fun d s i j f g hf hg hkey => ?_, fun h₁ i old f h₂ c₁ c₂ he hr1 hx hr2 => ?_⟩
  · have hi := (hagree.record hf).2.1
    rw [hkey, (hagree.record hg).2.1] at hi
    exact (some.inj hi).symm
  · exact keepsFunction_of_step (hup h₁ _ h₂ c₁ he hr1 (hx.append hr2)) hx.step_of_singleton

theorem emptyStore_functionsAgree : emptyStore.FunctionsAgree := ⟨nofun, nofun, nofun⟩

/-- A function is created, renamed and dropped, and another one takes its first name. -/
def renameThenDrop : Fin 4 → FunctionCall
  | 0 => .create ⟨7, 1, 1, "f", "()"⟩
  | 1 => .replace ⟨7, 1, 1, "g", "()"⟩
  | 2 => .create ⟨8, 1, 1, "f", "()"⟩
  | 3 => .drop 7

/-- The check of `MetaOp.UpToDate`. -/
def MetaOp.upToDate (st : Store) : MetaOp → Bool
  | txn (.clearFunction f id _) => st.function id == some f
  | txn (.replaceFunction old f) => st.function f.id == some old &&
      (st.functionByName f.dbId f.schemaId f.nameKey).all (· == f.id)
  | _ => true

theorem MetaOp.upToDate_iff {st : Store} {o : MetaOp} : o.upToDate st = true ↔ o.UpToDate st := by
  rcases o with _ | _ | t
  · exact iff_of_true rfl trivial
  · exact iff_of_true rfl trivial
  · cases t <;> simp [upToDate, UpToDate, all_eq_true]

/-- The threads have taken turns as in the schedule and have succeeded, the function was renamed,
and its first name leads to the other one. -/
def renamedThenDropped (y : History (Fin 4) MetaOp MetaOp.Res ×
    Config (Fin 4) MetaOp MetaOp.Res Store fun _ => Except NovaError Unit) : Bool :=
  decide (y.1.map Prod.fst = [0, 1, 3, 1, 1, 1, 3, 2, 3, 3]) &&
  decide (∀ i, (y.2.threads i).succeeded) &&
  (y.1.any fun
    | (1, ⟨.txn (.replaceFunction _ f), .ok _⟩) => f.name == "g"
    | _ => false) &&
  y.2.world.functionByName 1 1 ("f", "()") == some 8

/-- The drop looks its function up while it is renamed and while the next one is created. -/
theorem functions_agree_renameThenDrop : ∃ h c,
    Run (MetaStep .verbatim) (functionConfig emptyStore renameThenDrop) h c ∧
      renamedThenDropped (h, c) = true ∧ c.world.FunctionsAgree ∧
      ∃ h₁ i old f h₂ c₁ c₂, h = h₁ ++ (i, ⟨.txn (.replaceFunction old f), .ok ()⟩) :: h₂ ∧
        Run (MetaStep .verbatim) (functionConfig emptyStore renameThenDrop) h₁ c₁ ∧
        Run (MetaStep .verbatim) c₁ [(i, ⟨.txn (.replaceFunction old f), .ok ()⟩)] c₂ ∧
        c₁.world.KeepsFunction c₂.world f.id := by
  have hs : (functionConfig emptyStore renameThenDrop).passes (apply .verbatim)
      (fun _ st x => x.2.1.upToDate st && !x.2.1.isCommit) renamedThenDropped []
      ([0, 1, 3, 1, 1, 1, 3, 2, 3, 3].map (·, {})) = true := by
    decide +kernel
  obtain ⟨h, c, hr, hc, hp⟩ := exists_run_of_passes
    (fun _ _ _ hp _ _ => metaStep_unique (by simpa using (Bool.and_eq_true_iff.1 hp).2)) hs
  obtain ⟨hagree, -, hkeeps⟩ := functions_agree emptyStore_functionsAgree hr
    fun h₁ x h₂ c₁ he hr₁ _ =>
      upToDate_iff.1 (Bool.and_eq_true_iff.1 (hp h₁ x h₂ c₁ he hr₁)).1
  have hrename := hc
  simp only [renamedThenDropped, Bool.and_eq_true] at hrename
  obtain ⟨⟨i, o, r⟩, hmem, he⟩ := List.any_eq_true.1 hrename.1.2
  split at he
  · rename_i old f a heq
    obtain ⟨h₁, h₂, rfl⟩ := List.append_of_mem hmem
    obtain ⟨c₁, hr₁, hr₂⟩ := hr.split
    rw [heq] at hr₂
    obtain ⟨c₂, hx, hrest⟩ := Run.split
      (show Run _ c₁ ([(1, ⟨.txn (.replaceFunction old f), .ok a⟩)] ++ h₂) c from hr₂)
    exact ⟨_, c, hr, hc, hagree, h₁, 1, old, f, h₂, c₁, c₂, by rw [heq], hr₁, hx,
      hkeeps h₁ 1 old f h₂ c₁ c₂ (by rw [heq]) hr₁ hx hrest⟩
  · cases he

/-- A function is created, and renamed while it is dropped. -/
def renameAndDrop : Fin 3 → FunctionCall
  | 0 => .create ⟨7, 1, 1, "f", "()"⟩
  | 1 => .drop 7
  | 2 => .replace ⟨7, 1, 1, "g", "()"⟩

/-- The drop clears the name that it read, and the new name leads to no function. -/
theorem rename_outlives_drop : ∃ h c, Run (MetaStep .verbatim)
    (functionConfig emptyStore renameAndDrop) h c ∧ ¬c.world.FunctionsAgree := by
  have hs : ((functionConfig emptyStore renameAndDrop).schedule (apply .verbatim)
      ([0, 1, 1, 1, 2, 2, 2, 2, 1].map (·, {}))).any (fun y =>
        y.2.world.functionByName 1 1 ("g", "()") = some 7 ∧
          y.2.world.functions 1 1 7 = none) = true := by
    decide +kernel
  obtain ⟨h, c, hr, hc⟩ := exists_run_of_schedule hs
  obtain ⟨hname, hnone⟩ := of_decide_eq_true hc
  refine ⟨h, c, hr, fun hagree => ?_⟩
  obtain ⟨f, hf, -⟩ := hagree.name hname
  cases hnone.symm.trans hf

end NovaCore

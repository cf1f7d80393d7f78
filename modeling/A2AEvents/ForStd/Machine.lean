import A2AEvents.ForStd.Prog

/-!
# Interleaved execution of effect programs

A semantics `Sem S` says what the operations of a signature do to a shared state.
`Config` is a pool of tasks over that state and `step` moves one of them: the
pending operation of the task is performed and then the task runs on through its
*local* operations until the next operation that may suspend it. This is the
granularity of cooperative scheduling: between two suspension points a task is
never interrupted.

`Sem.traced` adds a history variable: the operations performed so far, each with
its answer and the state that it found.

## Key results

- `Includes.run`: what every operation does, runs do
- `Safe`: a program keeps an invariant and a guarantee under interference
- `Safe.bind`, `Safe.attempt`, `Safe.weaken`, `Safe.frame`: composition rules
- `Sound.good_step`: safe tasks that tolerate each other stay safe
- `Sound.good_run`: the same along whole runs
- `Sound.ended`: jobs end with their postcondition
- `Sound.run_pool`: jobs of one kind start jobs of this kind only
- `Sound.run_rel`: what every step guarantees holds between any two states of a run
- `Sound.run_found`: it also holds at the states that the calls of the run found
-/

namespace Async

variable {S : Sig}

/-- What the operations of a signature do. `Choice` is the part of an answer that
    the state does not determine, `Env` the changes that no task makes. A local
    operation never suspends its task and is always possible. -/
structure Sem (S : Sig) where
  State : Type
  Choice : Type
  Env : Type
  isLocal : S.Op → Bool
  exec : Nat → (o : S.Op) → Choice → State → Option (S.Res o × State)
  env : Env → State → Option State
  restart : State → State
  code : S.Job → Prog S S.Val
  exec_local : ∀ {o}, isLocal o = true → ∀ i c s, (exec i o c s).isSome = true

/-- A job in progress. -/
structure Task (S : Sig) where
  job : S.Job
  prog : Prog S S.Val

/-- A pool of tasks over a shared state. A task is known by its index; `raised`
    lists the tasks that failed, in the order in which they did. -/
structure Config (M : Sem S) where
  state : M.State
  tasks : List (Task S)
  raised : List Nat

/-- What can happen next. -/
inductive Action (M : Sem S) where
  | start (j : S.Job)
  | task (i : Nat) (c : M.Choice)
  | env (e : M.Env)
  | crash

namespace Sem

variable (M : Sem S)

/-- One performed operation, with the state it found. -/
structure Entry where
  task : Nat
  op : S.Op
  res : S.Res op
  before : M.State

/-- A state with the operations performed so far. -/
structure Traced where
  state : M.State
  trace : List M.Entry

/-- The same semantics, remembering what happened. -/
@[reducible] def traced : Sem S where
  State := M.Traced
  Choice := M.Choice
  Env := M.Env
  isLocal := M.isLocal
  exec i o c s := (M.exec i o c s.state).map fun p => (p.1, ⟨p.2, s.trace ++ [⟨i, o, p.1, s.state⟩]⟩)
  env e s := (M.env e s.state).map fun w => { s with state := w }
  restart s := { s with state := M.restart s.state }
  code := M.code
  exec_local := by
    intro o h i c s
    simpa using M.exec_local h i c s.state

/-- A job that enters the pool. -/
def spawn (j : S.Job) : Task S := ⟨j, M.code j⟩

/-- Run a task on through its local operations. -/
def settle {α : Type} (i : Nat) (c : M.Choice) : Prog S α → M.State → Prog S α × M.State
  | .op o k, s =>
    if M.isLocal o then
      match M.exec i o c s with
      | some (r, s') => settle i c (k r) s'
      | none => (.op o k, s)
    else (.op o k, s)
  | p, s => (p, s)

end Sem

namespace Config

variable {M : Sem S}

/-- What a `join` of `ids` is answered, if it can be answered yet: the exception of
    the first of them to fail, or the values of all of them. -/
def joinResult (cfg : Config M) (ids : List Nat) : Option (Except S.Err (List S.Val)) :=
  match (cfg.raised.find? fun i => i ∈ ids).bind fun i => cfg.tasks[i]? with
  | some ⟨_, .raise e⟩ => some (.error e)
  | _ => (ids.mapM fun i => cfg.tasks[i]?.bind fun t =>
      match t.prog with
      | .pure v => some v
      | _ => none).map .ok

/-- Task `i` continues as `p` in state `s`, up to its next suspension point. -/
def resume (cfg : Config M) (i : Nat) (c : M.Choice) (j : S.Job) (p : Prog S S.Val)
    (s : M.State) : Config M :=
  let q := M.settle i c p s
  { state := q.2
    tasks := cfg.tasks.set i ⟨j, q.1⟩
    raised := match q.1 with
      | .raise _ => cfg.raised ++ [i]
      | _ => cfg.raised }

/-- Move task `i`. Forked jobs join the pool and start when they are moved first. -/
def stepTask (cfg : Config M) (i : Nat) (c : M.Choice) : Option (Config M) :=
  match cfg.tasks[i]? with
  | none => none
  | some t =>
    match t.prog with
    | .op o k => (M.exec i o c cfg.state).map fun p => cfg.resume i c t.job (k p.1) p.2
    | .fork js k =>
      let pool := cfg.tasks ++ js.map M.spawn
      some ({ cfg with tasks := pool }.resume i c t.job
        (k (List.range' cfg.tasks.length js.length)) cfg.state)
    | .join ids k => (cfg.joinResult ids).map fun r => cfg.resume i c t.job (k r) cfg.state
    | _ => none

/-- One step of the pool. A crash stops every task where it stands. -/
def step (cfg : Config M) : Action M → Option (Config M)
  | .start j => some { cfg with tasks := cfg.tasks ++ [M.spawn j] }
  | .task i c => cfg.stepTask i c
  | .env e => (M.env e cfg.state).map fun s => { cfg with state := s }
  | .crash => some
    { cfg with
      state := M.restart cfg.state
      tasks := cfg.tasks.map fun t => if t.prog.finished then t else { t with prog := .diverge } }

/-- A whole schedule. -/
def runs (cfg : Config M) : List (Action M) → Option (Config M)
  | [] => some cfg
  | a :: as => (cfg.step a).bind fun cfg' => cfg'.runs as

/-- Runs all of whose steps meet a side condition on the configuration before the
    step and the action. -/
inductive Run (ok : Config M → Action M → Prop) : Config M → Config M → Prop where
  | refl (cfg : Config M) : Run ok cfg cfg
  | step {a b c : Config M} (act : Action M) (h : Run ok a b) (hok : ok b act)
      (hstep : b.step act = some c) : Run ok a c

/-- Decidable schedules: the side condition is checked before every step. -/
def runsWith (ok : Config M → Action M → Bool) (cfg : Config M) :
    List (Action M) → Option (Config M)
  | [] => some cfg
  | a :: as => if ok cfg a then (cfg.step a).bind fun cfg' => runsWith ok cfg' as else none

theorem Run.trans {ok : Config M → Action M → Prop} {a b c : Config M}
    (h₁ : Run ok a b) (h₂ : Run ok b c) : Run ok a c := by
  induction h₂ with
  | refl => exact h₁
  | step act _ hok hstep ih => exact .step act ih hok hstep

theorem Run.mono {ok ok' : Config M → Action M → Prop} {a b : Config M}
    (h : Run ok a b) (himp : ∀ cfg act, ok cfg act → ok' cfg act) : Run ok' a b := by
  induction h with
  | refl => exact .refl _
  | step act _ hok hstep ih => exact .step act ih (himp _ _ hok) hstep

/-- A schedule that passes the check is a run. -/
theorem Run.of_runsWith {ok : Config M → Action M → Prop} {test : Config M → Action M → Bool}
    (htest : ∀ cfg act, test cfg act = true → ok cfg act) {acts : List (Action M)} :
    ∀ {a b : Config M}, a.runsWith test acts = some b → Run ok a b := by
  induction acts with
  | nil => intro a b h; cases h; exact .refl _
  | cons act acts ih =>
    intro a b h
    simp only [runsWith] at h
    split at h
    · rename_i hact
      obtain ⟨c, hc, hrest⟩ := Option.bind_eq_some_iff.mp h
      exact (Run.step act (.refl a) (htest _ _ hact) hc).trans (ih hrest)
    · cases h

/-- A schedule that passes the check and ends as wanted. -/
theorem Run.of_any {test : Config M → Action M → Bool} {a : Config M} {acts : List (Action M)}
    {p : Config M → Bool} (h : (a.runsWith test acts).any p = true) :
    ∃ b, Run (fun cfg act => test cfg act = true) a b ∧ p b = true := by
  cases hrun : a.runsWith test acts with
  | none => simp [hrun] at h
  | some b =>
    rw [hrun] at h
    exact ⟨b, .of_runsWith (fun _ _ h => h) hrun, h⟩

/-- A preorder that contains what operations, the environment and restarts do. -/
structure Includes (M : Sem S) (R : M.State → M.State → Prop) : Prop where
  refl : ∀ s, R s s
  trans : ∀ {a b c}, R a b → R b c → R a c
  exec : ∀ {i o c s r s'}, M.exec i o c s = some (r, s') → R s s'
  env : ∀ {e s s'}, M.env e s = some s' → R s s'
  restart : ∀ s, R s (M.restart s)

theorem Includes.settle {R : M.State → M.State → Prop} (hR : Includes M R) {α : Type} (i : Nat) (c : M.Choice)
    (p : Prog S α) : ∀ s, R s (M.settle i c p s).2 := by
  induction p with
  | op o k ih =>
    intro s
    unfold Sem.settle
    split
    · split
      · rename_i r s' hex
        exact hR.trans (hR.exec hex) (ih r s')
      · exact hR.refl s
    · exact hR.refl s
  | _ => exact hR.refl

/-- Any two states of a run are related. -/
theorem Includes.run {R : M.State → M.State → Prop} (hR : Includes M R) {ok : Config M → Action M → Prop}
    {a b : Config M} (h : Run ok a b) : R a.state b.state := by
  induction h with
  | refl => exact hR.refl _
  | @step b c act _ _ hstep ih =>
    refine hR.trans ih ?_
    cases act with
    | start j =>
      cases hstep
      exact hR.refl _
    | env e =>
      obtain ⟨s, hs, rfl⟩ := Option.map_eq_some_iff.mp hstep
      exact hR.env hs
    | crash =>
      cases hstep
      exact hR.restart _
    | task i ch =>
      simp only [Config.step, Config.stepTask] at hstep
      split at hstep
      · cases hstep
      · rename_i t ht
        split at hstep
        · -- the pending operation, and the local ones after it
          obtain ⟨p, hex, rfl⟩ := Option.map_eq_some_iff.mp hstep
          exact hR.trans (hR.exec hex) (hR.settle i ch _ _)
        · cases hstep
          exact hR.settle i ch _ _
        · obtain ⟨r, -, rfl⟩ := Option.map_eq_some_iff.mp hstep
          exact hR.settle i ch _ _
        · cases hstep

end Config

/-! ## Rely and guarantee -/

/-- What the tasks of a pool promise each other. `adm` restricts the answers a task
    has to cope with, `pre` is what a job needs when it enters the pool, `peer`
    tells which jobs tolerate each other, `post` what holds at the moment a job ends. -/
structure Contract (M : Sem S) where
  inv : M.State → Prop
  rely : S.Job → Nat → M.State → M.State → Prop
  guar : S.Job → Nat → M.State → M.State → Prop
  adm : S.Job → Nat → (o : S.Op) → M.Choice → M.State → Prop
  pre : S.Job → M.State → Prop
  peer : S.Job → S.Job → Prop
  post : S.Job → Except S.Err S.Val → M.State → Prop := fun _ _ _ => True

variable {M : Sem S} {α β : Type}

/-- The program keeps the invariant and the guarantee of its job whatever the tasks
    beside it do within the rely, and ends in `Q`. Before a local operation nothing
    interferes. -/
def Safe (C : Contract M) (j : S.Job) (i : Nat) :
    Prog S α → (Except S.Err α → M.State → Prop) → M.State → Prop
  | .pure a, Q, s => Q (.ok a) s
  | .raise e, Q, s => Q (.error e) s
  | .diverge, _, _ => True
  | .op o k, Q, s => ∀ s₁, (if M.isLocal o then s₁ = s else C.rely j i s s₁) → C.inv s₁ →
      ∀ c r s₂, (M.isLocal o = false → C.adm j i o c s₁) → M.exec i o c s₁ = some (r, s₂) →
        C.inv s₂ ∧ C.guar j i s₁ s₂ ∧ Safe C j i (k r) Q s₂
  | .fork js k, Q, s => ∀ s₁, C.rely j i s s₁ → C.inv s₁ →
      (∀ j' ∈ js, C.pre j' s₁ ∧ C.peer j j') ∧ ∀ ids, Safe C j i (k ids) Q s₁
  | .join _ k, Q, s => ∀ s₁, C.rely j i s s₁ → C.inv s₁ → ∀ r, Safe C j i (k r) Q s₁

namespace Safe

variable {C : Contract M} {j : S.Job} {i : Nat}

/-- Weaken the postcondition. -/
theorem weaken {p : Prog S α} {Q Q' : Except S.Err α → M.State → Prop} :
    ∀ {s}, Safe C j i p Q s → (∀ r s, Q r s → Q' r s) → Safe C j i p Q' s := by
  induction p with
  | pure a => intro s h hQ; exact hQ _ _ h
  | raise e => intro s h hQ; exact hQ _ _ h
  | diverge => intro s _ _; trivial
  | op o k ih =>
    intro s h hQ s₁ hr hi c r s₂ hadm hex
    obtain ⟨h₁, h₂, h₃⟩ := h s₁ hr hi c r s₂ hadm hex
    exact ⟨h₁, h₂, ih r h₃ hQ⟩
  | fork js k ih =>
    intro s h hQ s₁ hr hi
    obtain ⟨h₁, h₂⟩ := h s₁ hr hi
    exact ⟨h₁, fun ids => ih ids (h₂ ids) hQ⟩
  | join ids k ih =>
    intro s h hQ s₁ hr hi r
    exact ih r (h s₁ hr hi r) hQ

/-- Sequential composition. -/
theorem bind {p : Prog S α} {f : α → Prog S β} {Q : Except S.Err β → M.State → Prop} :
    ∀ {s}, Safe C j i p (fun r s => match r with
      | .ok a => Safe C j i (f a) Q s
      | .error e => Q (.error e) s) s → Safe C j i (p >>= f) Q s := by
  induction p with
  | pure a => intro s h; exact h
  | raise e => intro s h; exact h
  | diverge => intro s _; trivial
  | op o k ih =>
    intro s h s₁ hr hi c r s₂ hadm hex
    obtain ⟨h₁, h₂, h₃⟩ := h s₁ hr hi c r s₂ hadm hex
    exact ⟨h₁, h₂, ih r h₃⟩
  | fork js k ih =>
    intro s h s₁ hr hi
    obtain ⟨h₁, h₂⟩ := h s₁ hr hi
    exact ⟨h₁, fun ids => ih ids (h₂ ids)⟩
  | join ids k ih =>
    intro s h s₁ hr hi r
    exact ih r (h s₁ hr hi r)

/-- Catching the exception. -/
theorem attempt {p : Prog S α} {Q : Except S.Err (Except S.Err α) → M.State → Prop} :
    ∀ {s}, Safe C j i p (fun r s => Q (.ok r) s) s → Safe C j i p.attempt Q s := by
  induction p with
  | pure a => intro s h; exact h
  | raise e => intro s h; exact h
  | diverge => intro s _; trivial
  | op o k ih =>
    intro s h s₁ hr hi c r s₂ hadm hex
    obtain ⟨h₁, h₂, h₃⟩ := h s₁ hr hi c r s₂ hadm hex
    exact ⟨h₁, h₂, ih r h₃⟩
  | fork js k ih =>
    intro s h s₁ hr hi
    obtain ⟨h₁, h₂⟩ := h s₁ hr hi
    exact ⟨h₁, fun ids => ih ids (h₂ ids)⟩
  | join ids k ih =>
    intro s h s₁ hr hi r
    exact ih r (h s₁ hr hi r)

/-- What every step of the pool keeps holds at the end. -/
theorem frame {p : Prog S α} {Q : Except S.Err α → M.State → Prop} {A : M.State → Prop}
    (hrely : ∀ s s', C.rely j i s s' → A s → A s') (hguar : ∀ s s', C.guar j i s s' → A s → A s') :
    ∀ {s}, Safe C j i p Q s → A s → Safe C j i p (fun r s => Q r s ∧ A s) s := by
  induction p with
  | pure a => intro s h hA; exact ⟨h, hA⟩
  | raise e => intro s h hA; exact ⟨h, hA⟩
  | diverge => intro s _ _; trivial
  | op o k ih =>
    intro s h hA s₁ hr hi c r s₂ hadm hex
    obtain ⟨h₁, h₂, h₃⟩ := h s₁ hr hi c r s₂ hadm hex
    have hA₁ : A s₁ := by
      split at hr
      · rw [hr]; exact hA
      · exact hrely s s₁ hr hA
    exact ⟨h₁, h₂, ih r h₃ (hguar s₁ s₂ h₂ hA₁)⟩
  | fork js k ih =>
    intro s h hA s₁ hr hi
    obtain ⟨h₁, h₂⟩ := h s₁ hr hi
    exact ⟨h₁, fun ids => ih ids (h₂ ids) (hrely s s₁ hr hA)⟩
  | join ids k ih =>
    intro s h hA s₁ hr hi r
    exact ih r (h s₁ hr hi r) (hrely s s₁ hr hA)

/-- A computation that may raise. -/
theorem lift {x : Except S.Err α} {Q : Except S.Err α → M.State → Prop} {s : M.State}
    (h : Q x s) : Safe C j i (Prog.lift x) Q s := by
  cases x <;> exact h

end Safe

/-- One operation of a task that keeps the invariant and the guarantee of its job. -/
structure Contract.Moves (C : Contract M) (j : S.Job) (i : Nat) (s s' : M.State) : Prop where
  before : C.inv s
  after : C.inv s'
  guar : C.guar j i s s'
  exec : ∃ o c r, M.exec i o c s = some (r, s')

/-- The steps a task makes between two suspension points. -/
abbrev Contract.Chain (C : Contract M) (j : S.Job) (i : Nat) : M.State → M.State → Prop :=
  Relation.ReflTransGen (C.Moves j i)

/-- The promises fit together. -/
structure Contract.Sound (C : Contract M) : Prop where
  rely_refl : ∀ j i s, C.rely j i s s
  rely_trans : ∀ {j i a b c}, C.rely j i a b → C.rely j i b c → C.rely j i a c
  env_rely : ∀ {e s s'}, M.env e s = some s' → C.inv s → C.inv s' ∧ ∀ j i, C.rely j i s s'
  peer_rely : ∀ {j j' i i' s s'}, C.peer j j' → i ≠ i' → C.inv s → C.inv s' → C.guar j i s s' →
    C.rely j' i' s s'
  pre_stable : ∀ {j i s s'}, C.pre j s → C.rely j i s s' → C.inv s' → C.pre j s'
  code_safe : ∀ j i s, C.inv s → C.pre j s → Safe C j i (M.code j) (C.post j) s

/-- A task that has run on through its local operations. -/
def Prog.Settled (M : Sem S) : Prog S α → Prop
  | .op o _ => M.isLocal o = false
  | _ => True

namespace Contract

variable {C : Contract M}

/-- The tasks that a move of task `i` disturbs are its peers. -/
def Peaceful (C : Contract M) (cfg : Config M) (i : Nat) : Prop :=
  ∀ t, cfg.tasks[i]? = some t → ∀ i' t', i' ≠ i → cfg.tasks[i']? = some t' →
    t'.prog.finished = false → C.peer t.job t'.job

/-- The moves the contract speaks about. -/
def Admissible (C : Contract M) (cfg : Config M) : Action M → Prop
  | .start j => C.pre j cfg.state
  | .task i c => C.Peaceful cfg i ∧ ∀ t, cfg.tasks[i]? = some t →
      ∀ o k, t.prog = .op o k → M.isLocal o = false → C.adm t.job i o c cfg.state
  | .env _ => True
  | .crash => C.inv (M.restart cfg.state)

/-- The invariant holds and every running task is safe from here on. -/
def Good (C : Contract M) (cfg : Config M) : Prop :=
  C.inv cfg.state ∧ ∀ i t, cfg.tasks[i]? = some t → t.prog.finished = false →
    ∀ s, C.rely t.job i cfg.state s → C.inv s → Safe C t.job i t.prog (C.post t.job) s

/-- A settled task is safe at every state its peers can lead to. -/
theorem Sound.safe_rely (hC : C.Sound) {j : S.Job} {i : Nat} {p : Prog S α} {s s' : M.State}
    {Q : Except S.Err α → M.State → Prop} (hp : p.Settled M) (hfin : p.finished = false)
    (h : Safe C j i p Q s) (hr : C.rely j i s s') : Safe C j i p Q s' := by
  cases p with
  | pure a => cases hfin
  | raise e => cases hfin
  | diverge => cases hfin
  | op o k =>
    intro s₁ hs₁ hi
    have hl : M.isLocal o = false := hp
    refine h s₁ ?_ hi
    simp only [hl, Bool.false_eq_true, if_false] at hs₁ ⊢
    exact hC.rely_trans hr hs₁
  | fork js k =>
    intro s₁ hs₁ hi
    exact h s₁ (hC.rely_trans hr hs₁) hi
  | join ids k =>
    intro s₁ hs₁ hi
    exact h s₁ (hC.rely_trans hr hs₁) hi

/-- Running on through local operations keeps a task safe and its guarantee. -/
theorem Sound.settle_safe (_hC : C.Sound) {j : S.Job} {i : Nat} {c : M.Choice} {p : Prog S α}
    {Q : Except S.Err α → M.State → Prop} :
    ∀ {s : M.State}, C.inv s → Safe C j i p Q s →
      C.inv (M.settle i c p s).2 ∧ C.Chain j i s (M.settle i c p s).2 ∧
      (M.settle i c p s).1.Settled M ∧ Safe C j i (M.settle i c p s).1 Q (M.settle i c p s).2 := by
  induction p with
  | pure a => intro s hi h; exact ⟨hi, .refl, trivial, h⟩
  | raise e => intro s hi h; exact ⟨hi, .refl, trivial, h⟩
  | diverge => intro s hi h; exact ⟨hi, .refl, trivial, h⟩
  | fork js k _ => intro s hi h; exact ⟨hi, .refl, trivial, h⟩
  | join ids k _ => intro s hi h; exact ⟨hi, .refl, trivial, h⟩
  | op o k ih =>
    intro s hi h
    cases hl : M.isLocal o with
    | false =>
      simp only [Sem.settle, hl, Bool.false_eq_true, if_false]
      exact ⟨hi, .refl, hl, h⟩
    | true =>
      obtain ⟨⟨r, s₂⟩, hex⟩ := Option.isSome_iff_exists.mp (M.exec_local hl i c s)
      obtain ⟨h₁, h₂, h₃⟩ := h s (by simp [hl]) hi c r s₂ (by simp [hl]) hex
      obtain ⟨g₁, g₂, g₃, g₄⟩ := ih r h₁ h₃
      simp only [Sem.settle, hl, if_true, hex]
      exact ⟨g₁, .head ⟨hi, h₁, h₂, o, c, r, hex⟩ g₂, g₃, g₄⟩

/-- What a chain of steps of one task means to a peer. -/
theorem Sound.chain_rely (hC : C.Sound) {j j' : S.Job} {i i' : Nat} (hpeer : C.peer j j')
    (hne : i ≠ i') {s s' : M.State} (h : C.Chain j i s s') : C.rely j' i' s s' := by
  induction h with
  | refl => exact hC.rely_refl _ _ _
  | tail _ hstep ih => exact hC.rely_trans ih (hC.peer_rely hpeer hne hstep.before hstep.after hstep.guar)

/-- What a move of task `i` leads to: the pool stays good, the state moves along the guarantee,
    and if the task ends, then with its postcondition. -/
structure Advances (C : Contract M) (cfg cfg' : Config M) (i : Nat) (t : Task S) : Prop where
  good : C.Good cfg'
  chain : C.Chain t.job i cfg.state cfg'.state
  ends : ∀ t', cfg'.tasks[i]? = some t' → t'.job = t.job ∧
    ∀ r, t'.prog.outcome = some r → C.post t.job r cfg'.state

/-- The pool after task `i` moved along a chain and continues as `p`. -/
private theorem Sound.good_resume (hC : C.Sound) (cfg : Config M) {i : Nat} {c : M.Choice}
    {t : Task S} {p : Prog S S.Val} {s : M.State}
    (hothers : ∀ i' t', i' ≠ i → cfg.tasks[i']? = some t' → t'.prog.finished = false →
      C.peer t.job t'.job)
    (hgood : ∀ i' t', i' ≠ i → cfg.tasks[i']? = some t' → t'.prog.finished = false →
      ∀ s', C.rely t'.job i' cfg.state s' → C.inv s' → Safe C t'.job i' t'.prog (C.post t'.job) s')
    (hlt : i < cfg.tasks.length) (hinv : C.inv s) (hchain : C.Chain t.job i cfg.state s)
    (hsafe : Safe C t.job i p (C.post t.job) s) :
    C.Advances cfg (cfg.resume i c t.job p s) i t := by
  obtain ⟨g₁, g₂, g₃, g₄⟩ := hC.settle_safe (c := c) hinv hsafe
  have hall : C.Chain t.job i cfg.state (cfg.resume i c t.job p s).state := hchain.trans g₂
  refine ⟨⟨g₁, ?_⟩, hall, ?_⟩
  · intro i' t' ht' hfin s' hr hi
    simp only [Config.resume] at ht'
    by_cases hi' : i' = i
    · subst hi'
      rw [List.getElem?_set_self hlt] at ht'
      cases ht'
      exact hC.safe_rely g₃ hfin g₄ hr
    · rw [List.getElem?_set_ne (Ne.symm hi')] at ht'
      have hpeer := hothers i' t' hi' ht' hfin
      have hrely := hC.rely_trans (hC.chain_rely hpeer (Ne.symm hi') hall) hr
      exact hgood i' t' hi' ht' hfin s' hrely hi
  · intro t' ht'
    simp only [Config.resume, List.getElem?_set_self hlt, Option.some.injEq] at ht'
    subst ht'
    refine ⟨rfl, fun r hr => ?_⟩
    -- a finished program is safe exactly if its postcondition holds
    cases hp : (M.settle i c p s).1 <;> rw [hp] at hr g₄ <;> simp only [Prog.outcome, Option.some.injEq,
      reduceCtorEq] at hr
    · subst hr
      exact g₄
    · subst hr
      exact g₄

/-- One move of a task. -/
theorem Sound.good_stepTask (hC : C.Sound) {cfg cfg' : Config M} {i : Nat} {c : M.Choice}
    (hgood : C.Good cfg) (hadm : C.Admissible cfg (.task i c))
    (hstep : cfg.stepTask i c = some cfg') :
    ∃ t, cfg.tasks[i]? = some t ∧ C.Advances cfg cfg' i t := by
  obtain ⟨hinv, htasks⟩ := hgood
  obtain ⟨hpeace, hadm⟩ := hadm
  simp only [Config.stepTask] at hstep
  cases ht : cfg.tasks[i]? with
  | none => simp [ht] at hstep
  | some t =>
    have hlt : i < cfg.tasks.length := (List.getElem?_eq_some_iff.mp ht).1
    have hsafe := htasks i t ht
    have hothers := hpeace t ht
    simp only [ht] at hstep
    cases hp : t.prog with
    | pure a => simp [hp] at hstep
    | raise e => simp [hp] at hstep
    | diverge => simp [hp] at hstep
    | op o k =>
      simp only [hp, Option.map_eq_some_iff] at hstep
      obtain ⟨⟨r, s₂⟩, hex, rfl⟩ := hstep
      have hsafe := hsafe (by rw [hp]; rfl) cfg.state (hC.rely_refl _ _ _) hinv
      rw [hp] at hsafe
      obtain ⟨h₁, h₂, h₃⟩ := hsafe cfg.state
        (by split <;> first | rfl | exact hC.rely_refl _ _ _) hinv c r s₂
        (fun hl => hadm t ht o k hp hl) hex
      exact ⟨t, rfl, hC.good_resume cfg hothers (fun i' t' _ h => htasks i' t' h) hlt h₁
        (.single ⟨hinv, h₁, h₂, o, c, r, hex⟩) h₃⟩
    | join ids k =>
      simp only [hp, Option.map_eq_some_iff] at hstep
      obtain ⟨r, _, rfl⟩ := hstep
      have hsafe := hsafe (by rw [hp]; rfl) cfg.state (hC.rely_refl _ _ _) hinv
      rw [hp] at hsafe
      exact ⟨t, rfl, hC.good_resume cfg hothers (fun i' t' _ h => htasks i' t' h) hlt hinv .refl
        (hsafe cfg.state (hC.rely_refl _ _ _) hinv r)⟩
    | fork js k =>
      simp only [hp, Option.some.injEq] at hstep
      subst hstep
      have hsafe := hsafe (by rw [hp]; rfl) cfg.state (hC.rely_refl _ _ _) hinv
      rw [hp] at hsafe
      obtain ⟨hpre, hk⟩ := hsafe cfg.state (hC.rely_refl _ _ _) hinv
      -- the forked jobs are safe because their precondition holds now and is stable
      have hnew : ∀ (i' : Nat) t', (cfg.tasks ++ js.map M.spawn)[i']? = some t' →
          cfg.tasks[i']? = some t' ∨ ∃ j' ∈ js, t' = M.spawn j' := by
        intro i' t' h
        rcases Nat.lt_or_ge i' cfg.tasks.length with hl | hl
        · rw [List.getElem?_append_left hl] at h; exact .inl h
        · rw [List.getElem?_append_right hl] at h
          obtain ⟨j', hj', rfl⟩ := List.mem_map.mp (List.mem_of_getElem? h)
          exact .inr ⟨j', hj', rfl⟩
      have hall := hC.good_resume { cfg with tasks := cfg.tasks ++ js.map M.spawn }
        (c := c) (t := t) (i := i) (s := cfg.state) (p := k (List.range' cfg.tasks.length js.length))
        (by
          intro i' t' hne h hfin
          rcases hnew i' t' h with h | ⟨j', hj', rfl⟩
          · exact hothers i' t' hne h hfin
          · exact (hpre j' hj').2)
        (by
          intro i' t' hne h hfin s' hr hi
          rcases hnew i' t' h with h | ⟨j', hj', rfl⟩
          · exact htasks i' t' h hfin s' hr hi
          · exact hC.code_safe j' i' s' hi (hC.pre_stable (hpre j' hj').1 hr hi))
        (by simp only [List.length_append]; omega) hinv .refl (hk _)
      exact ⟨t, rfl, hall.good, hall.chain, hall.ends⟩

/-- Safe tasks that tolerate each other stay safe. -/
theorem Sound.good_step (hC : C.Sound) {cfg cfg' : Config M} {a : Action M}
    (hgood : C.Good cfg) (hadm : C.Admissible cfg a) (hstep : cfg.step a = some cfg') :
    C.Good cfg' := by
  cases a with
  | start j =>
    simp only [Config.step, Option.some.injEq] at hstep
    subst hstep
    refine ⟨hgood.1, ?_⟩
    intro i t ht hfin s hr hi
    rcases Nat.lt_or_ge i cfg.tasks.length with hl | hl
    · rw [List.getElem?_append_left hl] at ht; exact hgood.2 i t ht hfin s hr hi
    · rw [List.getElem?_append_right hl] at ht
      obtain rfl : t = M.spawn j := by simpa using List.mem_of_getElem? ht
      exact hC.code_safe j i s hi (hC.pre_stable hadm hr hi)
  | task i c =>
    obtain ⟨t, -, h⟩ := hC.good_stepTask hgood hadm hstep
    exact h.good
  | env e =>
    simp only [Config.step, Option.map_eq_some_iff] at hstep
    obtain ⟨s, hs, rfl⟩ := hstep
    obtain ⟨hi, hr⟩ := hC.env_rely hs hgood.1
    exact ⟨hi, fun i t ht hfin s' hr' hi' =>
      hgood.2 i t ht hfin s' (hC.rely_trans (hr _ _) hr') hi'⟩
  | crash =>
    simp only [Config.step, Option.some.injEq] at hstep
    subst hstep
    refine ⟨hadm, ?_⟩
    -- nothing is running any more
    intro i t ht hfin
    simp only [List.getElem?_map, Option.map_eq_some_iff] at ht
    obtain ⟨t₀, _, rfl⟩ := ht
    split at hfin
    · rename_i h
      rw [h] at hfin
      cases hfin
    · cases hfin

/-- Every configuration of an admissible run is good. -/
theorem Sound.good_run (hC : C.Sound) {ok : Config M → Action M → Prop}
    (hok : ∀ cfg a, ok cfg a → C.Good cfg → C.Admissible cfg a) {a b : Config M}
    (hgood : C.Good a) (hrun : Config.Run ok a b) : C.Good b := by
  induction hrun with
  | refl => exact hgood
  | step act _ hact hstep ih => exact hC.good_step ih (hok _ _ hact ih) hstep

/-- A move of task `k` leaves the other tasks alone, and may add new ones. -/
private theorem getElem?_stepTask {cfg cfg' : Config M} {i k : Nat} {c : M.Choice} {t : Task S}
    (hstep : cfg.stepTask k c = some cfg') (hne : i ≠ k) (ht : cfg'.tasks[i]? = some t) :
    cfg.tasks[i]? = some t ∨ ∃ j, t = M.spawn j := by
  simp only [Config.stepTask] at hstep
  cases hk : cfg.tasks[k]? with
  | none => simp [hk] at hstep
  | some t₀ =>
    simp only [hk] at hstep
    cases hp : t₀.prog with
    | pure a => simp [hp] at hstep
    | raise e => simp [hp] at hstep
    | diverge => simp [hp] at hstep
    | op o k =>
      simp only [hp, Option.map_eq_some_iff] at hstep
      obtain ⟨q, -, rfl⟩ := hstep
      rw [Config.resume, List.getElem?_set_ne (Ne.symm hne)] at ht
      exact .inl ht
    | join ids k =>
      simp only [hp, Option.map_eq_some_iff] at hstep
      obtain ⟨r, -, rfl⟩ := hstep
      rw [Config.resume, List.getElem?_set_ne (Ne.symm hne)] at ht
      exact .inl ht
    | fork js k =>
      simp only [hp, Option.some.injEq] at hstep
      subst hstep
      rw [Config.resume, List.getElem?_set_ne (Ne.symm hne)] at ht
      rcases Nat.lt_or_ge i cfg.tasks.length with hl | hl
      · rw [List.getElem?_append_left hl] at ht
        exact .inl ht
      · rw [List.getElem?_append_right hl] at ht
        obtain ⟨j, -, rfl⟩ := List.mem_map.mp (List.mem_of_getElem? ht)
        exact .inr ⟨j, rfl⟩

/-- A job that has ended did so at some point of the run, with its postcondition. -/
theorem Sound.ended (hC : C.Sound) {ok : Config M → Action M → Prop}
    (hok : ∀ cfg a, ok cfg a → C.Good cfg → C.Admissible cfg a)
    {a b : Config M} (hgood : C.Good a) (hnone : a.tasks = []) (hrun : Config.Run ok a b) {i : Nat}
    {j : S.Job} {p : Prog S S.Val} {r : Except S.Err S.Val} (hcode : (M.code j).finished = false) (hi : b.tasks[i]? = some ⟨j, p⟩) (hr : p.outcome = some r) :
    ∃ c, Config.Run ok a c ∧ C.post j r c.state ∧ Config.Run ok c b := by
  have hspawn : ∀ j', (⟨j, p⟩ : Task S) ≠ M.spawn j' := by
    intro j' heq
    obtain ⟨rfl, rfl⟩ := Task.mk.inj heq
    cases hp : M.code j <;> simp [hp, Prog.outcome, Prog.finished] at hr hcode
  induction hrun with
  | refl => simp [hnone] at hi
  | @step b c act hrun hact hstep ih =>
    -- the task had ended before the last step, or it ends with it
    have hbefore : b.tasks[i]? = some ⟨j, p⟩ → ∃ c', Config.Run ok a c' ∧ C.post j r c'.state ∧
        Config.Run ok c' c := by
      intro hb
      obtain ⟨c', h₁, h₂, h₃⟩ := ih hb
      exact ⟨c', h₁, h₂, h₃.step act hact hstep⟩
    cases act with
    | start j' =>
      simp only [Config.step, Option.some.injEq] at hstep
      subst hstep
      rcases Nat.lt_or_ge i b.tasks.length with hl | hl
      · rw [List.getElem?_append_left hl] at hi
        exact hbefore hi
      · rw [List.getElem?_append_right hl] at hi
        exact absurd (by simpa using List.mem_of_getElem? hi) (hspawn j')
    | task k ch =>
      by_cases hne : i = k
      · subst hne
        have hb := hC.good_run hok hgood hrun
        obtain ⟨t, ht, hadv⟩ := hC.good_stepTask hb (hok _ _ hact hb) hstep
        obtain ⟨hjob, hpost⟩ := hadv.ends _ hi
        simp only at hjob
        rw [← hjob] at hpost
        exact ⟨c, hrun.step _ hact hstep, hpost r hr, .refl _⟩
      · rcases getElem?_stepTask hstep hne hi with hb | ⟨j', heq⟩
        · exact hbefore hb
        · exact absurd heq (hspawn j')
    | env e =>
      simp only [Config.step, Option.map_eq_some_iff] at hstep
      obtain ⟨s, -, rfl⟩ := hstep
      exact hbefore hi
    | crash =>
      simp only [Config.step, Option.some.injEq] at hstep
      subst hstep
      simp only [List.getElem?_map, Option.map_eq_some_iff] at hi
      obtain ⟨t₀, ht₀, heq⟩ := hi
      split at heq
      · rw [heq] at ht₀
        exact hbefore ht₀
      · rw [← (Task.mk.inj heq).2] at hr
        cases hr

private theorem mem_resume {cfg : Config M} {i : Nat} {c : M.Choice} {j : S.Job}
    {p : Prog S S.Val} {s : M.State} {P : S.Job → Prop} (hpool : ∀ t ∈ cfg.tasks, P t.job) (hj : P j) :
    ∀ t ∈ (cfg.resume i c j p s).tasks, P t.job := by
  intro t ht
  rcases List.mem_or_eq_of_mem_set ht with hmem | rfl
  · exact hpool t hmem
  · exact hj

/-- A property of jobs that peers share spreads over the pool. -/
theorem Sound.pool_step (hC : C.Sound) {P : S.Job → Prop} (hpeer : ∀ {j j'}, C.peer j j' → P j')
    {cfg cfg' : Config M} {a : Action M} (hgood : C.Good cfg) (hpool : ∀ t ∈ cfg.tasks, P t.job)
    (hstart : ∀ j, a = .start j → P j) (hstep : cfg.step a = some cfg') :
    ∀ t ∈ cfg'.tasks, P t.job := by
  cases a with
  | start j =>
    simp only [Config.step, Option.some.injEq] at hstep
    subst hstep
    intro t ht
    rcases List.mem_append.mp ht with ht | ht
    · exact hpool t ht
    · rw [List.mem_singleton.mp ht]
      exact hstart j rfl
  | env e =>
    simp only [Config.step, Option.map_eq_some_iff] at hstep
    obtain ⟨s, -, rfl⟩ := hstep
    exact hpool
  | crash =>
    simp only [Config.step, Option.some.injEq] at hstep
    subst hstep
    intro t ht
    obtain ⟨t₀, hmem, rfl⟩ := List.mem_map.mp ht
    split
    · exact hpool t₀ hmem
    · exact hpool t₀ hmem
  | task i c =>
    simp only [Config.step, Config.stepTask] at hstep
    cases ht : cfg.tasks[i]? with
    | none => simp [ht] at hstep
    | some t =>
      have hj : P t.job := hpool t (List.mem_of_getElem? ht)
      simp only [ht] at hstep
      cases hp : t.prog with
      | pure a => simp [hp] at hstep
      | raise e => simp [hp] at hstep
      | diverge => simp [hp] at hstep
      | op o k =>
        simp only [hp, Option.map_eq_some_iff] at hstep
        obtain ⟨q, -, rfl⟩ := hstep
        exact mem_resume hpool hj
      | join ids k =>
        simp only [hp, Option.map_eq_some_iff] at hstep
        obtain ⟨r, -, rfl⟩ := hstep
        exact mem_resume hpool hj
      | fork js k =>
        simp only [hp, Option.some.injEq] at hstep
        subst hstep
        -- a safe task forks peers only
        have hsafe := hgood.2 i t ht (by rw [hp]; rfl) cfg.state (hC.rely_refl _ _ _) hgood.1
        rw [hp] at hsafe
        obtain ⟨hforked, -⟩ := hsafe cfg.state (hC.rely_refl _ _ _) hgood.1
        refine mem_resume (fun t' ht' => ?_) hj
        rcases List.mem_append.mp ht' with ht' | ht'
        · exact hpool t' ht'
        · obtain ⟨j', hj', rfl⟩ := List.mem_map.mp ht'
          exact hpeer (hforked j' hj').2

/-- Runs that start jobs of one kind only have a pool of this kind. -/
theorem Sound.run_pool (hC : C.Sound) {P : S.Job → Prop} (hpeer : ∀ {j j'}, C.peer j j' → P j')
    {ok : Config M → Action M → Prop} (hstart : ∀ {cfg j}, ok cfg (.start j) → P j)
    (hok : ∀ cfg a, ok cfg a ∧ (∀ t ∈ cfg.tasks, P t.job) → C.Good cfg → C.Admissible cfg a)
    {a b : Config M} (hgood : C.Good a) (hpool : ∀ t ∈ a.tasks, P t.job) (hrun : Config.Run ok a b) :
    (Config.Run (fun cfg act => ok cfg act ∧ ∀ t ∈ cfg.tasks, P t.job) a b) ∧
      ∀ t ∈ b.tasks, P t.job := by
  induction hrun with
  | refl => exact ⟨.refl _, hpool⟩
  | step act _ hact hstep ih =>
    have hrun' := ih.1.step act ⟨hact, ih.2⟩ hstep
    refine ⟨hrun', hC.pool_step hpeer (hC.good_run hok hgood ih.1) ih.2 ?_ hstep⟩
    rintro j rfl
    exact hstart hact

/-- What every single step guarantees, a chain of steps guarantees. -/
private theorem chain_rel {R : M.State → M.State → Prop} {j : S.Job} {i : Nat} (hrefl : ∀ s, R s s)
    (htrans : ∀ {a b c}, R a b → R b c → R a c) (hmoves : ∀ {s s'}, C.Moves j i s s' → R s s')
    {s s' : M.State} (h : C.Chain j i s s') : R s s' := by
  induction h with
  | refl => exact hrefl _
  | tail _ hstep ih => exact htrans ih (hmoves hstep)

/-- A transitive relation that holds across every step of a task that the run moves, of the
    environment and across a restart holds between any two states of the run. -/
theorem Sound.run_rel (hC : C.Sound) {ok : Config M → Action M → Prop}
    (hok : ∀ cfg a, ok cfg a → C.Good cfg → C.Admissible cfg a)
    {R : M.State → M.State → Prop} (hrefl : ∀ s, R s s) (htrans : ∀ {a b c}, R a b → R b c → R a c)
    (hmoves : ∀ {cfg i c t s s'}, ok cfg (.task i c) → cfg.tasks[i]? = some t →
      C.Moves t.job i s s' → R s s')
    (henv : ∀ {e s s'}, C.inv s → M.env e s = some s' → R s s')
    (hrestart : ∀ s, C.inv s → R s (M.restart s)) {a b : Config M}
    (hgood : C.Good a) (hrun : Config.Run ok a b) : R a.state b.state := by
  induction hrun with
  | refl => exact hrefl _
  | @step b c act hrun hact hstep ih =>
    have hb := hC.good_run hok hgood hrun
    refine htrans ih ?_
    cases act with
    | start j =>
      simp only [Config.step, Option.some.injEq] at hstep
      subst hstep
      exact hrefl _
    | task i ch =>
      obtain ⟨t, ht, h⟩ := hC.good_stepTask hb (hok _ _ hact hb) hstep
      exact chain_rel hrefl htrans (hmoves hact ht) h.chain
    | env e =>
      simp only [Config.step, Option.map_eq_some_iff] at hstep
      obtain ⟨s, hs, rfl⟩ := hstep
      exact henv hb.1 hs
    | crash =>
      simp only [Config.step, Option.some.injEq] at hstep
      subst hstep
      exact hrestart _ hb.1

/-- The calls that a traced run makes from here on found states of the run: the invariant holds
    there, and what holds between any two states of the run. -/
theorem Sound.run_found {C : Contract M.traced} (hC : C.Sound)
    {ok : Config M.traced → Action M.traced → Prop}
    (hok : ∀ cfg a, ok cfg a → C.Good cfg → C.Admissible cfg a)
    {R : M.Traced → M.Traced → Prop} (hrefl : ∀ s, R s s) (htrans : ∀ {a b c}, R a b → R b c → R a c)
    (hmoves : ∀ {cfg i c t s s'}, ok cfg (.task i c) → cfg.tasks[i]? = some t →
      C.Moves t.job i s s' → R s s')
    (henv : ∀ {e s s'}, C.inv s → M.traced.env e s = some s' → R s s')
    (hrestart : ∀ s, C.inv s → R s (M.traced.restart s)) {a b : Config M.traced}
    (hgood : C.Good a) (hrun : Config.Run ok a b) :
    ∃ l, b.state.trace = a.state.trace ++ l ∧ ∀ before e after, l = before ++ e :: after →
      C.inv ⟨e.before, a.state.trace ++ before⟩ ∧ R a.state ⟨e.before, a.state.trace ++ before⟩ ∧
        R ⟨e.before, a.state.trace ++ before⟩ b.state := by
  -- the relation that carries the argument: what is found lies between
  let Found : M.Traced → M.Traced → Prop := fun s s' => R s s' ∧ ∃ l, s'.trace = s.trace ++ l ∧
    ∀ before e after, l = before ++ e :: after →
      C.inv ⟨e.before, s.trace ++ before⟩ ∧ R s ⟨e.before, s.trace ++ before⟩ ∧ R ⟨e.before, s.trace ++ before⟩ s'
  have hidle : ∀ {s s' : M.Traced}, R s s' → s'.trace = s.trace → Found s s' := by
    intro s s' hR htrace
    exact ⟨hR, [], by simpa using htrace, fun before e after h => by simp at h⟩
  have hfound : Found a.state b.state := by
    refine hC.run_rel hok (fun s => hidle (hrefl s) rfl) ?_ ?_ ?_ ?_ hgood hrun
    · rintro s₁ s₂ s₃ ⟨h₁, l₁, hl₁, hat₁⟩ ⟨h₂, l₂, hl₂, hat₂⟩
      refine ⟨htrans h₁ h₂, l₁ ++ l₂, by rw [hl₂, hl₁, List.append_assoc], ?_⟩
      intro before e after heq
      rcases List.append_eq_append_iff.mp heq with ⟨mid, hbefore, hrest⟩ | ⟨mid, hl, hrest⟩
      · -- the call was made after the second state
        obtain ⟨hinv, hR, hR'⟩ := hat₂ mid e after hrest
        rw [hl₁, List.append_assoc, ← hbefore] at hinv hR hR'
        exact ⟨hinv, htrans h₁ hR, hR'⟩
      · cases mid with
        | nil =>
          obtain ⟨hinv, hR, hR'⟩ := hat₂ [] e after (by simpa using hrest.symm)
          rw [List.append_nil] at hl hinv hR hR'
          rw [hl₁, hl] at hinv hR hR'
          exact ⟨hinv, htrans h₁ hR, hR'⟩
        | cons e' mid =>
          simp only [List.cons_append, List.cons.injEq] at hrest
          obtain ⟨hinv, hR, hR'⟩ := hat₁ before e mid (by rw [hl, hrest.1])
          exact ⟨hinv, hR, htrans hR' h₂⟩
    · intro _ i _ _ s s' hact ht h
      obtain ⟨o, c, r, hex⟩ := h.exec
      simp only [Option.map_eq_some_iff, Prod.mk.injEq] at hex
      obtain ⟨p, -, -, rfl⟩ := hex
      refine ⟨hmoves hact ht h, _, rfl, ?_⟩
      intro before e after heq
      obtain ⟨rfl, rfl⟩ : before = [] ∧ e = ⟨i, o, p.1, s.state⟩ := by
        cases before with
        | nil => exact ⟨rfl, by simpa using (List.cons.inj heq).1.symm⟩
        | cons x xs => simp at heq
      rw [List.append_nil]
      exact ⟨h.before, hrefl s, hmoves hact ht h⟩
    · intro e s s' hinv he
      refine hidle (henv hinv he) ?_
      simp only [Option.map_eq_some_iff] at he
      obtain ⟨w, -, rfl⟩ := he
      rfl
    · exact fun s hinv => hidle (hrestart s hinv) rfl
  exact hfound.2

end Contract

end Async

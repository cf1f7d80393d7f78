import A2AEvents.ForStd.Machine

/-!
# Programs that run alone

`Eval` is the big-step semantics of a program that no other task interrupts: it performs
its operations one after the other and ends with a value or an exception. Programs that
fork or join have no evaluation.

## Key results

- `Eval.bind_iff`, `Eval.attempt_iff`, `Eval.call_iff`, `Eval.lift_iff`: evaluation follows
  the structure of a program
- `Eval.det`: scripted programs are deterministic
- `Eval.keeps`: what some operations keep, a program that performs no others keeps
- `Eval.invariant`: what every operation keeps, an evaluation keeps
- `Eval.of_run?`: evaluation can be computed
- `Eval.run`: an evaluation is a run of the pool in which only one task moves
-/

namespace Async

variable {S : Sig} {M : Sem S} {α β : Type} {i : Nat}

/-- The program performs no operations but those that satisfy `P`. -/
inductive Prog.Only (P : S.Op → Prop) : Prog S α → Prop where
  | pure (a : α) : Only P (.pure a)
  | raise (e : S.Err) : Only P (.raise e)
  | diverge : Only P .diverge
  | op {o : S.Op} {k : S.Res o → Prog S α} (ho : P o) (hk : ∀ r, Only P (k r)) : Only P (.op o k)
  | fork {js : List S.Job} {k : List Nat → Prog S α} (hk : ∀ ids, Only P (k ids)) : Only P (.fork js k)
  | join {ids : List Nat} {k : Except S.Err (List S.Val) → Prog S α} (hk : ∀ r, Only P (k r)) :
      Only P (.join ids k)

namespace Prog.Only

variable {P : S.Op → Prop}

theorem bind {p : Prog S α} {f : α → Prog S β} (hp : p.Only P) (hf : ∀ a, (f a).Only P) :
    (p >>= f).Only P := by
  induction hp with
  | pure a => exact hf a
  | raise e => exact .raise e
  | diverge => exact .diverge
  | op ho _ ih => exact .op ho ih
  | fork _ ih => exact .fork ih
  | join _ ih => exact .join ih

theorem call {o : S.Op} (ho : P o) : (Prog.call o).Only P := .op ho fun r => .pure r

theorem lift (x : Except S.Err α) : (Prog.lift x).Only P := by
  cases x with
  | ok a => exact .pure a
  | error e => exact .raise e

theorem of_op {o : S.Op} {k : S.Res o → Prog S α} (h : (Prog.op o k).Only P) : P o ∧ ∀ r, (k r).Only P := by
  cases h with
  | op ho hk => exact ⟨ho, hk⟩

/-- What follows a computation that may raise. -/
theorem lift_bind {x : Except S.Err α} {f : α → Prog S β} (h : ∀ a, x = .ok a → (f a).Only P) :
    (Prog.lift x >>= f).Only P := by
  cases x with
  | ok a => exact h a rfl
  | error e => exact .raise e

end Prog.Only

/-- The program, run alone as task `i`, ends with a result. `ok` restricts the part of the
    answers that the state leaves open. -/
inductive Eval (M : Sem S) (i : Nat) (ok : M.State → S.Op → M.Choice → Prop) :
    Prog S α → M.State → Except S.Err α → M.State → Prop where
  | pure (a : α) (s : M.State) : Eval M i ok (.pure a) s (.ok a) s
  | raise (e : S.Err) (s : M.State) : Eval M i ok (.raise e) s (.error e) s
  | op {o : S.Op} {k : S.Res o → Prog S α} {s s₁ s₂ : M.State} {r : S.Res o}
      {res : Except S.Err α} (c : M.Choice) (hok : ok s o c) (hex : M.exec i o c s = some (r, s₁))
      (hrest : Eval M i ok (k r) s₁ res s₂) : Eval M i ok (.op o k) s res s₂

namespace Eval

variable {ok : M.State → S.Op → M.Choice → Prop} {s s' : M.State}

@[simp] theorem pure_iff {a : α} {res : Except S.Err α} :
    Eval M i ok (.pure a) s res s' ↔ res = .ok a ∧ s' = s := by
  constructor
  · intro h
    cases h
    exact ⟨rfl, rfl⟩
  · rintro ⟨rfl, rfl⟩
    exact .pure a s'

@[simp] theorem raise_iff {e : S.Err} {res : Except S.Err α} :
    Eval M i ok (.raise e) s res s' ↔ res = .error e ∧ s' = s := by
  constructor
  · intro h
    cases h
    exact ⟨rfl, rfl⟩
  · rintro ⟨rfl, rfl⟩
    exact .raise e s'

theorem op_iff {o : S.Op} {k : S.Res o → Prog S α} {res : Except S.Err α} :
    Eval M i ok (.op o k) s res s' ↔
      ∃ c r s₁, ok s o c ∧ M.exec i o c s = some (r, s₁) ∧ Eval M i ok (k r) s₁ res s' := by
  constructor
  · intro h
    cases h with
    | op c hok hex hrest => exact ⟨c, _, _, hok, hex, hrest⟩
  · rintro ⟨c, r, s₁, hok, hex, hrest⟩
    exact .op c hok hex hrest

/-- Running the first part and then the second. -/
theorem bind {p : Prog S α} {f : α → Prog S β} {a : α} {s₁ : M.State} {res : Except S.Err β}
    (hp : Eval M i ok p s (.ok a) s₁) (hf : Eval M i ok (f a) s₁ res s') :
    Eval M i ok (p >>= f) s res s' := by
  generalize hr : (Except.ok a : Except S.Err α) = r at hp
  induction hp with
  | pure b s =>
    cases hr
    exact hf
  | raise e s => cases hr
  | op c hok hex _ ih => exact .op c hok hex (ih hf hr)

/-- An exception skips the rest. -/
theorem bind_error {p : Prog S α} (f : α → Prog S β) {e : S.Err}
    (hp : Eval M i ok p s (.error e) s') : Eval M i ok (p >>= f) s (.error e) s' := by
  generalize hr : (Except.error e : Except S.Err α) = r at hp
  induction hp with
  | pure b s => cases hr
  | raise e' s =>
    cases hr
    exact .raise e s
  | op c hok hex _ ih => exact .op c hok hex (ih hr)

theorem bind_iff {p : Prog S α} {f : α → Prog S β} {res : Except S.Err β} :
    Eval M i ok (p >>= f) s res s' ↔
      (∃ a s₁, Eval M i ok p s (.ok a) s₁ ∧ Eval M i ok (f a) s₁ res s') ∨
        ∃ e, res = .error e ∧ Eval M i ok p s (.error e) s' := by
  constructor
  · induction p generalizing s with
    | pure a => exact fun h => .inl ⟨a, s, .pure a s, h⟩
    | raise e =>
      intro h
      obtain ⟨rfl, rfl⟩ := raise_iff.mp h
      exact .inr ⟨e, rfl, .raise e s'⟩
    | diverge => exact fun h => (by cases h)
    | fork js k _ => exact fun h => (by cases h)
    | join ids k _ => exact fun h => (by cases h)
    | op o k ih =>
      intro h
      obtain ⟨c, r, s₁, hok, hex, hrest⟩ := op_iff.mp h
      rcases ih r hrest with ⟨a, s₂, h₁, h₂⟩ | ⟨e, rfl, h₁⟩
      · exact .inl ⟨a, s₂, .op c hok hex h₁, h₂⟩
      · exact .inr ⟨e, rfl, .op c hok hex h₁⟩
  · rintro (⟨a, s₁, h₁, h₂⟩ | ⟨e, rfl, h₁⟩)
    · exact h₁.bind h₂
    · exact h₁.bind_error f

/-- Both parts of a program that returns have returned. -/
theorem bind_ok {p : Prog S α} {f : α → Prog S β} {b : β} :
    Eval M i ok (p >>= f) s (.ok b) s' ↔
      ∃ a s₁, Eval M i ok p s (.ok a) s₁ ∧ Eval M i ok (f a) s₁ (.ok b) s' := by
  rw [bind_iff]
  constructor
  · rintro (h | ⟨e, he, -⟩)
    · exact h
    · cases he
  · exact .inl

theorem attempt_iff {p : Prog S α} {res : Except S.Err (Except S.Err α)} :
    Eval M i ok p.attempt s res s' ↔ ∃ r, res = .ok r ∧ Eval M i ok p s r s' := by
  induction p generalizing s with
  | pure a =>
    simp only [Prog.attempt, pure_iff]
    constructor
    · rintro ⟨h₁, h₂⟩
      exact ⟨_, h₁, rfl, h₂⟩
    · rintro ⟨r, h₁, rfl, h₃⟩
      exact ⟨h₁, h₃⟩
  | raise e =>
    simp only [Prog.attempt, pure_iff, raise_iff]
    constructor
    · rintro ⟨h₁, h₂⟩
      exact ⟨_, h₁, rfl, h₂⟩
    · rintro ⟨r, h₁, rfl, h₃⟩
      exact ⟨h₁, h₃⟩
  | diverge => exact ⟨(fun h => (by cases h)), by rintro ⟨r, hr, h⟩; cases h⟩
  | fork js k _ => exact ⟨(fun h => (by cases h)), by rintro ⟨r, hr, h⟩; cases h⟩
  | join ids k _ => exact ⟨(fun h => (by cases h)), by rintro ⟨r, hr, h⟩; cases h⟩
  | op o k ih =>
    simp only [Prog.attempt, op_iff, ih]
    constructor
    · rintro ⟨c, r, s₁, hok, hex, x, hx, hrest⟩
      exact ⟨x, hx, c, r, s₁, hok, hex, hrest⟩
    · rintro ⟨x, hx, c, r, s₁, hok, hex, hrest⟩
      exact ⟨c, r, s₁, hok, hex, x, hx, hrest⟩

@[simp] theorem lift_iff {x res : Except S.Err α} :
    Eval M i ok (Prog.lift x) s res s' ↔ res = x ∧ s' = s := by
  cases x <;> simp [Prog.lift]

theorem call_iff {o : S.Op} {res : Except S.Err (S.Res o)} :
    Eval M i ok (Prog.call o) s res s' ↔
      ∃ c r, ok s o c ∧ M.exec i o c s = some (r, s') ∧ res = .ok r := by
  simp only [Prog.call, op_iff, pure_iff]
  constructor
  · rintro ⟨c, r, s₁, hok, hex, hres, rfl⟩
    exact ⟨c, r, hok, hex, hres⟩
  · rintro ⟨c, r, hok, hex, hres⟩
    exact ⟨c, r, s', hok, hex, hres, rfl⟩

/-- Where nothing is left open, a program has one result. -/
theorem det {p : Prog S α} {res res' : Except S.Err α} {s'' : M.State}
    (hone : ∀ s o c c', ok s o c → ok s o c' → c = c') (h : Eval M i ok p s res s')
    (h' : Eval M i ok p s res' s'') : res = res' ∧ s' = s'' := by
  induction h with
  | pure a s =>
    obtain ⟨rfl, rfl⟩ := pure_iff.mp h'
    exact ⟨rfl, rfl⟩
  | raise e s =>
    obtain ⟨rfl, rfl⟩ := raise_iff.mp h'
    exact ⟨rfl, rfl⟩
  | @op o k s s₁ s₂ r res c hok hex _ ih =>
    obtain ⟨c', r', s₁', hok', hex', hrest'⟩ := op_iff.mp h'
    obtain rfl := hone s o c c' hok hok'
    rw [hex] at hex'
    cases hex'
    exact ih hrest'

theorem weaken {ok' : M.State → S.Op → M.Choice → Prop} {p : Prog S α} {res : Except S.Err α}
    (hok : ∀ {s o c}, ok s o c → ok' s o c) (h : Eval M i ok p s res s') : Eval M i ok' p s res s' := by
  induction h with
  | pure a s => exact .pure a s
  | raise e s => exact .raise e s
  | op c hc hex _ ih => exact .op c (hok hc) hex ih

/-- What every operation keeps, an evaluation keeps. -/
theorem invariant {P : M.State → Prop} {p : Prog S α} {res : Except S.Err α}
    (hstep : ∀ {s s₁ o c r}, P s → ok s o c → M.exec i o c s = some (r, s₁) → P s₁)
    (h : Eval M i ok p s res s') (hs : P s) : P s' := by
  induction h with
  | pure a s => exact hs
  | raise e s => exact hs
  | op c hok hex _ ih => exact ih (hstep hs hok hex)

/-- What the operations of a program keep, its evaluation keeps. -/
theorem keeps {P : S.Op → Prop} {Q : M.State → Prop} {p : Prog S α} {res : Except S.Err α}
    (hstep : ∀ {s s₁ o c r}, P o → Q s → M.exec i o c s = some (r, s₁) → Q s₁) (hp : p.Only P)
    (h : Eval M i ok p s res s') (hs : Q s) : Q s' := by
  induction h with
  | pure a s => exact hs
  | raise e s => exact hs
  | op c hok hex _ ih =>
    cases hp with
    | op ho hk => exact ih (hk _) (hstep ho hs hex)

/-- Run a program alone. There is no result where it forks, joins, diverges or is kept waiting. -/
def run? (M : Sem S) (i : Nat) (c : M.Choice) : Prog S α → M.State → Option (Except S.Err α × M.State)
  | .pure a, s => some (.ok a, s)
  | .raise e, s => some (.error e, s)
  | .op o k, s => (M.exec i o c s).bind fun p => run? M i c (k p.1) p.2
  | _, _ => none

theorem of_run? {c : M.Choice} {p : Prog S α} {res : Except S.Err α} {s' : M.State} :
    ∀ {s : M.State}, run? M i c p s = some (res, s') → Eval M i (fun _ _ c' => c' = c) p s res s' := by
  induction p with
  | pure a =>
    intro s h
    cases h
    exact .pure a _
  | raise e =>
    intro s h
    cases h
    exact .raise e _
  | op o k ih =>
    intro s h
    obtain ⟨⟨r, s₁⟩, hex, hrest⟩ := Option.bind_eq_some_iff.mp h
    exact .op c rfl hex (ih r hrest)
  | _ =>
    intro s h
    cases h

/-- The moves of one task that is always given the same choice. -/
abbrev Moves (i : Nat) (ch : M.Choice) (_ : Config M) (act : Action M) : Prop := act = .task i ch

private theorem set_self {xs : List β} {x : β} (h : xs[i]? = some x) : xs.set i x = xs := by
  obtain ⟨hlt, rfl⟩ := List.getElem?_eq_some_iff.mp h
  exact List.set_getElem_self hlt

private theorem getElem?_resume {cfg : Config M} {t : Task S} (h : cfg.tasks[i]? = some t)
    (c : M.Choice) (j : S.Job) (p : Prog S S.Val) :
    (cfg.resume i c j p s).tasks[i]? = some ⟨j, (M.settle i c p s).1⟩ :=
  List.getElem?_set_self (List.getElem?_eq_some_iff.mp h).1

private theorem run_settled {ch : M.Choice} {p : Prog S S.Val} {res : Except S.Err S.Val}
    (h : Eval M i (fun _ _ c => c = ch) p s res s') :
    ∀ {cfg : Config M} {j : S.Job}, cfg.tasks[i]? = some ⟨j, (M.settle i ch p s).1⟩ →
      cfg.state = (M.settle i ch p s).2 → ∃ cfg', Config.Run (Moves i ch) cfg cfg' ∧
        cfg'.state = s' ∧ cfg'.tasks = cfg.tasks.set i ⟨j, .lift res⟩ := by
  induction h with
  | pure a s =>
    intro cfg j hi hs
    refine ⟨cfg, .refl _, hs, ?_⟩
    exact (set_self hi).symm
  | raise e s =>
    intro cfg j hi hs
    refine ⟨cfg, .refl _, hs, ?_⟩
    exact (set_self hi).symm
  | @op o k s s₁ s₂ r res c hok hex _ ih =>
    subst hok
    intro cfg j hi hs
    cases hl : M.isLocal o with
    | true =>
      simp only [Sem.settle, hl, if_true, hex] at hi hs
      exact ih hi hs
    | false =>
      simp only [Sem.settle, hl, Bool.false_eq_true, if_false] at hi hs
      have hstep : cfg.step (.task i c) = some (cfg.resume i c j (k r) s₁) := by
        simp only [Config.step, Config.stepTask, hi, hs, hex, Option.map_some]
      obtain ⟨cfg', hrun, hstate, htasks⟩ := ih (getElem?_resume hi c j (k r)) rfl
      refine ⟨cfg', (Config.Run.step _ (.refl cfg) rfl hstep).trans hrun, hstate, ?_⟩
      rw [htasks, Config.resume, List.set_set]

/-- A task that evaluates alone can be run to its end. -/
theorem run {ch : M.Choice} {p : Prog S S.Val} {res : Except S.Err S.Val} {cfg : Config M}
    {j : S.Job} (h : Eval M i (fun _ _ c => c = ch) p cfg.state res s')
    (hi : cfg.tasks[i]? = some ⟨j, p⟩) : ∃ cfg', Config.Run (Moves i ch) cfg cfg' ∧
      cfg'.state = s' ∧ cfg'.tasks = cfg.tasks.set i ⟨j, .lift res⟩ := by
  cases h with
  | pure a => exact run_settled (.pure a cfg.state) hi rfl
  | raise e => exact run_settled (.raise e cfg.state) hi rfl
  | @op o k _ s₁ _ r _ c hok hex hrest =>
    subst hok
    have hstep : cfg.step (.task i c) = some (cfg.resume i c j (k r) s₁) := by
      simp only [Config.step, Config.stepTask, hi, hex, Option.map_some]
    obtain ⟨cfg', hrun, hstate, htasks⟩ := run_settled hrest (getElem?_resume hi c j (k r)) rfl
    refine ⟨cfg', (Config.Run.step _ (.refl cfg) rfl hstep).trans hrun, hstate, ?_⟩
    rw [htasks, Config.resume, List.set_set]

end Eval

end Async

import A2AEvents.ForStd.Chronicle

/-!
# Runs that are interrupted

A crash stops every task that has not ended, and where it stood is lost. A memory of the pool is the
pool without the loss: the stopped tasks are still at the places where they were. Whatever the pool
does, its memory can do, since a stopped task neither moves nor answers a join. So a run with crashes
has a chronicle, too: the chronicle of its memory.

## Key results

- `Recalls.step`, `Recalls.crash`: the memory follows the pool
- `Recalls.run`: a run with crashes is recalled by a pool with a chronicle
-/

namespace Async

variable {S : Sig} {M : Sem S}

/-- The second task is where the first one is, or where the first one was when it was stopped. -/
structure Task.Recalls (t m : Task S) : Prop where
  job : m.job = t.job
  prog : t.prog = m.prog ∨ (t.prog = .diverge ∧ m.prog.finished = false)

/-- The second pool is a memory of the first one. -/
structure Recalls (c m : Config M) : Prop where
  state : m.state = c.state
  raised : m.raised = c.raised
  length : m.tasks.length = c.tasks.length
  tasks : ∀ (i : Nat) (t t' : Task S), c.tasks[i]? = some t → m.tasks[i]? = some t' → t.Recalls t'

theorem Task.Recalls.refl (t : Task S) : t.Recalls t := ⟨rfl, .inl rfl⟩

theorem Task.Recalls.eq {t m : Task S} (h : t.Recalls m) (hprog : t.prog = m.prog) : t = m := by
  obtain ⟨job, prog⟩ := t
  obtain ⟨job', prog'⟩ := m
  cases h.job
  cases hprog
  rfl

theorem Recalls.refl (c : Config M) : Recalls c c where
  state := rfl
  raised := rfl
  length := rfl
  tasks := by
    intro i t t' ht ht'
    rw [ht] at ht'
    cases ht'
    exact .refl t

namespace Recalls

variable {c c' m : Config M} {i : Nat} {t : Task S}

theorem remembered (h : Recalls c m) (ht : c.tasks[i]? = some t) : ∃ t', m.tasks[i]? = some t' ∧ t.Recalls t' := by
  have hlt : i < m.tasks.length := by
    rw [h.length]
    exact (List.getElem?_eq_some_iff.mp ht).1
  exact ⟨m.tasks[i], List.getElem?_eq_getElem hlt, h.tasks i t _ ht (List.getElem?_eq_getElem hlt)⟩

/-- A task that was not stopped is where it is remembered. -/
theorem moving (h : Recalls c m) (ht : c.tasks[i]? = some t) (hprog : t.prog ≠ .diverge) : m.tasks[i]? = some t := by
  obtain ⟨t', ht', hrecalls⟩ := h.remembered ht
  rcases hrecalls.prog with hsame | ⟨hstopped, -⟩
  · rw [ht', hrecalls.eq hsame]
  · exact absurd hstopped hprog

/-- What the task has returned. -/
private def value (t : Task S) : Option S.Val :=
  match t.prog with
  | .pure v => some v
  | _ => none

private theorem bind_value (h : Recalls c m) (i : Nat) : m.tasks[i]?.bind value = c.tasks[i]?.bind value := by
  cases ht : c.tasks[i]? with
  | none =>
    have hge := List.getElem?_eq_none_iff.mp ht
    rw [← h.length] at hge
    rw [List.getElem?_eq_none_iff.mpr hge]
  | some t =>
    obtain ⟨t', ht', hrecalls⟩ := h.remembered ht
    rw [ht', Option.bind_some, Option.bind_some]
    rcases hrecalls.prog with hsame | ⟨hstopped, hrunning⟩
    · rw [hrecalls.eq hsame]
    · -- neither has returned
      obtain ⟨job, prog⟩ := t'
      rw [value, value, hstopped]
      cases prog with
      | pure v => cases hrunning
      | _ => rfl

/-- The answer of a join: the exception of the task that failed first, or the values of all of them. -/
private def answer (failed : Option (Task S)) (values : Option (List S.Val)) : Option (Except S.Err (List S.Val)) :=
  match failed with
  | some ⟨_, .raise e⟩ => some (.error e)
  | _ => values.map .ok

private theorem joinResult_eq (c : Config M) (ids : List Nat) : c.joinResult ids =
    answer ((c.raised.find? fun i => i ∈ ids).bind fun i => c.tasks[i]?) (ids.mapM fun i => c.tasks[i]?.bind value) :=
  rfl

/-- A join is answered as it is remembered. -/
theorem joinResult (h : Recalls c m) (ids : List Nat) : m.joinResult ids = c.joinResult ids := by
  rw [joinResult_eq, joinResult_eq, h.raised, funext h.bind_value]
  -- the exception is the one of the first task that failed
  cases hfailed : c.raised.find? fun i => i ∈ ids with
  | none => rfl
  | some n =>
    rw [Option.bind_some, Option.bind_some]
    cases ht : c.tasks[n]? with
    | none =>
      have hge := List.getElem?_eq_none_iff.mp ht
      rw [← h.length] at hge
      rw [List.getElem?_eq_none_iff.mpr hge]
    | some t =>
      obtain ⟨t', ht', hrecalls⟩ := h.remembered ht
      rw [ht']
      rcases hrecalls.prog with hsame | ⟨hstopped, hrunning⟩
      · rw [hrecalls.eq hsame]
      · obtain ⟨job, prog⟩ := t
        obtain ⟨job', prog'⟩ := t'
        cases hstopped
        cases prog' with
        | raise e => cases hrunning
        | _ => rfl

/-- A move is remembered. -/
theorem resume (h : Recalls c m) (i : Nat) (ch : M.Choice) (j : S.Job) (p : Prog S S.Val) (s : M.State) :
    Recalls (c.resume i ch j p s) (m.resume i ch j p s) where
  state := rfl
  raised := by
    unfold Config.resume
    rw [h.raised]
  length := by
    rw [Config.resume, Config.resume, List.length_set, List.length_set]
    exact h.length
  tasks := by
    intro n t t' ht ht'
    rw [Config.resume] at ht ht'
    by_cases hn : i = n
    · subst hn
      have hlt := (List.getElem?_eq_some_iff.mp ht).1
      have hlt' := (List.getElem?_eq_some_iff.mp ht').1
      rw [List.length_set] at hlt hlt'
      rw [List.getElem?_set_self hlt] at ht
      rw [List.getElem?_set_self hlt'] at ht'
      cases ht
      cases ht'
      exact .refl _
    · rw [List.getElem?_set_ne hn] at ht ht'
      exact h.tasks n t t' ht ht'

/-- New tasks are remembered. -/
theorem enter (h : Recalls c m) (ts : List (Task S)) :
    Recalls { c with tasks := c.tasks ++ ts } { m with tasks := m.tasks ++ ts } where
  state := h.state
  raised := h.raised
  length := by
    rw [List.length_append, List.length_append, h.length]
  tasks := by
    intro n t t' ht ht'
    rcases Nat.lt_or_ge n c.tasks.length with hl | hl
    · rw [List.getElem?_append_left hl] at ht
      rw [List.getElem?_append_left (by rw [h.length]; exact hl)] at ht'
      exact h.tasks n t t' ht ht'
    · rw [List.getElem?_append_right hl] at ht
      rw [List.getElem?_append_right (by rw [h.length]; exact hl), h.length, ht] at ht'
      cases ht'
      exact .refl t

/-- What the pool does, its memory does. -/
theorem step (h : Recalls c m) {act : Action M} (hact : act ≠ .crash) (hstep : c.step act = some c') :
    ∃ m', m.step act = some m' ∧ Recalls c' m' := by
  cases act with
  | crash => exact absurd rfl hact
  | start j =>
    cases hstep
    exact ⟨_, rfl, h.enter [M.spawn j]⟩
  | env e =>
    obtain ⟨s, hs, rfl⟩ := Option.map_eq_some_iff.mp hstep
    refine ⟨{ m with state := s }, ?_, ⟨rfl, h.raised, h.length, h.tasks⟩⟩
    simp only [Config.step, h.state, hs, Option.map_some]
  | task i ch =>
    simp only [Config.step, Config.stepTask] at hstep ⊢
    cases ht : c.tasks[i]? with
    | none => simp [ht] at hstep
    | some t =>
      simp only [ht] at hstep
      -- a task that moves was not stopped
      have hm : t.prog ≠ .diverge → m.tasks[i]? = some t := h.moving ht
      cases hprog : t.prog with
      | pure v => simp [hprog] at hstep
      | raise e => simp [hprog] at hstep
      | diverge => simp [hprog] at hstep
      | op o k =>
        simp only [hprog] at hstep
        obtain ⟨p, hex, rfl⟩ := Option.map_eq_some_iff.mp hstep
        rw [hm (by simp [hprog])]
        simp only [hprog, h.state, hex, Option.map_some]
        exact ⟨_, rfl, h.resume _ _ _ _ _⟩
      | fork js k =>
        simp only [hprog] at hstep
        cases hstep
        rw [hm (by simp [hprog])]
        simp only [hprog, h.length, h.state]
        exact ⟨_, rfl, (h.enter _).resume _ _ _ _ _⟩
      | join ids k =>
        simp only [hprog] at hstep
        obtain ⟨r, hr, rfl⟩ := Option.map_eq_some_iff.mp hstep
        rw [hm (by simp [hprog])]
        simp only [hprog, h.joinResult, hr, h.state, Option.map_some]
        exact ⟨_, rfl, h.resume _ _ _ _ _⟩

/-- A crash stops the tasks, but not in the memory. -/
theorem crash (h : Recalls c m) (hstep : c.step .crash = some c') :
    Recalls c' { m with state := M.restart m.state } := by
  cases hstep
  refine ⟨congrArg M.restart h.state, h.raised, by rw [List.length_map]; exact h.length, ?_⟩
  intro i t t' ht ht'
  obtain ⟨t₀, ht₀, rfl⟩ := Option.map_eq_some_iff.mp ((List.getElem?_map ..).symm.trans ht)
  have hrecalls := h.tasks i t₀ t' ht₀ ht'
  split
  · exact hrecalls
  · rename_i hrunning
    refine ⟨hrecalls.job, .inr ⟨rfl, ?_⟩⟩
    -- it was not ended, neither here nor in the memory
    rcases hrecalls.prog with hsame | ⟨-, hstopped⟩
    · rw [← hsame]
      simpa using hrunning
    · exact hstopped

end Recalls

/-- A restart is none of the deeds. -/
theorem Chronicle.restart {c : Config M.traced} {ds : List (Deed M)} (h : Chronicle c ds) :
    Chronicle { c with state := M.traced.restart c.state } ds :=
  ⟨h.trace, h.known, h.takes, h.forked, h.joined⟩

/-- The memory of a run with crashes has a chronicle. -/
theorem Recalls.run {c c' m : Config M.traced} {ds : List (Deed M)} {ok : Config M.traced → Action M.traced → Prop}
    (h : Recalls c m) (hm : Chronicle m ds) (hrun : Config.Run ok c c') :
    ∃ m' ds', Recalls c' m' ∧ Chronicle m' (ds ++ ds') := by
  induction hrun with
  | refl => exact ⟨m, [], h, by rw [List.append_nil]; exact hm⟩
  | @step b c' act _ _ hstep ih =>
    obtain ⟨m', ds', h', hm'⟩ := ih
    by_cases hact : act = .crash
    · subst hact
      exact ⟨_, ds', h'.crash hstep, hm'.restart⟩
    · obtain ⟨m'', hstep', h''⟩ := h'.step hact hstep
      obtain ⟨ds'', hm''⟩ := hm'.step hact hstep'
      exact ⟨m'', ds' ++ ds'', h'', by rw [← List.append_assoc]; exact hm''⟩

end Async

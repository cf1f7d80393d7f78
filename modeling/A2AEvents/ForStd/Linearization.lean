import A2AEvents.ForStd.Raising
import A2AEvents.ForStd.Recollection

/-!
# Operations that are calls

Many tasks work on a shared state, and some of their operations are calls of a simpler machine: each takes
place at once, and the others change nothing that the simpler machine knows of. Then the state is explained
by the calls that took place, one after the other, and so is every state that an operation found.

## Key results

- `Linearization.Explains.next`: an operation that does what its call does keeps the state explained
- `Linearization.calls_split`: the calls up to a place and from there on
- `Remembers.of_run`: after any run, with crashes too, it is known what each task has done
- `Remembers.madeOnce`: a task that has returned from a call made it, and no other one
-/

namespace Async

variable {S : Sig} {M : Sem S} {κ σ : Type}

/-- The last of some places is the new one, or all of them were there before. -/
theorem concat_eq_cases {γ : Type} {l before after : List γ} {x e : γ} (h : l ++ [x] = before ++ e :: after) :
    (before = l ∧ e = x) ∨ ∃ mid, l = before ++ e :: mid := by
  rcases List.append_eq_append_iff.mp h with ⟨mid, hbefore, hrest⟩ | ⟨mid, hl, hrest⟩
  · cases mid with
    | nil =>
      rw [List.append_nil] at hbefore
      exact .inl ⟨hbefore, (List.cons.inj hrest).1.symm⟩
    | cons y ys => simp at hrest
  · cases mid with
    | nil =>
      rw [List.append_nil] at hl
      exact .inl ⟨hl.symm, (List.cons.inj hrest).1⟩
    | cons y mid =>
      obtain ⟨rfl, -⟩ := List.cons.inj hrest
      exact .inr ⟨mid, hl⟩

/-- Of two different places in a list one comes first. -/
theorem split_cases {γ : Type} {before after before' after' : List γ} {x y : γ}
    (h : before ++ x :: after = before' ++ y :: after') (hne : x ≠ y) :
    (∃ mid, before' = before ++ x :: mid ∧ after = mid ++ y :: after') ∨
      ∃ mid, before = before' ++ y :: mid ∧ after' = mid ++ x :: after := by
  rcases List.append_eq_append_iff.mp h with ⟨mid, hbefore, hrest⟩ | ⟨mid, hbefore, hrest⟩
  · cases mid with
    | nil => exact absurd (List.cons.inj hrest).1 hne
    | cons z mid =>
      obtain ⟨rfl, hafter⟩ := List.cons.inj hrest
      exact .inl ⟨mid, hbefore, hafter⟩
  · cases mid with
    | nil => exact absurd (List.cons.inj hrest).1.symm hne
    | cons z mid =>
      obtain ⟨rfl, hafter⟩ := List.cons.inj hrest
      exact .inr ⟨mid, hbefore, hafter⟩

/-- Which operations are calls, what a call does, and what the simpler machine knows of a state. -/
structure Linearization (M : Sem S) (κ σ : Type) where
  call? : M.Entry → Option κ
  apply : σ → κ → σ
  view : M.State → σ
  start : σ

namespace Linearization

variable {L : Linearization M κ σ}

/-- The calls that took place. -/
def calls (L : Linearization M κ σ) (trace : List M.Entry) : List κ := trace.filterMap L.call?

/-- The simpler machine after them. -/
def after (L : Linearization M κ σ) (trace : List M.Entry) : σ := (L.calls trace).foldl L.apply L.start

theorem calls_append (l l' : List M.Entry) : L.calls (l ++ l') = L.calls l ++ L.calls l' :=
  List.filterMap_append

theorem calls_concat (l : List M.Entry) (e : M.Entry) : L.calls (l ++ [e]) = L.calls l ++ (L.call? e).toList := by
  rw [calls_append]
  cases hcall : L.call? e <;> simp [calls, hcall]

theorem after_append (l l' : List M.Entry) : L.after (l ++ l') = (L.calls l').foldl L.apply (L.after l) := by
  rw [after, calls_append, List.foldl_append, after]

/-- The calls up to a place and from there on. -/
theorem calls_split {trace before later : List M.Entry} {e : M.Entry} (h : trace = before ++ e :: later) :
    L.calls trace = L.calls before ++ ((L.call? e).toList ++ L.calls later) := by
  rw [h, calls_append, ← List.singleton_append, calls_append]
  cases hcall : L.call? e <;> simp [calls, hcall]

/-- The calls explain the state, and the states that the operations found. -/
structure Explains (L : Linearization M κ σ) (s : M.Traced) : Prop where
  now : L.view s.state = L.after s.trace
  found : ∀ before e later, s.trace = before ++ e :: later → L.view e.before = L.after before

/-- Nothing has happened yet. -/
theorem Explains.initial {w : M.State} (h : L.view w = L.start) : L.Explains ⟨w, []⟩ where
  now := h
  found := fun before e later heq => absurd heq (by simp)

/-- An operation that does what its call does. -/
theorem Explains.next {s : M.Traced} (h : L.Explains s) {i : Nat} {o : S.Op} {r : S.Res o} {w : M.State}
    (hw : L.view w = (L.call? ⟨i, o, r, s.state⟩).toList.foldl L.apply (L.view s.state)) :
    L.Explains ⟨w, s.trace ++ [⟨i, o, r, s.state⟩]⟩ where
  now := by
    rw [hw, h.now, after, after, calls_concat, List.foldl_append]
  found := by
    intro before e later heq
    rcases concat_eq_cases heq with ⟨rfl, rfl⟩ | ⟨mid, hmid⟩
    · exact h.now
    · exact h.found before e mid hmid

/-- A change that the simpler machine does not see. -/
theorem Explains.unseen {s : M.Traced} (h : L.Explains s) {w : M.State} (hw : L.view w = L.view s.state) :
    L.Explains ⟨w, s.trace⟩ where
  now := hw.trans h.now
  found := h.found

/-- The task made this call when those before it had been made, and it made no other one. -/
def MadeOnce (L : Linearization M κ σ) (trace before : List M.Entry) (i : Nat) (call : κ) : Prop :=
  ∃ e after, trace = before ++ e :: after ∧ e.task = i ∧ L.call? e = some call ∧
    ∀ e' ∈ before ++ after, e'.task = i → L.call? e' = none

end Linearization

/-! ## What the tasks did -/

/-- The deeds of a run: they lead every task that was not stopped to the place where it stands. -/
structure Remembers (c : Config M.traced) (ds : List (Deed M)) : Prop where
  trace : entriesOf ds = c.state.trace
  takes : ∀ i t, c.tasks[i]? = some t → t.prog ≠ .diverge → (M.code t.job).Takes (movesOf i ds) t.prog
  moves : ∀ e ∈ c.state.trace, .op e.op e.res ∈ movesOf e.task ds
  tasks : ∀ e ∈ c.state.trace, ∃ t p, c.tasks[e.task]? = some t ∧ (M.code t.job).Takes (movesOf e.task ds) p

namespace Remembers

variable {c : Config M.traced} {ds : List (Deed M)} {i : Nat}

theorem of_run {a : Config M.traced} {ok : Config M.traced → Action M.traced → Prop} (htasks : a.tasks = [])
    (htrace : a.state.trace = []) (hrun : Config.Run ok a c) : ∃ ds, Remembers c ds := by
  obtain ⟨m, ds, hrecalls, hchronicle⟩ := (Recalls.refl a).run (Chronicle.initial htasks htrace) hrun
  have hsame : m.state.trace = c.state.trace := congrArg Sem.Traced.trace hrecalls.state
  rw [List.nil_append] at hchronicle
  have hmoves : ∀ e ∈ c.state.trace, .op e.op e.res ∈ movesOf e.task ds :=
    fun e he => hchronicle.mem_moves (hsame ▸ he)
  refine ⟨ds, hchronicle.trace.trans hsame, fun i t ht hprog => ?_, hmoves, fun e he => ?_⟩
  · exact hchronicle.takes i t (hrecalls.moving ht hprog)
  · -- a task with a move is one of the pool
    obtain ⟨d, hd, -⟩ := List.mem_map.mp (hmoves e he)
    obtain ⟨hd, htask⟩ := List.mem_filter.mp hd
    have hlt : e.task < m.tasks.length := by
      rw [← of_decide_eq_true htask]
      exact hchronicle.known d hd
    have hget := List.getElem?_eq_getElem hlt
    rw [hrecalls.length] at hlt
    have hget' := List.getElem?_eq_getElem hlt
    refine ⟨_, m.tasks[e.task].prog, hget', ?_⟩
    rw [← (hrecalls.tasks e.task _ _ hget' hget).job]
    exact hchronicle.takes e.task _ hget

theorem returned (h : Remembers c ds) {j : S.Job} {v : S.Val} (ht : c.tasks[i]? = some ⟨j, .pure v⟩) :
    (M.code j).Returns (movesOf i ds) v :=
  h.takes i _ ht (by simp)

theorem raised (h : Remembers c ds) {j : S.Job} {e : S.Err} (ht : c.tasks[i]? = some ⟨j, .raise e⟩) :
    (M.code j).Raises (movesOf i ds) e :=
  h.takes i _ ht (by simp)

/-- What a task performs is what its job may perform. -/
theorem asks (h : Remembers c ds) {P : S.Job → S.Op → Prop} (hcode : ∀ j, (M.code j).Only (P j)) {e : M.Entry}
    (he : e ∈ c.state.trace) : ∃ t, c.tasks[e.task]? = some t ∧ P t.job e.op := by
  obtain ⟨t, p, ht, htakes⟩ := h.tasks e he
  exact ⟨t, ht, (hcode t.job).takes htakes e.op e.res (h.moves e he)⟩

/-- The entries of a task are its moves. -/
theorem entry (h : Remembers c ds) {o : S.Op} {r : S.Res o} (hmem : .op o r ∈ movesOf i ds) :
    ∃ w, (⟨i, o, r, w⟩ : M.Entry) ∈ c.state.trace := by
  obtain ⟨w, before, after, hentries⟩ := exists_entry hmem
  refine ⟨w, ?_⟩
  rw [← h.trace, hentries]
  exact List.mem_append_right _ (.head _)

/-- A task whose other moves are no calls has made its call once. -/
theorem madeOnce (h : Remembers c ds) {L : Linearization M κ σ} {P : List M.Entry → κ → Prop} {o : S.Op} {r : S.Res o}
    {l l' : List (Move S)} (hmoves : movesOf i ds = l ++ .op o r :: l')
    (hcall : ∀ before w after, c.state.trace = before ++ ⟨i, o, r, w⟩ :: after →
      ∃ call, P before call ∧ L.call? ⟨i, o, r, w⟩ = some call)
    (hothers : ∀ e : M.Entry, .op e.op e.res ∈ l ++ l' → L.call? e = none) :
    ∃ before call, P before call ∧ L.MadeOnce c.state.trace before i call := by
  obtain ⟨before, w, after, htrace, hown⟩ := entries_around hmoves
  rw [h.trace] at htrace
  obtain ⟨call, hP, hcall⟩ := hcall before w after htrace
  exact ⟨before, call, hP, _, after, htrace, rfl, hcall, fun e he htask => hothers e (hown e he htask)⟩

end Remembers

end Async

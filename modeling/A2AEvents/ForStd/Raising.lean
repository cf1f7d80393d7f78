import A2AEvents.ForStd.Chronicle
import A2AEvents.ForStd.Eval

/-!
# Moves of a program that raises

The counterpart of `Prog.Returns`: what a program has done when it ends with an exception, part by part.

## Key results

- `Prog.raises_bind`: a composed program raises in its first part or in its second one
- `Prog.returns_attempt`: an attempt returns what the program came to
- `Prog.Only.takes`: the moves of a program that performs operations of one kind only
- `entries_around`: a call of a task, with its other calls before and after it
-/

namespace Async

variable {S : Sig} {α β : Type}

namespace Prog

variable {l : List (Move S)} {e : S.Err}

/-- The program makes exactly these moves and raises. -/
abbrev Raises (p : Prog S α) (l : List (Move S)) (e : S.Err) : Prop := p.Takes l (.raise e)

theorem not_raises_pure {a : α} : ¬ (Prog.pure a : Prog S α).Raises l e := by
  intro h
  cases h

theorem raises_raise {e' : S.Err} : (Prog.raise e' : Prog S α).Raises l e ↔ l = [] ∧ e' = e := by
  constructor
  · intro h
    cases h
    exact ⟨rfl, rfl⟩
  · rintro ⟨rfl, rfl⟩
    exact .refl _

theorem not_raises_diverge : ¬ (Prog.diverge : Prog S α).Raises l e := by
  intro h
  cases h

theorem raises_op {o : S.Op} {k : S.Res o → Prog S α} :
    (Prog.op o k).Raises l e ↔ ∃ r l', l = .op o r :: l' ∧ (k r).Raises l' e := by
  constructor
  · intro h
    cases h with
    | op h => exact ⟨_, _, rfl, h⟩
  · rintro ⟨r, l', rfl, h⟩
    exact .op h

theorem raises_fork {js : List S.Job} {k : List Nat → Prog S α} :
    (Prog.fork js k).Raises l e ↔ ∃ ids l', l = .fork js ids :: l' ∧ (k ids).Raises l' e := by
  constructor
  · intro h
    cases h with
    | fork h => exact ⟨_, _, rfl, h⟩
  · rintro ⟨ids, l', rfl, h⟩
    exact .fork h

theorem raises_join {ids : List Nat} {k : Except S.Err (List S.Val) → Prog S α} :
    (Prog.join ids k).Raises l e ↔ ∃ r l', l = .join ids r :: l' ∧ (k r).Raises l' e := by
  constructor
  · intro h
    cases h with
    | join h => exact ⟨_, _, rfl, h⟩
  · rintro ⟨r, l', rfl, h⟩
    exact .join h

theorem raises_lift {x : Except S.Err α} : (lift x).Raises l e ↔ l = [] ∧ x = .error e := by
  cases x with
  | ok a => simp [not_raises_pure]
  | error e' => simp [raises_raise]

/-- The first of two programs in sequence raises, or it returns and the second one raises. -/
theorem raises_bind {p : Prog S α} {f : α → Prog S β} :
    (p >>= f).Raises l e ↔ p.Raises l e ∨ ∃ l₁ a l₂, l = l₁ ++ l₂ ∧ p.Returns l₁ a ∧ (f a).Raises l₂ e := by
  constructor
  · induction p generalizing l with
    | pure a => exact fun h => .inr ⟨[], a, l, rfl, .refl _, h⟩
    | raise e' =>
      intro h
      obtain ⟨rfl, rfl⟩ := raises_raise.mp h
      exact .inl (.refl _)
    | diverge => exact fun h => absurd h not_raises_diverge
    | op o k ih =>
      intro h
      obtain ⟨r, l', rfl, hrest⟩ := raises_op.mp h
      rcases ih r hrest with hraises | ⟨l₁, a, l₂, rfl, h₁, h₂⟩
      · exact .inl (.op hraises)
      · exact .inr ⟨.op o r :: l₁, a, l₂, rfl, .op h₁, h₂⟩
    | fork js k ih =>
      intro h
      obtain ⟨ids, l', rfl, hrest⟩ := raises_fork.mp h
      rcases ih ids hrest with hraises | ⟨l₁, a, l₂, rfl, h₁, h₂⟩
      · exact .inl (.fork hraises)
      · exact .inr ⟨.fork js ids :: l₁, a, l₂, rfl, .fork h₁, h₂⟩
    | join ids k ih =>
      intro h
      obtain ⟨r, l', rfl, hrest⟩ := raises_join.mp h
      rcases ih r hrest with hraises | ⟨l₁, a, l₂, rfl, h₁, h₂⟩
      · exact .inl (.join hraises)
      · exact .inr ⟨.join ids r :: l₁, a, l₂, rfl, .join h₁, h₂⟩
  · rintro (h | ⟨l₁, a, l₂, rfl, h₁, h₂⟩)
    · -- the rest is skipped
      induction p generalizing l with
      | pure a => exact absurd h not_raises_pure
      | raise e' =>
        obtain ⟨rfl, rfl⟩ := raises_raise.mp h
        exact .refl _
      | diverge => exact absurd h not_raises_diverge
      | op o k ih =>
        obtain ⟨r, l', rfl, hrest⟩ := raises_op.mp h
        exact .op (ih r hrest)
      | fork js k ih =>
        obtain ⟨ids, l', rfl, hrest⟩ := raises_fork.mp h
        exact .fork (ih ids hrest)
      | join ids k ih =>
        obtain ⟨r, l', rfl, hrest⟩ := raises_join.mp h
        exact .join (ih r hrest)
    · induction p generalizing l₁ with
      | pure a' =>
        obtain ⟨rfl, rfl⟩ := returns_pure.mp h₁
        exact h₂
      | raise e' => exact absurd h₁ not_returns_raise
      | diverge => exact absurd h₁ not_returns_diverge
      | op o k ih =>
        obtain ⟨r, l', rfl, hrest⟩ := returns_op.mp h₁
        exact .op (ih r l' hrest)
      | fork js k ih =>
        obtain ⟨ids, l', rfl, hrest⟩ := returns_fork.mp h₁
        exact .fork (ih ids l' hrest)
      | join ids k ih =>
        obtain ⟨r, l', rfl, hrest⟩ := returns_join.mp h₁
        exact .join (ih r l' hrest)

/-- An attempt returns what the program came to. -/
theorem returns_attempt {p : Prog S α} {r : Except S.Err α} (h : p.attempt.Returns l r) : p.Takes l (lift r) := by
  induction p generalizing l with
  | pure a =>
    obtain ⟨rfl, rfl⟩ := returns_pure.mp h
    exact .refl _
  | raise e' =>
    obtain ⟨rfl, rfl⟩ := returns_pure.mp h
    exact .refl _
  | diverge => exact absurd h not_returns_diverge
  | op o k ih =>
    obtain ⟨a, l', rfl, hrest⟩ := returns_op.mp h
    exact .op (ih a hrest)
  | fork js k ih =>
    obtain ⟨ids, l', rfl, hrest⟩ := returns_fork.mp h
    exact .fork (ih ids hrest)
  | join ids k ih =>
    obtain ⟨a, l', rfl, hrest⟩ := returns_join.mp h
    exact .join (ih a hrest)

/-- An attempt does not raise. -/
theorem not_raises_attempt {p : Prog S α} : ¬ p.attempt.Raises l e := by
  intro h
  induction p generalizing l with
  | pure a => exact not_raises_pure h
  | raise e' => exact not_raises_pure h
  | diverge => exact not_raises_diverge h
  | op o k ih =>
    obtain ⟨a, l', rfl, hrest⟩ := raises_op.mp h
    exact ih a hrest
  | fork js k ih =>
    obtain ⟨ids, l', rfl, hrest⟩ := raises_fork.mp h
    exact ih ids hrest
  | join ids k ih =>
    obtain ⟨a, l', rfl, hrest⟩ := raises_join.mp h
    exact ih a hrest

/-- The moves of a program that performs operations of one kind only. -/
theorem Only.takes {P : S.Op → Prop} {p q : Prog S α} (hp : p.Only P) (h : p.Takes l q) :
    ∀ o r, .op o r ∈ l → P o := by
  induction h with
  | refl => exact fun _ _ hmem => by cases hmem
  | op h ih =>
    cases hp with
    | op ho hk =>
      intro o r hmem
      rcases List.mem_cons.mp hmem with heq | hmem
      · cases heq
        exact ho
      · exact ih (hk _) o r hmem
  | fork h ih =>
    cases hp with
    | fork hk =>
      intro o r hmem
      rcases List.mem_cons.mp hmem with heq | hmem
      · cases heq
      · exact ih (hk _) o r hmem
  | join h ih =>
    cases hp with
    | join hk =>
      intro o r hmem
      rcases List.mem_cons.mp hmem with heq | hmem
      · cases heq
      · exact ih (hk _) o r hmem

end Prog

/-! ## One move among the others -/

section Entries

variable {M : Sem S} {ds : List (Deed M)} {i : Nat} {l l' : List (Move S)}

theorem movesOf_call (e : M.Entry) (ds : List (Deed M)) :
    movesOf e.task (.call e :: ds) = .op e.op e.res :: movesOf e.task ds := by
  simp [movesOf, Deed.task, Deed.move]

/-- An entry of the task is one of its moves. -/
theorem op_mem_movesOf {e : M.Entry} (he : e ∈ entriesOf ds) (htask : e.task = i) : .op e.op e.res ∈ movesOf i ds := by
  obtain ⟨d, hd, hentry⟩ := List.mem_filterMap.mp he
  cases d with
  | call e' =>
    cases hentry
    exact List.mem_map.mpr ⟨.call e, List.mem_filter.mpr ⟨hd, decide_eq_true htask⟩, rfl⟩
  | fork => cases hentry
  | join => cases hentry

/-- A call among the moves of a task is an entry, and its other entries are its other moves. -/
theorem entries_around {o : S.Op} {r : S.Res o} (h : movesOf i ds = l ++ .op o r :: l') :
    ∃ before w after, entriesOf ds = before ++ ⟨i, o, r, w⟩ :: after ∧
      ∀ e ∈ before ++ after, e.task = i → .op e.op e.res ∈ l ++ l' := by
  obtain ⟨ds₁, ds₂, rfl, rfl, hrest⟩ := movesOf_eq_append h
  obtain ⟨ds₃, w, ds₄, rfl, rfl⟩ := movesOf_eq_op hrest
  have hcall : movesOf i (.call ⟨i, o, r, w⟩ :: ds₄) = .op o r :: movesOf i ds₄ := movesOf_call ⟨i, o, r, w⟩ ds₄
  have hmid : movesOf i ds₃ = [] := by
    rw [movesOf_append, hcall] at hrest
    exact List.append_left_eq_self.mp hrest
  refine ⟨entriesOf (ds₁ ++ ds₃), w, entriesOf ds₄, ?_, fun e he htask => ?_⟩
  · rw [← List.append_assoc, entriesOf_append]
    rfl
  · rcases List.mem_append.mp he with he | he
    · have hmove := op_mem_movesOf he htask
      rw [movesOf_append, hmid, List.append_nil] at hmove
      exact List.mem_append_left _ hmove
    · exact List.mem_append_right _ (op_mem_movesOf he htask)

end Entries

end Async

import A2AEvents.ForStd.Eval

/-!
# Confined programs

A program is confined to a part of the state if it performs only operations on that part. As the
operations depend on answers, what the answers are is part of the notion. Run alone, such a program
keeps what the operations keep, and two states that the operations cannot tell apart give the same
results.

## Key results

- `Confined.bind`, `Confined.attempt`: composition rules
- `Eval.confined_keeps`: what the operations keep, the program keeps, and its result is as promised
- `Eval.confined_simulates`: related states give the same results
-/

namespace Async

variable {S : Sig} {M : Sem S} {α β : Type} {i : Nat}

/-- A part of the state, by the operations on it and their answers, and the exceptions of programs that
    are confined to it. -/
structure Part (S : Sig) where
  asks : S.Op → Prop
  answers : (o : S.Op) → S.Res o → Prop
  raises : S.Err → Prop

/-- The program is confined to the part, and ends with a value that satisfies `Q` if it returns. -/
inductive Prog.Confined (R : Part S) (Q : α → Prop) : Prog S α → Prop where
  | pure {a : α} (ha : Q a) : Confined R Q (.pure a)
  | raise {e : S.Err} (he : R.raises e) : Confined R Q (.raise e)
  | op {o : S.Op} {k : S.Res o → Prog S α} (ho : R.asks o) (hk : ∀ r, R.answers o r → Confined R Q (k r)) :
    Confined R Q (.op o k)

namespace Prog.Confined

variable {R : Part S} {P : α → Prop} {Q : β → Prop}

theorem bind {p : Prog S α} {f : α → Prog S β} (hp : p.Confined R P) (hf : ∀ a, P a → (f a).Confined R Q) :
    (p >>= f).Confined R Q := by
  induction hp with
  | pure ha => exact hf _ ha
  | raise he => exact .raise he
  | op ho _ ih => exact .op ho fun r hr => ih r hr

theorem call {o : S.Op} {P : S.Res o → Prop} (ho : R.asks o) (hP : ∀ r, R.answers o r → P r) :
    (Prog.call o).Confined R P :=
  .op ho fun r hr => .pure (hP r hr)

/-- What follows an operation may rely on its answer. -/
theorem call_bind {o : S.Op} {f : S.Res o → Prog S β} (ho : R.asks o)
    (hf : ∀ r, R.answers o r → (f r).Confined R Q) : (Prog.call o >>= f).Confined R Q :=
  .op ho hf

theorem lift {x : Except S.Err α} (hx : ∀ a, x = .ok a → P a) (he : ∀ e, x = .error e → R.raises e) :
    (Prog.lift x).Confined R P := by
  cases x with
  | ok a => exact .pure (hx a rfl)
  | error e => exact .raise (he e rfl)

/-- What follows a computation that may raise. -/
theorem lift_bind {x : Except S.Err α} {f : α → Prog S β} (hf : ∀ a, x = .ok a → (f a).Confined R Q)
    (he : ∀ e, x = .error e → R.raises e) : (Prog.lift x >>= f).Confined R Q := by
  cases x with
  | ok a => exact hf a rfl
  | error e => exact .raise (he e rfl)

theorem mono {P' : α → Prop} {p : Prog S α} (hp : p.Confined R P) (h : ∀ a, P a → P' a) : p.Confined R P' := by
  induction hp with
  | pure ha => exact .pure (h _ ha)
  | raise he => exact .raise he
  | op ho _ ih => exact .op ho ih

theorem attempt {p : Prog S α} (hp : p.Confined R P) :
    p.attempt.Confined R fun x => (∀ a, x = .ok a → P a) ∧ ∀ e, x = .error e → R.raises e := by
  induction hp with
  | pure ha =>
    refine .pure ⟨fun a h => ?_, fun e h => ?_⟩
    · cases h
      exact ha
    · cases h
  | raise he =>
    refine .pure ⟨fun a h => ?_, fun e h => ?_⟩
    · cases h
    · cases h
      exact he
  | op ho _ ih => exact .op ho ih

end Prog.Confined

namespace Eval

variable {ok : M.State → S.Op → M.Choice → Prop} {s s' t : M.State} {R : Part S} {Q : α → Prop}

/-- What the operations keep, the program keeps, and it ends as promised. -/
theorem confined_keeps {I : M.State → Prop} {p : Prog S α} {res : Except S.Err α}
    (hstep : ∀ {s s₁ o c r}, R.asks o → I s → M.exec i o c s = some (r, s₁) → R.answers o r ∧ I s₁)
    (hp : p.Confined R Q) (h : Eval M i ok p s res s') (hs : I s) :
    I s' ∧ (∀ a, res = .ok a → Q a) ∧ ∀ e, res = .error e → R.raises e := by
  induction h with
  | pure a s =>
    cases hp with
    | pure ha =>
      refine ⟨hs, fun b hb => ?_, fun e he => by cases he⟩
      cases hb
      exact ha
  | raise e s =>
    cases hp with
    | raise he =>
      refine ⟨hs, fun b hb => (by cases hb), fun e' he' => ?_⟩
      cases he'
      exact he
  | op c _ hex _ ih =>
    cases hp with
    | op ho hk =>
      obtain ⟨hr, hs₁⟩ := hstep ho hs hex
      exact ih (hk _ hr) hs₁

/-- From a related state, the program has the same result, and the states it ends in are related. -/
theorem confined_simulates {E : M.State → M.State → Prop} {p : Prog S α} {res : Except S.Err α}
    (hstep : ∀ {s s₁ t o c r}, R.asks o → E s t → M.exec i o c s = some (r, s₁) →
      R.answers o r ∧ ∃ t₁, M.exec i o c t = some (r, t₁) ∧ E s₁ t₁)
    (hok : ∀ {s t o c}, E s t → ok s o c → ok t o c) (hp : p.Confined R Q) (h : Eval M i ok p s res s') (hst : E s t) :
    ∃ t', Eval M i ok p t res t' ∧ E s' t' := by
  induction h generalizing t with
  | pure a s => exact ⟨t, .pure a t, hst⟩
  | raise e s => exact ⟨t, .raise e t, hst⟩
  | op c hc hex _ ih =>
    cases hp with
    | op ho hk =>
      obtain ⟨hr, t₁, hex', hst₁⟩ := hstep ho hst hex
      obtain ⟨t', hrest, hst'⟩ := ih (hk _ hr) hst₁
      exact ⟨t', .op c (hok hst hc) hex' hrest, hst'⟩

end Eval

end Async

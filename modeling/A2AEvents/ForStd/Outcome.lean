/-!
# Outcomes

A computation that may raise settles if it returns, or raises an exception of an accepted kind. It
settles step by step: every step that is reached has to.

## Key results

- `settles_bind`: one step after the other
- `settles_findSome`: a loop that ends early
- `findSome_eq_some_iff`, `findSome_eq_none_iff`: what such a loop finds
-/

namespace Outcome

variable {ε α β : Type} {kind : ε → Prop}

/-- The computation returns, or raises an exception of the kind. -/
def Settles (kind : ε → Prop) : Except ε α → Prop
  | .ok _ => True
  | .error e => kind e

@[simp] theorem settles_ok (a : α) : Settles kind (.ok a : Except ε α) := trivial

@[simp] theorem settles_error (e : ε) : Settles kind (.error e : Except ε α) ↔ kind e := Iff.rfl

theorem Settles.error {x : Except ε α} {e : ε} (h : Settles kind x) (he : x = .error e) : kind e := by
  rw [he] at h
  exact h

theorem settles_map {f : α → β} {x : Except ε α} (h : Settles kind x) : Settles kind (x.map f) := by
  cases x with
  | ok a => trivial
  | error e => exact h

theorem settles_iff {x : Except ε α} : Settles kind x ↔ (∃ a, x = .ok a) ∨ ∃ e, x = .error e ∧ kind e := by
  cases x <;> simp

/-- Where no exception is accepted, settling is returning. -/
theorem settles_iff_isOk {x : Except ε α} (h : ∀ e, x = .error e → ¬kind e) : Settles kind x ↔ ∃ a, x = .ok a := by
  cases x with
  | ok a => simp
  | error e => simpa using h e rfl

/-- What raises neither an accepted exception nor another one returns. -/
theorem isOk_of_settles {x : Except ε α} (h : Settles kind x) (hnot : Settles (fun e => ¬kind e) x) : ∃ a, x = .ok a := by
  cases x with
  | ok a => exact ⟨a, rfl⟩
  | error e => exact absurd h hnot

theorem bind_eq_ok_iff {x : Except ε α} {f : α → Except ε β} {b : β} :
    x >>= f = .ok b ↔ ∃ a, x = .ok a ∧ f a = .ok b := by
  cases x <;> simp [bind, Except.bind]

theorem settles_bind (x : Except ε α) (f : α → Except ε β) :
    Settles kind (x >>= f) ↔ Settles kind x ∧ ∀ a, x = .ok a → Settles kind (f a) := by
  cases x <;> simp [bind, Except.bind]

/-! ## Loops that end early -/

/-- The loop over the items gets to this one: at none before it, it ends. -/
def Reached (f : α → Except ε (Option β)) (xs : List α) (x : α) : Prop :=
  ∃ before after, xs = before ++ x :: after ∧ ∀ y ∈ before, f y = .ok none

theorem reached_cons {f : α → Except ε (Option β)} {x y : α} {xs : List α} :
    Reached f (y :: xs) x ↔ x = y ∨ f y = .ok none ∧ Reached f xs x := by
  constructor
  · intro h
    obtain ⟨before, after, heq, hbefore⟩ := h
    cases before with
    | nil =>
      cases heq
      exact .inl rfl
    | cons z before =>
      cases heq
      exact .inr ⟨hbefore y List.mem_cons_self, before, after, rfl, fun w hw => hbefore w (List.mem_cons_of_mem _ hw)⟩
  · intro h
    rcases h with rfl | ⟨hy, before, after, rfl, hbefore⟩
    · exact ⟨[], xs, rfl, by simp⟩
    · refine ⟨y :: before, after, rfl, fun w hw => ?_⟩
      rcases List.mem_cons.mp hw with rfl | hw
      · exact hy
      · exact hbefore w hw

theorem settles_findSome {f : α → Except ε (Option β)} {xs : List α} :
    Settles kind (xs.findSomeM? f) ↔ ∀ x, Reached f xs x → Settles kind (f x) := by
  induction xs with
  | nil =>
    refine iff_of_true trivial fun x h => ?_
    obtain ⟨before, after, heq, -⟩ := h
    cases before <;> cases heq
  | cons y xs ih =>
    simp only [reached_cons, List.findSomeM?, forall_eq_or_imp, settles_bind]
    apply and_congr_right
    intro _
    cases hy : f y with
    | error e => simp
    | ok found =>
      cases found with
      | none => simpa using ih
      | some b => simp [pure, Except.pure]

/-- The loop finds what the first item gives that gives anything. -/
theorem findSome_eq_some_iff {f : α → Except ε (Option β)} {xs : List α} {b : β} :
    xs.findSomeM? f = .ok (some b) ↔ ∃ x, Reached f xs x ∧ f x = .ok (some b) := by
  induction xs with
  | nil =>
    refine iff_of_false (by simp [List.findSomeM?, pure, Except.pure]) fun h => ?_
    obtain ⟨x, ⟨before, after, heq, -⟩, -⟩ := h
    cases before <;> cases heq
  | cons y xs ih =>
    simp only [reached_cons, List.findSomeM?]
    cases hy : f y with
    | error e => simp [bind, Except.bind, hy]
    | ok found =>
      cases found with
      | none => simpa [bind, Except.bind, hy] using ih
      | some b' => simp [bind, Except.bind, pure, Except.pure, hy]

/-- It finds nothing if no item gives anything. -/
theorem findSome_eq_none_iff {f : α → Except ε (Option β)} {xs : List α} :
    xs.findSomeM? f = .ok none ↔ ∀ x ∈ xs, f x = .ok none := by
  induction xs with
  | nil => simp [List.findSomeM?, pure, Except.pure]
  | cons y xs ih =>
    simp only [List.findSomeM?, List.mem_cons, forall_eq_or_imp]
    cases hy : f y with
    | error e => simp [bind, Except.bind]
    | ok found =>
      cases found with
      | none => simpa [bind, Except.bind] using ih
      | some b => simp [bind, Except.bind, pure, Except.pure]

end Outcome

import A2AEvents.ForStd.Machine

/-!
# Protocols of operations

A protocol says which operations a program may perform, which answers it may rely on and which
jobs it may fork. If every job follows the protocol and the operations that it allows keep an
invariant and give the answers it promises, the invariant holds along every run, however the
tasks are interleaved: nothing has to be known about how far the others have come.

## Key results

- `Prog.Upholds.bind`, `Prog.Upholds.attempt`: composition rules
- `Prog.Upholds.mono`: a program upholds every weaker protocol
- `Prog.Upholds.inter`: protocols that a program upholds one by one it upholds together
- `Protocol.Kept.run`: the invariant holds along runs
- `Prog.Upholds.safe`: a program that upholds a protocol is safe under contracts that honor it
- `Prog.Upholds.safe_received`: the same where the protocol speaks about the answers received so far
- `Yields.bind`, `Yields.call`: safe programs and what they return
-/

namespace Async

variable {S : Sig} {α β : Type}

/-- What programs may do and rely on. -/
structure Protocol (S : Sig) where
  asks : S.Op → Prop
  answers : (o : S.Op) → S.Res o → Prop
  jobs : S.Job → Prop

/-- What two protocols both allow, with the promises of both. -/
def Protocol.inter (R R' : Protocol S) : Protocol S where
  asks o := R.asks o ∧ R'.asks o
  answers o r := R.answers o r ∧ R'.answers o r
  jobs j := R.jobs j ∧ R'.jobs j

/-- As long as the answers are as promised, the program performs and forks what is allowed. -/
inductive Prog.Follows (R : Protocol S) : Prog S α → Prop where
  | pure (a : α) : Follows R (.pure a)
  | raise (e : S.Err) : Follows R (.raise e)
  | diverge : Follows R .diverge
  | op {o : S.Op} {k : S.Res o → Prog S α} (ho : R.asks o) (hk : ∀ r, R.answers o r → Follows R (k r)) :
    Follows R (.op o k)
  | fork {js : List S.Job} {k : List Nat → Prog S α} (hjobs : ∀ j ∈ js, R.jobs j)
    (hk : ∀ ids, Follows R (k ids)) : Follows R (.fork js k)
  | join {ids : List Nat} {k : Except S.Err (List S.Val) → Prog S α} (hk : ∀ r, Follows R (k r)) :
    Follows R (.join ids k)

/-- The program follows the protocol and ends, if it returns, with a value that satisfies `Q`. -/
inductive Prog.Upholds (R : Protocol S) : Prog S α → (α → Prop) → Prop where
  | pure {a : α} {Q : α → Prop} (ha : Q a) : Upholds R (.pure a) Q
  | raise {Q : α → Prop} (e : S.Err) : Upholds R (.raise e) Q
  | diverge {Q : α → Prop} : Upholds R .diverge Q
  | op {o : S.Op} {k : S.Res o → Prog S α} {Q : α → Prop} (ho : R.asks o)
    (hk : ∀ r, R.answers o r → Upholds R (k r) Q) : Upholds R (.op o k) Q
  | fork {js : List S.Job} {k : List Nat → Prog S α} {Q : α → Prop} (hjobs : ∀ j ∈ js, R.jobs j)
    (hk : ∀ ids, Upholds R (k ids) Q) : Upholds R (.fork js k) Q
  | join {ids : List Nat} {k : Except S.Err (List S.Val) → Prog S α} {Q : α → Prop}
    (hk : ∀ r, Upholds R (k r) Q) : Upholds R (.join ids k) Q

namespace Prog.Upholds

variable {R : Protocol S} {P : α → Prop} {Q : β → Prop}

theorem bind {p : Prog S α} {f : α → Prog S β} (hp : p.Upholds R P) (hf : ∀ a, P a → (f a).Upholds R Q) :
    (p >>= f).Upholds R Q := by
  induction hp with
  | pure ha => exact hf _ ha
  | raise e => exact .raise e
  | diverge => exact .diverge
  | op ho _ ih => exact .op ho fun r hr => ih r hr hf
  | fork hjobs _ ih => exact .fork hjobs fun ids => ih ids hf
  | join _ ih => exact .join fun r => ih r hf

/-- What follows an operation may rely on its answer. -/
theorem call_bind {o : S.Op} {f : S.Res o → Prog S β} (ho : R.asks o)
    (hf : ∀ r, R.answers o r → (f r).Upholds R Q) : (Prog.call o >>= f).Upholds R Q :=
  .op ho hf

theorem call {o : S.Op} {P : S.Res o → Prop} (ho : R.asks o) (hP : ∀ r, R.answers o r → P r) :
    (Prog.call o).Upholds R P :=
  .op ho fun r hr => .pure (hP r hr)

theorem weaken {P' : α → Prop} {p : Prog S α} (hp : p.Upholds R P) (h : ∀ a, P a → P' a) : p.Upholds R P' := by
  induction hp with
  | pure ha => exact .pure (h _ ha)
  | raise e => exact .raise e
  | diverge => exact .diverge
  | op ho _ ih => exact .op ho fun r hr => ih r hr h
  | fork hjobs _ ih => exact .fork hjobs fun ids => ih ids h
  | join _ ih => exact .join fun r => ih r h

/-- A program upholds every protocol that allows more and relies on less. -/
theorem mono {R' : Protocol S} (hasks : ∀ {o}, R.asks o → R'.asks o)
    (hanswers : ∀ {o} {r : S.Res o}, R'.answers o r → R.answers o r) (hjobs : ∀ {j}, R.jobs j → R'.jobs j)
    {p : Prog S α} (hp : p.Upholds R P) : p.Upholds R' P := by
  induction hp with
  | pure ha => exact .pure ha
  | raise e => exact .raise e
  | diverge => exact .diverge
  | op ho _ ih => exact .op (hasks ho) fun r hr => ih r (hanswers hr)
  | fork hforks _ ih => exact .fork (fun j hj => hjobs (hforks j hj)) ih
  | join _ ih => exact .join ih

/-- A program that upholds two protocols upholds both at once. -/
theorem inter {R' : Protocol S} {P' : α → Prop} {p : Prog S α} (hp : p.Upholds R P) (hp' : p.Upholds R' P') :
    p.Upholds (R.inter R') fun a => P a ∧ P' a := by
  induction hp with
  | pure ha =>
    cases hp' with
    | pure ha' => exact .pure ⟨ha, ha'⟩
  | raise e => exact .raise e
  | diverge => exact .diverge
  | op ho _ ih =>
    cases hp' with
    | op ho' hk' => exact .op ⟨ho, ho'⟩ fun r hr => ih r hr.1 (hk' r hr.2)
  | fork hjobs _ ih =>
    cases hp' with
    | fork hjobs' hk' => exact .fork (fun j hj => ⟨hjobs j hj, hjobs' j hj⟩) fun ids => ih ids (hk' ids)
  | join _ ih =>
    cases hp' with
    | join hk' => exact .join fun r => ih r (hk' r)

theorem follows {p : Prog S α} (hp : p.Upholds R P) : p.Follows R := by
  induction hp with
  | pure _ => exact .pure _
  | raise e => exact .raise e
  | diverge => exact .diverge
  | op ho _ ih => exact .op ho ih
  | fork hjobs _ ih => exact .fork hjobs ih
  | join _ ih => exact .join ih

theorem lift {x : Except S.Err α} (hx : ∀ a, x = .ok a → P a) : (Prog.lift x).Upholds R P := by
  cases x with
  | ok a => exact .pure (hx a rfl)
  | error e => exact .raise e

theorem attempt {p : Prog S α} (hp : p.Upholds R P) :
    p.attempt.Upholds R fun r => ∀ a, r = .ok a → P a := by
  induction hp with
  | @pure a _ ha =>
    apply Upholds.pure
    intro b hb
    cases hb
    exact ha
  | raise e =>
    apply Upholds.pure
    intro a ha
    cases ha
  | diverge => exact .diverge
  | op ho _ ih => exact .op ho ih
  | fork hjobs _ ih => exact .fork hjobs ih
  | join _ ih => exact .join ih

/-- Under a contract whose invariant and guarantee the allowed operations keep, the program is safe. -/
theorem safe {M : Sem S} {C : Contract M} {j : S.Job} {i : Nat}
    (hexec : ∀ {o c s r s'}, C.inv s → R.asks o → (M.isLocal o = false → C.adm j i o c s) →
      M.exec i o c s = some (r, s') → C.inv s' ∧ C.guar j i s s' ∧ R.answers o r)
    (hfork : ∀ {j' s}, C.inv s → R.jobs j' → C.pre j' s ∧ C.peer j j') {p : Prog S α} (hp : p.Upholds R P) :
    ∀ s, Safe C j i p (fun r _ => ∀ a, r = .ok a → P a) s := by
  induction hp with
  | @pure a _ ha =>
    intro s b hb
    cases hb
    exact ha
  | raise e =>
    intro s a ha
    cases ha
  | diverge => exact fun s => trivial
  | op ho _ ih =>
    intro s s₁ _ hinv c r s₂ hadm hex
    obtain ⟨hinv', hguar, hr⟩ := hexec hinv ho hadm hex
    exact ⟨hinv', hguar, ih r hr s₂⟩
  | fork hjobs _ ih =>
    intro s s₁ _ hinv
    exact ⟨fun j' hj' => hfork hinv (hjobs j' hj'), fun ids => ih ids s₁⟩
  | join _ ih => exact fun s s₁ _ _ r => ih r s₁

end Prog.Upholds

/-! ## Programs that return -/

section Returning

variable {M : Sem S} {C : Contract M}

/-- The program is safe and ends, if it returns, in `P`. -/
abbrev Yields (C : Contract M) (j : S.Job) (i : Nat) (p : Prog S α) (P : α → M.State → Prop) (s : M.State) : Prop :=
  Safe C j i p (fun r s' => ∀ a, r = .ok a → P a s') s

namespace Yields

variable {j : S.Job} {i : Nat} {P P' : α → M.State → Prop} {Q : β → M.State → Prop} {s : M.State}

theorem pure {a : α} (h : P a s) : Yields C j i (.pure a) P s := by
  intro b hb
  cases hb
  exact h

theorem raise (e : S.Err) : Yields C j i (.raise e) P s := by
  intro b hb
  cases hb

theorem weaken {p : Prog S α} (hp : Yields C j i p P s) (h : ∀ a s', P a s' → P' a s') : Yields C j i p P' s :=
  Safe.weaken hp fun _ _ hr a ha => h a _ (hr a ha)

theorem bind {p : Prog S α} {f : α → Prog S β} (hp : Yields C j i p P s)
    (hf : ∀ a s', P a s' → Yields C j i (f a) Q s') : Yields C j i (p >>= f) Q s := by
  refine Safe.bind (Safe.weaken hp fun r s' hr => ?_)
  cases r with
  | ok a => exact hf a s' (hr a rfl)
  | error e => exact fun b hb => (by cases hb)

theorem lift {x : Except S.Err α} (hx : ∀ a, x = .ok a → P a s) : Yields C j i (Prog.lift x) P s :=
  Safe.lift hx

theorem attempt {p : Prog S α} (hp : Yields C j i p P s) :
    Yields C j i p.attempt (fun r s' => ∀ a, r = .ok a → P a s') s := by
  refine Safe.attempt (Safe.weaken hp fun r s' hr b hb => ?_)
  cases hb
  exact hr

/-- What every step keeps holds at the end. -/
theorem keep {A : M.State → Prop} {p : Prog S α} (hrely : ∀ s s', C.rely j i s s' → A s → A s')
    (hguar : ∀ s s', C.guar j i s s' → A s → A s') (hp : Yields C j i p P s) (hA : A s) :
    Yields C j i p (fun a s' => P a s' ∧ A s') s :=
  Safe.weaken (Safe.frame hrely hguar hp hA) fun _ _ hr a ha => ⟨hr.1 a ha, hr.2⟩

/-- One operation, made at a state where what the task knew still holds. -/
theorem call {o : S.Op} {P : S.Res o → M.State → Prop} {A : M.State → Prop} (hA : A s)
    (hrely : ∀ s s', C.rely j i s s' → A s → A s')
    (h : ∀ {s' c r s''}, A s' → C.inv s' → (M.isLocal o = false → C.adm j i o c s') → M.exec i o c s' = some (r, s'') →
      C.inv s'' ∧ C.guar j i s' s'' ∧ P r s'') : Yields C j i (Prog.call o) P s := by
  intro s₁ hs₁ hinv c r s₂ hadm hex
  have hA₁ : A s₁ := by
    split at hs₁
    · rw [hs₁]
      exact hA
    · exact hrely s s₁ hs₁ hA
  obtain ⟨hinv', hguar, hp⟩ := h hA₁ hinv hadm hex
  exact ⟨hinv', hguar, fun a ha => by cases ha; exact hp⟩

/-- A local operation is made at once. -/
theorem callLocal {o : S.Op} {P : S.Res o → M.State → Prop} (hlocal : M.isLocal o = true)
    (h : ∀ {c r s'}, C.inv s → M.exec i o c s = some (r, s') → C.inv s' ∧ C.guar j i s s' ∧ P r s') :
    Yields C j i (Prog.call o) P s := by
  intro s₁ hs₁ hinv c r s₂ _ hex
  rw [if_pos hlocal] at hs₁
  subst hs₁
  obtain ⟨hinv', hguar, hp⟩ := h hinv hex
  exact ⟨hinv', hguar, fun a ha => by cases ha; exact hp⟩

end Yields

end Returning

/-- The answers that task `i` has received so far. -/
def Sem.Traced.received {M : Sem S} (s : M.Traced) (i : Nat) (o : S.Op) (r : S.Res o) : Prop :=
  ∃ before, (⟨i, o, r, before⟩ : M.Entry) ∈ s.trace

/-- Where a protocol is given for every set of answers, each operation may be judged by the answers that its
    task has received when it asks. -/
theorem Prog.Upholds.safe_received {M : Sem S} {C : Contract M.traced} {j : S.Job} {i : Nat}
    {R : ((o : S.Op) → S.Res o → Prop) → Protocol S} (hanswers : ∀ {A o r}, A o r → (R A).answers o r)
    (hrely : ∀ {s s'}, C.rely j i s s' → ∀ {o r}, s.received i o r → s'.received i o r)
    (hpre : ∀ {s s'}, C.rely j i s s' ∨ C.guar j i s s' → C.pre j s → C.pre j s')
    (hexec : ∀ {o c} {s : M.Traced} {r w}, C.inv s → C.pre j s → (R (s.received i)).asks o →
      (M.isLocal o = false → C.adm j i o c s) → M.exec i o c s.state = some (r, w) →
        C.inv ⟨w, s.trace ++ [⟨i, o, r, s.state⟩]⟩ ∧ C.guar j i s ⟨w, s.trace ++ [⟨i, o, r, s.state⟩]⟩)
    (hfork : ∀ {j'} {s : M.Traced}, C.inv s → C.pre j s → (R (s.received i)).jobs j' → C.pre j' s ∧ C.peer j j')
    {Q : ((o : S.Op) → S.Res o → Prop) → α → Prop} (p : Prog S α) :
    ∀ {s : M.Traced}, C.pre j s →
      (∀ A : (o : S.Op) → S.Res o → Prop, (∀ {o r}, s.received i o r → A o r) → p.Upholds (R A) (Q A)) →
        Safe C j i p (fun r s' => ∀ a, r = .ok a → Q (s'.received i) a) s := by
  induction p with
  | pure a =>
    intro s _ hp b hb
    cases hb
    cases hp (s.received i) id with
    | pure ha => exact ha
  | raise e =>
    intro s _ _ a ha
    cases ha
  | diverge => exact fun _ _ => trivial
  | op o k ih =>
    intro s hready hp s₁ hs₁ hinv c r s₂ hadm hex
    obtain ⟨⟨r', w⟩, hcall, heq⟩ := Option.map_eq_some_iff.mp hex
    cases heq
    obtain ⟨hkeep, hready₁⟩ : (∀ {o r}, s.received i o r → s₁.received i o r) ∧ C.pre j s₁ := by
      split at hs₁
      · rw [hs₁]
        exact ⟨id, hready⟩
      · exact ⟨hrely hs₁, hpre (.inl hs₁) hready⟩
    have hasks : (R (s₁.received i)).asks o := by
      cases hp (s₁.received i) hkeep with
      | op ho _ => exact ho
    obtain ⟨hinv', hguar⟩ := hexec hinv hready₁ hasks hadm hcall
    refine ⟨hinv', hguar, ih r' (hpre (.inr hguar) hready₁) fun A hA => ?_⟩
    have hearlier : ∀ {o r}, s.received i o r → A o r := by
      intro o' r' h
      obtain ⟨before, hmem⟩ := hkeep h
      exact hA ⟨before, List.mem_append_left _ hmem⟩
    cases hp A hearlier with
    | op _ hk => exact hk r' (hanswers (hA ⟨s₁.state, by simp⟩))
  | fork js k ih =>
    intro s hready hp s₁ hs₁ hinv
    have hready₁ := hpre (.inl hs₁) hready
    refine ⟨fun j' hj' => ?_, fun ids => ih ids hready₁ fun A hA => ?_⟩
    · cases hp (s₁.received i) (hrely hs₁) with
      | fork hjobs _ => exact hfork hinv hready₁ (hjobs j' hj')
    · cases hp A fun h => hA (hrely hs₁ h) with
      | fork _ hk => exact hk ids
  | join ids k ih =>
    intro s hready hp s₁ hs₁ hinv r
    refine ih r (hpre (.inl hs₁) hready) fun A hA => ?_
    cases hp A fun h => hA (hrely hs₁ h) with
    | join hk => exact hk r

/-- The operations that the protocol allows keep the invariant and answer as promised, and so do the
    environment and restarts; every allowed job follows the protocol. -/
structure Protocol.Kept (R : Protocol S) (M : Sem S) (inv : M.State → Prop) : Prop where
  exec : ∀ {i o c s r s'}, inv s → R.asks o → M.exec i o c s = some (r, s') → inv s' ∧ R.answers o r
  env : ∀ {e s s'}, inv s → M.env e s = some s' → inv s'
  restart : ∀ {s}, inv s → inv (M.restart s)
  code : ∀ {j}, R.jobs j → (M.code j).Follows R

namespace Protocol.Kept

variable {M : Sem S} {R : Protocol S} {inv : M.State → Prop}

private theorem settle (h : R.Kept M inv) (i : Nat) (c : M.Choice) {p : Prog S α} (hp : p.Follows R) :
    ∀ {s}, inv s → inv (M.settle i c p s).2 ∧ (M.settle i c p s).1.Follows R := by
  induction hp with
  | @op o k ho hk ih =>
    intro s hs
    unfold Sem.settle
    split
    · split
      · rename_i r s' hex
        obtain ⟨hs', hr⟩ := h.exec hs ho hex
        exact ih r hr hs'
      · exact ⟨hs, .op ho hk⟩
    · exact ⟨hs, .op ho hk⟩
  | pure a => exact fun hs => ⟨hs, .pure a⟩
  | raise e => exact fun hs => ⟨hs, .raise e⟩
  | diverge => exact fun hs => ⟨hs, .diverge⟩
  | fork hjobs hk _ => exact fun hs => ⟨hs, .fork hjobs hk⟩
  | join hk _ => exact fun hs => ⟨hs, .join hk⟩

/-- The invariant holds, and every task follows the protocol. -/
def Good (R : Protocol S) (inv : M.State → Prop) (c : Config M) : Prop :=
  inv c.state ∧ ∀ t ∈ c.tasks, t.prog.Follows R

private theorem good_resume (h : R.Kept M inv) {cfg : Config M} (htasks : ∀ t ∈ cfg.tasks, t.prog.Follows R)
    (i : Nat) (c : M.Choice) (j : S.Job) {p : Prog S S.Val} (hp : p.Follows R) {s : M.State} (hs : inv s) :
    Good R inv (cfg.resume i c j p s) := by
  obtain ⟨hinv, hfollows⟩ := h.settle i c hp hs
  refine ⟨hinv, ?_⟩
  intro t ht
  rcases List.mem_or_eq_of_mem_set ht with ht | rfl
  · exact htasks t ht
  · exact hfollows

theorem good_step (h : R.Kept M inv) {cfg cfg' : Config M} {act : Action M} (hgood : Good R inv cfg)
    (hstart : ∀ j, act = .start j → R.jobs j) (hstep : cfg.step act = some cfg') : Good R inv cfg' := by
  obtain ⟨hinv, htasks⟩ := hgood
  cases act with
  | start j =>
    cases hstep
    refine ⟨hinv, ?_⟩
    intro t ht
    rcases List.mem_append.mp ht with ht | ht
    · exact htasks t ht
    · rw [List.mem_singleton.mp ht]
      exact h.code (hstart j rfl)
  | env e =>
    obtain ⟨s, hs, rfl⟩ := Option.map_eq_some_iff.mp hstep
    exact ⟨h.env hinv hs, htasks⟩
  | crash =>
    cases hstep
    refine ⟨h.restart hinv, ?_⟩
    intro t ht
    obtain ⟨t', ht', rfl⟩ := List.mem_map.mp ht
    split
    · exact htasks t' ht'
    · exact .diverge
  | task i c =>
    simp only [Config.step, Config.stepTask] at hstep
    split at hstep
    · cases hstep
    · rename_i t ht
      have hfollows := htasks t (List.mem_of_getElem? ht)
      split at hstep
      · -- the answer of the pending operation is as promised
        rename_i o k hprog
        obtain ⟨p, hex, rfl⟩ := Option.map_eq_some_iff.mp hstep
        rw [hprog] at hfollows
        cases hfollows with
        | op ho hk =>
          obtain ⟨hs, hr⟩ := h.exec hinv ho hex
          exact h.good_resume htasks i c t.job (hk p.1 hr) hs
      · rename_i js k hprog
        cases hstep
        rw [hprog] at hfollows
        cases hfollows with
        | fork hjobs hk =>
          show Good R inv (Config.resume { cfg with tasks := cfg.tasks ++ js.map M.spawn } i c t.job _ _)
          apply h.good_resume _ i c t.job (hk _) hinv
          intro t' ht'
          rcases List.mem_append.mp ht' with ht' | ht'
          · exact htasks t' ht'
          · obtain ⟨j, hj, rfl⟩ := List.mem_map.mp ht'
            exact h.code (hjobs j hj)
      · rename_i ids k hprog
        obtain ⟨r, -, rfl⟩ := Option.map_eq_some_iff.mp hstep
        rw [hprog] at hfollows
        cases hfollows with
        | join hk => exact h.good_resume htasks i c t.job (hk r) hinv
      · cases hstep

/-- Along runs whose new jobs are allowed, the invariant holds and every task follows the protocol. -/
theorem run (h : R.Kept M inv) {ok : Config M → Action M → Prop}
    (hstart : ∀ {c j}, ok c (.start j) → inv c.state → R.jobs j) {a b : Config M}
    (hgood : Good R inv a) (hrun : Config.Run ok a b) : Good R inv b := by
  induction hrun with
  | refl => exact hgood
  | step act _ hok hstep ih =>
    apply h.good_step ih _ hstep
    rintro j rfl
    exact hstart hok ih.1

end Protocol.Kept

end Async

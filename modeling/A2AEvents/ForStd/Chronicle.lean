import A2AEvents.ForStd.Protocol

/-!
# What each task did

The trace of a run lists the operations of all its tasks. For what one task did from its first move
to its last one, the forks and joins are needed too: they tell which jobs a task started, and which
of them it waited for. A chronicle of a run has all moves in their order. The part of one task leads
from the program of its job to the place where the task stands, so the end of a task says
what it must have done.

## Key results

- `Prog.returns_bind`: the moves of a composed program, part by part
- `Prog.Upholds.takes`, `Prog.Upholds.returns`: what a program that upholds a protocol has asked and returned
- `Chronicle.run`: the chronicle of a run is continued by whatever happens next
-/

namespace Async

variable {S : Sig} {α β : Type}

/-! ## Moves -/

/-- A move of a program, with what it was answered. -/
inductive Move (S : Sig) where
  | op (o : S.Op) (r : S.Res o)
  | fork (js : List S.Job) (ids : List Nat)
  | join (ids : List Nat) (r : Except S.Err (List S.Val))

/-- The program makes the moves and goes on as another one. -/
inductive Prog.Takes : Prog S α → List (Move S) → Prog S α → Prop where
  | refl (p : Prog S α) : Takes p [] p
  | op {o : S.Op} {k : S.Res o → Prog S α} {r : S.Res o} {l : List (Move S)} {q : Prog S α} (h : Takes (k r) l q) :
    Takes (.op o k) (.op o r :: l) q
  | fork {js : List S.Job} {k : List Nat → Prog S α} {ids : List Nat} {l : List (Move S)} {q : Prog S α}
    (h : Takes (k ids) l q) : Takes (.fork js k) (.fork js ids :: l) q
  | join {ids : List Nat} {k : Except S.Err (List S.Val) → Prog S α} {r : Except S.Err (List S.Val)}
    {l : List (Move S)} {q : Prog S α} (h : Takes (k r) l q) : Takes (.join ids k) (.join ids r :: l) q

namespace Prog

variable {l : List (Move S)}

theorem Takes.trans {p q r : Prog S α} {l' : List (Move S)} (h : p.Takes l q) (h' : q.Takes l' r) :
    p.Takes (l ++ l') r := by
  induction h with
  | refl => exact h'
  | op _ ih => exact .op (ih h')
  | fork _ ih => exact .fork (ih h')
  | join _ ih => exact .join (ih h')

theorem Takes.split {p q : Prog S α} {l' : List (Move S)} (h : p.Takes (l ++ l') q) :
    ∃ p', p.Takes l p' ∧ p'.Takes l' q := by
  -- the first move decides the constructor
  induction l generalizing p with
  | nil => exact ⟨p, .refl p, h⟩
  | cons m l ih =>
    cases h with
    | op h =>
      obtain ⟨p', hl, hl'⟩ := ih h
      exact ⟨p', .op hl, hl'⟩
    | fork h =>
      obtain ⟨p', hl, hl'⟩ := ih h
      exact ⟨p', .fork hl, hl'⟩
    | join h =>
      obtain ⟨p', hl, hl'⟩ := ih h
      exact ⟨p', .join hl, hl'⟩

/-- The program makes exactly these moves and returns. -/
abbrev Returns (p : Prog S α) (l : List (Move S)) (a : α) : Prop := p.Takes l (.pure a)

theorem returns_pure {a b : α} : (Prog.pure b : Prog S α).Returns l a ↔ l = [] ∧ b = a := by
  constructor
  · intro h
    cases h
    exact ⟨rfl, rfl⟩
  · rintro ⟨rfl, rfl⟩
    exact .refl _

theorem not_returns_raise {e : S.Err} {a : α} : ¬ (Prog.raise e : Prog S α).Returns l a := by
  intro h
  cases h

theorem not_returns_diverge {a : α} : ¬ (Prog.diverge : Prog S α).Returns l a := by
  intro h
  cases h

theorem returns_op {o : S.Op} {k : S.Res o → Prog S α} {a : α} :
    (Prog.op o k).Returns l a ↔ ∃ r l', l = .op o r :: l' ∧ (k r).Returns l' a := by
  constructor
  · intro h
    cases h with
    | op h => exact ⟨_, _, rfl, h⟩
  · rintro ⟨r, l', rfl, h⟩
    exact .op h

theorem returns_fork {js : List S.Job} {k : List Nat → Prog S α} {a : α} :
    (Prog.fork js k).Returns l a ↔ ∃ ids l', l = .fork js ids :: l' ∧ (k ids).Returns l' a := by
  constructor
  · intro h
    cases h with
    | fork h => exact ⟨_, _, rfl, h⟩
  · rintro ⟨ids, l', rfl, h⟩
    exact .fork h

theorem returns_join {ids : List Nat} {k : Except S.Err (List S.Val) → Prog S α} {a : α} :
    (Prog.join ids k).Returns l a ↔ ∃ r l', l = .join ids r :: l' ∧ (k r).Returns l' a := by
  constructor
  · intro h
    cases h with
    | join h => exact ⟨_, _, rfl, h⟩
  · rintro ⟨r, l', rfl, h⟩
    exact .join h

theorem returns_lift {x : Except S.Err α} {a : α} : (lift x).Returns l a ↔ l = [] ∧ x = .ok a := by
  cases x with
  | ok b => simp [returns_pure]
  | error e => simp [not_returns_raise]

theorem returns_call_bind {o : S.Op} {f : S.Res o → Prog S α} {a : α} :
    (call o >>= f).Returns l a ↔ ∃ r l', l = .op o r :: l' ∧ (f r).Returns l' a :=
  returns_op

/-- The moves of two programs in sequence are those of the one, then those of the other. -/
theorem returns_bind {p : Prog S α} {f : α → Prog S β} {b : β} :
    (p >>= f).Returns l b ↔ ∃ l₁ a l₂, l = l₁ ++ l₂ ∧ p.Returns l₁ a ∧ (f a).Returns l₂ b := by
  constructor
  · induction p generalizing l with
    | pure a => exact fun h => ⟨[], a, l, rfl, .refl _, h⟩
    -- a first program that does not return leaves nothing to the second
    | raise e => exact fun h => absurd h not_returns_raise
    | diverge => exact fun h => absurd h not_returns_diverge
    | op o k ih =>
      intro h
      obtain ⟨r, l', rfl, hrest⟩ := returns_op.mp h
      obtain ⟨l₁, a, l₂, rfl, h₁, h₂⟩ := ih r hrest
      exact ⟨.op o r :: l₁, a, l₂, rfl, .op h₁, h₂⟩
    | fork js k ih =>
      intro h
      obtain ⟨ids, l', rfl, hrest⟩ := returns_fork.mp h
      obtain ⟨l₁, a, l₂, rfl, h₁, h₂⟩ := ih ids hrest
      exact ⟨.fork js ids :: l₁, a, l₂, rfl, .fork h₁, h₂⟩
    | join ids k ih =>
      intro h
      obtain ⟨r, l', rfl, hrest⟩ := returns_join.mp h
      obtain ⟨l₁, a, l₂, rfl, h₁, h₂⟩ := ih r hrest
      exact ⟨.join ids r :: l₁, a, l₂, rfl, .join h₁, h₂⟩
  · rintro ⟨l₁, a, l₂, rfl, h₁, h₂⟩
    induction p generalizing l₁ with
    | pure a' =>
      obtain ⟨rfl, rfl⟩ := returns_pure.mp h₁
      exact h₂
    | raise e => exact absurd h₁ not_returns_raise
    | diverge => exact absurd h₁ not_returns_diverge
    | op o k ih =>
      obtain ⟨r, l', rfl, hrest⟩ := returns_op.mp h₁
      exact .op (ih r l' hrest)
    | fork js k ih =>
      obtain ⟨ids, l', rfl, hrest⟩ := returns_fork.mp h₁
      exact .fork (ih ids l' hrest)
    | join ids k ih =>
      obtain ⟨r, l', rfl, hrest⟩ := returns_join.mp h₁
      exact .join (ih r l' hrest)

/-- A program that was answered as its protocol promises goes on upholding it. -/
theorem Upholds.takes {R : Protocol S} {p q : Prog S α} {Q : α → Prop} (hp : p.Upholds R Q) (h : p.Takes l q)
    (hanswers : ∀ o r, .op o r ∈ l → R.answers o r) : q.Upholds R Q := by
  induction h with
  | refl => exact hp
  | op h ih =>
    cases hp with
    | op _ hk => exact ih (hk _ (hanswers _ _ (.head _))) fun o r hmem => hanswers o r (.tail _ hmem)
  | fork h ih =>
    cases hp with
    | fork _ hk => exact ih (hk _) fun o r hmem => hanswers o r (.tail _ hmem)
  | join h ih =>
    cases hp with
    | join hk => exact ih (hk _) fun o r hmem => hanswers o r (.tail _ hmem)

/-- What it asks then is allowed. -/
theorem Upholds.asks {R : Protocol S} {p q : Prog S α} {Q : α → Prop} {o : S.Op} {r : S.Res o} {l' : List (Move S)}
    (hp : p.Upholds R Q) (h : p.Takes (l ++ .op o r :: l') q) (hanswers : ∀ o r, .op o r ∈ l → R.answers o r) :
    R.asks o := by
  -- the protocol is upheld up to here, and what comes next is the call
  obtain ⟨p', hbefore, hafter⟩ := h.split
  have hp' := hp.takes hbefore hanswers
  cases hafter with
  | op _ =>
    cases hp' with
    | op ho _ => exact ho

/-- What it returns is as the protocol says. -/
theorem Upholds.returns {R : Protocol S} {p : Prog S α} {Q : α → Prop} {a : α} (hp : p.Upholds R Q) (h : p.Returns l a)
    (hanswers : ∀ o r, .op o r ∈ l → R.answers o r) : Q a := by
  cases hp.takes h hanswers with
  | pure ha => exact ha

end Prog

/-! ## Entries -/

section Entries

variable {M : Sem S} {P : M.Entry → Prop}

private theorem entries_settle (hlocal : ∀ i o r s, M.isLocal o = true → P ⟨i, o, r, s⟩) (i : Nat) (c : M.Choice)
    (p : Prog S α) : ∀ s : M.Traced, (∀ e ∈ s.trace, P e) → ∀ e ∈ (M.traced.settle i c p s).2.trace, P e := by
  induction p with
  | op o k ih =>
    intro s hs
    unfold Sem.settle
    split
    · rename_i ho
      split
      · -- one local operation, then the others
        rename_i r s' hex
        obtain ⟨⟨r', w⟩, -, heq⟩ := Option.map_eq_some_iff.mp hex
        cases heq
        refine ih r' _ fun e he => ?_
        rcases List.mem_append.mp he with he | he
        · exact hs e he
        · rw [List.mem_singleton.mp he]
          exact hlocal i o r' s.state ho
      · exact hs
    · exact hs
  | _ => exact fun s hs => hs

/-- What the side condition of a run says of the operations that it lets through, and what holds of all local ones,
    holds of all entries. -/
theorem Config.Run.entries {ok : Config M.traced → Action M.traced → Prop}
    (hlocal : ∀ i o r s, M.isLocal o = true → P ⟨i, o, r, s⟩)
    (hop : ∀ {c : Config M.traced} {i ch t o k r w}, ok c (.task i ch) → c.tasks[i]? = some t → t.prog = .op o k →
      M.exec i o ch c.state.state = some (r, w) → P ⟨i, o, r, c.state.state⟩) {a b : Config M.traced}
    (h : Config.Run ok a b) (ha : ∀ e ∈ a.state.trace, P e) : ∀ e ∈ b.state.trace, P e := by
  induction h with
  | refl => exact ha
  | @step b c act _ hact hstep ih =>
    cases act with
    | start j =>
      cases hstep
      exact ih
    | crash =>
      cases hstep
      exact ih
    | env e =>
      obtain ⟨s, hs, rfl⟩ := Option.map_eq_some_iff.mp hstep
      obtain ⟨w, -, rfl⟩ := Option.map_eq_some_iff.mp hs
      exact ih
    | task i ch =>
      simp only [Config.step, Config.stepTask] at hstep
      split at hstep
      · cases hstep
      · rename_i t ht
        split at hstep
        · -- the pending operation, and the local ones after it
          rename_i o k hprog
          obtain ⟨q, hex, rfl⟩ := Option.map_eq_some_iff.mp hstep
          obtain ⟨⟨r, w⟩, hcall, rfl⟩ := Option.map_eq_some_iff.mp hex
          refine entries_settle hlocal i ch _ _ fun e he => ?_
          rcases List.mem_append.mp he with he | he
          · exact ih e he
          · rw [List.mem_singleton.mp he]
            exact hop hact ht hprog hcall
        · -- forks and joins are no entries
          cases hstep
          exact entries_settle hlocal i ch _ _ ih
        · obtain ⟨r, -, rfl⟩ := Option.map_eq_some_iff.mp hstep
          exact entries_settle hlocal i ch _ _ ih
        · cases hstep

end Entries

/-! ## Chronicles -/

variable {M : Sem S}

/-- A move of a task; a call comes with the state that it found. -/
inductive Deed (M : Sem S) where
  | call (e : M.Entry)
  | fork (i : Nat) (js : List S.Job) (ids : List Nat)
  | join (i : Nat) (ids : List Nat) (r : Except S.Err (List S.Val))

namespace Deed

def task : Deed M → Nat
  | call e => e.task
  | fork i .. => i
  | join i .. => i

def move : Deed M → Move S
  | call e => .op e.op e.res
  | fork _ js ids => .fork js ids
  | join _ ids r => .join ids r

def entry? : Deed M → Option M.Entry
  | call e => some e
  | _ => none

end Deed

/-- The calls among the deeds. -/
def entriesOf (ds : List (Deed M)) : List M.Entry := ds.filterMap Deed.entry?

theorem entriesOf_append (ds ds' : List (Deed M)) : entriesOf (ds ++ ds') = entriesOf ds ++ entriesOf ds' :=
  List.filterMap_append

theorem mem_entriesOf {ds : List (Deed M)} {e : M.Entry} (h : .call e ∈ ds) : e ∈ entriesOf ds :=
  List.mem_filterMap.mpr ⟨.call e, h, rfl⟩

/-- The moves of one task. -/
def movesOf (i : Nat) (ds : List (Deed M)) : List (Move S) := (ds.filter fun d => d.task = i).map Deed.move

/-- The deeds are all that the tasks did: they lead every task to where it stands. Forked tasks did nothing
    before the fork, and joined ones have returned. -/
structure Chronicle (c : Config M.traced) (ds : List (Deed M)) : Prop where
  trace : entriesOf ds = c.state.trace
  known : ∀ d ∈ ds, d.task < c.tasks.length
  takes : ∀ i t, c.tasks[i]? = some t → (M.code t.job).Takes (movesOf i ds) t.prog
  forked : ∀ before i js ids after, ds = before ++ .fork i js ids :: after →
    (∀ d ∈ before, d.task ∉ ids) ∧ ∀ j ∈ js, ∃ n ∈ ids, ∃ t, c.tasks[n]? = some t ∧ t.job = j
  joined : ∀ i ids vs, .join i ids (.ok vs) ∈ ds → ∀ n ∈ ids, ∃ t v, c.tasks[n]? = some t ∧ t.prog = .pure v

theorem movesOf_append (i : Nat) (ds ds' : List (Deed M)) : movesOf i (ds ++ ds') = movesOf i ds ++ movesOf i ds' := by
  simp [movesOf]

theorem movesOf_eq_nil {i : Nat} {ds : List (Deed M)} (h : ∀ d ∈ ds, d.task ≠ i) : movesOf i ds = [] := by
  rw [movesOf, List.map_eq_nil_iff, List.filter_eq_nil_iff]
  exact fun d hd => by simpa using h d hd

theorem movesOf_eq_map {i : Nat} {ds : List (Deed M)} (h : ∀ d ∈ ds, d.task = i) : movesOf i ds = ds.map Deed.move := by
  rw [movesOf, List.filter_eq_self.mpr fun d hd => by simpa using h d hd]

/-- A list of moves of one task, cut in two, cuts the list of all deeds in two. -/
theorem movesOf_eq_append {i : Nat} {ds : List (Deed M)} {l l' : List (Move S)} (h : movesOf i ds = l ++ l') :
    ∃ ds₁ ds₂, ds = ds₁ ++ ds₂ ∧ movesOf i ds₁ = l ∧ movesOf i ds₂ = l' := by
  obtain ⟨own, own', hown, rfl, rfl⟩ := List.map_eq_append_iff.mp h
  obtain ⟨ds₁, ds₂, rfl, rfl, rfl⟩ := List.filter_eq_append_iff.mp hown
  exact ⟨ds₁, ds₂, rfl, rfl, rfl⟩

/-- The first move of a task is a deed. -/
theorem movesOf_eq_cons {i : Nat} {ds : List (Deed M)} {m : Move S} {l : List (Move S)} (h : movesOf i ds = m :: l) :
    ∃ ds₁ d ds₂, ds = ds₁ ++ d :: ds₂ ∧ d.task = i ∧ d.move = m ∧ movesOf i ds₂ = l := by
  obtain ⟨d, own, hown, rfl, rfl⟩ := List.map_eq_cons_iff.mp h
  obtain ⟨ds₁, ds₂, rfl, -, hd, rfl⟩ := List.filter_eq_cons_iff.mp hown
  exact ⟨ds₁, d, ds₂, rfl, by simpa using hd, rfl, rfl⟩

theorem movesOf_eq_op {i : Nat} {ds : List (Deed M)} {o : S.Op} {r : S.Res o} {l : List (Move S)}
    (h : movesOf i ds = .op o r :: l) : ∃ ds₁ w ds₂, ds = ds₁ ++ .call ⟨i, o, r, w⟩ :: ds₂ ∧ movesOf i ds₂ = l := by
  obtain ⟨ds₁, d, ds₂, rfl, rfl, hmove, hl⟩ := movesOf_eq_cons h
  cases d with
  | call e =>
    cases hmove
    exact ⟨ds₁, e.before, ds₂, rfl, hl⟩
  | fork => cases hmove
  | join => cases hmove

theorem movesOf_eq_fork {i : Nat} {ds : List (Deed M)} {js : List S.Job} {ids : List Nat} {l : List (Move S)}
    (h : movesOf i ds = .fork js ids :: l) : ∃ ds₁ ds₂, ds = ds₁ ++ .fork i js ids :: ds₂ ∧ movesOf i ds₂ = l := by
  obtain ⟨ds₁, d, ds₂, rfl, rfl, hmove, hl⟩ := movesOf_eq_cons h
  cases d with
  | fork =>
    cases hmove
    exact ⟨ds₁, ds₂, rfl, hl⟩
  | call => cases hmove
  | join => cases hmove

theorem movesOf_eq_join {i : Nat} {ds : List (Deed M)} {ids : List Nat} {r : Except S.Err (List S.Val)}
    {l : List (Move S)} (h : movesOf i ds = .join ids r :: l) :
    ∃ ds₁ ds₂, ds = ds₁ ++ .join i ids r :: ds₂ ∧ movesOf i ds₂ = l := by
  obtain ⟨ds₁, d, ds₂, rfl, rfl, hmove, hl⟩ := movesOf_eq_cons h
  cases d with
  | join =>
    cases hmove
    exact ⟨ds₁, ds₂, rfl, hl⟩
  | call => cases hmove
  | fork => cases hmove

/-- A call among the moves of a task is an entry of the trace, and it comes after what was done before. -/
theorem exists_entry {i : Nat} {ds : List (Deed M)} {o : S.Op} {r : S.Res o} (h : .op o r ∈ movesOf i ds) :
    ∃ w before after, entriesOf ds = before ++ ⟨i, o, r, w⟩ :: after := by
  obtain ⟨d, hown, hmove⟩ := List.mem_map.mp h
  obtain ⟨hd, htask⟩ := List.mem_filter.mp hown
  clear hown h
  cases d with
  | call e =>
    obtain ⟨task, op, res, w⟩ := e
    cases hmove
    obtain rfl : task = i := of_decide_eq_true htask
    obtain ⟨ds₁, ds₂, rfl⟩ := List.append_of_mem hd
    exact ⟨w, entriesOf ds₁, entriesOf ds₂, by rw [entriesOf_append]; rfl⟩
  | fork => cases hmove
  | join => cases hmove

/-- Running on through local operations is making moves that are on the trace. -/
theorem takes_settle (i : Nat) (c : M.Choice) (p : Prog S α) : ∀ s : M.Traced,
    ∃ es : List M.Entry, (M.traced.settle i c p s).2.trace = s.trace ++ es ∧ (∀ e ∈ es, e.task = i) ∧
      p.Takes (es.map fun e => .op e.op e.res) (M.traced.settle i c p s).1 := by
  induction p with
  | op o k ih =>
    intro s
    unfold Sem.settle
    split
    · split
      · rename_i r s' hex
        obtain ⟨⟨r', w⟩, -, heq⟩ := Option.map_eq_some_iff.mp hex
        cases heq
        obtain ⟨es, htrace, htasks, htakes⟩ := ih r' ⟨w, s.trace ++ [⟨i, o, r', s.state⟩]⟩
        refine ⟨⟨i, o, r', s.state⟩ :: es, ?_, ?_, .op htakes⟩
        · rw [htrace, List.append_assoc]
          rfl
        · intro e he
          rcases List.mem_cons.mp he with rfl | he
          · rfl
          · exact htasks e he
      · exact ⟨[], (List.append_nil _).symm, fun _ h => (by cases h), .refl _⟩
    · exact ⟨[], (List.append_nil _).symm, fun _ h => (by cases h), .refl _⟩
  | _ => exact fun s => ⟨[], (List.append_nil _).symm, fun _ h => (by cases h), .refl _⟩

/-- The answers that task `i` has received after the calls in `past`. -/
def Sem.Traced.receivedSince (s : M.Traced) (past : List M.Entry) (i : Nat) (o : S.Op) (r : S.Res o) : Prop :=
  ∃ mid before after, s.trace = past ++ (mid ++ (⟨i, o, r, before⟩ : M.Entry) :: after)

theorem Sem.Traced.receivedSince.received {s : M.Traced} {past : List M.Entry} {i : Nat} {o : S.Op} {r : S.Res o}
    (h : s.receivedSince past i o r) : s.received i o r := by
  obtain ⟨mid, before, after, htrace⟩ := h
  exact ⟨before, by rw [htrace]; simp⟩

/-- Two places in a list are the same, or one comes before the other. -/
theorem places_cases {γ : Type} {xs ys xs' ys' : List γ} {a b : γ} (h : xs ++ a :: ys = xs' ++ b :: ys') :
    (xs = xs' ∧ a = b) ∨ (∃ mid, xs' = xs ++ a :: mid) ∨ ∃ mid, xs = xs' ++ b :: mid := by
  rcases List.append_eq_append_iff.mp h with ⟨mid, hxs', hrest⟩ | ⟨mid, hxs, hrest⟩
  · cases mid with
    | nil => exact .inl ⟨by rw [hxs', List.append_nil], (List.cons.inj hrest).1⟩
    | cons x mid => exact .inr (.inl ⟨mid, by rw [hxs', (List.cons.inj hrest).1]⟩)
  · cases mid with
    | nil => exact .inl ⟨by rw [hxs, List.append_nil], (List.cons.inj hrest).1.symm⟩
    | cons x mid => exact .inr (.inr ⟨mid, by rw [hxs, (List.cons.inj hrest).1]⟩)

/-- Something in an extended list stands in the list, at the new place or before it. -/
private theorem split_concat {γ : Type} {xs ys before after : List γ} {a x : γ}
    (h : xs ++ a :: ys = before ++ x :: after) (hx : x ∉ ys) :
    (before = xs ∧ x = a) ∨ ∃ mid, xs = before ++ x :: mid := by
  rcases places_cases h with ⟨hxs, ha⟩ | ⟨mid, hbefore⟩ | hxs
  · exact .inl ⟨hxs.symm, ha.symm⟩
  · rw [hbefore, List.append_assoc] at h
    have hrest := List.cons.inj (List.append_cancel_left h)
    have hmem : x ∈ ys := by
      rw [hrest.2]
      exact List.mem_append_right _ (.head _)
    exact absurd hmem hx
  · exact .inr hxs

namespace Chronicle

variable {c c' : Config M.traced} {ds : List (Deed M)}

/-- Jobs that enter the pool have done nothing yet. -/
theorem enter (h : Chronicle c ds) (js : List S.Job) (htrace : c'.state.trace = c.state.trace)
    (htasks : c'.tasks = c.tasks ++ js.map M.traced.spawn) : Chronicle c' ds := by
  have hkept : ∀ {n : Nat} {t : Task S}, c.tasks[n]? = some t → c'.tasks[n]? = some t := by
    intro n t ht
    rw [htasks, List.getElem?_append_left (List.getElem?_eq_some_iff.mp ht).1]
    exact ht
  refine ⟨h.trace.trans htrace.symm, fun d hd => ?_, fun i t ht => ?_, fun before i js ids after hsplit => ?_, ?_⟩
  · have := h.known d hd
    rw [htasks, List.length_append]
    omega
  · rw [htasks] at ht
    rcases Nat.lt_or_ge i c.tasks.length with hl | hl
    · rw [List.getElem?_append_left hl] at ht
      exact h.takes i t ht
    · -- no deed is by a task that was not there
      rw [List.getElem?_append_right hl] at ht
      obtain ⟨j, -, rfl⟩ := List.mem_map.mp (List.mem_of_getElem? ht)
      rw [movesOf_eq_nil fun d hd => Nat.ne_of_lt (Nat.lt_of_lt_of_le (h.known d hd) hl)]
      exact .refl _
  · obtain ⟨hbefore, hjobs⟩ := h.forked before i js ids after hsplit
    refine ⟨hbefore, fun j hj => ?_⟩
    obtain ⟨n, hn, t, ht, hjob⟩ := hjobs j hj
    exact ⟨n, hn, t, hkept ht, hjob⟩
  · intro i ids vs hmem n hn
    obtain ⟨t, v, ht, hv⟩ := h.joined i ids vs hmem n hn
    exact ⟨t, v, hkept ht, hv⟩

/-- A move of a task, and the local operations after it. -/
theorem resume (h : Chronicle c ds) {i : Nat} {ch : M.Choice} {t : Task S} {p : Prog S S.Val} {s : M.Traced} {d : Deed M}
    (ht : c.tasks[i]? = some t) (hrunning : ∀ v, t.prog ≠ .pure v) (hd : d.task = i) (htakes : t.prog.Takes [d.move] p)
    (htrace : s.trace = c.state.trace ++ d.entry?.toList)
    (hfork : ∀ k js ids, d = .fork k js ids → (∀ x ∈ ds, x.task ∉ ids) ∧
      ∀ j ∈ js, ∃ n ∈ ids, ∃ t, c.tasks[n]? = some t ∧ t.job = j)
    (hjoin : ∀ k ids vs, d = .join k ids (.ok vs) → ∀ n ∈ ids, ∃ t v, c.tasks[n]? = some t ∧ t.prog = .pure v) :
    ∃ ds', Chronicle (c.resume i ch t.job p s) (ds ++ ds') := by
  have hlt : i < c.tasks.length := (List.getElem?_eq_some_iff.mp ht).1
  obtain ⟨es, hsettled, htasks, hrest⟩ := takes_settle i ch p s
  -- what is new: the move itself, and the local operations, which are calls
  have hcalls : ∀ x : Deed M, x ∈ es.map Deed.call → ∃ e ∈ es, x = .call e := by
    intro x hx
    obtain ⟨e, he, rfl⟩ := List.mem_map.mp hx
    exact ⟨e, he, rfl⟩
  have hown : ∀ x ∈ d :: es.map Deed.call, x.task = i := by
    intro x hx
    rcases List.mem_cons.mp hx with rfl | hx
    · exact hd
    · obtain ⟨e, he, rfl⟩ := hcalls x hx
      exact htasks e he
  have hself : (c.resume i ch t.job p s).tasks[i]? = some ⟨t.job, (M.traced.settle i ch p s).1⟩ := by
    rw [Config.resume, List.getElem?_set_self hlt]
  have hmoved : ∀ {n : Nat}, n ≠ i → (c.resume i ch t.job p s).tasks[n]? = c.tasks[n]? := by
    intro n hne
    rw [Config.resume, List.getElem?_set_ne (Ne.symm hne)]
  have hentries : entriesOf (d :: es.map Deed.call) = d.entry?.toList ++ es := by
    have hcalled : entriesOf (es.map Deed.call) = es := by
      rw [entriesOf, List.filterMap_map]
      exact List.filterMap_some
    rw [← List.singleton_append, entriesOf_append, hcalled]
    cases d <;> rfl
  have hjobs : ∀ {js : List S.Job} {ids : List Nat}, (∀ j ∈ js, ∃ n ∈ ids, ∃ t, c.tasks[n]? = some t ∧ t.job = j) →
      ∀ j ∈ js, ∃ n ∈ ids, ∃ t', (c.resume i ch t.job p s).tasks[n]? = some t' ∧ t'.job = j := by
    intro js ids hall j hj
    obtain ⟨n, hn, t', ht', hjob⟩ := hall j hj
    by_cases hne : n = i
    · -- the task that moves keeps its job
      subst hne
      rw [ht] at ht'
      cases ht'
      exact ⟨n, hn, _, hself, hjob⟩
    · exact ⟨n, hn, t', (hmoved hne).trans ht', hjob⟩
  refine ⟨d :: es.map Deed.call, { trace := ?trace, known := ?known, takes := ?takes, forked := ?forked, joined := ?joined }⟩
  case trace =>
    show _ = (M.traced.settle i ch p s).2.trace
    rw [hsettled, htrace, entriesOf_append, h.trace, hentries, List.append_assoc]
  case known =>
    intro x hx
    rw [Config.resume, List.length_set]
    rcases List.mem_append.mp hx with hx | hx
    · exact h.known x hx
    · rw [hown x hx]
      exact hlt
  case takes =>
    intro n t' ht'
    rw [movesOf_append]
    by_cases hn : n = i
    · -- its earlier moves, this move, and the local ones
      subst hn
      rw [hself] at ht'
      cases ht'
      have hmoves : (d :: es.map Deed.call).map Deed.move = [d.move] ++ es.map fun e => .op e.op e.res := by
        simp [Deed.move, Function.comp_def]
      rw [movesOf_eq_map hown, hmoves]
      exact (h.takes n t ht).trans (htakes.trans hrest)
    · -- the others stand where they stood
      rw [hmoved hn] at ht'
      have hnone : movesOf n (d :: es.map Deed.call) = [] := movesOf_eq_nil fun x hx => (hown x hx) ▸ Ne.symm hn
      rw [hnone, List.append_nil]
      exact h.takes n t' ht'
  case forked =>
    intro before k js ids after hsplit
    -- local operations fork nothing, so the fork is this move or an earlier one
    have hnot : Deed.fork k js ids ∉ es.map Deed.call := by
      intro hmem
      obtain ⟨e, -, he⟩ := hcalls _ hmem
      cases he
    rcases split_concat hsplit hnot with ⟨rfl, hnew⟩ | ⟨mid, hold⟩
    · obtain ⟨hfresh, hall⟩ := hfork k js ids hnew.symm
      exact ⟨hfresh, hjobs hall⟩
    · obtain ⟨hbefore, hall⟩ := h.forked before k js ids mid hold
      exact ⟨hbefore, hjobs hall⟩
  case joined =>
    intro k ids vs hmem n hn
    have hpure : ∃ t v, c.tasks[n]? = some t ∧ t.prog = .pure v := by
      rcases List.mem_append.mp hmem with hmem | hmem
      · exact h.joined k ids vs hmem n hn
      · rcases List.mem_cons.mp hmem with heq | hmem
        · exact hjoin k ids vs heq.symm n hn
        · obtain ⟨e, -, he⟩ := hcalls _ hmem
          cases he
    obtain ⟨t', v, ht', hv⟩ := hpure
    -- a task that has returned does not move any more
    have hne : n ≠ i := by
      rintro rfl
      rw [ht] at ht'
      cases ht'
      exact hrunning v hv
    exact ⟨t', v, (hmoved hne).trans ht', hv⟩

/-- A join that was answered with values has waited for tasks that returned. -/
theorem returned_of_joinResult {ids : List Nat} {vs : List S.Val} (h : c.joinResult ids = some (.ok vs)) :
    ∀ n ∈ ids, ∃ t v, c.tasks[n]? = some t ∧ t.prog = .pure v := by
  unfold Config.joinResult at h
  split at h
  · cases h
  · rename_i hfailed
    obtain ⟨vs', hvs, -⟩ := Option.map_eq_some_iff.mp h
    intro n hn
    clear h hfailed
    induction ids generalizing vs' with
    | nil => cases hn
    | cons m ids ih =>
      rw [List.mapM_cons] at hvs
      obtain ⟨v, hv, hvs⟩ := Option.bind_eq_some_iff.mp hvs
      obtain ⟨rest, hrest, -⟩ := Option.bind_eq_some_iff.mp hvs
      rcases List.mem_cons.mp hn with rfl | hn
      · obtain ⟨t, ht, hprog⟩ := Option.bind_eq_some_iff.mp hv
        split at hprog
        · rename_i v' hv'
          exact ⟨t, v', ht, hv'⟩
        · cases hprog
      · exact ih rest hrest hn

variable {i : Nat} {ch : M.Choice} {t : Task S}

/-- A task makes the call that it is about to make. -/
theorem call (h : Chronicle c ds) (ht : c.tasks[i]? = some t) {o : S.Op} {k : S.Res o → Prog S S.Val}
    (hprog : t.prog = .op o k) (r : S.Res o) (w : M.State) :
    ∃ ds', Chronicle (c.resume i ch t.job (k r) ⟨w, c.state.trace ++ [⟨i, o, r, c.state.state⟩]⟩) (ds ++ ds') := by
  apply h.resume (d := .call ⟨i, o, r, c.state.state⟩) ht _ rfl _ rfl
  · exact fun _ _ _ heq => (by cases heq)
  · exact fun _ _ _ heq => (by cases heq)
  · exact fun v hv => (by rw [hprog] at hv; cases hv)
  · rw [hprog]
    exact .op (.refl _)

/-- The forked jobs take the next numbers. -/
theorem fork (h : Chronicle c ds) (ht : c.tasks[i]? = some t) {js : List S.Job} {k : List Nat → Prog S S.Val}
    (hprog : t.prog = .fork js k) : ∃ ds', Chronicle ({ c with tasks := c.tasks ++ js.map M.traced.spawn }.resume i ch t.job
      (k (List.range' c.tasks.length js.length)) c.state) (ds ++ ds') := by
  have hlt : i < c.tasks.length := (List.getElem?_eq_some_iff.mp ht).1
  have hpool : Chronicle { c with tasks := c.tasks ++ js.map M.traced.spawn } ds := h.enter js rfl rfl
  apply hpool.resume (d := .fork i js (List.range' c.tasks.length js.length)) _ _ rfl _ (List.append_nil _).symm
  · intro k' js' ids heq
    cases heq
    refine ⟨fun x hx hmem => ?_, fun j hj => ?_⟩
    · -- whoever did something was in the pool before
      have := h.known x hx
      rw [List.mem_range'_1] at hmem
      omega
    · obtain ⟨n, hn⟩ := List.mem_iff_getElem?.mp hj
      have hn' := (List.getElem?_eq_some_iff.mp hn).1
      refine ⟨c.tasks.length + n, List.mem_range'_1.mpr ⟨by omega, by omega⟩, M.traced.spawn j, ?_, rfl⟩
      rw [List.getElem?_append_right (by omega), Nat.add_sub_cancel_left, List.getElem?_map, hn]
      rfl
  · exact fun _ _ _ heq => (by cases heq)
  · exact (List.getElem?_append_left hlt).trans ht
  · exact fun v hv => (by rw [hprog] at hv; cases hv)
  · rw [hprog]
    exact .fork (.refl _)

theorem join (h : Chronicle c ds) (ht : c.tasks[i]? = some t) {ids : List Nat}
    {k : Except S.Err (List S.Val) → Prog S S.Val} (hprog : t.prog = .join ids k) {r : Except S.Err (List S.Val)}
    (hr : c.joinResult ids = some r) : ∃ ds', Chronicle (c.resume i ch t.job (k r) c.state) (ds ++ ds') := by
  apply h.resume (d := .join i ids r) ht _ rfl _ (List.append_nil _).symm
  · exact fun _ _ _ heq => (by cases heq)
  · intro k' ids' vs heq
    cases heq
    exact returned_of_joinResult hr
  · exact fun v hv => (by rw [hprog] at hv; cases hv)
  · rw [hprog]
    exact .join (.refl _)

/-- Whatever happens next, short of a crash, continues the chronicle. -/
theorem step (h : Chronicle c ds) {act : Action M.traced} (hact : act ≠ .crash) (hstep : c.step act = some c') :
    ∃ ds', Chronicle c' (ds ++ ds') := by
  cases act with
  | crash => exact absurd rfl hact
  | start j =>
    cases hstep
    exact ⟨[], by rw [List.append_nil]; exact h.enter [j] rfl rfl⟩
  | env e =>
    obtain ⟨s, hs, rfl⟩ := Option.map_eq_some_iff.mp hstep
    obtain ⟨w, -, rfl⟩ := Option.map_eq_some_iff.mp hs
    exact ⟨[], by rw [List.append_nil]; exact h.enter [] rfl (List.append_nil _).symm⟩
  | task i ch =>
    simp only [Config.step, Config.stepTask] at hstep
    split at hstep
    · cases hstep
    · rename_i t ht
      split at hstep
      · rename_i o k hprog
        obtain ⟨q, hex, rfl⟩ := Option.map_eq_some_iff.mp hstep
        obtain ⟨⟨r, w⟩, -, rfl⟩ := Option.map_eq_some_iff.mp hex
        exact h.call ht hprog r w
      · rename_i js k hprog
        cases hstep
        exact h.fork ht hprog
      · rename_i ids k hprog
        obtain ⟨r, hr, rfl⟩ := Option.map_eq_some_iff.mp hstep
        exact h.join ht hprog hr
      · cases hstep

/-- Nothing is done before the first step. -/
theorem initial (htasks : c.tasks = []) (htrace : c.state.trace = []) : Chronicle c [] where
  trace := htrace.symm
  known := fun d hd => (by cases hd)
  takes := fun i t ht => (by rw [htasks] at ht; cases ht)
  forked := fun before i js ids after h => absurd h (by simp)
  joined := fun i ids vs h => (by cases h)

/-- The chronicle of a run that goes on. -/
theorem run (h : Chronicle c ds) {ok : Config M.traced → Action M.traced → Prop} (hok : ∀ c, ¬ ok c .crash)
    (hrun : Config.Run ok c c') : ∃ ds', Chronicle c' (ds ++ ds') := by
  induction hrun with
  | refl => exact ⟨[], by rw [List.append_nil]; exact h⟩
  | step act _ hact hstep ih =>
    obtain ⟨ds', h'⟩ := ih
    obtain ⟨ds'', h''⟩ := h'.step (by rintro rfl; exact hok _ hact) hstep
    exact ⟨ds' ++ ds'', by rw [← List.append_assoc]; exact h''⟩

/-- A call that a task made in the later part of the chronicle was answered after the earlier one. -/
theorem received {ds₁ ds₂ : List (Deed M)} (h : Chronicle c (ds₁ ++ ds₂)) {i : Nat} {o : S.Op} {r : S.Res o}
    (hmem : .op o r ∈ movesOf i ds₂) : c.state.receivedSince (entriesOf ds₁) i o r := by
  obtain ⟨w, mid, after, hlater⟩ := exists_entry hmem
  refine ⟨mid, w, after, ?_⟩
  rw [← h.trace, entriesOf_append, hlater]

theorem answered (h : Chronicle c ds) {i : Nat} {o : S.Op} {r : S.Res o} (hmem : .op o r ∈ movesOf i ds) :
    c.state.received i o r := by
  have hall : Chronicle c ([] ++ ds) := h
  exact (hall.received hmem).received

/-- A job that was forked and joined has returned, and all that it did came after the fork. -/
theorem returned_of_forked {before after : List (Deed M)} {i k : Nat} {js : List S.Job} {ids : List Nat} {vs : List S.Val}
    (h : Chronicle c (before ++ .fork i js ids :: after)) (hjoin : .join k ids (.ok vs) ∈ after) {j : S.Job} (hj : j ∈ js) :
    ∃ n v, (M.code j).Returns (movesOf n (.fork i js ids :: after)) v := by
  obtain ⟨hnone, hall⟩ := h.forked before i js ids after rfl
  obtain ⟨n, hn, t, ht, rfl⟩ := hall j hj
  obtain ⟨t', v, ht', hprog⟩ := h.joined k ids vs (List.mem_append_right _ (.tail _ hjoin)) n hn
  rw [ht] at ht'
  cases ht'
  have htakes := h.takes n t ht
  rw [hprog, movesOf_append, movesOf_eq_nil fun d hd heq => hnone d hd (heq ▸ hn), List.nil_append] at htakes
  exact ⟨n, v, htakes⟩

/-- The calls are deeds of the tasks that made them. -/
theorem deeds_of_trace (h : Chronicle c ds) {before after : List M.Entry} {e : M.Entry}
    (htrace : c.state.trace = before ++ e :: after) :
    ∃ ds₁ ds₂, ds = ds₁ ++ .call e :: ds₂ ∧ entriesOf ds₁ = before := by
  -- forks and joins may stand between two calls
  obtain ⟨ds₁, rest, rfl, hbefore, hrest⟩ := List.filterMap_eq_append_iff.mp (h.trace.trans htrace)
  obtain ⟨skipped, d, ds₂, rfl, hskipped, hd, -⟩ := List.filterMap_eq_cons_iff.mp hrest
  cases d with
  | call e' =>
    cases hd
    refine ⟨ds₁ ++ skipped, ds₂, by rw [List.append_assoc], ?_⟩
    rw [entriesOf_append, entriesOf, hbefore, entriesOf, List.filterMap_eq_nil_iff.mpr hskipped, List.append_nil]
  | fork => cases hd
  | join => cases hd

theorem mem_moves (h : Chronicle c ds) {e : M.Entry} (he : e ∈ c.state.trace) : .op e.op e.res ∈ movesOf e.task ds := by
  obtain ⟨before, after, htrace⟩ := List.append_of_mem he
  obtain ⟨ds₁, ds₂, rfl, -⟩ := h.deeds_of_trace htrace
  exact List.mem_map.mpr ⟨.call e, List.mem_filter.mpr ⟨List.mem_append_right _ (.head _), by simp [Deed.task]⟩, rfl⟩

theorem task_lt (h : Chronicle c ds) {e : M.Entry} (he : e ∈ c.state.trace) : e.task < c.tasks.length := by
  obtain ⟨before, after, htrace⟩ := List.append_of_mem he
  obtain ⟨ds₁, ds₂, rfl, -⟩ := h.deeds_of_trace htrace
  exact h.known (.call e) (List.mem_append_right _ (.head _))

/-- The calls of a task are ones that its protocol allows, given the answers that it received before. -/
theorem asks (h : Chronicle c ds) {R : S.Job → ((o : S.Op) → S.Res o → Prop) → Protocol S}
    {Q : S.Job → ((o : S.Op) → S.Res o → Prop) → S.Val → Prop} (hcode : ∀ j A, (M.code j).Upholds (R j A) (Q j A))
    (hanswers : ∀ {j A o r}, A o r → (R j A).answers o r) {before after : List M.Entry} {e : M.Entry}
    (htrace : c.state.trace = before ++ e :: after) : ∃ t, c.tasks[e.task]? = some t ∧
      (R t.job (Sem.Traced.received ⟨e.before, before⟩ e.task)).asks e.op := by
  obtain ⟨ds₁, ds₂, rfl, hbefore⟩ := h.deeds_of_trace htrace
  have hknown : e.task < c.tasks.length := h.known (.call e) (List.mem_append_right _ (.head _))
  have htakes := h.takes _ _ (List.getElem?_eq_getElem hknown)
  have hmoves : movesOf e.task (ds₁ ++ .call e :: ds₂) = movesOf e.task ds₁ ++ .op e.op e.res :: movesOf e.task ds₂ := by
    simp [movesOf, Deed.task, Deed.move]
  rw [hmoves] at htakes
  refine ⟨c.tasks[e.task], List.getElem?_eq_getElem hknown, (hcode _ _).asks htakes fun o r hmem => hanswers ?_⟩
  obtain ⟨w, mid, rest, hearlier⟩ := exists_entry hmem
  refine ⟨w, ?_⟩
  rw [← hbefore, hearlier]
  exact List.mem_append_right _ (.head _)

end Chronicle

end Async

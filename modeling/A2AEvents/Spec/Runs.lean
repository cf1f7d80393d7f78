import A2AEvents.Spec.RetrySafe

/-!
# Runs of a publisher

The jobs of a publisher keep the contract of their regime, whatever happens beside
them. So every configuration of a run that starts with empty stores satisfies the
invariant of the regime.

## Key results

- `contract_sound`: the jobs fit together
- `inv_of_run`: the invariant along whole runs
- `grows_of_run`: what only ever grows, between any two configurations of a run
-/

namespace A2AEvents

open Async Publisher

variable {cfg : PublisherConfig} {fuel : Nat} {R : Regime} {j : Job} {i : Nat}
  {s s' : Snapshot cfg fuel}

/-! ## Time, grants and restarts -/

/-- The snapshot after time has passed or grants have changed. -/
abbrev Snapshot.passed (s : Snapshot cfg fuel) (clock : Time)
    (authorizer : Option AllowlistAuthorizer) : Snapshot cfg fuel :=
  ⟨{ s.state with clock := clock, authorizer := authorizer }, s.trace⟩

/-- Time and grants are no part of the invariant. -/
theorem Inv.passed (h : Inv R s) (clock : Time) (authorizer : Option AllowlistAuthorizer) :
    Inv R (s.passed clock authorizer) where
  store := ⟨h.store.wf, h.store.cache, h.store.numbered, h.store.unique, h.store.logged⟩
  rows := ⟨h.rows.key, h.rows.absent, h.rows.added⟩
  queue := h.queue
  removals := h.removals
  bounded := fun hb => ⟨(h.bounded hb).backend, (h.bounded hb).position, (h.bounded hb).acked⟩
  ordered := fun ho => ⟨(h.ordered ho).inOrder, (h.ordered ho).caughtUp⟩
  accounts := h.accounts
  gated := h.gated
  fresh := h.fresh

theorem Idles.passed {clock : Time} (authorizer : Option AllowlistAuthorizer)
    (hle : s.state.clock ≤ clock) : Idles R i s (s.passed clock authorizer) where
  trace := ⟨[], by simp, fun _ item h => .inl ⟨item, h, .refl _⟩⟩
  appended := fun _ _ => .inl
  added := fun _ => .inl
  clock := hle
  store := .refl _
  rows := fun _ row h => ⟨row, h, .refl _⟩
  attempts := fun _ h => h
  backend := rfl
  position := fun _ _ _ => Int.le_refl _
  protects := fun _ h => ⟨h, fun _ => rfl, fun _ => rfl⟩
  takeUp := rfl
  lapsed := fun _ => .of_rows_eq rfl hle
  logs := rfl
  subscriptions := rfl
  positions := rfl
  queue := rfl
  locks := rfl

/-- What the environment does. -/
theorem World.env_cases {e : Env} {w w' : World} (h : w.env e = some w') :
    ∃ clock authorizer, w.clock ≤ clock ∧ w' = { w with clock := clock, authorizer := authorizer } := by
  cases e with
  | tick d =>
    simp only [World.env, Option.some.injEq] at h
    exact ⟨w.clock + d, w.authorizer, Int.le_add_of_nonneg_right (Int.natCast_nonneg d), h.symm⟩
  | grant subject topics =>
    simp only [World.env, Option.map_eq_some_iff] at h
    obtain ⟨auth, -, rfl⟩ := h
    exact ⟨w.clock, some _, Int.le_refl _, rfl⟩
  | revoke subject topics =>
    simp only [World.env, Option.map_eq_some_iff] at h
    obtain ⟨auth, -, rfl⟩ := h
    exact ⟨w.clock, some _, Int.le_refl _, rfl⟩

/-- A restart keeps the invariant, except that it may interrupt a delivery whose attempts
    are to be contiguous. -/
theorem Inv.restart (h : Inv R s) (hno : R.ordered = false) :
    Inv R ⟨s.state.restart, s.trace⟩ where
  store := ⟨h.store.wf, (fun _ _ h => (by cases h)), h.store.numbered, h.store.unique, h.store.logged⟩
  rows := ⟨h.rows.key, fun id hnone =>
    ⟨(h.rows.absent id hnone).1, rfl, (h.rows.absent id hnone).2.2⟩, h.rows.added⟩
  queue := h.queue
  removals := h.removals
  bounded := fun hb => ⟨(h.bounded hb).backend, (h.bounded hb).position, (h.bounded hb).acked⟩
  ordered := fun ho => (by cases (hno.symm.trans ho))
  accounts := h.accounts
  gated := h.gated
  fresh := h.fresh

theorem Grows.restart : Grows R s ⟨s.state.restart, s.trace⟩ where
  trace := ⟨[], by simp, fun _ item h => .inl ⟨item, h, .refl _⟩⟩
  appended := fun _ _ => .inl
  added := fun _ => .inl
  clock := Int.le_refl _
  store := .refl _
  rows := fun _ row h => ⟨row, h, .refl _⟩
  attempts := fun _ h => h
  backend := rfl
  position := fun _ _ _ => Int.le_refl _

/-! ## The jobs -/

/-- What a job needs stays true while it waits to run. -/
theorem Ready.stable (h : Ready R j s) (hr : (contract R).rely j i s s') : Ready R j s' := by
  cases j with
  | dispatchSubscription hd topics => exact h.grows (interferes_of_rely hr).toGrows
  | retryDelivery item =>
    have hidle : Idles R i s s' := by simpa [contract, Regime.exclusive] using hr
    refine ⟨h.1, h.2.1.grows hidle.toGrows, ?_⟩
    rw [hidle.queue]
    exact h.2.2
  | _ => exact h

theorem code_safe (hfit : R.Fits cfg) (hready : Ready R j s) :
    Triple R j i (code cfg fuel j) (fun _ _ => True) (fun _ => True) s := by
  cases j with
  | declareTopic topic => exact .bind declareTopic_safe fun _ _ _ => .pure trivial
  | compact topic => exact .bind compact_safe fun _ _ _ => .pure trivial
  | subscribe req => exact .bind (subscribe_safe hfit rfl) fun _ _ _ => .pure trivial
  | getSubscription id =>
    exact .bind (getSubscription_safe (A := fun _ => True) (B := fun _ _ => True) (.const True)
      (fun _ => .of_interferes fun _ _ _ h => h) trivial (fun _ _ _ _ _ _ _ _ => trivial))
      fun _ _ _ => .pure trivial
  | listSubscriptions =>
    exact .bind (listSubscriptions_safe (A := fun _ => True) (fun _ _ _ h => h) trivial)
      fun _ _ _ => .pure trivial
  | renew id lease => exact .bind (renew_safe fun hg => hg) fun _ _ _ => .pure trivial
  | delete id => exact .bind delete_safe fun _ _ _ => .pure trivial
  | ack id cursor => exact .bind (ack_safe hready.1 hready.2) fun _ _ _ => .pure trivial
  | replay id from_ to_ limit => exact .bind replay_safe fun _ _ _ => .pure trivial
  | publish topic type data subject => exact .bind (publish_safe rfl) fun _ _ _ => .pure trivial
  | dispatchPending => exact .bind (dispatchPending_safe rfl) fun _ _ _ => .pure trivial
  | dispatchSubscription h topics =>
    exact .bind (dispatchSubscription_safe hfit hready) fun _ _ _ => .pure trivial
  | retryDelivery item =>
    have hp : Pending [item] s := by
      intro other hother
      rw [List.mem_singleton.mp hother]
      exact hready.2
    exact .bind (retryDelivery_safe rfl hready.1.1 hready.1.2 (by simp) hp)
      fun _ _ _ => .pure trivial
  | runOnce now batch lease =>
    exact .bind (runOnce_safe rfl hready.1 hready.2) fun _ _ _ => .pure trivial

/-- The jobs of a publisher fit together. -/
theorem contract_sound (hfit : R.Fits cfg) :
    (contract R : Contract (sem cfg fuel).traced).Sound where
  rely_refl j i s := rely_of_idles (.refl s)
  rely_trans := by
    intro j i a b c hab hbc
    simp only [contract] at hab hbc ⊢
    split at hab
    · rename_i hj
      simp only [hj, if_true] at hbc ⊢
      exact hab.trans hbc
    · rename_i hj
      simp only [hj] at hbc ⊢
      exact hab.trans hbc
  env_rely := by
    intro e s s' h hinv
    simp only [Option.map_eq_some_iff] at h
    obtain ⟨w, hw, rfl⟩ := h
    obtain ⟨clock, authorizer, hle, rfl⟩ := World.env_cases hw
    exact ⟨hinv.passed clock authorizer, fun j i => rely_of_idles (.passed authorizer hle)⟩
  peer_rely := by
    intro j j' i i' s s' hpeer hne _ _ hguar
    simp only [contract, hpeer.1, hpeer.2, Bool.false_eq_true, if_false] at hguar ⊢
    exact hguar.interferes (Ne.symm hne)
  pre_stable := fun h hr _ => h.stable hr
  code_safe := fun j i s _ h => (code_safe hfit h).weaken fun _ _ _ => trivial

/-! ## Runs from empty stores -/

/-- Empty stores, at some time and with some grants. -/
def World.initial (backend : Backend) (clock : Time) (authorizer : Option AllowlistAuthorizer) :
    World :=
  { clock := clock, subs := { backend := backend }, authorizer := authorizer }

/-- A publisher that starts over empty stores. -/
def initial (cfg : PublisherConfig) (fuel : Nat) (backend : Backend) (clock : Time)
    (authorizer : Option AllowlistAuthorizer) : Run.Config cfg fuel :=
  { state := ⟨World.initial backend clock authorizer, []⟩, tasks := [], raised := [] }

theorem Inv.initial {backend : Backend} {clock : Time} {authorizer : Option AllowlistAuthorizer}
    (hlive : R.bounded = true → backend = .live) :
    Inv R (⟨World.initial backend clock authorizer, []⟩ : Snapshot cfg fuel) where
  store := ⟨(fun _ _ h => (by cases h)), (fun _ _ h => (by cases h)), (fun _ _ h => (by cases h)),
    (fun _ _ h => (by cases h)), fun _ _ h => (by cases h)⟩
  rows := ⟨(fun _ _ h => (by cases h)), fun _ _ => ⟨rfl, rfl, fun _ => rfl⟩, fun _ h => (by cases h)⟩
  queue := fun _ _ h => (by cases h)
  removals := fun _ h => (by cases h)
  bounded := fun hb => ⟨hlive hb, fun _ _ => (by decide : (-1 : Int) < ((0 : Nat) : Int)),
    fun _ _ _ _ h => (by cases h)⟩
  ordered := fun _ => ⟨fun _ _ => ⟨(fun _ h => (by cases h)), .nil⟩, fun _ _ _ _ h => (by cases h)⟩
  accounts := fun _ _ _ _ h => (by cases h)
  gated := fun _ before _ _ h => by simp at h
  fresh := fun _ _ h => (by cases h)

/-- A call that is a client's to make, not a dispatch job; retries are made of queued items. -/
def callable (j : Job) (w : World) : Bool :=
  match j with
  | .dispatchSubscription .. => false
  | .retryDelivery item => w.queue.items.get? item.retryId = some item
  | _ => true

/-- The task that moves disturbs nobody: exclusive calls do not overlap with others. -/
def alone (exclusive : Job → Bool) (c : Run.Config cfg fuel) (i : Nat) : Bool :=
  match c.tasks[i]? with
  | none => true
  | some t => c.tasks.zipIdx.all fun p =>
      p.2 = i || p.1.prog.finished || (!exclusive t.job && !exclusive p.1.job)

/-- The call that task `i` makes when it moves meets a condition. -/
def calls (c : Run.Config cfg fuel) (i : Nat) (test : Job → Op → Bool) : Bool :=
  match c.tasks[i]? with
  | some ⟨j, .op o _⟩ => test j o
  | _ => true

theorem calls_spec {c : Run.Config cfg fuel} {test : Job → Op → Bool} (h : calls c i test = true)
    {t : Task sig} (ht : c.tasks[i]? = some t) {o : Op} {k : o.Res → M Val}
    (hp : t.prog = .op o k) : test t.job o = true := by
  obtain ⟨job, prog⟩ := t
  simp only at hp
  subst hp
  simpa only [calls, ht] using h

theorem peaceful_of_alone {c : Run.Config cfg fuel} (h : alone R.exclusive c i = true) :
    (contract R).Peaceful c i := by
  intro t ht i' t' hne ht' hfin
  simp only [alone, ht, List.all_eq_true] at h
  have hmem : (t', i') ∈ c.tasks.zipIdx := by
    rw [List.mk_mem_zipIdx_iff_getElem?]
    exact ht'
  have htest := h (t', i') hmem
  simp only [hne, decide_false, hfin, Bool.false_or, Bool.and_eq_true, Bool.not_eq_true'] at htest
  exact htest

section Run

variable {ok : Run.Config cfg fuel → Action (sem cfg fuel).traced → Prop} {backend : Backend}
  {clock : Time} {authorizer : Option AllowlistAuthorizer} {a b : Run.Config cfg fuel}

/-- A side condition on runs that is enough for a regime. -/
structure Suffices (R : Regime)
    (ok : Run.Config cfg fuel → Action (sem cfg fuel).traced → Prop) : Prop where
  start : ∀ {c j}, ok c (.start j) → callable j c.state.state = true ∧
    (j.isRetry = true ∨ j.acks?.isSome = true → R.ordered = false ∧ R.accounted = false)
  task : ∀ {c i ch}, ok c (.task i ch) → alone R.exclusive c i = true ∧
    ∀ t, c.tasks[i]? = some t → ∀ o k, t.prog = .op o k → Admissible R t.job o ch c.state
  crash : ∀ {c}, ok c .crash → R.ordered = false

theorem Suffices.admissible (h : Suffices R ok) (c : Run.Config cfg fuel)
    (act : Action (sem cfg fuel).traced) (hok : ok c act) (hgood : (contract R).Good c) :
    (contract R).Admissible c act := by
  cases act with
  | start j =>
    obtain ⟨hcall, hno⟩ := h.start hok
    show Ready R j c.state
    cases j with
    | dispatchSubscription hd topics => cases hcall
    | ack id cursor => exact hno (.inr rfl)
    | retryDelivery item =>
      have hitem : c.state.state.queue.items.get? item.retryId = some item := by
        simpa [callable] using hcall
      obtain ⟨-, howes⟩ := hgood.1.queue _ item hitem
      refine ⟨hno (.inl rfl), howes, fun queued hq => ?_⟩
      rw [hitem] at hq
      cases hq
      exact .refl _
    | runOnce now batch lease => exact hno (.inl rfl)
    | _ => trivial
  | task i ch =>
    obtain ⟨halone, hcalls⟩ := h.task hok
    exact ⟨peaceful_of_alone halone, fun t ht o k hp _ => hcalls t ht o k hp⟩
  | env e => trivial
  | crash => exact hgood.1.restart (h.crash hok)

theorem good_initial (hlive : R.bounded = true → backend = .live) :
    (contract R).Good (initial cfg fuel backend clock authorizer) :=
  ⟨Inv.initial hlive, fun _ _ h => (by cases h)⟩

/-- The invariant of the regime along whole runs. -/
theorem inv_of_run (hfit : R.Fits cfg) (hok : Suffices R ok)
    (hlive : R.bounded = true → backend = .live)
    (h : Config.Run ok (initial cfg fuel backend clock authorizer) a) : Inv R a.state :=
  ((contract_sound hfit).good_run hok.admissible (good_initial hlive) h).1

private theorem grows_of_moves {j : Job} {i : Nat} {s s' : Snapshot cfg fuel}
    (h : (contract R).Moves j i s s') : Grows R s s' := by
  have hg := h.guar
  simp only [contract] at hg
  split at hg
  · exact hg
  · exact hg.toGrows

private theorem grows_of_env {e : Env} {s s' : Snapshot cfg fuel}
    (h : (sem cfg fuel).traced.env e s = some s') : Grows R s s' := by
  simp only [Option.map_eq_some_iff] at h
  obtain ⟨w, hw, rfl⟩ := h
  obtain ⟨clock, authorizer, hle, rfl⟩ := World.env_cases hw
  have hidle : Idles R 0 s (s.passed clock authorizer) := .passed authorizer hle
  exact hidle.toGrows

/-- What only ever grows, between any two configurations of a run. -/
theorem grows_of_run (hfit : R.Fits cfg) (hok : Suffices R ok)
    (hlive : R.bounded = true → backend = .live)
    (ha : Config.Run ok (initial cfg fuel backend clock authorizer) a) (hb : Config.Run ok a b) :
    Grows R a.state b.state :=
  (contract_sound hfit).run_rel hok.admissible Grows.refl Grows.trans (fun _ _ h => grows_of_moves h)
    (fun _ => grows_of_env) (fun _ _ => .restart)
    ((contract_sound hfit).good_run hok.admissible (good_initial hlive) ha) hb

/-- The invariant and the growth also hold at the worlds that the calls of a run found. -/
theorem found_of_run (hfit : R.Fits cfg) (hok : Suffices R ok)
    (hlive : R.bounded = true → backend = .live)
    (ha : Config.Run ok (initial cfg fuel backend clock authorizer) a) (hb : Config.Run ok a b) :
    ∃ l, b.state.trace = a.state.trace ++ l ∧ ∀ before e after, l = before ++ e :: after →
      Inv R (⟨e.before, a.state.trace ++ before⟩ : Snapshot cfg fuel) ∧
        Grows R a.state ⟨e.before, a.state.trace ++ before⟩ ∧
        Grows R ⟨e.before, a.state.trace ++ before⟩ b.state :=
  (contract_sound hfit).run_found hok.admissible Grows.refl Grows.trans (fun _ _ h => grows_of_moves h)
    (fun _ => grows_of_env) (fun _ _ => .restart)
    ((contract_sound hfit).good_run hok.admissible (good_initial hlive) ha) hb

/-- A side condition on runs without exclusive calls; the tasks of such runs interleave freely. -/
structure Peaceful (R : Regime)
    (ok : Run.Config cfg fuel → Action (sem cfg fuel).traced → Prop) : Prop where
  start : ∀ {c j}, ok c (.start j) → callable j c.state.state = true ∧ R.exclusive j = false
  task : ∀ {c i ch}, ok c (.task i ch) → ∀ t, c.tasks[i]? = some t → R.exclusive t.job = false → ∀ o k,
    t.prog = .op o k → Admissible R t.job o ch c.state
  crash : ∀ {c}, ok c .crash → R.ordered = false

/-- The side condition together with a pool without exclusive calls. -/
abbrev Peacefully (R : Regime) (ok : Run.Config cfg fuel → Action (sem cfg fuel).traced → Prop)
    (c : Run.Config cfg fuel) (act : Action (sem cfg fuel).traced) : Prop :=
  ok c act ∧ ∀ t ∈ c.tasks, R.exclusive t.job = false

theorem alone_of_pool {c : Run.Config cfg fuel} (h : ∀ t ∈ c.tasks, R.exclusive t.job = false)
    (i : Nat) : alone R.exclusive c i = true := by
  unfold alone
  split
  · rfl
  · rename_i t ht
    rw [List.all_eq_true]
    intro p hp
    have hmem := List.mem_of_getElem? (List.mk_mem_zipIdx_iff_getElem?.mp hp)
    simp [h t (List.mem_of_getElem? ht), h _ hmem]

theorem Peaceful.suffices (h : Peaceful R ok) : Suffices R (Peacefully R ok) where
  start := by
    rintro c j ⟨hok, _⟩
    obtain ⟨hcall, hexcl⟩ := h.start hok
    refine ⟨hcall, fun hj => ?_⟩
    cases j <;> simp [Regime.exclusive, Job.isRetry, Job.acks?] at hexcl hj
  task := fun hok => ⟨alone_of_pool hok.2 _, fun t ht => h.task hok.1 t ht (hok.2 t (List.mem_of_getElem? ht))⟩
  crash := fun hok => h.crash hok.1

theorem Peaceful.run_pool (h : Peaceful R ok) (hfit : R.Fits cfg)
    (hgood : (contract R).Good a) (hpool : ∀ t ∈ a.tasks, R.exclusive t.job = false)
    (hrun : Config.Run ok a b) :
    Config.Run (Peacefully R ok) a b ∧ ∀ t ∈ b.tasks, R.exclusive t.job = false :=
  (contract_sound hfit).run_pool (fun hpeer => hpeer.2) (fun hok => (h.start hok).2)
    h.suffices.admissible hgood hpool hrun

/-- Runs without exclusive calls are runs that keep the regime. -/
theorem Peaceful.runs (h : Peaceful R ok) (hfit : R.Fits cfg)
    (hlive : R.bounded = true → backend = .live)
    (ha : Config.Run ok (initial cfg fuel backend clock authorizer) a) (hb : Config.Run ok a b) :
    Config.Run (Peacefully R ok) (initial cfg fuel backend clock authorizer) a ∧
      Config.Run (Peacefully R ok) a b := by
  obtain ⟨ha', hpool⟩ := h.run_pool hfit (good_initial hlive) (fun _ ht => (by cases ht)) ha
  have hgood := (contract_sound hfit).good_run h.suffices.admissible (good_initial hlive) ha'
  exact ⟨ha', (h.run_pool hfit hgood hpool hb).1⟩

/-- What happens between two worlds of a run without exclusive calls, together with what every operation does. -/
structure Leads (R : Regime) (Q : Snapshot cfg fuel → Snapshot cfg fuel → Prop) (s s' : Snapshot cfg fuel) : Prop where
  grows : Grows R s s'
  lapsed : R.gated = true → StaysLapsed s s'
  includes : Q s s'

/-- The worlds that the calls of a run without exclusive calls found lie between the ends of the run. -/
theorem Peaceful.found (h : Peaceful R ok) (hfit : R.Fits cfg) (hlive : R.bounded = true → backend = .live)
    {Q : Snapshot cfg fuel → Snapshot cfg fuel → Prop} (hQ : Config.Includes (sem cfg fuel).traced Q)
    (ha : Config.Run ok (initial cfg fuel backend clock authorizer) a) (hb : Config.Run ok a b) :
    ∃ l, b.state.trace = a.state.trace ++ l ∧ ∀ before e after, l = before ++ e :: after →
      Inv R (⟨e.before, a.state.trace ++ before⟩ : Snapshot cfg fuel) ∧
        Leads R Q a.state ⟨e.before, a.state.trace ++ before⟩ ∧
        Leads R Q ⟨e.before, a.state.trace ++ before⟩ b.state := by
  obtain ⟨ha', hb'⟩ := h.runs hfit hlive ha hb
  have hsound := @contract_sound cfg fuel R hfit
  refine hsound.run_found (R := Leads R Q) h.suffices.admissible ?_ ?_ ?_ ?_ ?_
    (hsound.good_run h.suffices.admissible (good_initial hlive) ha') hb'
  · exact fun s => ⟨.refl s, fun _ => .of_rows_eq rfl (Int.le_refl _), hQ.refl s⟩
  · intro s₁ s₂ s₃ h₁ h₂
    exact ⟨h₁.grows.trans h₂.grows, fun hg => (h₁.lapsed hg).trans h₁.grows (h₂.lapsed hg), hQ.trans h₁.includes h₂.includes⟩
  · -- no task of such a run is exclusive
    intro c i ch t s s' hact ht hmoves
    have hguar := hmoves.guar
    simp only [contract, hact.2 t (List.mem_of_getElem? ht), Bool.false_eq_true, if_false] at hguar
    obtain ⟨o, ch', r, hex⟩ := hmoves.exec
    exact ⟨hguar.toGrows, hguar.lapsed, hQ.exec hex⟩
  · intro e s s' _ he
    have hincluded := hQ.env he
    obtain ⟨w, hw, rfl⟩ := Option.map_eq_some_iff.mp he
    obtain ⟨clock, authorizer, hle, rfl⟩ := World.env_cases hw
    have hidle : Idles R 0 s (Snapshot.passed s clock authorizer) := .passed authorizer hle
    exact ⟨hidle.toGrows, hidle.lapsed, hincluded⟩
  · exact fun s _ => ⟨.restart, fun _ => .of_rows_eq rfl (Int.le_refl _), hQ.restart s⟩

end Run

/-! ## A concrete publisher -/

namespace Sample

/-- A publisher that knows every card; its key signs a text with the text itself. -/
def config : PublisherConfig :=
  { agentCardUrl := "https://publisher.example/card"
    source := "a2a://publisher.example"
    signingKey := ⟨"k1", id⟩
    cardResolver := fun url => .ok { cardUrl := url, receiveUrl := some "https://sub.example/events" }
    checkEndpoint := fun _ => .ok ()
    isoformat := fun t => toString t
    lower := fun c => c }

/-- One topic, with all defaults. -/
def topic : Topic := { name := "t" }

/-- A subscription to it. -/
def subscription : SubscribeRequest :=
  { subscriberCardUrl := "https://sub.example/card", topics := ["t"], mode := .webhook }

/-- The same publisher with a retry queue. -/
def queued : PublisherConfig := { config with retryQueue := true }

/-- A publisher that does not give up soon and leaves dispatching to its worker. -/
def patient : PublisherConfig := { config with maxAttempts := 1026, deferredDispatch := true }

/-- The transport fails and may be asked again. -/
def failing : Choice := { result := .ok { ack := false } }

/-- The transport refuses for good. -/
def refusing : Choice := { result := .ok { ack := false, retry := false } }

section Schedules

variable {cfg : PublisherConfig} {fuel : Nat}

/-- A call that runs alone, as task `i` in `n` moves. -/
def call (i : Nat) (j : Job) (n : Nat) (ch : Choice := {}) : List (Action (sem cfg fuel).traced) :=
  .start j :: List.replicate n (.task i ch)

/-- The topic is declared and subscribed to. -/
def subscribed : List (Action (sem cfg fuel).traced) :=
  call 0 (.declareTopic topic) 1 ++ call 1 (.subscribe subscription) 7

/-- An event is published by task `i` and dispatched by task `i + 1` in `n` moves. -/
def published (i n : Nat) (ch : Choice := {}) : List (Action (sem cfg fuel).traced) :=
  call i (.publish "t" "x" [] none) 3 ++ List.replicate n (.task (i + 1) ch) ++ [.task i ch]

end Schedules

end Sample

end A2AEvents

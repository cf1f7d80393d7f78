import A2AEvents.ForStd.Raising
import A2AEvents.ForStd.Recollection
import A2AEvents.Spec.PostgresSessionsSafe

/-!
# The methods of the Postgres event store are calls

Runs of any length, with any number of sessions, lost connections and crashes. What the tables hold is
explained by the calls that took place, one after the other; each of them is the call of a method that was
running then, and a method that has returned made its call exactly once.

## Key results

- `linearizable`: the sessions, seen from outside, call the store one after the other
-/

namespace A2AEvents

namespace EventSession

open Async Transactions

variable {hashtext : String → Int} {store : PostgresEventStore} {clock : Time}

/-- No session is open and no statement has been executed. -/
def initial (hashtext : String → Int) (store : PostgresEventStore) (clock : Time) : Config (sem hashtext).traced where
  state := ⟨{ server := { committed := store }, clock := clock }, []⟩
  tasks := []
  raised := []

/-- Whatever may happen: sessions begin, statements are executed, time passes, connections and clients fail. -/
abbrev AnyRun : Config (sem hashtext).traced → Config (sem hashtext).traced → Prop := Config.Run fun _ _ => True

/-! ## The invariant along runs -/

theorem inv_initial (h : store.Counted) : Inv store (initial hashtext store clock).state where
  tidy := .initial h
  explained := .initial rfl
  committed := fun i db hmem => by cases hmem

theorem admissible_of_good (c : Config (sem hashtext).traced) (act : Action (sem hashtext).traced) (_ : True)
    (h : (contract hashtext store).Good c) : (contract hashtext store).Admissible c act := by
  cases act with
  | start j => trivial
  | task i ch => exact ⟨fun _ _ _ _ _ _ _ => trivial, fun _ _ _ _ _ _ => trivial⟩
  | env e => trivial
  | crash =>
    -- the transactions are given up
    have hs : Inv store c.state := h.1
    show Inv store ⟨c.state.state.restart, c.state.trace⟩
    exact hs.give_up (.initial hs.tidy.counted) rfl _

theorem good_initial (h : store.Counted) : (contract hashtext store).Good (initial hashtext store clock) :=
  ⟨inv_initial h, fun _ _ ht => by cases ht⟩

theorem inv_run (h : store.Counted) {c : Config (sem hashtext).traced} (hrun : AnyRun (initial hashtext store clock) c) :
    Inv store c.state :=
  ((contract_sound hashtext store).good_run admissible_of_good (good_initial h) hrun).1

/-- The answers are those of the server. -/
def Performed (e : Entry hashtext) : Prop :=
  ∃ c db, e.before.exec hashtext e.task e.op c = some (e.res, db)

theorem performed_run {c : Config (sem hashtext).traced} (hrun : AnyRun (initial hashtext store clock) c) :
    ∀ e ∈ c.state.trace, Performed e := by
  refine Config.Run.entries (P := Performed) ?_ ?_ hrun ?_
  · intro i o r s h
    cases h
  · intro c i ch t o k r w _ _ _ hex
    exact ⟨ch, w, hex⟩
  · intro e he
    cases he

/-! ## What methods do -/

section Moves

variable {α : Type} {l : List (Move sql)} {e : PyError} {a : α}

theorem execute_returns {o : Statement} {a : o.Ans} : (execute o).Returns l a ↔ l = [.op o (.ok a)] := by
  constructor
  · intro h
    obtain ⟨r, l', rfl, hraising⟩ := Prog.returns_call_bind.mp h
    obtain ⟨rfl, rfl⟩ := Prog.returns_lift.mp hraising
    rfl
  · rintro rfl
    exact Prog.returns_call_bind.mpr ⟨_, _, rfl, .refl _⟩

theorem execute_raises {o : Statement} : (execute o).Raises l e ↔ l = [.op o (.error e)] := by
  constructor
  · intro h
    obtain ⟨r, l', rfl, hraising⟩ := Prog.raises_op.mp h
    obtain ⟨rfl, rfl⟩ := Prog.raises_lift.mp hraising
    rfl
  · rintro rfl
    exact Prog.raises_op.mpr ⟨_, _, rfl, .refl _⟩

/-- A transaction that returns has committed what its block did. -/
theorem transaction_returns {block : M α} (h : (transaction block).Returns l a) :
    ∃ l', block.Returns l' a ∧
      l = .op .openTransaction (.ok ()) :: (l' ++ [.op .commit (.ok ()), .op .acknowledged (.ok ())]) := by
  obtain ⟨l₁, u, l₂, rfl, hopen, hrest⟩ := Prog.returns_bind.mp h
  obtain rfl := execute_returns.mp hopen
  obtain ⟨l', r, l₃, rfl, hattempt, hafter⟩ := Prog.returns_bind.mp hrest
  cases r with
  | ok b =>
    obtain ⟨l₄, v, l₅, rfl, hcommit, hreplied⟩ := Prog.returns_bind.mp hafter
    obtain rfl := execute_returns.mp hcommit
    obtain ⟨l₆, w, l₇, rfl, hreply, hpure⟩ := Prog.returns_bind.mp hreplied
    obtain rfl := execute_returns.mp hreply
    obtain ⟨rfl, rfl⟩ := Prog.returns_pure.mp hpure
    exact ⟨l', Prog.returns_attempt hattempt, rfl⟩
  | error e =>
    -- the exception is raised again
    obtain ⟨l₄, v, l₅, rfl, -, hraise⟩ := Prog.returns_bind.mp hafter
    obtain ⟨-, heq⟩ := Prog.returns_lift.mp hraise
    cases heq

/-- A transaction that raises has committed nothing, unless the reply to the commit was lost. -/
theorem transaction_raises {block : M α} (hblock : block.Only fun o : Statement => o ≠ .commit) (h : (transaction block).Raises l e) :
    .op .commit (.ok ()) ∉ l ∨ .op .acknowledged (.error e) ∈ l := by
  rcases Prog.raises_bind.mp h with hopen | ⟨l₁, u, l₂, rfl, hopen, hrest⟩
  · obtain rfl := execute_raises.mp hopen
    exact .inl (by simp)
  obtain rfl := execute_returns.mp hopen
  rcases Prog.raises_bind.mp hrest with hattempt | ⟨l', r, l₃, rfl, hattempt, hafter⟩
  · exact absurd hattempt Prog.not_raises_attempt
  have hnone : (.op .commit (.ok ()) : Move sql) ∉ l' :=
    fun hmem => hblock.takes (Prog.returns_attempt hattempt) _ _ hmem rfl
  cases r with
  | ok b =>
    rcases Prog.raises_bind.mp hafter with hcommit | ⟨l₄, v, l₅, rfl, -, hreplied⟩
    · obtain rfl := execute_raises.mp hcommit
      exact .inl (by simp [hnone])
    · rcases Prog.raises_bind.mp hreplied with hreply | ⟨l₆, w, l₇, rfl, -, hpure⟩
      · obtain rfl := execute_raises.mp hreply
        exact .inr (by simp)
      · exact absurd hpure Prog.not_raises_pure
  | error e' =>
    rcases Prog.raises_bind.mp hafter with hrollback | ⟨l₄, v, l₅, rfl, hrollback, hraise⟩
    · obtain rfl := execute_raises.mp hrollback
      exact .inl (by simp [hnone])
    · obtain rfl := execute_returns.mp hrollback
      obtain ⟨rfl, -⟩ := Prog.raises_lift.mp hraise
      exact .inl (by simp [hnone])

theorem getTopic_returns {name : String} {config : Topic} (h : (getTopic name).Returns l config) :
    l = [.op (.selectConfig name) (.ok (some config))] := by
  obtain ⟨l₁, found, l₂, rfl, hselect, hrest⟩ := Prog.returns_bind.mp h
  obtain rfl := execute_returns.mp hselect
  cases found with
  | none => exact absurd hrest Prog.not_returns_raise
  | some config' =>
    obtain ⟨rfl, rfl⟩ := Prog.returns_pure.mp hrest
    rfl

theorem getTopic_raises {name : String} (h : (getTopic name).Raises l e) : ∃ r, l = [.op (.selectConfig name) r] := by
  rcases Prog.raises_bind.mp h with hselect | ⟨l₁, found, l₂, rfl, hselect, hrest⟩
  · exact ⟨_, execute_raises.mp hselect⟩
  · obtain rfl := execute_returns.mp hselect
    cases found with
    | none =>
      obtain ⟨rfl, -⟩ := Prog.raises_raise.mp hrest
      exact ⟨_, rfl⟩
    | some config => exact absurd hrest Prog.not_raises_pure

variable {eventId topic eventType source : String} {data : List (String × Json)} {subject : Option String}

/-- What the block of an append has done. -/
theorem allocate_returns {p : String × Time} (h : (allocate eventId topic eventType source data subject).Returns l p) :
    ∃ stored count offset, l = [.op (.advisoryLock topic) (.ok ()), .op (.selectNextOffset topic) (.ok stored),
      .op (.countEvents topic) (.ok count),
      .op (.insertEvent eventId topic p.1 subject eventType source data) (.ok p.2),
      .op (.updateNextOffset offset topic) (.ok ())] := by
  obtain ⟨l₁, u, l₂, rfl, hlock, h₂⟩ := Prog.returns_bind.mp h
  obtain rfl := execute_returns.mp hlock
  obtain ⟨l₃, stored, l₄, rfl, hstored, h₃⟩ := Prog.returns_bind.mp h₂
  obtain rfl := execute_returns.mp hstored
  obtain ⟨l₅, count, l₆, rfl, hcount, h₄⟩ := Prog.returns_bind.mp h₃
  obtain rfl := execute_returns.mp hcount
  obtain ⟨l₇, cursor, l₈, rfl, hcursor, h₅⟩ := Prog.returns_bind.mp h₄
  obtain ⟨rfl, -⟩ := Prog.returns_lift.mp hcursor
  obtain ⟨l₉, createdAt, l₁₀, rfl, hinsert, h₆⟩ := Prog.returns_bind.mp h₅
  obtain rfl := execute_returns.mp hinsert
  obtain ⟨l₁₁, v, l₁₂, rfl, hupdate, h₇⟩ := Prog.returns_bind.mp h₆
  obtain rfl := execute_returns.mp hupdate
  obtain ⟨rfl, rfl⟩ := Prog.returns_pure.mp h₇
  exact ⟨stored, count, _, rfl⟩

/-- The block itself commits nothing. -/
theorem allocate_only : (allocate eventId topic eventType source data subject).Only fun o : Statement => o ≠ .commit := by
  have hexecute : ∀ o : Statement, o ≠ .commit → (execute o).Only fun o : Statement => o ≠ .commit :=
    fun o ho => .bind (.call ho) fun r => Prog.Only.lift (S := sql) r
  refine .bind (hexecute _ (by simp)) fun _ => .bind (hexecute _ (by simp)) fun stored => ?_
  refine .bind (hexecute _ (by simp)) fun count => .bind (Prog.Only.lift (S := sql) _) fun cursor => ?_
  exact .bind (hexecute _ (by simp)) fun createdAt => .bind (hexecute _ (by simp)) fun _ => .pure _

/-- An append that has returned inserted its record once, committed once and declared or deleted nothing. -/
theorem append_returns {record : EventRecord} (h : (append topic eventType source data subject).Returns l record) :
    ∃ config stored count offset, l = [.op (.selectConfig topic) (.ok (some config)), .op .newEventId (.ok record.eventId),
      .op .openTransaction (.ok ()), .op (.advisoryLock topic) (.ok ()), .op (.selectNextOffset topic) (.ok stored),
      .op (.countEvents topic) (.ok count), .op (insertOf record) (.ok record.createdAt),
      .op (.updateNextOffset offset topic) (.ok ())] ++ .op .commit (.ok ()) :: [.op .acknowledged (.ok ())] := by
  obtain ⟨l₁, config, l₂, rfl, hconfig, h₂⟩ := Prog.returns_bind.mp h
  obtain rfl := getTopic_returns hconfig
  obtain ⟨l₃, eventId, l₄, rfl, hid, h₃⟩ := Prog.returns_bind.mp h₂
  obtain rfl := execute_returns.mp hid
  obtain ⟨l₅, bytes, l₆, rfl, hbytes, h₄⟩ := Prog.returns_bind.mp h₃
  obtain ⟨rfl, -⟩ := Prog.returns_lift.mp hbytes
  obtain ⟨l₇, p, l₈, rfl, htransaction, h₅⟩ := Prog.returns_bind.mp h₄
  obtain ⟨l', hblock, rfl⟩ := transaction_returns htransaction
  obtain ⟨stored, count, offset, rfl⟩ := allocate_returns hblock
  obtain ⟨rfl, rfl⟩ := Prog.returns_pure.mp h₅
  exact ⟨config, stored, count, offset, rfl⟩

/-- An append that has raised committed nothing, unless the reply was lost. -/
theorem append_raises (h : (append topic eventType source data subject).Raises l e) :
    .op .commit (.ok ()) ∉ l ∨ .op .acknowledged (.error e) ∈ l := by
  rcases Prog.raises_bind.mp h with hconfig | ⟨l₁, config, l₂, rfl, hconfig, h₂⟩
  · obtain ⟨r, rfl⟩ := getTopic_raises hconfig
    exact .inl (by simp)
  obtain rfl := getTopic_returns hconfig
  rcases Prog.raises_bind.mp h₂ with hid | ⟨l₃, eventId, l₄, rfl, hid, h₃⟩
  · obtain rfl := execute_raises.mp hid
    exact .inl (by simp)
  obtain rfl := execute_returns.mp hid
  rcases Prog.raises_bind.mp h₃ with hbytes | ⟨l₅, bytes, l₆, rfl, hbytes, h₄⟩
  · obtain ⟨rfl, -⟩ := Prog.raises_lift.mp hbytes
    exact .inl (by simp)
  obtain ⟨rfl, -⟩ := Prog.returns_lift.mp hbytes
  rcases Prog.raises_bind.mp h₄ with htransaction | ⟨l₇, p, l₈, rfl, -, h₅⟩
  · rcases transaction_raises allocate_only htransaction with hnone | hlost
    · exact .inl (by simp [hnone])
    · exact .inr (by simp [hlost])
  · exact absurd h₅ Prog.not_raises_pure

end Moves

/-! ## What methods ask for -/

/-- The calls of the store that a method is there to make. -/
def Job.Makes : Job → StoreCall → Prop
  | .declareTopic topic, .declareTopic topic' => topic' = topic
  | .append topic eventType source data subject, .append _ _ topic' eventType' source' data' subject' =>
    topic' = topic ∧ eventType' = eventType ∧ source' = source ∧ data' = data ∧ subject' = subject
  | .compact name?, .compact _ name?' => name? = none ∨ name?' = name?
  | _, _ => False

/-- The statements that write, as its methods execute them. -/
def Job.Asks (job : Job) : Statement → Prop
  | .insertTopic topic => job = .declareTopic topic
  | .deleteAged name _ => ∃ name?, job = .compact name? ∧ (name? = none ∨ some name = name?)
  | .insertEvent _ topic _ subject eventType source payload => job = .append topic eventType source payload subject
  | _ => True

/-- What a method asks, whatever it is answered. -/
def protocol (job : Job) (_ : (o : Statement) → sql.Res o → Prop) : Protocol sql where
  asks := job.Asks
  answers _ _ := True
  jobs _ := False

section Asks

variable {job : Job} {A : (o : Statement) → sql.Res o → Prop} {name : String}

private theorem execute_asks {o : Statement} (ho : job.Asks o) : (execute o).Upholds (protocol job A) fun _ => True :=
  .bind (.call (P := fun _ => True) ho fun _ _ => trivial) fun _ _ => Prog.Upholds.lift (S := sql) fun _ _ => trivial

private theorem raising_asks {α : Type} (x : Except PyError α) : (raising x).Upholds (protocol job A) fun _ => True :=
  Prog.Upholds.lift (S := sql) fun _ _ => trivial

private theorem transaction_asks {α : Type} {block : M α} (hblock : block.Upholds (protocol job A) fun _ => True) :
    (transaction block).Upholds (protocol job A) fun _ => True := by
  refine .bind (execute_asks trivial) fun _ _ => .bind hblock.attempt fun outcome _ => ?_
  cases outcome with
  | ok a => exact .bind (execute_asks trivial) fun _ _ => .bind (execute_asks trivial) fun _ _ => .pure trivial
  | error e => exact .bind (execute_asks trivial) fun _ _ => raising_asks _

private theorem getTopic_asks : (getTopic name).Upholds (protocol job A) fun _ => True := by
  refine .bind (execute_asks trivial) fun found _ => ?_
  cases found with
  | none => exact .raise _
  | some config => exact .pure trivial

private theorem append_asks {topic eventType source : String} {data : List (String × Json)} {subject : Option String} :
    (append topic eventType source data subject).Upholds (protocol (.append topic eventType source data subject) A)
      fun _ => True := by
  refine .bind getTopic_asks fun _ _ => .bind (execute_asks trivial) fun eventId _ => ?_
  refine .bind (raising_asks _) fun _ _ => .bind (transaction_asks ?_) fun _ _ => .pure trivial
  -- the block
  refine .bind (execute_asks trivial) fun _ _ => .bind (execute_asks trivial) fun stored _ => ?_
  refine .bind (execute_asks trivial) fun count _ => .bind (raising_asks _) fun cursor _ => ?_
  exact .bind (execute_asks rfl) fun createdAt _ => .bind (execute_asks trivial) fun _ _ => .pure trivial

private theorem compactNames_asks {name? : Option String} {names : List String}
    (h : ∀ name ∈ names, name? = none ∨ some name = name?) : ∀ removed,
    (compactNames removed names).Upholds (protocol (.compact name?) A) fun _ => True := by
  induction names with
  | nil => exact fun _ => .pure trivial
  | cons name rest ih =>
    have hrest := ih fun other hother => h other (.tail _ hother)
    intro removed
    refine .bind getTopic_asks fun config _ => ?_
    simp only
    split
    · exact hrest removed
    · exact .bind (execute_asks ⟨_, rfl, h name (.head _)⟩) fun deleted _ => hrest (removed + deleted)

private theorem compact_asks (name? : Option String) :
    (compact name?).Upholds (protocol (.compact name?) A) fun _ => True := by
  cases name? with
  | some name => exact compactNames_asks (fun other hother => .inr (congrArg some (List.mem_singleton.mp hother))) 0
  | none => exact .bind (execute_asks trivial) fun topics _ => compactNames_asks (fun _ _ => .inl rfl) 0

private theorem lowerBound_asks (topic : String) (fromCursor : Option String) :
    (lowerBound topic fromCursor).Upholds (protocol job A) fun _ => True := by
  cases fromCursor with
  | none => exact .pure trivial
  | some from_ =>
    simp only [lowerBound]
    split
    · exact .pure trivial
    · refine .bind (raising_asks _) fun _ _ => .bind (P := fun _ => True) ?_ fun oldest _ => ?_
      · exact .bind getTopic_asks fun config _ => execute_asks trivial
      · cases oldest with
        | none => exact .pure trivial
        | some oldest =>
          simp only
          split
          · exact raising_asks _
          · exact .pure trivial

private theorem read_asks (topic : String) (fromCursor toCursor : Option String) (limit : Int) :
    (read topic fromCursor toCursor limit).Upholds (protocol job A) fun _ => True := by
  refine .bind getTopic_asks fun _ _ => ?_
  split
  · exact .pure trivial
  · refine .bind (lowerBound_asks topic fromCursor) fun lower _ => .bind (raising_asks _) fun upper _ => ?_
    exact .bind getTopic_asks fun config _ => .bind (execute_asks trivial) fun rows _ => raising_asks _

theorem code_asks (job : Job) (A : (o : Statement) → sql.Res o → Prop) :
    (code job).Upholds (protocol job A) fun _ => True := by
  cases job with
  | declareTopic topic => exact .bind (execute_asks rfl) fun _ _ => .pure trivial
  | append topic eventType source data subject => exact .bind append_asks fun _ _ => .pure trivial
  | compact name? => exact .bind (compact_asks name?) fun _ _ => .pure trivial
  | read topic fromCursor toCursor limit => exact .bind (read_asks topic fromCursor toCursor limit) fun _ _ => .pure trivial

end Asks

/-! ## Runs, told to their end -/

/-- All that is known of a run: its history, and a memory of what each session did. -/
structure Told (store : PostgresEventStore) (c : Config (sem hashtext).traced) (ds : List (Deed (sem hashtext))) : Prop where
  inv : Inv store c.state
  performed : ∀ e ∈ c.state.trace, Performed e
  trace : entriesOf ds = c.state.trace
  returned : ∀ i job v, c.tasks[i]? = some ⟨job, .pure v⟩ → (code job).Returns (movesOf i ds) v
  raised : ∀ i job e, c.tasks[i]? = some ⟨job, .raise e⟩ → (code job).Raises (movesOf i ds) e
  moves : ∀ e ∈ c.state.trace, .op e.op e.res ∈ movesOf e.task ds
  asks : ∀ e ∈ c.state.trace, ∃ t, c.tasks[e.task]? = some t ∧ t.job.Asks e.op

theorem told_run (h : store.Counted) {c : Config (sem hashtext).traced} (hrun : AnyRun (initial hashtext store clock) c) :
    ∃ ds, Told store c ds := by
  obtain ⟨m, ds, hrecalls, hchronicle⟩ := (Recalls.refl (initial hashtext store clock)).run (Chronicle.initial rfl rfl) hrun
  have htrace : m.state.trace = c.state.trace := congrArg Sem.Traced.trace hrecalls.state
  rw [List.nil_append] at hchronicle
  refine ⟨ds, inv_run h hrun, performed_run hrun, hchronicle.trace.trans htrace, ?_, ?_, ?_, ?_⟩
  · intro i job v ht
    exact hchronicle.takes i _ (hrecalls.moving ht (by simp))
  · intro i job e ht
    exact hchronicle.takes i _ (hrecalls.moving ht (by simp))
  · intro e he
    exact hchronicle.mem_moves (htrace ▸ he)
  · intro e he
    obtain ⟨before, after, hsplit⟩ := List.append_of_mem he
    obtain ⟨t, ht, hasks⟩ := hchronicle.asks (R := protocol) (Q := fun _ _ _ => True) code_asks (fun _ => trivial)
      (htrace.trans hsplit)
    -- the memory has the jobs of the pool
    have hlt : e.task < c.tasks.length := by
      rw [← hrecalls.length]
      exact (List.getElem?_eq_some_iff.mp ht).1
    have hget := List.getElem?_eq_getElem hlt
    refine ⟨_, hget, ?_⟩
    rw [← (hrecalls.tasks e.task _ t hget ht).job]
    exact hasks

/-! ## Calls -/

/-- The statements that may stand for a call. -/
def Statement.writes : Statement → Bool
  | .insertTopic _ | .deleteAged .. | .commit => true
  | _ => false

theorem Entry.call?_of_not_writes {e : Entry hashtext} (h : e.op.writes = false) : e.call? = none := by
  obtain ⟨i, o, r, db⟩ := e
  cases o <;> first | rfl | cases h

theorem insertOf_inj {a b : EventRecord} (h : (.op (insertOf a) (.ok a.createdAt) : Move sql) =
    .op (insertOf b) (.ok b.createdAt)) : a = b := by
  obtain ⟨_, _, _, _, _, _, _, _⟩ := a
  obtain ⟨_, _, _, _, _, _, _, _⟩ := b
  simp only [insertOf] at h
  cases h
  rfl

/-- The task has issued the record by one call, and it has made no other one. -/
def CallsOnce (store : PostgresEventStore) (trace : List (Entry hashtext)) (i : Nat) (record : EventRecord) : Prop :=
  ∃ before e after, trace = before ++ e :: after ∧ e.task = i ∧ e.call? = some (appendOf record) ∧
    (store.run (calls before)).issued? (appendOf record) = some record ∧
    ∀ e' ∈ before ++ after, e'.task = i → e'.call? = none

namespace Told

variable {c : Config (sem hashtext).traced} {ds : List (Deed (sem hashtext))} {i : Nat} {record : EventRecord}

/-- A commit is the call of an append that was running. -/
theorem commit_made (h : Told store c ds) {db : Database} (he : (⟨i, .commit, .ok (), db⟩ : Entry hashtext) ∈ c.state.trace) :
    ∃ record t, db.draft? i = some record ∧ c.tasks[i]? = some t ∧
      t.job = .append record.topic record.eventType record.source record.data record.subject := by
  obtain ⟨record, hdraft, -, before, hinsert⟩ := h.inv.committed i db he
  obtain ⟨t, ht, hasks⟩ := h.asks _ hinsert
  exact ⟨record, t, hdraft, ht, hasks⟩

/-- Every call is one that the method of its session is there to make. -/
theorem made (h : Told store c ds) {e : Entry hashtext} (he : e ∈ c.state.trace) {call : StoreCall}
    (hcall : e.call? = some call) : ∃ t, c.tasks[e.task]? = some t ∧ t.job.Makes call := by
  have hasks := h.asks e he
  obtain ⟨i, o, r, db⟩ := e
  obtain ⟨t, ht, hasks⟩ := hasks
  refine ⟨t, ht, ?_⟩
  cases r with
  | error err =>
    rw [call?_error] at hcall
    cases hcall
  | ok a =>
    cases o with
    | insertTopic topic =>
      cases hcall
      have hjob : t.job = .declareTopic topic := hasks
      rw [hjob]
      exact rfl
    | deleteAged name retention =>
      cases hcall
      obtain ⟨name?, hjob, hname⟩ := hasks
      rw [hjob]
      exact hname
    | commit =>
      obtain ⟨record, t', hdraft, ht', hjob⟩ := h.commit_made he
      obtain rfl : t = t' := Option.some.inj (ht.symm.trans ht')
      rw [Entry.call?, hdraft] at hcall
      cases hcall
      rw [hjob]
      exact ⟨rfl, rfl, rfl, rfl, rfl⟩
    | _ => cases hcall

/-- An append that has returned has issued its record, once. -/
theorem callsOnce (h : Told store c ds) {job : Job} (ht : c.tasks[i]? = some ⟨job, .pure (.record record)⟩) :
    CallsOnce store c.state.trace i record := by
  have hreturns := h.returned i job _ ht
  cases job with
  | declareTopic topic =>
    obtain ⟨_, _, _, -, -, hpure⟩ := Prog.returns_bind.mp hreturns
    cases (Prog.returns_pure.mp hpure).2
  | compact name? =>
    obtain ⟨_, _, _, -, -, hpure⟩ := Prog.returns_bind.mp hreturns
    cases (Prog.returns_pure.mp hpure).2
  | read topic fromCursor toCursor limit =>
    obtain ⟨_, _, _, -, -, hpure⟩ := Prog.returns_bind.mp hreturns
    cases (Prog.returns_pure.mp hpure).2
  | append topic eventType source data subject =>
    obtain ⟨l, record', l', hmoves, hbody, hpure⟩ := Prog.returns_bind.mp hreturns
    obtain ⟨rfl, hval⟩ := Prog.returns_pure.mp hpure
    cases hval
    rw [List.append_nil] at hmoves
    obtain ⟨config, stored, count, offset, rfl⟩ := append_returns hbody
    have hsplit := hmoves
    -- the commit among the entries
    obtain ⟨before, db, after, htrace, hothers⟩ := entries_around hmoves
    rw [h.trace] at htrace
    have hmem : (⟨i, .commit, .ok (), db⟩ : Entry hashtext) ∈ c.state.trace := by
      rw [htrace]
      exact List.mem_append_right _ (.head _)
    -- what it committed is what was inserted
    obtain ⟨record', hdraft, hissues, w, hinsert⟩ := h.inv.committed i db hmem
    obtain rfl : record' = record := by
      have hmove := h.moves _ hinsert
      rw [hmoves] at hmove
      apply insertOf_inj
      simpa [insertOf] using hmove
    have hfound := h.inv.found htrace
    refine ⟨_, _, _, htrace, rfl, by rw [Entry.call?, hdraft]; rfl, by rw [← hfound]; exact hissues, ?_⟩
    intro e' he' htask
    have hmove := hothers e' he' htask
    apply Entry.call?_of_not_writes
    obtain ⟨i', o, r, db'⟩ := e'
    cases o with
    | insertTopic topic' => simp [insertOf] at hmove
    | deleteAged name retention => simp [insertOf] at hmove
    | commit => simp [insertOf] at hmove
    | _ => rfl

/-- An append that has raised has made no call, unless the connection was lost. -/
theorem callsNever (h : Told store c ds) {topic eventType source : String} {data : List (String × Json)}
    {subject : Option String} {err : PyError}
    (ht : c.tasks[i]? = some ⟨.append topic eventType source data subject, .raise err⟩) (hlost : err ≠ connectionLost) :
    ∀ e : Entry hashtext, e ∈ c.state.trace → e.task = i → e.call? = none := by
  intro e he htask
  cases hcall : e.call? with
  | none => rfl
  | some call =>
    exfalso
    obtain ⟨t, ht', hmakes⟩ := h.made he hcall
    rw [htask, ht] at ht'
    cases ht'
    have hraises : (append topic eventType source data subject).Raises (movesOf i ds) err := by
      rcases Prog.raises_bind.mp (h.raised i _ err ht) with hbody | ⟨_, _, _, -, -, hpure⟩
      · exact hbody
      · exact absurd hpure Prog.not_raises_pure
    have hmove := h.moves e he
    rw [htask] at hmove
    obtain ⟨i', o, r, db⟩ := e
    cases r with
    | error err' =>
      rw [call?_error] at hcall
      cases hcall
    | ok a =>
      cases o with
      | insertTopic topic' =>
        cases hcall
        exact hmakes
      | deleteAged name retention =>
        cases hcall
        exact hmakes
      | commit =>
        rcases append_raises hraises with hnone | hreply
        · exact hnone hmove
        · -- only a lost connection keeps the reply back
          obtain ⟨w, before, after, hentries⟩ := exists_entry hreply
          rw [h.trace] at hentries
          obtain ⟨ch, db', hex⟩ := h.performed ⟨i, .acknowledged, .error err, w⟩ (by rw [hentries]; simp)
          rcases reach_cases hex with ⟨heq, -⟩ | heq
          · cases heq
            exact hlost rfl
          · cases heq
      | _ => cases hcall

end Told

/-- Seen from outside, the sessions call the store one after the other. -/
structure Linear (store : PostgresEventStore) (c : Config (sem hashtext).traced) : Prop where
  tables : c.state.state.server.committed = store.run (calls c.state.trace)
  made : ∀ (e : Entry hashtext) call, e ∈ c.state.trace → e.call? = some call →
    ∃ t, c.tasks[e.task]? = some t ∧ t.job.Makes call
  returned : ∀ (i : Nat) job record, c.tasks[i]? = some ⟨job, .pure (.record record)⟩ →
    CallsOnce store c.state.trace i record
  raised : ∀ (i : Nat) topic eventType source data subject err,
    c.tasks[i]? = some ⟨.append topic eventType source data subject, .raise err⟩ → err ≠ connectionLost →
      ∀ e : Entry hashtext, e ∈ c.state.trace → e.task = i → e.call? = none

/-- However the statements of the sessions interleave and whatever fails, the tables are those of calls made one
    after the other: each by the method of the session that made it, while it ran. An append that returned its record
    has made exactly the call that issued it, and one that raised has made none, unless the connection was lost. -/
theorem linearizable (hcounted : store.Counted) {c : Config (sem hashtext).traced}
    (hrun : AnyRun (initial hashtext store clock) c) : Linear store c := by
  obtain ⟨ds, htold⟩ := told_run hcounted hrun
  exact
    { tables := htold.inv.history
      made := fun e call he hcall => htold.made he hcall
      returned := fun i job record ht => htold.callsOnce ht
      raised := fun i topic eventType source data subject err ht hlost => htold.callsNever ht hlost }

namespace Sample

def lockKey : String → Int := fun name => name.length

/-- Two appends begin their transactions. One of them waits for the other to commit. -/
def schedule : List (Action (sem lockKey).traced) :=
  let move (i : Nat) (eventId : String) : Action (sem lockKey).traced := .task i { eventId := eventId }
  [.start (.declareTopic { name := "t" }), move 0 "",
    .start (.append "t" "first" "" [] none), .start (.append "t" "second" "" [] none),
    move 1 "", move 2 "", move 1 "a", move 2 "b", move 1 "", move 2 "", move 2 ""] ++
    List.replicate 6 (move 2 "") ++ List.replicate 7 (move 1 "")

/-- Both have returned. -/
def bothReturned (c : Config (sem lockKey).traced) : Bool :=
  [1, 2].all fun i => (c.tasks[i]?.bind fun t => t.prog.outcome).any fun outcome =>
    match outcome with
    | .ok (.record _) => true
    | _ => false

theorem appends : ∃ c, AnyRun (initial lockKey {} 0) c ∧ bothReturned c = true := by
  have hrun : ((initial lockKey {} 0).runsWith (fun _ _ => true) schedule).any bothReturned = true := by
    decide +kernel
  obtain ⟨c, hc, hp⟩ := Config.Run.of_any hrun
  exact ⟨c, hc.mono fun _ _ _ => trivial, hp⟩

end Sample

theorem linearizable_sample : ∃ c, AnyRun (initial Sample.lockKey {} 0) c ∧ Sample.bothReturned c = true ∧
    Linear {} c := by
  obtain ⟨c, hrun, hreturned⟩ := Sample.appends
  exact ⟨c, hrun, hreturned, linearizable PostgresEventStore.counted_empty hrun⟩

end EventSession

end A2AEvents

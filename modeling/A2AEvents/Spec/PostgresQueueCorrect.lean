import A2AEvents.Spec.PostgresQueueSafe
import Mathlib.Data.List.Induction

/-!
# Retries are not lost

Runs of any length, with any number of sessions, lost connections and crashes. What the table holds is explained
by calls, each of them made by a method that was running then; a method that has returned made its call once. So
a retry is in the table from its first enqueue to its completion, whatever happens to those that claim it.

## Key results

- `Told.returned`: a method that has returned made its call, and no other one
- `kept_iff`: what is in the table was enqueued and not completed since
- `durable`: the sessions, seen from outside, call the queue one after the other
-/

namespace A2AEvents

namespace QueueSession

open Async Transactions

/-- No session is open and no statement has been executed. -/
def initial : Config sem.traced where
  state := ⟨{ committed := {} }, []⟩
  tasks := []
  raised := []

/-- Whatever may happen: sessions begin, statements are executed, connections and clients fail. -/
abbrev AnyRun : Config sem.traced → Config sem.traced → Prop := Config.Run fun _ _ => True

/-! ## The invariant along runs -/

theorem inv_initial : Inv initial.state where
  tidy := .initial RetryTable.keyed_empty
  explained := .initial rfl
  known := fun e he => by cases he

theorem admissible_of_good (c : Config sem.traced) (act : Action sem.traced) (_ : True) (h : contract.Good c) :
    contract.Admissible c act := by
  cases act with
  | start j => trivial
  | task i ch => exact ⟨fun _ _ _ _ _ _ _ => trivial, fun _ _ _ _ _ _ => trivial⟩
  | env e => trivial
  | crash =>
    -- the transactions are given up
    have hs : Inv c.state := h.1
    show Inv ⟨c.state.state.restart, c.state.trace⟩
    exact hs.give_up (.initial hs.tidy.keyed) rfl

theorem inv_run {c : Config sem.traced} (hrun : AnyRun initial c) : Inv c.state :=
  (contract_sound.good_run admissible_of_good ⟨inv_initial, fun _ _ ht => by cases ht⟩ hrun).1

/-- The answers are those of the server. -/
def Performed (e : Entry) : Prop := ∃ c db, Database.exec e.task e.op c e.before = some (e.res, db)

theorem performed_run {c : Config sem.traced} (hrun : AnyRun initial c) : ∀ e ∈ c.state.trace, Performed e := by
  apply Config.Run.entries (P := Performed) ?_ ?_ hrun
  · intro e he
    cases he
  · intro i o r s h
    cases h
  · intro c i ch t o k r w _ _ _ hex
    exact ⟨ch, w, hex⟩

/-! ## What methods do -/

section Moves

variable {α : Type} {l : List (Move sql)} {e : PyError} {o : Statement}

theorem execute_returns {a : o.Ans} : (execute o).Returns l a ↔ l = [.op o (.ok a)] := by
  constructor
  · intro h
    obtain ⟨r, l', rfl, hraising⟩ := Prog.returns_call_bind.mp h
    obtain ⟨rfl, rfl⟩ := Prog.returns_lift.mp hraising
    rfl
  · rintro rfl
    exact Prog.returns_call_bind.mpr ⟨_, _, rfl, .refl _⟩

theorem execute_raises (h : (execute o).Raises l e) : l = [.op o (.error e)] := by
  obtain ⟨r, l', rfl, hraising⟩ := Prog.raises_op.mp h
  obtain ⟨rfl, rfl⟩ := Prog.raises_lift.mp hraising
  rfl

theorem answered_returns {a : o.Ans} (h : (answered o).Returns l a) :
    l = [] ++ .op o (.ok a) :: [.op .acknowledged (.ok ())] := by
  obtain ⟨l₁, a', l₂, rfl, hop, hrest⟩ := Prog.returns_bind.mp h
  obtain rfl := execute_returns.mp hop
  obtain ⟨l₃, u, l₄, rfl, hreply, hpure⟩ := Prog.returns_bind.mp hrest
  obtain rfl := execute_returns.mp hreply
  obtain ⟨rfl, rfl⟩ := Prog.returns_pure.mp hpure
  rfl

/-- The statement failed, or its answer was lost. -/
theorem answered_raises (h : (answered o).Raises l e) : l = [.op o (.error e)] ∨ .op .acknowledged (.error e) ∈ l := by
  rcases Prog.raises_bind.mp h with hop | ⟨l₁, a', l₂, rfl, hop, hrest⟩
  · exact .inl (execute_raises hop)
  · rcases Prog.raises_bind.mp hrest with hreply | ⟨l₃, u, l₄, rfl, -, hpure⟩
    · obtain rfl := execute_raises hreply
      exact .inr (by simp)
    · exact absurd hpure Prog.not_raises_pure

/-- The move that visits a row. -/
def visit (v : RetryRow × Bool) : Move sql := .op (.lockRow v.1) (.ok v.2)

/-- The ids of the rows that were locked. -/
def lockedIds (visits : List (RetryRow × Bool)) : List String :=
  (visits.filter Prod.snd).map fun v => v.1.item.retryId

/-- The rows are visited one after the other, until enough of them are locked. -/
theorem lockRows_returns {n : Nat} {rows : List RetryRow} {ids : List String} (h : (lockRows n rows).Returns l ids) :
    ∃ visits rest, l = visits.map visit ∧ rows = visits.map Prod.fst ++ rest ∧ ids = lockedIds visits ∧ ids.length ≤ n ∧
      (rest = [] ∨ ids.length = n) := by
  induction rows generalizing n l ids with
  | nil =>
    have hnil : l = [] ∧ [] = ids := by
      cases n with
      | zero => exact Prog.returns_pure.mp h
      | succ n => exact Prog.returns_pure.mp h
    obtain ⟨rfl, rfl⟩ := hnil
    exact ⟨[], [], rfl, rfl, rfl, Nat.zero_le _, .inl rfl⟩
  | cons row rows ih =>
    cases n with
    | zero =>
      obtain ⟨rfl, rfl⟩ := Prog.returns_pure.mp h
      exact ⟨[], row :: rows, rfl, rfl, rfl, Nat.le_refl _, .inr rfl⟩
    | succ n =>
      obtain ⟨l₁, taken, l₂, rfl, hlock, hrest⟩ := Prog.returns_bind.mp h
      obtain rfl := execute_returns.mp hlock
      cases taken with
      | true =>
        obtain ⟨l₃, others, l₄, rfl, hothers, hpure⟩ := Prog.returns_bind.mp hrest
        obtain ⟨rfl, rfl⟩ := Prog.returns_pure.mp hpure
        obtain ⟨visits, rest, rfl, rfl, rfl, hle, hend⟩ := ih hothers
        refine ⟨(row, true) :: visits, rest, by simp [visit], rfl, rfl, ?_, hend.imp id fun hfull => ?_⟩
        · rw [List.length_cons]
          omega
        · rw [List.length_cons]
          omega
      | false =>
        obtain ⟨visits, rest, rfl, rfl, rfl, hle, hend⟩ := ih hrest
        exact ⟨(row, false) :: visits, rest, rfl, rfl, rfl, hle, hend⟩

theorem lockRows_only {P : Statement → Prop} (hP : ∀ row, P (.lockRow row)) (rows : List RetryRow) :
    ∀ n, (lockRows n rows).Only P := by
  have hexecute : ∀ row, (execute (.lockRow row)).Only P :=
    fun row => .bind (.call (hP row)) fun r => Prog.Only.lift (S := sql) r
  induction rows with
  | nil =>
    intro n
    cases n <;> exact .pure _
  | cons row rest ih =>
    intro n
    cases n with
    | zero => exact .pure _
    | succ n =>
      refine .bind (hexecute row) fun taken => ?_
      cases taken with
      | true => exact .bind (ih n) fun _ => .pure _
      | false => exact ih (n + 1)

variable {now : Time} {limit leaseSeconds : Int}

/-- The moves of a claim up to its commit. -/
def claimMoves (now : Time) (limit : Int) (due : List RetryRow) (visits : List (RetryRow × Bool)) (deadline : Time)
    (items : List RetryItem) : List (Move sql) :=
  .op (.scanDue now limit) (.ok due) ::
    (visits.map visit ++ [.op (.updateLocked (lockedIds visits) deadline) (.ok items)])

/-- A claim that has returned leased the rows that it locked. -/
theorem claimDue_returns {items : List RetryItem} (h : (claimDue now limit leaseSeconds).Returns l items) :
    ∃ due visits rest, due = visits.map Prod.fst ++ rest ∧ (lockedIds visits).length ≤ limit.toNat ∧
      (rest = [] ∨ (lockedIds visits).length = limit.toNat) ∧
      l = claimMoves now limit due visits (now + seconds leaseSeconds) items ++
        .op .commit (.ok ()) :: [.op .acknowledged (.ok ())] := by
  obtain ⟨l₁, due, l₂, rfl, hscan, h₂⟩ := Prog.returns_bind.mp h
  obtain rfl := execute_returns.mp hscan
  obtain ⟨l₃, ids, l₄, rfl, hlock, h₃⟩ := Prog.returns_bind.mp h₂
  obtain ⟨visits, rest, rfl, rfl, rfl, hle, hend⟩ := lockRows_returns hlock
  obtain ⟨l₅, items', l₆, rfl, hupdate, h₄⟩ := Prog.returns_bind.mp h₃
  obtain rfl := execute_returns.mp hupdate
  obtain ⟨l₇, u, l₈, rfl, hcommit, h₅⟩ := Prog.returns_bind.mp h₄
  obtain rfl := execute_returns.mp hcommit
  obtain ⟨l₉, w, l₁₀, rfl, hreply, h₆⟩ := Prog.returns_bind.mp h₅
  obtain rfl := execute_returns.mp hreply
  obtain ⟨rfl, rfl⟩ := Prog.returns_pure.mp h₆
  exact ⟨_, visits, rest, rfl, hle, hend, by simp [claimMoves]⟩

/-- The statements that may stand for a call. -/
def Statement.writes : Statement → Bool
  | .insert _ | .commit | .delete _ | .update .. => true
  | _ => false

/-- None of the moves is a call. -/
def Quiet (l : List (Move sql)) : Prop := ∀ o a, .op o (.ok a) ∈ l → o.writes = false

theorem quiet_error : Quiet [.op o (.error e)] := by
  intro o' a hmem
  have heq := List.mem_singleton.mp hmem
  cases heq

theorem quiet_ok {a : o.Ans} (ho : o.writes = false) : Quiet [.op o (.ok a)] := by
  intro o' a' hmem
  have heq := List.mem_singleton.mp hmem
  cases heq
  exact ho

theorem Quiet.append {l l' : List (Move sql)} (h : Quiet l) (h' : Quiet l') : Quiet (l ++ l') := by
  intro o a hmem
  rcases List.mem_append.mp hmem with hmem | hmem
  · exact h o a hmem
  · exact h' o a hmem

/-- No entry with such a move is a call. -/
theorem Quiet.call? {l : List (Move sql)} (h : Quiet l) {e : Entry} (he : .op e.op e.res ∈ l) : Entry.call? e = none := by
  obtain ⟨i, o, r, db⟩ := e
  cases r with
  | error err => exact call?_error
  | ok a =>
    have ho : o.writes = false := h o a he
    cases o with
    | insert item => cases ho
    | commit => cases ho
    | delete retryId => cases ho
    | update retryId nextRetryAt attempt lastError => cases ho
    | _ => rfl

theorem quiet_visits (visits : List (RetryRow × Bool)) : Quiet (visits.map visit) := by
  intro o a hmem
  obtain ⟨v, -, heq⟩ := List.mem_map.mp hmem
  cases heq
  rfl

theorem quiet_claimMoves (due : List RetryRow) (visits : List (RetryRow × Bool)) (deadline : Time) (items : List RetryItem) :
    Quiet (claimMoves now limit due visits deadline items) :=
  .append (l := [.op (.scanDue now limit) (.ok due)]) (quiet_ok rfl) ((quiet_visits visits).append (quiet_ok rfl))

/-- A claim that has raised committed nothing, unless the answer was lost. -/
theorem claimDue_raises (h : (claimDue now limit leaseSeconds).Raises l e) :
    Quiet l ∨ .op .acknowledged (.error e) ∈ l := by
  rcases Prog.raises_bind.mp h with hscan | ⟨l₁, due, l₂, rfl, hscan, h₂⟩
  · rw [execute_raises hscan]
    exact .inl quiet_error
  obtain rfl := execute_returns.mp hscan
  have hlocks := lockRows_only (P := fun o => o.writes = false) (fun _ => rfl) due limit.toNat
  rcases Prog.raises_bind.mp h₂ with hlock | ⟨l₃, ids, l₄, rfl, hlock, h₃⟩
  · exact .inl ((quiet_ok rfl).append fun o _ hrow => hlocks.takes hlock o _ hrow)
  have hquiet : Quiet l₃ := fun o _ hrow => hlocks.takes hlock o _ hrow
  rcases Prog.raises_bind.mp h₃ with hupdate | ⟨l₅, items, l₆, rfl, hupdate, h₄⟩
  · rw [execute_raises hupdate]
    exact .inl ((quiet_ok rfl).append (hquiet.append quiet_error))
  obtain rfl := execute_returns.mp hupdate
  rcases Prog.raises_bind.mp h₄ with hcommit | ⟨l₇, u, l₈, rfl, hcommit, h₅⟩
  · rw [execute_raises hcommit]
    exact .inl ((quiet_ok rfl).append (hquiet.append ((quiet_ok rfl).append quiet_error)))
  rcases Prog.raises_bind.mp h₅ with hreply | ⟨l₉, w, l₁₀, rfl, -, hpure⟩
  · rw [execute_raises hreply]
    exact .inr (by simp)
  · exact absurd hpure Prog.not_raises_pure

/-- A method that has raised made no call, unless the answer was lost. -/
theorem code_raises {j : Job} (h : (code j).Raises l e) : Quiet l ∨ .op .acknowledged (.error e) ∈ l := by
  have hanswered : ∀ {o : Statement} {f : o.Ans → M Val}, (∀ a, ∃ v, f a = .pure v) → (answered o >>= f).Raises l e →
      Quiet l ∨ .op .acknowledged (.error e) ∈ l := by
    intro o f hf h
    rcases Prog.raises_bind.mp h with hbody | ⟨_, a, _, -, -, hpure⟩
    · rcases answered_raises hbody with rfl | hreply
      · exact .inl quiet_error
      · exact .inr hreply
    · obtain ⟨v, hv⟩ := hf a
      rw [hv] at hpure
      exact absurd hpure Prog.not_raises_pure
  cases j with
  | enqueue item => exact hanswered (fun _ => ⟨_, rfl⟩) h
  | complete retryId => exact hanswered (fun _ => ⟨_, rfl⟩) h
  | reschedule retryId nextRetryAt attempt lastError => exact hanswered (fun _ => ⟨_, rfl⟩) h
  | pending => exact hanswered (fun _ => ⟨_, rfl⟩) h
  | claimDue now limit leaseSeconds =>
    rcases Prog.raises_bind.mp h with hbody | ⟨_, _, _, -, -, hpure⟩
    · exact claimDue_raises hbody
    · exact absurd hpure Prog.not_raises_pure

end Moves

/-! ## What methods ask for -/

/-- The calls that a method is there to make. -/
def Job.Makes : Job → RowCall → Prop
  | .enqueue item, .enqueue item' => item' = item
  | .claimDue now _ leaseSeconds, .lease now' leases =>
    now' = now ∧ ∀ lease ∈ leases, lease.deadline = now + seconds leaseSeconds
  | .complete retryId, .complete retryId' => retryId' = retryId
  | .reschedule retryId nextRetryAt attempt lastError, .reschedule retryId' nextRetryAt' attempt' lastError' =>
    retryId' = retryId ∧ nextRetryAt' = nextRetryAt ∧ attempt' = attempt ∧ lastError' = lastError
  | _, _ => False

/-- The statements that write, as its methods execute them. -/
def Job.Asks (job : Job) : Statement → Prop
  | .insert item => job = .enqueue item
  | .scanDue now limit => ∃ leaseSeconds, job = .claimDue now limit leaseSeconds
  | .updateLocked _ deadline => ∃ now limit leaseSeconds, job = .claimDue now limit leaseSeconds ∧ deadline = now + seconds leaseSeconds
  | .delete retryId => job = .complete retryId
  | .update retryId nextRetryAt attempt lastError => job = .reschedule retryId nextRetryAt attempt lastError
  | _ => True

private theorem execute_asks {P : Statement → Prop} {o : Statement} (ho : P o) : (execute o).Only P :=
  .bind (.call ho) fun r => Prog.Only.lift (S := sql) r

private theorem answered_asks {P : Statement → Prop} {o : Statement} (ho : P o) (hreply : P .acknowledged) :
    (answered o).Only P :=
  .bind (execute_asks ho) fun _ => .bind (execute_asks hreply) fun _ => .pure _

theorem code_asks (job : Job) : (code job).Only job.Asks := by
  cases job with
  | enqueue item => exact .bind (answered_asks rfl trivial) fun _ => .pure _
  | complete retryId => exact .bind (answered_asks rfl trivial) fun _ => .pure _
  | reschedule retryId nextRetryAt attempt lastError => exact .bind (answered_asks rfl trivial) fun _ => .pure _
  | pending => exact .bind (answered_asks trivial trivial) fun _ => .pure _
  | claimDue now limit leaseSeconds =>
    refine .bind (.bind (execute_asks ⟨_, rfl⟩) fun due => ?_) fun _ => .pure _
    refine .bind (lockRows_only (fun _ => trivial) due _) fun ids => .bind (execute_asks ⟨_, _, _, rfl, rfl⟩) fun items => ?_
    exact .bind (execute_asks trivial) fun _ => .bind (execute_asks trivial) fun _ => .pure _

/-! ## Runs, told to their end -/

/-- All that is known of a run. -/
structure Told (c : Config sem.traced) (ds : List (Deed sem)) : Prop where
  inv : Inv c.state
  performed : ∀ e ∈ c.state.trace, Performed e
  deeds : Remembers c ds

theorem told_run {c : Config sem.traced} (hrun : AnyRun initial c) : ∃ ds, Told c ds := by
  obtain ⟨ds, hdeeds⟩ := Remembers.of_run rfl rfl hrun
  exact ⟨ds, inv_run hrun, performed_run hrun, hdeeds⟩

/-! ## Calls -/

/-- A claim leased what it returned: rows that were due, each of them once. -/
def Grants (now : Time) (limit leaseSeconds : Int) (items : List RetryItem) (table : RetryTable) (call : RowCall) : Prop :=
  ∃ ids : List String, call = .lease now (ids.map fun id => ⟨id, now + seconds leaseSeconds⟩) ∧ ids.Nodup ∧
    ids.length ≤ limit.toNat ∧ (∀ id ∈ ids, ∃ row, table.rows.get? id = some row ∧ row.item.nextRetryAt ≤ now) ∧
    items.Perm (ids.filterMap fun id => (table.rows.get? id).map fun row =>
      { row.item with nextRetryAt := now + seconds leaseSeconds })

namespace Told

variable {c : Config sem.traced} {ds : List (Deed sem)} {i : Nat} {j : Job}

/-- An answered statement is asked for by the job. -/
theorem asked (h : Told c ds) {t : Task sql} (ht : c.tasks[i]? = some t) {o : Statement} {r : Except PyError o.Ans}
    (hreceived : c.state.received i o r) : t.job.Asks o := by
  obtain ⟨before, hmem⟩ := hreceived
  obtain ⟨t', ht', hasks⟩ := h.deeds.asks code_asks hmem
  rw [ht] at ht'
  cases ht'
  exact hasks

/-- Every call is one that the method of its session is there to make. -/
theorem made (h : Told c ds) {e : Entry} (he : e ∈ c.state.trace) {call : RowCall} (hcall : e.call? = some call) :
    ∃ t, c.tasks[e.task]? = some t ∧ t.job.Makes call := by
  obtain ⟨t, ht, hasks⟩ := h.deeds.asks code_asks he
  refine ⟨t, ht, ?_⟩
  have hknown := h.inv.known e he
  obtain ⟨i, o, r, db⟩ := e
  cases r with
  | error err =>
    rw [call?_error] at hcall
    cases hcall
  | ok a =>
    cases o with
    | insert item =>
      cases hcall
      have hjob : t.job = .enqueue item := hasks
      rw [hjob]
      exact rfl
    | delete retryId =>
      cases hcall
      have hjob : t.job = .complete retryId := hasks
      rw [hjob]
      exact rfl
    | update retryId nextRetryAt attempt lastError =>
      cases hcall
      have hjob : t.job = .reschedule retryId nextRetryAt attempt lastError := hasks
      rw [hjob]
      exact ⟨rfl, rfl, rfl, rfl⟩
    | commit =>
      -- the claim has scanned and written before
      obtain ⟨txn, hclaims⟩ := hknown
      obtain ⟨limit, due, hscanned⟩ := hclaims.asked
      obtain ⟨deadline, items, hupdated, -, hwrites⟩ := hclaims.answered
      obtain ⟨leaseSeconds, hjob⟩ := h.asked ht hscanned
      obtain ⟨now', limit', leaseSeconds', hjob', hdeadline⟩ := h.asked ht hupdated
      rw [hjob] at hjob'
      cases hjob'
      rw [Entry.call?, hclaims.txn] at hcall
      cases hcall
      rw [hjob]
      refine ⟨rfl, fun lease hlease => ?_⟩
      rw [hwrites] at hlease
      obtain ⟨id, -, rfl⟩ := List.mem_map.mp hlease
      exact hdeadline
    | _ => cases hcall

/-- A method that returns when its statement is answered made the call of the statement. -/
theorem returned_answered (h : Told c ds) {o : Statement} {a : o.Ans} {l : List (Move sql)} {call : RowCall}
    (hmoves : movesOf i ds = l) (hreturns : (answered o).Returns l a) (hcall : ∀ db, Entry.call? ⟨i, o, .ok a, db⟩ = some call) :
    ∃ before, linearization.MadeOnce c.state.trace before i call := by
  rw [answered_returns hreturns] at hmoves
  have hquiet : Quiet ([] ++ [.op .acknowledged (.ok ())]) := quiet_ok rfl
  obtain ⟨before, call', rfl, honce⟩ := h.deeds.madeOnce (L := linearization) (P := fun _ call' => call' = call) hmoves
    (fun _ db _ _ => ⟨call, rfl, hcall db⟩) fun e he => hquiet.call? he
  exact ⟨before, honce⟩

/-- A claim that returned committed what it wrote. -/
theorem claimed (h : Told c ds) {now deadline : Time} {limit : Int} {due : List RetryRow} {visits : List (RetryRow × Bool)}
    {items : List RetryItem} (hmoves : movesOf i ds = claimMoves now limit due visits deadline items ++
      .op .commit (.ok ()) :: [.op .acknowledged (.ok ())]) {db : Database}
    (he : (⟨i, .commit, .ok (), db⟩ : Entry) ∈ c.state.trace) : ∃ t, Claims c.state i db t ∧ t.begun = now ∧
      t.locks = lockedIds visits ∧ t.writes = (lockedIds visits).map (fun id => ⟨id, deadline⟩) ∧
        items.Perm (Database.leased db (lockedIds visits) deadline) := by
  obtain ⟨t, hclaims⟩ := h.inv.known _ he
  -- what it asked for before is among its moves
  obtain ⟨limit', due', w, hscanned⟩ := hclaims.asked
  obtain ⟨deadline', items', ⟨w', hupdated⟩, hitems, hwrites⟩ := hclaims.answered
  have hscan := h.deeds.moves _ hscanned
  have hupdate := h.deeds.moves _ hupdated
  rw [hmoves, claimMoves] at hscan hupdate
  obtain ⟨⟨hbegun, -⟩, -⟩ : (t.begun = now ∧ limit' = limit) ∧ due' = due := by
    simpa [visit] using hscan
  obtain ⟨hids, rfl, rfl⟩ : t.locks = lockedIds visits ∧ deadline' = deadline ∧ items' = items := by
    simpa [visit, and_assoc] using hupdate
  rw [hids] at hitems hwrites
  exact ⟨t, hclaims, hbegun, hids, hwrites, hitems⟩

theorem returned_claim (h : Told c ds) {now : Time} {limit leaseSeconds : Int} {items : List RetryItem}
    (ht : c.tasks[i]? = some ⟨.claimDue now limit leaseSeconds, .pure (.items items)⟩) :
    ∃ before call, Grants now limit leaseSeconds items (tableAfter (calls before)) call ∧
      linearization.MadeOnce c.state.trace before i call := by
  obtain ⟨l, items', l', hmoves, hbody, hpure⟩ := Prog.returns_bind.mp (h.deeds.returned ht)
  obtain ⟨rfl, hval⟩ := Prog.returns_pure.mp hpure
  cases hval
  rw [List.append_nil] at hmoves
  obtain ⟨due, visits, rest, -, hle, -, rfl⟩ := claimDue_returns hbody
  have hquiet : Quiet (claimMoves now limit due visits (now + seconds leaseSeconds) items ++ [.op .acknowledged (.ok ())]) :=
    (quiet_claimMoves due visits _ items).append (quiet_ok rfl)
  refine h.deeds.madeOnce (L := linearization)
    (P := fun before call => Grants now limit leaseSeconds items (tableAfter (calls before)) call) hmoves ?_ fun e he => hquiet.call? he
  intro before db after htrace
  have hfound : db.committed = tableAfter (calls before) := h.inv.explained.found before _ after htrace
  have hmem : (⟨i, .commit, .ok (), db⟩ : Entry) ∈ c.state.trace := by
    rw [htrace]
    exact List.mem_append_right _ (.head _)
  obtain ⟨t, hclaims, hbegun, hids, hwrites, hitems⟩ := h.claimed hmoves hmem
  have hlocks := hclaims.tidy.once i t hclaims.txn
  have hheld := hclaims.tidy.held i t hclaims.txn
  rw [hids] at hlocks hheld
  rw [hfound, hbegun] at hheld
  refine ⟨_, ⟨lockedIds visits, rfl, hlocks, hle, hheld, ?_⟩, ?_⟩
  · rw [Database.leased, List.map_filterMap, hfound] at hitems
    exact hitems
  · show (db.txns.get? i).map _ = _
    rw [hclaims.txn, Option.map_some, hbegun, hwrites]

/-- A method that has returned made its call, and no other one. -/
theorem returned (h : Told c ds) {v : Val} (ht : c.tasks[i]? = some ⟨j, .pure v⟩) (hj : j ≠ .pending) :
    ∃ before call, j.Makes call ∧ linearization.MadeOnce c.state.trace before i call := by
  have hreturns := h.deeds.returned ht
  cases j with
  | enqueue item =>
    obtain ⟨l, u, l', hmoves, hbody, hpure⟩ := Prog.returns_bind.mp hreturns
    obtain ⟨rfl, -⟩ := Prog.returns_pure.mp hpure
    rw [List.append_nil] at hmoves
    obtain ⟨before, honce⟩ := h.returned_answered hmoves hbody fun _ => rfl
    exact ⟨before, .enqueue item, rfl, honce⟩
  | complete retryId =>
    obtain ⟨l, u, l', hmoves, hbody, hpure⟩ := Prog.returns_bind.mp hreturns
    obtain ⟨rfl, -⟩ := Prog.returns_pure.mp hpure
    rw [List.append_nil] at hmoves
    obtain ⟨before, honce⟩ := h.returned_answered hmoves hbody fun _ => rfl
    exact ⟨before, .complete retryId, rfl, honce⟩
  | reschedule retryId nextRetryAt attempt lastError =>
    obtain ⟨l, u, l', hmoves, hbody, hpure⟩ := Prog.returns_bind.mp hreturns
    obtain ⟨rfl, -⟩ := Prog.returns_pure.mp hpure
    rw [List.append_nil] at hmoves
    obtain ⟨before, honce⟩ := h.returned_answered hmoves hbody fun _ => rfl
    exact ⟨before, .reschedule retryId nextRetryAt attempt lastError, ⟨rfl, rfl, rfl, rfl⟩, honce⟩
  | claimDue now limit leaseSeconds =>
    obtain ⟨l, items, l', -, -, hpure⟩ := Prog.returns_bind.mp hreturns
    obtain ⟨-, rfl⟩ := Prog.returns_pure.mp hpure
    obtain ⟨before, call, ⟨ids, rfl, -⟩, honce⟩ := h.returned_claim ht
    refine ⟨before, .lease now _, ⟨rfl, fun lease hlease => ?_⟩, honce⟩
    obtain ⟨id, -, rfl⟩ := List.mem_map.mp hlease
    rfl
  | pending => exact absurd rfl hj

/-- What was listed was the table, the earliest first. -/
theorem listed (h : Told c ds) {items : List RetryItem} (ht : c.tasks[i]? = some ⟨.pending, .pure (.items items)⟩) :
    ∃ before e after, c.state.trace = before ++ e :: after ∧ e.task = i ∧
      items.Perm ((tableAfter (calls before)).rows.values.map RetryRow.item) ∧
      items.Pairwise fun a b => a.nextRetryAt ≤ b.nextRetryAt := by
  obtain ⟨l, items', l', hmoves, hbody, hpure⟩ := Prog.returns_bind.mp (h.deeds.returned ht)
  obtain ⟨rfl, hval⟩ := Prog.returns_pure.mp hpure
  cases hval
  rw [List.append_nil, answered_returns hbody] at hmoves
  obtain ⟨before, db, after, htrace, -⟩ := entries_around hmoves
  rw [h.deeds.trace] at htrace
  have hfound : db.committed = tableAfter (calls before) := h.inv.explained.found before _ after htrace
  obtain ⟨ch, db', hex⟩ := h.performed ⟨i, .selectPending, .ok items, db⟩ (by
    rw [htrace]
    exact List.mem_append_right _ (.head _))
  simp only [Database.exec] at hex
  split at hex
  · rename_i horder
    obtain ⟨hperm, hsorted⟩ := Bool.and_eq_true_iff.mp horder
    rcases reach_cases hex with ⟨hlost, -⟩ | heq
    · cases hlost
    · cases heq
      refine ⟨before, _, after, htrace, rfl, ?_, ?_⟩
      · rw [← hfound]
        exact (List.isPerm_iff.mp hperm).map RetryRow.item
      · exact List.pairwise_map.mpr (of_decide_eq_true hsorted)
  · cases hex

/-- A method that has raised has made no call, unless the connection was lost. -/
theorem raised (h : Told c ds) {err : PyError} (ht : c.tasks[i]? = some ⟨j, .raise err⟩) (hlost : err ≠ connectionLost) :
    ∀ e : Entry, e ∈ c.state.trace → e.task = i → e.call? = none := by
  intro e he htask
  have hmove := h.deeds.moves e he
  rw [htask] at hmove
  rcases code_raises (h.deeds.raised ht) with hquiet | hreply
  · exact hquiet.call? hmove
  · -- only a lost connection keeps the answer back
    exfalso
    obtain ⟨db, hmem⟩ := h.deeds.entry hreply
    obtain ⟨ch, db', hex⟩ := h.performed _ hmem
    rcases reach_cases hex with ⟨heq, -⟩ | heq
    · cases heq
      exact hlost rfl
    · cases heq

end Told

/-! ## What is in the table -/

section Kept

variable {table : RetryTable} {id : String}

theorem get?_leases (leases : List Lease) :
    ((leases.foldl Lease.apply table).rows.get? id).isSome = (table.rows.get? id).isSome := by
  induction leases generalizing table with
  | nil => rfl
  | cons lease rest ih =>
    rw [List.foldl_cons, ih, Lease.apply, RetryTable.get?_modify]
    split
    · exact Option.isSome_map
    · rfl

/-- A call brings in the row that it enqueues and takes out the one that it completes. -/
theorem isSome_apply (call : RowCall) : ((call.apply table).rows.get? id).isSome = true ↔
    (∃ item, call = .enqueue item ∧ item.retryId = id) ∨ call ≠ .complete id ∧ (table.rows.get? id).isSome = true := by
  cases call with
  | enqueue item =>
    rw [RowCall.apply, RetryTable.get?_insert]
    split
    · rename_i hid
      simp [hid]
    · rename_i hid
      simp [Ne.symm hid]
  | lease now leases => simp [RowCall.apply, get?_leases]
  | complete retryId =>
    rw [RowCall.apply, RetryTable.get?_delete]
    split
    · rename_i hid
      simp [hid]
    · rename_i hid
      simp [Ne.symm hid]
  | reschedule retryId nextRetryAt attempt lastError =>
    rw [RowCall.apply, RetryTable.get?_modify]
    split <;> simp

/-- What is in the table was enqueued and not completed since. -/
theorem kept_iff (calls : List RowCall) : ((tableAfter calls).rows.get? id).isSome = true ↔
    ∃ before item after, calls = before ++ .enqueue item :: after ∧ item.retryId = id ∧ .complete id ∉ after := by
  induction calls using List.reverseRecOn with
  | nil => simp [tableAfter]
  | append_singleton calls call ih =>
    rw [tableAfter, List.foldl_append, List.foldl_cons, List.foldl_nil, isSome_apply, ← tableAfter, ih]
    constructor
    · rintro (⟨item, rfl, hid⟩ | ⟨hcall, before, item, after, rfl, hid, hnone⟩)
      · exact ⟨calls, item, [], rfl, hid, by simp⟩
      · refine ⟨before, item, after ++ [call], by simp, hid, ?_⟩
        rw [List.mem_append, List.mem_singleton]
        rintro (hold | rfl)
        · exact hnone hold
        · exact hcall rfl
    · rintro ⟨before, item, after, heq, hid, hnone⟩
      -- the enqueue is the last call, or it was there before
      rcases concat_eq_cases heq with ⟨-, hnew⟩ | ⟨mid, rfl⟩
      · exact .inl ⟨item, hnew.symm, hid⟩
      · rw [List.append_assoc, List.append_cancel_left_eq, List.cons_append, List.cons.injEq] at heq
        obtain ⟨-, rfl⟩ := heq
        rw [List.mem_append, List.mem_singleton, not_or] at hnone
        exact .inr ⟨fun heq => hnone.2 heq.symm, before, item, mid, rfl, hid, hnone.1⟩

end Kept

/-- Seen from outside, the sessions call the queue one after the other, and nothing gets lost. -/
structure Durable (c : Config sem.traced) : Prop where
  table : c.state.state.committed = tableAfter (calls c.state.trace)
  made : ∀ (e : Entry) call, e ∈ c.state.trace → e.call? = some call →
    ∃ t, c.tasks[e.task]? = some t ∧ t.job.Makes call
  returned : ∀ (i : Nat) j v, c.tasks[i]? = some ⟨j, .pure v⟩ → j ≠ .pending →
    ∃ before call, j.Makes call ∧ linearization.MadeOnce c.state.trace before i call
  raised : ∀ (i : Nat) j err, c.tasks[i]? = some ⟨j, .raise err⟩ → err ≠ connectionLost →
    ∀ e : Entry, e ∈ c.state.trace → e.task = i → e.call? = none
  listed : ∀ (i : Nat) items, c.tasks[i]? = some ⟨.pending, .pure (.items items)⟩ →
    ∃ before e after, c.state.trace = before ++ e :: after ∧ e.task = i ∧
      items.Perm ((tableAfter (calls before)).rows.values.map RetryRow.item) ∧
      items.Pairwise fun a b => a.nextRetryAt ≤ b.nextRetryAt
  kept : ∀ (i : Nat) item v, c.tasks[i]? = some ⟨.enqueue item, .pure v⟩ →
    (∀ (k : Nat) t, c.tasks[k]? = some t → t.job ≠ .complete item.retryId) →
      (c.state.state.committed.rows.get? item.retryId).isSome = true

/-- However the statements of the sessions interleave and whatever fails, the table is that of calls made one after
    the other, each by the method of the session that made it, while it ran. A method that returned has made its call
    exactly once, one that raised has made none, unless the connection was lost. A retry that was enqueued stays in the
    table as long as nobody completes it. -/
theorem durable {c : Config sem.traced} (hrun : AnyRun initial c) : Durable c := by
  obtain ⟨ds, h⟩ := told_run hrun
  refine ⟨h.inv.explained.now, fun e call he hcall => h.made he hcall, fun i j v ht hj => h.returned ht hj,
    fun i j err ht hlost => h.raised ht hlost, fun i items ht => h.listed ht, fun i item v ht hnobody => ?_⟩
  have htable : c.state.state.committed = tableAfter (calls c.state.trace) := h.inv.explained.now
  obtain ⟨before, call, hmakes, e, after, htrace, -, hcall, -⟩ := h.returned ht (by simp)
  have hsplit : calls c.state.trace = calls before ++ (call :: calls after) := by
    have hcalls := Linearization.calls_split (L := linearization) htrace
    rw [hcall] at hcalls
    exact hcalls
  cases call with
  | enqueue item' =>
    cases hmakes
    rw [htable, kept_iff]
    refine ⟨calls before, item, calls after, hsplit, rfl, fun hmem => ?_⟩
    -- a completion would be somebody's job
    obtain ⟨e', he', hcall'⟩ := List.mem_filterMap.mp hmem
    obtain ⟨t, ht', hmakes'⟩ := h.made (e := e') (by rw [htrace]; exact List.mem_append_right _ (.tail _ he')) hcall'
    obtain ⟨job, prog⟩ := t
    cases job with
    | complete retryId =>
      cases hmakes'
      exact hnobody _ _ ht' rfl
    | _ => exact hmakes'
  | _ => exact absurd hmakes id

namespace Sample

def item (retryId : String) (nextRetryAt : Time) : RetryItem where
  retryId := retryId
  subscriptionId := "sub"
  topic := "t"
  cursor := ""
  eventId := ""
  attempt := 1
  nextRetryAt := nextRetryAt
  lastError := none

/-- A retry is enqueued, claimed and left behind by a crash. -/
def abandoned : List (Action sem.traced) :=
  [.start (.enqueue (item "a" 0)), .task 0 {}, .task 0 {}, .start (.claimDue 10 5 60),
    .task 1 { order := [⟨item "a" 0, 0⟩] }, .task 1 {}, .crash]

/-- The enqueue has returned. -/
def enqueued (c : Config sem.traced) : Bool :=
  (c.tasks[0]?.bind fun t => t.prog.outcome).any fun outcome =>
    match outcome with
    | .ok .unit => true
    | _ => false

theorem abandons : ∃ c, AnyRun initial c ∧ enqueued c = true ∧ c.state.state.committed.rows.get? "a" ≠ none := by
  have hrun : (initial.runsWith (fun _ _ => true) abandoned).any
      (fun c => enqueued c && (c.state.state.committed.rows.get? "a").isSome) = true := by
    decide +kernel
  obtain ⟨c, hc, hp⟩ := Config.Run.of_any hrun
  rw [Bool.and_eq_true] at hp
  exact ⟨c, hc.mono fun _ _ _ => trivial, hp.1, Option.isSome_iff_ne_none.mp hp.2⟩

end Sample

theorem durable_sample : ∃ c, AnyRun initial c ∧ Sample.enqueued c = true ∧
    c.state.state.committed.rows.get? "a" ≠ none ∧ Durable c := by
  obtain ⟨c, hrun, henqueued, hkept⟩ := Sample.abandons
  exact ⟨c, hrun, henqueued, hkept, durable hrun⟩

end QueueSession

end A2AEvents

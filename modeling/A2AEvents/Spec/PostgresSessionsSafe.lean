import A2AEvents.Spec.PostgresSessionsInvariant

/-!
# Sessions keep the server in order

Statement by statement, and from the statements the methods. The advisory lock is what makes an append
one call of the store: whoever holds the lock of a topic finds its counter unchanged until it commits.

## Key results

- `Inv.commit_next`: a commit is an append of the store
- `code_yields`: the methods keep the invariant whatever happens beside them
- `contract_sound`: the promises of the sessions fit together
-/

namespace A2AEvents

namespace EventSession

open Async Transactions

variable {hashtext : String → Int} {store : PostgresEventStore} {s : Snapshot hashtext} {i : Nat} {o : Statement}
  {r : Except PyError o.Ans} {db : Database}

/-! ## Answers -/

section Answers

variable {α : Type} {c : Choice} {x : Except PyError α × Database} {a : Except PyError α} {db db' : Database}

theorem reach_cases (h : db.reach i c x = some (a, db')) :
    (a = .error connectionLost ∧ db' = { db with server := db.server.rollback i }) ∨ x = (a, db') := by
  unfold Database.reach at h
  split at h
  · cases h
    exact .inl ⟨rfl, rfl⟩
  · exact .inr (Option.some.inj h)

theorem await_cases {locks : List Lock} (h : db.await i c locks x = some (a, db')) :
    (a = .error connectionLost ∧ db' = { db with server := db.server.rollback i }) ∨
      db.server.busy i locks = false ∧ x = (a, db') := by
  unfold Database.await at h
  split at h
  · cases h
  · rename_i hfree
    rcases reach_cases h with hlost | heq
    · exact .inl hlost
    · cases hfails : c.fails with
      | true =>
        rw [Database.reach, if_pos hfails] at h
        cases h
        exact .inl ⟨rfl, rfl⟩
      | false =>
        simp only [hfails, Bool.not_false, Bool.true_and, Bool.not_eq_true] at hfree
        exact .inr ⟨hfree, heq⟩

theorem within_cases {f : Txn Time Lock Write → Except PyError α × Database} (h : db.within i f = (a, db')) :
    (a = .error connectionLost ∧ db' = db) ∨ ∃ t, db.server.txns.get? i = some t ∧ f t = (a, db') := by
  unfold Database.within at h
  split at h
  · cases h
    exact .inl ⟨rfl, rfl⟩
  · rename_i t ht
    exact .inr ⟨t, ht, h⟩

end Answers

/-! ## Single statements -/

section Statements

variable {j : Job} {A : Snapshot hashtext → Prop}

/-- The session executes a statement, and goes on if it was answered. -/
theorem execute_yields {P : o.Ans → Snapshot hashtext → Prop} (hA : A s) (hrely : ∀ s s', Leaves i s s' → A s → A s')
    (h : ∀ {s : Snapshot hashtext} {c r db}, A s → Inv store s → s.state.exec hashtext i o c = some (r, db) →
      Moves store s i o r db ∧ ∀ a, r = .ok a → P a (next s i o r db)) :
    Yields (contract hashtext store) j i (execute o) P s := by
  refine Yields.bind (P := fun r s' => ∀ a, r = .ok a → P a s') ?_ fun r s' hr => Yields.lift hr
  refine Yields.call hA hrely fun {s' c r s''} hA' hs' _ hex => ?_
  obtain ⟨⟨r', db'⟩, hcall, heq⟩ := Option.map_eq_some_iff.mp hex
  cases heq
  obtain ⟨hmoves, hP⟩ := h hA' hs' hcall
  exact ⟨hmoves.1, hmoves.2, hP⟩

/-- Statements that only look. -/
def Statement.looks : Statement → Bool
  | .selectConfig _ | .selectConfigs | .newEventId | .selectNextOffset _ | .countEvents _ | .acknowledged
  | .selectOldest .. | .selectEvents .. => true
  | _ => false

theorem exec_looks (ho : o.looks = true) {c : Choice} {db : Database} {r : Except PyError o.Ans} {db' : Database}
    (hex : db.exec hashtext i o c = some (r, db')) :
    ((∃ e, r = .error e) ∧ db' = { db with server := db.server.rollback i }) ∨ db' = db := by
  have hreach : ∀ {x : Except PyError o.Ans × Database}, x.2 = db → db.reach i c x = some (r, db') →
      ((∃ e, r = .error e) ∧ db' = { db with server := db.server.rollback i }) ∨ db' = db := by
    intro x hx h
    rcases reach_cases h with ⟨rfl, hdb⟩ | rfl
    · exact .inl ⟨⟨_, rfl⟩, hdb⟩
    · exact .inr hx
  have hwithin : ∀ (f : Txn Time Lock Write → Except PyError o.Ans × Database), (∀ t, (f t).2 = db) →
      (db.within i f).2 = db := by
    intro f hf
    unfold Database.within
    split
    · rfl
    · exact hf _
  cases o with
  | selectConfig name => exact hreach rfl hex
  | selectConfigs => exact hreach rfl hex
  | newEventId =>
    cases hex
    exact .inr rfl
  | selectNextOffset topic => exact hreach (hwithin _ fun _ => rfl) hex
  | countEvents topic => exact hreach (hwithin _ fun _ => rfl) hex
  | acknowledged => exact hreach rfl hex
  | selectOldest topic retention => exact hreach rfl hex
  | selectEvents topic lower upper retention limit => exact hreach rfl hex
  | _ => cases ho

theorem call?_looks (ho : o.looks = true) {r : Except PyError o.Ans} {db : Database} :
    Entry.call? (⟨i, o, r, db⟩ : Entry hashtext) = none := by
  cases o <;> first | rfl | cases ho

theorem leaves_self (s : Snapshot hashtext) : Leaves i s (next s i o r s.state) where
  own := .inl rfl
  rows := fun _ _ _ _ _ h => h
  configs := .refl _
  trace := fun _ he => List.mem_append_left _ he

/-- What others leave alone, a look leaves alone. -/
theorem look_yields {P : o.Ans → Snapshot hashtext → Prop} (ho : o.looks = true) (hA : A s)
    (hrely : ∀ s s', Leaves i s s' → A s → A s')
    (hP : ∀ {s : Snapshot hashtext} {c a}, A s → Inv store s → s.state.exec hashtext i o c = some (.ok a, s.state) →
      P a (next s i o (.ok a) s.state)) :
    Yields (contract hashtext store) j i (execute o) (fun a s' => A s' ∧ P a s') s := by
  refine execute_yields hA hrely fun {s c r db} hA' hs hex => ?_
  rcases exec_looks ho hex with ⟨⟨e, rfl⟩, rfl⟩ | rfl
  · exact ⟨.lost hs, fun a h => by cases h⟩
  · have hno : o ≠ .commit := by
      rintro rfl
      cases ho
    refine ⟨.quiet hs hs.tidy rfl (fun _ _ => rfl) (call?_looks ho) (no_commit hno), fun a h => ?_⟩
    subst h
    exact ⟨hrely s _ (leaves_self s) hA', hP hA' hs hex⟩

end Statements

/-! ## The transaction of an append -/

/-- What the session knows of its transaction, as long as it is open: it holds the lock of the topic. -/
structure Drafts (hashtext : String → Int) (i : Nat) (topic : String) (Q : Txn Time Lock Write → Prop)
    (s : Snapshot hashtext) : Prop where
  declared : ∃ row, s.state.server.committed.topics.get? topic = some row
  lock : ∀ t, s.state.server.txns.get? i = some t → .advisory (hashtext topic) ∈ t.locks
  draft : ∀ t, s.state.server.txns.get? i = some t → Q t

/-- And it knows the counter. -/
structure Numbers (hashtext : String → Int) (i : Nat) (topic : String) (offset : Nat) (Q : Txn Time Lock Write → Prop)
    (s : Snapshot hashtext) : Prop extends Drafts hashtext i topic Q s where
  counter : ∀ t, s.state.server.txns.get? i = some t →
    ∃ row, s.state.server.committed.topics.get? topic = some row ∧ row.nextOffset = offset

section Transaction

variable {j : Job} {topic : String} {offset : Nat} {Q : Txn Time Lock Write → Prop} {s' : Snapshot hashtext}

theorem declared_leaves (hx : Leaves i s s') (h : ∃ row, s.state.server.committed.topics.get? topic = some row) :
    ∃ row, s'.state.server.committed.topics.get? topic = some row := by
  obtain ⟨row, hrow⟩ := h
  obtain ⟨row', hrow', -⟩ := hx.configs topic row hrow
  exact ⟨row', hrow'⟩

/-- An open transaction was open before, and the same. -/
theorem Leaves.open_before (hx : Leaves i s s') {t : Txn Time Lock Write} (ht : s'.state.server.txns.get? i = some t) :
    s.state.server.txns.get? i = some t := by
  rcases hx.own with heq | hnone
  · rw [← heq]
    exact ht
  · rw [hnone] at ht
    cases ht

theorem Drafts.leaves (hx : Leaves i s s') (h : Drafts hashtext i topic Q s) : Drafts hashtext i topic Q s' where
  declared := declared_leaves hx h.declared
  lock := fun t ht => h.lock t (hx.open_before ht)
  draft := fun t ht => h.draft t (hx.open_before ht)

theorem Numbers.leaves (hx : Leaves i s s') (h : Numbers hashtext i topic offset Q s) :
    Numbers hashtext i topic offset Q s' where
  toDrafts := h.toDrafts.leaves hx
  counter := by
    intro t ht
    obtain ⟨row, hrow, hoffset⟩ := h.counter t (hx.open_before ht)
    exact ⟨row, hx.rows t topic row ht (h.lock t (hx.open_before ht)) hrow, hoffset⟩

theorem received_leaves (hx : Leaves i s s') {o : Statement} {r : Except PyError o.Ans} (h : s.received i o r) :
    s'.received i o r := by
  obtain ⟨before, hmem⟩ := h
  exact ⟨before, hx.trace _ hmem⟩

/-- A session that changes its own transaction. -/
theorem Moves.amend (hs : Inv store s) {f : Txn Time Lock Write → Txn Time Lock Write}
    (htidy : Tidy hashtext (s.state.server.amend i f)) (ho : o ≠ .commit)
    (hcall : Entry.call? (⟨i, o, r, s.state⟩ : Entry hashtext) = none) :
    Moves store s i o r { s.state with server := s.state.server.amend i f } := by
  refine .quiet hs htidy ?_ ?_ hcall (no_commit ho)
  · exact Server.committed_amend f
  · exact fun k hk => Server.txns_amend_ne f hk

/-- A statement that is refused and changes nothing. -/
theorem Moves.refused (hs : Inv store s) {e : PyError} : Moves store s i o (.error e) s.state :=
  .quiet hs hs.tidy rfl (fun _ _ => rfl) call?_error fun _ => no_commit_error

/-- The tables as a session sees them that has written nothing. -/
theorem view_eq {db : Database} {t : Txn Time Lock Write} (ht : db.server.txns.get? i = some t) (hwrites : t.writes = []) :
    db.view i = db.server.committed := by
  rw [Database.view, Server.view, ht]
  simp only [hwrites, List.foldl_nil]

/-- What is committed is there for every session. -/
theorem mem_view {db : Database} {q : EventRecord} (hq : q ∈ db.server.committed.events) : q ∈ (db.view i).events := by
  have happly : ∀ (writes : List Write) (tables : PostgresEventStore), q ∈ tables.events →
      q ∈ (writes.foldl Write.apply tables).events := by
    intro writes
    induction writes with
    | nil => exact fun _ h => h
    | cons d rest ih =>
      intro tables h
      apply ih
      cases d with
      | event record => exact List.mem_append_left _ h
      | nextOffset topic offset =>
        rw [Write.apply]
        split <;> exact h
  rw [Database.view, Server.view]
  split
  · exact hq
  · exact happly _ _ hq

theorem Fresh.of_insertEvent {db : Database} {record : EventRecord} {tables : PostgresEventStore}
    (h : (db.view i).insertEvent record = .ok tables) : Fresh db.server.committed record := by
  unfold PostgresEventStore.insertEvent at h
  split at h
  · cases h
  · rename_i hany
    intro q hq
    simp only [List.any_eq_true, Bool.or_eq_true, decide_eq_true_eq, not_exists, not_and, not_or] at hany
    exact hany q (mem_view hq)

/-! ### Statement by statement -/

theorem openTransaction_yields (hdeclared : ∃ row, s.state.server.committed.topics.get? topic = some row) :
    Yields (contract hashtext store) j i (execute .openTransaction) (fun _ s' =>
      (∃ row, s'.state.server.committed.topics.get? topic = some row) ∧
        ∀ t, s'.state.server.txns.get? i = some t → t.writes = []) s := by
  refine execute_yields hdeclared (fun _ _ => declared_leaves) fun {s c r db} hdeclared hs hex => ?_
  rcases reach_cases hex with ⟨rfl, rfl⟩ | heq
  · exact ⟨.lost hs, fun _ h => by cases h⟩
  · cases heq
    refine ⟨.quiet hs (hs.tidy.openTxn _) rfl ?_ rfl (no_commit (by simp)), fun _ _ => ⟨hdeclared, fun t ht => ?_⟩⟩
    · intro k hk
      exact (Server.txns_openTxn ..).trans (if_neg hk)
    · have hnew : t = { begun := s.state.clock } := by
        rw [Server.txns_openTxn, if_pos rfl] at ht
        exact (Option.some.inj ht).symm
      rw [hnew]

theorem advisoryLock_yields (hdeclared : ∃ row, s.state.server.committed.topics.get? topic = some row)
    (hopen : ∀ t, s.state.server.txns.get? i = some t → t.writes = []) :
    Yields (contract hashtext store) j i (execute (.advisoryLock topic))
      (fun _ s' => Drafts hashtext i topic (fun t => t.writes = []) s') s := by
  refine execute_yields (A := fun s => (∃ row, s.state.server.committed.topics.get? topic = some row) ∧
    ∀ t, s.state.server.txns.get? i = some t → t.writes = []) ⟨hdeclared, hopen⟩
    (fun s s' hx h => ⟨declared_leaves hx h.1, fun t ht => h.2 t (hx.open_before ht)⟩) fun {s c r db} hA hs hex => ?_
  rcases await_cases hex with ⟨rfl, rfl⟩ | ⟨hfree, heq⟩
  · exact ⟨.lost hs, fun _ h => by cases h⟩
  · rcases within_cases heq with ⟨rfl, rfl⟩ | ⟨t, ht, heq⟩
    · exact ⟨.refused hs, fun _ h => by cases h⟩
    · cases heq
      refine ⟨.amend hs (hs.tidy.hold hfree) (by simp) rfl, fun _ _ => ?_⟩
      -- the transaction with the lock
      have hheld : ∀ t', (s.state.server.hold i [.advisory (hashtext topic)]).txns.get? i = some t' →
          t' = { t with locks := t.locks ++ [.advisory (hashtext topic)] } := by
        intro t' ht'
        rw [Server.hold, Server.txns_amend, if_pos rfl, ht] at ht'
        exact (Option.some.inj ht').symm
      refine ⟨?_, fun t' ht' => ?_, fun t' ht' => ?_⟩
      · simpa [Server.hold] using hA.1
      · rw [hheld t' ht']
        simp
      · rw [hheld t' ht']
        exact hA.2 t ht

theorem selectNextOffset_yields (hA : Drafts hashtext i topic (fun t => t.writes = []) s) :
    Yields (contract hashtext store) j i (execute (.selectNextOffset topic)) (fun stored s' =>
      Numbers hashtext i topic (Option.getD stored 0) (fun t => t.writes = []) s') s := by
  refine Yields.weaken (look_yields (o := .selectNextOffset topic) (P := fun stored s' =>
    Numbers hashtext i topic (Option.getD stored 0) (fun t => t.writes = []) s') rfl hA (fun _ _ => Drafts.leaves) ?_) fun _ _ h => h.2
  intro s c stored hA hs hex
  rcases reach_cases hex with ⟨h, -⟩ | heq
  · cases h
  · rcases within_cases heq with ⟨h, -⟩ | ⟨t, ht, heq⟩
    · cases h
    · rw [view_eq ht (hA.draft t ht)] at heq
      obtain ⟨row, hrow⟩ := hA.declared
      obtain rfl : stored = some row.nextOffset := by
        rw [hrow] at heq
        cases heq
        rfl
      exact { toDrafts := hA.leaves (leaves_self s), counter := fun _ _ => ⟨row, hrow, rfl⟩ }

/-- The counter is ahead of the rows. -/
theorem countEvents_yields (hA : Numbers hashtext i topic offset (fun t => t.writes = []) s) :
    Yields (contract hashtext store) j i (execute (.countEvents topic)) (fun count s' =>
      Numbers hashtext i topic offset (fun t => t.writes = []) s' ∧ count ≤ offset) s := by
  refine look_yields (o := .countEvents topic) (P := fun count _ => count ≤ offset) rfl hA (fun _ _ => Numbers.leaves) ?_
  intro s c count hA hs hex
  rcases reach_cases hex with ⟨h, -⟩ | heq
  · cases h
  · rcases within_cases heq with ⟨h, -⟩ | ⟨t, ht, heq⟩
    · cases h
    · rw [view_eq ht (hA.draft t ht)] at heq
      obtain ⟨row, hrow, rfl⟩ := hA.counter t ht
      have hle := hs.tidy.counted topic
      rw [PostgresEventStore.counter_of_get? hrow] at hle
      cases heq
      exact hle

/-- The transaction of a session that has taken locks and then written. -/
theorem get?_written {server : Server PostgresEventStore Time Lock Write} {t : Txn Time Lock Write}
    (ht : server.txns.get? i = some t) (locks : List Lock) (d : Write) :
    ((server.hold i locks).write i d).txns.get? i =
      some { t with locks := t.locks ++ locks, writes := t.writes ++ [d] } := by
  rw [Server.write, Server.txns_amend, if_pos rfl, Server.hold, Server.txns_amend, if_pos rfl, ht]
  rfl

/-- A session that takes locks and writes. -/
theorem Moves.written (hs : Inv store s) {locks : List Lock} {d : Write}
    (htidy : Tidy hashtext ((s.state.server.hold i locks).write i d)) (ho : o ≠ .commit)
    (hcall : Entry.call? (⟨i, o, r, s.state⟩ : Entry hashtext) = none) :
    Moves store s i o r { s.state with server := (s.state.server.hold i locks).write i d } := by
  refine .quiet hs htidy ?_ ?_ hcall (no_commit ho)
  · show ((s.state.server.hold i locks).write i d).committed = _
    rw [Server.write, Server.committed_amend, Server.hold, Server.committed_amend]
  · intro k hk
    show ((s.state.server.hold i locks).write i d).txns.get? k = _
    rw [Server.write, Server.txns_amend_ne _ hk, Server.hold, Server.txns_amend_ne _ hk]

/-- What it knows then. -/
theorem Numbers.written {Q' : Txn Time Lock Write → Prop} (h : Numbers hashtext i topic offset Q s)
    {t : Txn Time Lock Write} (ht : s.state.server.txns.get? i = some t) {locks : List Lock} {d : Write}
    (hQ : Q' { t with locks := t.locks ++ locks, writes := t.writes ++ [d] }) :
    Numbers hashtext i topic offset Q'
      (next s i o r { s.state with server := (s.state.server.hold i locks).write i d }) := by
  have hcommitted : ((s.state.server.hold i locks).write i d).committed = s.state.server.committed := by
    rw [Server.write, Server.committed_amend, Server.hold, Server.committed_amend]
  have hown : ∀ t', ((s.state.server.hold i locks).write i d).txns.get? i = some t' →
      t' = { t with locks := t.locks ++ locks, writes := t.writes ++ [d] } := by
    intro t' ht'
    rw [get?_written ht] at ht'
    exact (Option.some.inj ht').symm
  refine { declared := ?_, lock := fun t' ht' => ?_, draft := fun t' ht' => ?_, counter := fun t' ht' => ?_ }
  · show ∃ row, ((s.state.server.hold i locks).write i d).committed.topics.get? topic = some row
    rw [hcommitted]
    exact h.declared
  · rw [hown t' ht']
    exact List.mem_append_left _ (h.lock t ht)
  · rw [hown t' ht']
    exact hQ
  · show ∃ row, ((s.state.server.hold i locks).write i d).committed.topics.get? topic = some row ∧ _
    rw [hcommitted]
    exact h.counter t ht

/-- The transaction holds the record. -/
structure Waits (record : EventRecord) (t : Txn Time Lock Write) : Prop where
  writes : t.writes = [.event record]
  begun : t.begun = record.createdAt

theorem insertEvent_yields (record : EventRecord) (hA : Numbers hashtext i topic offset (fun t => t.writes = []) s) :
    Yields (contract hashtext store) j i (execute (insertOf record)) (fun createdAt s' =>
      Numbers hashtext i topic offset (Waits { record with createdAt := createdAt }) s' ∧
        s'.received i (insertOf record) (.ok createdAt)) s := by
  refine execute_yields hA (fun _ _ => Numbers.leaves) fun {s c r db} hA hs hex => ?_
  rcases await_cases hex with ⟨rfl, rfl⟩ | ⟨hfree, heq⟩
  · exact ⟨.lost hs, fun _ h => by cases h⟩
  · rcases within_cases heq with ⟨rfl, rfl⟩ | ⟨t, ht, heq⟩
    · exact ⟨.refused hs, fun _ h => by cases h⟩
    · have hheld := hs.tidy.hold hfree
      simp only at heq
      split at heq
      · cases heq
        exact ⟨.amend hs hheld (by simp [insertOf]) rfl, fun _ h => by cases h⟩
      · rename_i tables hinserted
        split at heq
        · cases heq
          exact ⟨.amend hs hheld (by simp [insertOf]) rfl, fun _ h => by cases h⟩
        · -- the row waits in the transaction
          cases heq
          have hfresh : Fresh s.state.server.committed { record with createdAt := t.begun } :=
            Fresh.of_insertEvent hinserted
          have hwrites := hA.draft t ht
          refine ⟨.written hs (hheld.write ?_ ?_) (by simp [insertOf]) rfl, fun createdAt h => ?_⟩
          · intro u hu k hk
            rw [Server.hold, Server.txns_amend, if_pos rfl, ht] at hu
            cases hu
            exact List.mem_append_right _ hk
          · intro other hother
            cases hother
            rw [Server.hold, Server.committed_amend]
            exact hfresh
          · cases h
            refine ⟨hA.written ht ⟨?_, rfl⟩, received_next s _⟩
            rw [hwrites]
            rfl

/-- The transaction holds the record and the counter after it. -/
structure Ready (record : EventRecord) (offset : Nat) (t : Txn Time Lock Write) : Prop where
  writes : t.writes = [.event record, .nextOffset record.topic (offset + 1)]
  begun : t.begun = record.createdAt

theorem updateNextOffset_yields (record : EventRecord) (htopic : record.topic = topic)
    (hA : Numbers hashtext i topic offset (Waits record) s) {createdAt : Time}
    (hreceived : s.received i (insertOf record) (.ok createdAt)) :
    Yields (contract hashtext store) j i (execute (.updateNextOffset (offset + 1) topic)) (fun _ s' =>
      Numbers hashtext i topic offset (Ready record offset) s' ∧ offset + 1 ≤ PostgresEventStore.maxBigint ∧
        s'.received i (insertOf record) (.ok createdAt)) s := by
  refine execute_yields (A := fun s => Numbers hashtext i topic offset (Waits record) s ∧
    s.received i (insertOf record) (.ok createdAt)) ⟨hA, hreceived⟩
    (fun _ _ hx h => ⟨h.1.leaves hx, received_leaves hx h.2⟩) fun {s c r db} hA hs hex => ?_
  obtain ⟨hA, before, hmem⟩ := hA
  rcases await_cases hex with ⟨rfl, rfl⟩ | ⟨hfree, heq⟩
  · exact ⟨.lost hs, fun _ h => by cases h⟩
  · rcases within_cases heq with ⟨rfl, rfl⟩ | ⟨t, ht, heq⟩
    · exact ⟨.refused hs, fun _ h => by cases h⟩
    · split at heq
      · cases heq
        exact ⟨.refused hs, fun _ h => by cases h⟩
      · rename_i hroom
        cases heq
        have hdraft := hA.draft t ht
        refine ⟨.written hs ((hs.tidy.hold hfree).write ?_ ?_) (by simp) rfl, fun _ _ =>
          ⟨hA.written ht ⟨?_, hdraft.begun⟩, by omega, before, List.mem_append_left _ hmem⟩⟩
        · intro u hu k hk
          rw [Server.hold, Server.txns_amend, if_pos rfl, ht] at hu
          cases hu
          -- the lock of the topic
          rw [List.mem_singleton.mp hk]
          exact List.mem_append_left _ (hA.lock t ht)
        · intro other hother
          cases hother
        · rw [hdraft.writes, htopic]
          rfl

/-- Applied to the tables, the writes of the transaction are the append of its record. -/
theorem append_eq {tables : PostgresEventStore} (hcounted : tables.Counted) {record : EventRecord} {row : TopicRow}
    (hrow : tables.topics.get? record.topic = some row) (hfresh : Fresh tables record)
    (hcursor : Cursor.encode record.topic row.nextOffset = .ok record.cursor) {bytes : Bytes}
    (hdata : canonicalize (.obj record.data) = .ok bytes) (hroom : row.nextOffset + 1 ≤ PostgresEventStore.maxBigint) :
    tables.append record.createdAt record.eventId record.topic record.eventType record.source record.data record.subject =
      (.ok record, [Write.event record, .nextOffset record.topic (row.nextOffset + 1)].foldl Write.apply tables) := by
  have hunique : (tables.events.any fun r => r.eventId = record.eventId || r.cursor = record.cursor) = false := by
    rw [List.any_eq_false]
    intro q hq
    simp [hfresh q hq]
  have happlied : [Write.event record, .nextOffset record.topic (row.nextOffset + 1)].foldl Write.apply tables =
      { topics := tables.topics.set record.topic { row with nextOffset := row.nextOffset + 1 }
        events := tables.events ++ [record] } := by
    simp only [List.foldl_cons, List.foldl_nil, Write.apply, hrow]
  rw [happlied]
  simp only [PostgresEventStore.append, hrow, hdata, PostgresEventStore.allocate, hcounted.nextOffset hrow, hcursor,
    PostgresEventStore.insertEvent, hunique, Bool.false_eq_true, if_false]
  rw [if_neg (by omega)]

theorem Configured.set {tables : PostgresEventStore} {name : String} {row : TopicRow}
    (hrow : tables.topics.get? name = some row) (offset : Nat) (events : List EventRecord) :
    Configured tables { topics := tables.topics.set name { row with nextOffset := offset }, events := events } := by
  intro other row' hrow'
  rw [Dict.get?_set]
  split
  · rename_i hname
    rw [hname, hrow] at hrow'
    cases hrow'
    exact ⟨_, rfl, rfl⟩
  · exact ⟨row', hrow', rfl⟩

/-- The commit. -/
theorem Inv.commit_next (hs : Inv store s) {record : EventRecord} {bytes : Bytes}
    (hA : Numbers hashtext i record.topic offset (Ready record offset) s) {t : Txn Time Lock Write}
    (ht : s.state.server.txns.get? i = some t) (hcursor : Cursor.encode record.topic offset = .ok record.cursor)
    (hdata : canonicalize (.obj record.data) = .ok bytes) (hroom : offset + 1 ≤ PostgresEventStore.maxBigint)
    (hreceived : s.received i (insertOf record) (.ok record.createdAt)) :
    Moves store s i .commit (.ok ()) { s.state with server := s.state.server.commit Write.apply i } := by
  have hready := hA.draft t ht
  obtain ⟨row, hrow, rfl⟩ := hA.counter t ht
  have hmem : Write.event record ∈ t.writes := by
    rw [hready.writes]
    exact .head _
  have happend := append_eq hs.tidy.counted hrow (hs.tidy.fresh i t record ht hmem) hcursor hdata hroom
  have hcommitted : (s.state.server.commit Write.apply i).committed =
      [Write.event record, .nextOffset record.topic (row.nextOffset + 1)].foldl Write.apply s.state.server.committed := by
    rw [Server.commit_eq Write.apply ht, hready.writes]
  have hdraft : s.state.draft? i = some record := by
    rw [Database.draft?, ht, Option.bind_some, hready.writes]
    rfl
  have hexec : (s.state.server.commit Write.apply i).committed = s.state.server.committed.exec (appendOf record) := by
    rw [hcommitted]
    exact (congrArg Prod.snd happend).symm
  have hevents : (s.state.server.commit Write.apply i).committed.events = s.state.server.committed.events ++ [record] := by
    rw [hcommitted]
    simp only [List.foldl_cons, List.foldl_nil, Write.apply, hrow]
  refine ⟨hs.next (hs.tidy.commit ht hmem ?_ hevents) ?_ ?_, fun k hk => leaves_next ?_ ?_ ?_⟩
  · rw [hexec]
    exact hs.tidy.counted.exec _
  · rw [Entry.call?, hdraft]
    exact hexec
  · intro db' heq
    cases heq
    refine ⟨record, hdraft, ?_, hreceived⟩
    rw [Issues, appendOf, PostgresEventStore.issued?, happend]
  · show (s.state.server.commit Write.apply i).txns.get? k = _
    rw [Server.txns_commit, if_neg hk]
  · -- the holder of another lock finds its counter unchanged
    intro u name row' hu hlock hrow'
    have hunguarded : ∀ (tables : PostgresEventStore) (d : Write), .advisory (hashtext name) ∉ d.guards hashtext →
        (Write.apply tables d).topics.get? name = tables.topics.get? name := by
      intro tables d hd
      cases d with
      | event record => rfl
      | nextOffset other n =>
        have hne : name ≠ other := by
          rintro rfl
          exact hd (by simp [Write.guards])
        simp only [Write.apply]
        split
        · rfl
        · rw [Dict.get?_set, if_neg hne]
    have hpart := hs.tidy.covered.part (π := fun tables : PostgresEventStore => tables.topics.get? name) hs.tidy.exclusive
      hunguarded (Ne.symm hk) hu hlock
    exact hpart.trans hrow'
  · show Configured _ (s.state.server.commit Write.apply i).committed
    rw [hcommitted]
    simp only [List.foldl_cons, List.foldl_nil, Write.apply, hrow]
    exact .set hrow _ _

theorem commit_yields {record : EventRecord} {bytes : Bytes}
    (hA : Numbers hashtext i record.topic offset (Ready record offset) s)
    (hcursor : Cursor.encode record.topic offset = .ok record.cursor)
    (hdata : canonicalize (.obj record.data) = .ok bytes) (hroom : offset + 1 ≤ PostgresEventStore.maxBigint)
    (hreceived : s.received i (insertOf record) (.ok record.createdAt)) :
    Yields (contract hashtext store) j i (execute .commit) (fun _ _ => True) s := by
  refine execute_yields (A := fun s => Numbers hashtext i record.topic offset (Ready record offset) s ∧
    s.received i (insertOf record) (.ok record.createdAt)) ⟨hA, hreceived⟩
    (fun _ _ hx h => ⟨h.1.leaves hx, received_leaves hx h.2⟩) fun {s c r db} hA hs hex => ?_
  rcases reach_cases hex with ⟨rfl, rfl⟩ | heq
  · exact ⟨.lost hs, fun _ h => by cases h⟩
  · rcases within_cases heq with ⟨rfl, rfl⟩ | ⟨t, ht, heq⟩
    · exact ⟨.refused hs, fun _ h => by cases h⟩
    · cases heq
      exact ⟨hs.commit_next hA.1 ht hcursor hdata hroom hA.2, fun _ _ => trivial⟩

theorem rollback_yields : Yields (contract hashtext store) j i (execute .rollback) (fun _ _ => True) s := by
  refine execute_yields (A := fun _ => True) trivial (fun _ _ _ _ => trivial) fun {s c r db} _ hs hex => ?_
  cases hex
  refine ⟨.quiet hs hs.tidy.rollback rfl (fun k hk => ?_) rfl (no_commit (by simp)), fun _ _ => trivial⟩
  show (s.state.server.rollback i).txns.get? k = _
  rw [Server.txns_rollback, if_neg hk]

end Transaction

/-! ## Statements outside transactions -/

section Alone

variable {j : Job} {A : Snapshot hashtext → Prop} {name : String}

/-- A statement that is a call of the store by itself. -/
theorem Moves.alone (hs : Inv store s) {call : StoreCall} {tables : PostgresEventStore}
    (hcall : Entry.call? (⟨i, o, r, s.state⟩ : Entry hashtext) = some call) (ho : o ≠ .commit)
    (hexec : s.state.server.committed.exec call = tables) (hevents : ∀ q ∈ tables.events, q ∈ s.state.server.committed.events)
    (htopics : ∀ name row, s.state.server.committed.topics.get? name = some row → tables.topics.get? name = some row) :
    Moves store s i o r (s.state.set tables) := by
  refine ⟨hs.next (hs.tidy.set ?_ hevents) ?_ fun db' heq => absurd heq (no_commit ho db'),
    fun k _ => leaves_next rfl (fun _ topic row _ _ => htopics topic row) fun name row hrow => ⟨row, htopics name row hrow, rfl⟩⟩
  · rw [← hexec]
    exact hs.tidy.counted.exec call
  · rw [hcall]
    exact hexec.symm

theorem insertTopic_yields (topic : Topic) :
    Yields (contract hashtext store) j i (execute (.insertTopic topic)) (fun _ _ => True) s := by
  refine execute_yields (A := fun _ => True) trivial (fun _ _ _ _ => trivial) fun {s c r db} _ hs hex => ?_
  rcases reach_cases hex with ⟨rfl, rfl⟩ | heq
  · exact ⟨.lost hs, fun _ h => by cases h⟩
  · refine ⟨?_, fun _ _ => trivial⟩
    cases heq
    cases hres : (s.state.server.committed.declareTopic topic).1 with
    | error e =>
      have hsame : (s.state.server.committed.declareTopic topic).2 = s.state.server.committed := by
        unfold PostgresEventStore.declareTopic at hres ⊢
        split at hres
        · rename_i hrange
          rw [if_pos hrange]
        · cases hres
      rw [hsame]
      exact .quiet hs hs.tidy rfl (fun _ _ => rfl) call?_error fun _ => no_commit_error
    | ok u =>
      refine .alone hs rfl (by simp) rfl (fun q hq => ?_) fun name row hrow => ?_
      · rwa [PostgresEventStore.events_declareTopic] at hq
      · rcases PostgresEventStore.declareTopic_cases s.state.server.committed topic with hsame | hnew
        · rw [hsame]
          exact hrow
        · rw [hnew, Dict.get?_setDefault]
          split
          · rename_i hname
            rw [← hname, hrow, Option.getD_some]
          · exact hrow

/-- The topic has been declared with this configuration. -/
def HasConfig (name : String) (config : Topic) (s : Snapshot hashtext) : Prop :=
  ∃ row, s.state.server.committed.topics.get? name = some row ∧ row.config = config

theorem HasConfig.leaves {config : Topic} {s' : Snapshot hashtext} (hx : Leaves i s s') (h : HasConfig name config s) :
    HasConfig name config s' := by
  obtain ⟨row, hrow, heq⟩ := h
  obtain ⟨row', hrow', heq'⟩ := hx.configs name row hrow
  exact ⟨row', hrow', heq'.trans heq⟩

theorem getTopic_yields (hA : A s) (hrely : ∀ s s', Leaves i s s' → A s → A s') :
    Yields (contract hashtext store) j i (getTopic name) (fun config s' => A s' ∧ HasConfig name config s') s := by
  refine Yields.bind (look_yields (o := .selectConfig name) (P := fun found s' => ∀ config, found = some config →
    HasConfig name config s') rfl hA hrely ?_) fun found s' h => ?_
  · intro s c found _ hs hex config hfound
    rcases reach_cases hex with ⟨h, -⟩ | heq
    · cases h
    · cases heq
      obtain ⟨row, hrow, hconfig⟩ := Option.map_eq_some_iff.mp hfound
      exact ⟨row, hrow, hconfig⟩
  · cases found with
    | none => exact Yields.raise _
    | some config => exact Yields.pure ⟨h.1, h.2 config rfl⟩

/-- The deletion of the aged rows of a topic is a compaction. -/
theorem compact_eq {tables : PostgresEventStore} {config : Topic} (hpos : ¬ config.retentionSeconds ≤ 0) {row : TopicRow}
    (hrow : tables.topics.get? name = some row) (hconfig : row.config = config) (now : Time) :
    (tables.compact now (some name)).2 = { tables with
      events := tables.events.filter fun r => !Database.isAged now name config.retentionSeconds r } := by
  simp only [PostgresEventStore.compact, PostgresEventStore.compactAll, PostgresEventStore.getTopic, hrow, hconfig,
    PostgresEventStore.compactTopic]
  congr 1
  refine List.filter_congr fun r _ => ?_
  rw [EventStore.retained, Database.isAged, decide_eq_false hpos, Bool.false_or, Bool.not_and, ← decide_not, ← decide_not,
    decide_eq_decide.mpr not_lt]

theorem deleteAged_yields {config : Topic} (hconfig : HasConfig name config s) (hpos : ¬ config.retentionSeconds ≤ 0) :
    Yields (contract hashtext store) j i (execute (.deleteAged name config.retentionSeconds)) (fun _ _ => True) s := by
  refine execute_yields hconfig (fun _ _ => HasConfig.leaves) fun {s c r db} hconfig hs hex => ?_
  rcases reach_cases hex with ⟨rfl, rfl⟩ | heq
  · exact ⟨.lost hs, fun _ h => by cases h⟩
  · obtain ⟨row, hrow, hrowconfig⟩ := hconfig
    cases heq
    refine ⟨.alone hs rfl (by simp) (compact_eq hpos hrow hrowconfig s.state.clock) (fun q hq => ?_) fun _ _ h => h,
      fun _ _ => trivial⟩
    exact List.mem_of_mem_filter hq

end Alone

/-! ## The methods -/

section Methods

variable {j : Job} {topic eventId eventType source : String} {data : List (String × Json)} {subject : Option String}

/-- What the block of an append leaves to be committed. -/
structure Prepared (hashtext : String → Int) (i : Nat) (topic : String) (data : List (String × Json)) (offset : Nat)
    (record : EventRecord) (s : Snapshot hashtext) : Prop where
  numbers : Numbers hashtext i record.topic offset (Ready record offset) s
  topic : record.topic = topic
  data : record.data = data
  cursor : Cursor.encode record.topic offset = .ok record.cursor
  room : offset + 1 ≤ PostgresEventStore.maxBigint
  received : s.received i (insertOf record) (.ok record.createdAt)

theorem allocate_yields (hdeclared : ∃ row, s.state.server.committed.topics.get? topic = some row)
    (hopen : ∀ t, s.state.server.txns.get? i = some t → t.writes = []) :
    Yields (contract hashtext store) j i (allocate eventId topic eventType source data subject) (fun _ s' =>
      ∃ offset record, Prepared hashtext i topic data offset record s') s := by
  unfold allocate
  refine Yields.bind (advisoryLock_yields hdeclared hopen) fun _ s₁ h₁ => ?_
  refine Yields.bind (selectNextOffset_yields h₁) fun stored s₂ h₂ => ?_
  refine Yields.bind (countEvents_yields h₂) fun count s₃ h₃ => ?_
  obtain ⟨hnumbers, hcount⟩ := h₃
  -- the counter decides
  have hmax : max (Option.getD stored 0) count = Option.getD stored 0 := Nat.max_eq_left hcount
  generalize max (Option.getD stored 0) count = offset at hmax ⊢
  subst hmax
  refine Yields.bind (P := fun cursor s' => s' = s₃ ∧ Cursor.encode topic (Option.getD stored 0 : Nat) = .ok cursor)
    (Yields.lift fun cursor h => ⟨rfl, h⟩) fun cursor s₄ h₄ => ?_
  obtain ⟨rfl, hcursor⟩ := h₄
  let record : EventRecord := { eventId, topic, cursor, eventType, source, data, subject, createdAt := 0 }
  refine Yields.bind (insertEvent_yields record hnumbers) fun createdAt s₅ h₅ => ?_
  obtain ⟨hwaits, hreceived⟩ := h₅
  refine Yields.bind (updateNextOffset_yields { record with createdAt := createdAt } rfl hwaits hreceived)
    fun _ s₆ h₆ => ?_
  obtain ⟨hready, hroom, hreceived⟩ := h₆
  exact Yields.pure ⟨_, _, hready, rfl, rfl, hcursor, hroom, hreceived⟩

/-- The tables and the trace do not matter. -/
private theorem rely_true : ∀ s s' : Snapshot hashtext, Leaves i s s' → True → True := fun _ _ _ _ => trivial

theorem append_yields :
    Yields (contract hashtext store) j i (append topic eventType source data subject) (fun _ _ => True) s := by
  unfold append
  refine Yields.bind (getTopic_yields (A := fun _ => True) trivial rely_true) fun config s₁ h₁ => ?_
  obtain ⟨row, hrow, -⟩ := h₁.2
  refine Yields.bind (look_yields (o := .newEventId) (P := fun _ _ => True) rfl ⟨row, hrow⟩ (fun _ _ => declared_leaves)
    fun _ _ _ => trivial) fun eventId s₂ h₂ => ?_
  refine Yields.bind (P := fun _ s' => s' = s₂ ∧ ∃ bytes, canonicalize (.obj data) = .ok bytes)
    (Yields.lift fun bytes h => ⟨rfl, bytes, h⟩) fun _ s₃ h₃ => ?_
  obtain ⟨rfl, bytes, hdata⟩ := h₃
  refine Yields.bind (P := fun _ _ => True) ?_ fun _ _ _ => Yields.pure trivial
  -- the transaction
  refine Yields.bind (openTransaction_yields h₂.1) fun _ s₄ h₄ => ?_
  refine Yields.bind (allocate_yields h₄.1 h₄.2).attempt fun outcome s₅ h₅ => ?_
  cases outcome with
  | ok a =>
    obtain ⟨offset, record, hprepared⟩ := h₅ a rfl
    have hcursor := hprepared.cursor
    rw [← hprepared.data] at hdata
    refine Yields.bind (commit_yields hprepared.numbers hcursor hdata hprepared.room hprepared.received) fun _ s₆ _ => ?_
    refine Yields.bind (look_yields (o := .acknowledged) (A := fun _ => True) (P := fun _ _ => True) rfl trivial rely_true
      fun _ _ _ => trivial) fun _ _ _ => Yields.pure trivial
  | error e => exact Yields.bind rollback_yields fun _ _ _ => Yields.raise e

theorem compactNames_yields (names : List String) : ∀ (removed : Nat) (s : Snapshot hashtext),
    Yields (contract hashtext store) j i (compactNames removed names) (fun _ _ => True) s := by
  induction names with
  | nil => exact fun _ _ => Yields.pure trivial
  | cons name rest ih =>
    intro removed s
    refine Yields.bind (getTopic_yields (A := fun _ => True) trivial rely_true) fun config s₁ h₁ => ?_
    simp only
    split
    · exact ih removed s₁
    · rename_i hpos
      exact Yields.bind (deleteAged_yields h₁.2 hpos) fun deleted s₂ _ => ih (removed + deleted) s₂

theorem compact_yields (name? : Option String) :
    Yields (contract hashtext store) j i (compact name?) (fun _ _ => True) s := by
  cases name? with
  | some name => exact compactNames_yields [name] 0 s
  | none =>
    refine Yields.bind (look_yields (o := .selectConfigs) (A := fun _ => True) (P := fun _ _ => True) rfl trivial rely_true
      fun _ _ _ => trivial) fun topics s₁ _ => ?_
    exact compactNames_yields _ 0 s₁

theorem lowerBound_yields (fromCursor : Option String) :
    Yields (contract hashtext store) j i (lowerBound topic fromCursor) (fun _ _ => True) s := by
  cases fromCursor with
  | none => exact Yields.pure trivial
  | some from_ =>
    simp only [lowerBound]
    split
    · exact Yields.pure trivial
    · refine Yields.bind (P := fun _ _ => True) (Yields.lift fun _ _ => trivial) fun _ s₁ _ => ?_
      refine Yields.bind (P := fun _ _ => True) ?_ fun oldest s₂ _ => ?_
      · refine Yields.bind (getTopic_yields (A := fun _ => True) trivial rely_true) fun config s₂ _ => ?_
        exact Yields.weaken (look_yields (o := .selectOldest topic config.retentionSeconds) (A := fun _ => True)
          (P := fun _ _ => True) rfl trivial rely_true fun _ _ _ => trivial) fun _ _ _ => trivial
      · cases oldest with
        | none => exact Yields.pure trivial
        | some oldest =>
          simp only
          split
          · exact Yields.lift fun _ _ => trivial
          · exact Yields.pure trivial

theorem read_yields (fromCursor toCursor : Option String) (limit : Int) :
    Yields (contract hashtext store) j i (read topic fromCursor toCursor limit) (fun _ _ => True) s := by
  unfold read
  refine Yields.bind (getTopic_yields (A := fun _ => True) trivial rely_true) fun _ s₁ _ => ?_
  split
  · exact Yields.pure trivial
  · refine Yields.bind (lowerBound_yields fromCursor) fun lower s₂ _ => ?_
    refine Yields.bind (P := fun _ _ => True) (Yields.lift fun _ _ => trivial) fun upper s₃ _ => ?_
    refine Yields.bind (getTopic_yields (A := fun _ => True) trivial rely_true) fun config s₄ _ => ?_
    refine Yields.bind (look_yields (o := .selectEvents topic lower upper config.retentionSeconds (limit + 1))
      (A := fun _ => True) (P := fun _ _ => True) rfl trivial rely_true fun _ _ _ => trivial) fun rows s₅ _ => ?_
    exact Yields.lift fun _ _ => trivial

/-- The methods keep the invariant whatever happens beside them. -/
theorem code_yields (j : Job) (s : Snapshot hashtext) :
    Yields (contract hashtext store) j i (code j) (fun _ _ => True) s := by
  cases j with
  | declareTopic topic => exact Yields.bind (insertTopic_yields topic) fun _ _ _ => Yields.pure trivial
  | append topic eventType source data subject => exact Yields.bind append_yields fun _ _ _ => Yields.pure trivial
  | compact name? => exact Yields.bind (compact_yields name?) fun _ _ _ => Yields.pure trivial
  | read topic fromCursor toCursor limit =>
    exact Yields.bind (read_yields fromCursor toCursor limit) fun _ _ _ => Yields.pure trivial

end Methods

/-! ## The promises -/

/-- The server gives up transactions. -/
theorem Inv.give_up (hs : Inv store s) {server : Server PostgresEventStore Time Lock Write} (htidy : Tidy hashtext server)
    (htables : server.committed = s.state.server.committed) (clock : Time) :
    Inv store ⟨{ server := server, clock := clock }, s.trace⟩ where
  tidy := htidy
  explained := hs.explained.unseen htables
  committed := hs.committed

theorem contract_sound (hashtext : String → Int) (store : PostgresEventStore) : (contract hashtext store).Sound where
  rely_refl _ k s := Leaves.refl k s
  rely_trans h h' := Leaves.trans h h'
  env_rely := by
    intro e s s' henv hs
    obtain ⟨db, hdb, rfl⟩ := Option.map_eq_some_iff.mp henv
    cases e with
    | tick d =>
      cases hdb
      exact ⟨hs.give_up hs.tidy rfl _, fun _ k => ⟨.inl rfl, fun _ _ _ _ _ h => h, .refl _, fun _ h => h⟩⟩
    | terminate i =>
      cases hdb
      refine ⟨hs.give_up hs.tidy.rollback rfl _, fun _ k => ⟨?_, fun _ _ _ _ _ h => h, .refl _, fun _ h => h⟩⟩
      show (s.state.server.rollback i).txns.get? k = _ ∨ (s.state.server.rollback i).txns.get? k = none
      rw [Server.txns_rollback]
      split
      · exact .inr rfl
      · exact .inl rfl
  peer_rely _ hne _ _ hguar := hguar _ (Ne.symm hne)
  pre_stable h _ _ := h
  code_safe j _ s _ _ := Safe.weaken (code_yields j s) fun _ _ _ => trivial

end EventSession

end A2AEvents

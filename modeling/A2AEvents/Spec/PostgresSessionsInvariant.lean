import A2AEvents.ForStd.Linearization
import A2AEvents.ForStd.Protocol
import A2AEvents.Native.PostgresSessions
import A2AEvents.Spec.PostgresCounters

/-!
# The server between two statements

The statements of many sessions interleave, connections fail and clients crash. Yet the tables are always
those of a history of calls made one after the other: a declaration, a deletion and the commit of an append
are each a call of the store. What makes it so is what holds between any two statements: whoever writes holds
the locks that guard what is written, nobody else holds them, and what waits to be committed clashes with nothing.

## Key results

- `Tidy.commit`: the commit of an event leaves the server in order
- `Inv.next`, `Moves.quiet`: a statement that keeps the history keeps the invariant
-/

namespace A2AEvents

namespace EventSession

open Async Transactions

variable {hashtext : String → Int}

/-- An executed statement. -/
abbrev Entry (hashtext : String → Int) := (sem hashtext).Entry

/-- The server together with the statements executed so far. -/
abbrev Snapshot (hashtext : String → Int) := (sem hashtext).Traced

/-! ## The history -/

/-- The record that a write adds. -/
def Write.record? : Write → Option EventRecord
  | .event record => some record
  | .nextOffset .. => none

/-- The call of an append that issued the record. -/
def appendOf (record : EventRecord) : StoreCall :=
  .append record.createdAt record.eventId record.topic record.eventType record.source record.data record.subject

/-- The record that waits for the commit. -/
def Database.draft? (db : Database) (i : Nat) : Option EventRecord :=
  (db.server.txns.get? i).bind fun t => t.writes.findSome? Write.record?

/-- The call of the store that a statement stands for. -/
def Entry.call? : Entry hashtext → Option StoreCall
  | ⟨_, .insertTopic topic, .ok _, _⟩ => some (.declareTopic topic)
  | ⟨_, .deleteAged name _, .ok _, db⟩ => some (.compact db.clock (some name))
  | ⟨i, .commit, .ok _, db⟩ => (db.draft? i).map appendOf
  | _ => none

/-- The calls that the statements stand for. -/
def calls (trace : List (Entry hashtext)) : List StoreCall := trace.filterMap Entry.call?

theorem calls_append (l l' : List (Entry hashtext)) : calls (l ++ l') = calls l ++ calls l' :=
  List.filterMap_append

/-- The history explains the committed tables. -/
def linearization (hashtext : String → Int) (store : PostgresEventStore) :
    Linearization (sem hashtext) StoreCall PostgresEventStore where
  call? := Entry.call?
  apply := PostgresEventStore.exec
  view db := db.server.committed
  start := store

/-! ## The invariant -/

/-- What guards a write. -/
def Write.guards (hashtext : String → Int) : Write → List Lock
  | .event record => [.eventId record.eventId, .cursor record.cursor]
  | .nextOffset topic _ => [.advisory (hashtext topic)]

/-- The record clashes with no row. -/
def Fresh (store : PostgresEventStore) (record : EventRecord) : Prop :=
  ∀ q ∈ store.events, q.eventId ≠ record.eventId ∧ q.cursor ≠ record.cursor

/-- The store issues the record. -/
def Issues (store : PostgresEventStore) (record : EventRecord) : Prop :=
  store.issued? (appendOf record) = some record

/-- The statement that inserted a record. -/
def insertOf (record : EventRecord) : Statement :=
  .insertEvent record.eventId record.topic record.cursor record.subject record.eventType record.source record.data

/-- The server is in order: the counters have caught up, nobody holds what another one holds, whoever writes
    holds the guards, and what waits to be committed clashes with nothing. -/
structure Tidy (hashtext : String → Int) (server : Server PostgresEventStore Time Lock Write) : Prop where
  counted : server.committed.Counted
  exclusive : Exclusive server
  covered : Covered (Write.guards hashtext) server
  fresh : ∀ i t record, server.txns.get? i = some t → .event record ∈ t.writes → Fresh server.committed record

/-- What always holds. -/
structure Inv (store : PostgresEventStore) (s : Snapshot hashtext) : Prop where
  tidy : Tidy hashtext s.state.server
  explained : (linearization hashtext store).Explains s
  committed : ∀ i db, (⟨i, .commit, .ok (), db⟩ : Entry hashtext) ∈ s.trace →
    ∃ record, db.draft? i = some record ∧ Issues db.server.committed record ∧
      s.received i (insertOf record) (.ok record.createdAt)

theorem Inv.history {store : PostgresEventStore} {s : Snapshot hashtext} (h : Inv store s) :
    s.state.server.committed = store.run (calls s.trace) :=
  h.explained.now

theorem Inv.found {store : PostgresEventStore} {s : Snapshot hashtext} (h : Inv store s) {before after : List (Entry hashtext)}
    {e : Entry hashtext} (htrace : s.trace = before ++ e :: after) :
    e.before.server.committed = store.run (calls before) :=
  h.explained.found before e after htrace

/-! ## What others leave alone -/

/-- Topics stay, with their configuration. -/
def Configured (a b : PostgresEventStore) : Prop :=
  ∀ name row, a.topics.get? name = some row → ∃ row', b.topics.get? name = some row' ∧ row'.config = row.config

theorem Configured.refl (a : PostgresEventStore) : Configured a a := fun _ row h => ⟨row, h, rfl⟩

theorem Configured.trans {a b c : PostgresEventStore} (h : Configured a b) (h' : Configured b c) : Configured a c := by
  intro name row hrow
  obtain ⟨row', hrow', heq⟩ := h name row hrow
  obtain ⟨row'', hrow'', heq'⟩ := h' name row' hrow'
  exact ⟨row'', hrow'', heq'.trans heq⟩

/-- What session `k` relies on. -/
structure Leaves (k : Nat) (s s' : Snapshot hashtext) : Prop where
  own : s'.state.server.txns.get? k = s.state.server.txns.get? k ∨ s'.state.server.txns.get? k = none
  rows : ∀ t topic row, s'.state.server.txns.get? k = some t → .advisory (hashtext topic) ∈ t.locks →
    s.state.server.committed.topics.get? topic = some row → s'.state.server.committed.topics.get? topic = some row
  configs : Configured s.state.server.committed s'.state.server.committed
  trace : ∀ e ∈ s.trace, e ∈ s'.trace

theorem Leaves.refl (k : Nat) (s : Snapshot hashtext) : Leaves k s s where
  own := .inl rfl
  rows := fun _ _ _ _ _ h => h
  configs := .refl _
  trace := fun _ h => h

theorem Leaves.trans {k : Nat} {a b c : Snapshot hashtext} (h : Leaves k a b) (h' : Leaves k b c) : Leaves k a c where
  own := by
    rcases h'.own with heq | hnone
    · rw [heq]
      exact h.own
    · exact .inr hnone
  rows := by
    intro t topic row ht hlock hrow
    -- the transaction was open all the time
    have hb : b.state.server.txns.get? k = some t := by
      rcases h'.own with heq | hnone
      · rw [← heq]
        exact ht
      · rw [hnone] at ht
        cases ht
    exact h'.rows t topic row ht hlock (h.rows t topic row hb hlock hrow)
  configs := h.configs.trans h'.configs
  trace := fun e he => h'.trace e (h.trace e he)

/-- The promises of the sessions. -/
def contract (hashtext : String → Int) (store : PostgresEventStore) : Contract (sem hashtext).traced where
  inv := Inv store
  rely _ k s s' := Leaves k s s'
  guar _ i s s' := ∀ k, k ≠ i → Leaves k s s'
  adm _ _ _ _ _ := True
  pre _ _ := True
  peer _ _ := True

/-! ## The server -/

namespace Tidy

variable {server : Server PostgresEventStore Time Lock Write} {i : Nat}

theorem initial {store : PostgresEventStore} (h : store.Counted) : Tidy hashtext { committed := store } where
  counted := h
  exclusive := .empty store
  covered := .empty store
  fresh := fun _ _ _ h => by cases h

theorem rollback (h : Tidy hashtext server) : Tidy hashtext (server.rollback i) where
  counted := h.counted
  exclusive := h.exclusive.rollback
  covered := h.covered.rollback
  fresh := by
    intro k t record ht
    rw [Server.txns_rollback] at ht
    split at ht
    · cases ht
    · exact h.fresh k t record ht

theorem openTxn (h : Tidy hashtext server) (note : Time) : Tidy hashtext (server.openTxn i note) where
  counted := h.counted
  exclusive := h.exclusive.openTxn note
  covered := h.covered.openTxn note
  fresh := by
    intro k t record ht hmem
    rw [Server.txns_openTxn] at ht
    split at ht
    · cases ht
      cases hmem
    · exact h.fresh k t record ht hmem

theorem hold (h : Tidy hashtext server) {locks : List Lock} (hfree : server.busy i locks = false) :
    Tidy hashtext (server.hold i locks) where
  counted := by
    rw [Server.hold, Server.committed_amend]
    exact h.counted
  exclusive := h.exclusive.hold hfree
  covered := h.covered.hold locks
  fresh := by
    intro k t record ht hmem
    rw [Server.hold, Server.committed_amend]
    rw [Server.hold, Server.txns_amend] at ht
    split at ht
    · obtain ⟨t₀, ht₀, rfl⟩ := Option.map_eq_some_iff.mp ht
      exact h.fresh i t₀ record ht₀ hmem
    · exact h.fresh k t record ht hmem

theorem write (h : Tidy hashtext server) {d : Write}
    (hguards : ∀ t, server.txns.get? i = some t → ∀ k ∈ d.guards hashtext, k ∈ t.locks)
    (hfresh : ∀ record, d = .event record → Fresh server.committed record) : Tidy hashtext (server.write i d) where
  counted := by
    rw [Server.write, Server.committed_amend]
    exact h.counted
  exclusive := h.exclusive.write d
  covered := h.covered.write hguards
  fresh := by
    intro k t record ht hmem
    rw [Server.write, Server.committed_amend]
    rw [Server.write, Server.txns_amend] at ht
    split at ht
    · obtain ⟨t₀, ht₀, rfl⟩ := Option.map_eq_some_iff.mp ht
      rcases List.mem_append.mp hmem with hold | hnew
      · exact h.fresh i t₀ record ht₀ hold
      · exact hfresh record (List.mem_singleton.mp hnew).symm
    · exact h.fresh k t record ht hmem

/-- Other tables with the same transactions. -/
theorem set (h : Tidy hashtext server) {tables : PostgresEventStore} (hcounted : tables.Counted)
    (hevents : ∀ q ∈ tables.events, q ∈ server.committed.events) :
    Tidy hashtext { server with committed := tables } where
  counted := hcounted
  exclusive := h.exclusive
  covered := h.covered
  fresh := fun k t record ht hmem q hq => h.fresh k t record ht hmem q (hevents q hq)

/-- The commit of an event. -/
theorem commit (h : Tidy hashtext server) {t : Txn Time Lock Write} (ht : server.txns.get? i = some t)
    {record : EventRecord} (hmem : .event record ∈ t.writes)
    (hcounted : (server.commit Write.apply i).committed.Counted)
    (hevents : (server.commit Write.apply i).committed.events = server.committed.events ++ [record]) :
    Tidy hashtext (server.commit Write.apply i) where
  counted := hcounted
  exclusive := h.exclusive.commit Write.apply
  covered := h.covered.commit Write.apply
  fresh := by
    intro k u other hu hother q hq
    rw [Server.txns_commit] at hu
    split at hu
    · cases hu
    · rename_i hne
      rw [hevents] at hq
      rcases List.mem_append.mp hq with hq | hq
      · exact h.fresh k u other hu hother q hq
      · -- each session holds the index entries of its own record
        rw [List.mem_singleton.mp hq]
        have hheld := h.covered i t ht _ hmem
        have hheld' := h.covered k u hu _ hother
        constructor
        · intro heq
          apply h.exclusive i k t u (.eventId record.eventId) (Ne.symm hne) ht hu (hheld _ (by simp [Write.guards]))
          exact hheld' _ (by simp [Write.guards, heq])
        · intro heq
          apply h.exclusive i k t u (.cursor record.cursor) (Ne.symm hne) ht hu (hheld _ (by simp [Write.guards]))
          exact hheld' _ (by simp [Write.guards, heq])

end Tidy

/-! ## Steps -/

section Steps

variable {store : PostgresEventStore} {s : Snapshot hashtext} {i : Nat} {o : Statement} {r : Except PyError o.Ans}
  {db : Database}

/-- The snapshot after a statement. -/
abbrev next (s : Snapshot hashtext) (i : Nat) (o : Statement) (r : Except PyError o.Ans) (db : Database) : Snapshot hashtext :=
  ⟨db, s.trace ++ [⟨i, o, r, s.state⟩]⟩

theorem received_next (s : Snapshot hashtext) (db : Database) : (next s i o r db).received i o r :=
  ⟨s.state, by simp⟩

/-- A statement that leaves the server in order and does to the tables what its call does. -/
theorem Inv.next (hs : Inv store s) (htidy : Tidy hashtext db.server)
    (hhistory : db.server.committed =
      s.state.server.committed.run (Entry.call? (⟨i, o, r, s.state⟩ : Entry hashtext)).toList)
    (hcommitted : ∀ db', (⟨i, .commit, .ok (), db'⟩ : Entry hashtext) = ⟨i, o, r, s.state⟩ →
      ∃ record, db'.draft? i = some record ∧ Issues db'.server.committed record ∧
        s.received i (insertOf record) (.ok record.createdAt)) : Inv store (next s i o r db) where
  tidy := htidy
  explained := hs.explained.next hhistory
  committed := by
    intro k db' hmem
    have hkeep : ∀ record, s.received k (insertOf record) (.ok record.createdAt) →
        (EventSession.next s i o r db).received k (insertOf record) (.ok record.createdAt) := by
      intro record hreceived
      obtain ⟨before, hmem⟩ := hreceived
      exact ⟨before, List.mem_append_left _ hmem⟩
    rcases List.mem_append.mp hmem with hold | hnew
    · obtain ⟨record, hdraft, hissues, hreceived⟩ := hs.committed k db' hold
      exact ⟨record, hdraft, hissues, hkeep record hreceived⟩
    · have heq := List.mem_singleton.mp hnew
      obtain rfl : k = i := congrArg Sem.Entry.task heq
      obtain ⟨record, hdraft, hissues, hreceived⟩ := hcommitted db' heq
      exact ⟨record, hdraft, hissues, hkeep record hreceived⟩

/-- What another session finds unchanged. -/
theorem leaves_next {k : Nat} (htxns : db.server.txns.get? k = s.state.server.txns.get? k)
    (hrows : ∀ t topic row, s.state.server.txns.get? k = some t → .advisory (hashtext topic) ∈ t.locks →
      s.state.server.committed.topics.get? topic = some row → db.server.committed.topics.get? topic = some row)
    (hconfigs : Configured s.state.server.committed db.server.committed) : Leaves k s (next s i o r db) where
  own := .inl htxns
  rows := by
    intro t topic row ht hlock hrow
    rw [htxns] at ht
    exact hrows t topic row ht hlock hrow
  configs := hconfigs
  trace := fun e he => List.mem_append_left _ he

/-- A step of session `i` keeps the promises. -/
abbrev Moves (store : PostgresEventStore) (s : Snapshot hashtext) (i : Nat) (o : Statement) (r : Except PyError o.Ans)
    (db : Database) : Prop :=
  Inv store (next s i o r db) ∧ ∀ k, k ≠ i → Leaves k s (next s i o r db)

/-- A statement that changes no tables. -/
theorem Moves.quiet (hs : Inv store s) (htidy : Tidy hashtext db.server)
    (htables : db.server.committed = s.state.server.committed)
    (htxns : ∀ k, k ≠ i → db.server.txns.get? k = s.state.server.txns.get? k)
    (hcall : Entry.call? (⟨i, o, r, s.state⟩ : Entry hashtext) = none)
    (hno : ∀ db', (⟨i, .commit, .ok (), db'⟩ : Entry hashtext) ≠ ⟨i, o, r, s.state⟩) : Moves store s i o r db := by
  refine ⟨hs.next htidy ?_ fun db' heq => absurd heq (hno db'), fun k hk => leaves_next (htxns k hk) ?_ ?_⟩
  · rw [htables, hcall]
    rfl
  · intro t topic row _ _ hrow
    rw [htables]
    exact hrow
  · rw [htables]
    exact .refl _

theorem no_commit (ho : o ≠ .commit) (db' : Database) : (⟨i, .commit, .ok (), db'⟩ : Entry hashtext) ≠ ⟨i, o, r, s.state⟩ :=
  fun heq => ho (congrArg Sem.Entry.op heq).symm

/-- A statement that fails is none of the calls. -/
theorem call?_error {e : PyError} {i : Nat} {o : Statement} {db : Database} :
    Entry.call? (⟨i, o, .error e, db⟩ : Entry hashtext) = none := by
  cases o <;> rfl

theorem no_commit_error {e : PyError} {i : Nat} {o : Statement} {db db' : Database} :
    (⟨i, .commit, .ok (), db'⟩ : Entry hashtext) ≠ ⟨i, o, .error e, db⟩ := by
  intro heq
  cases heq

/-- The connection is lost, and with it the transaction. -/
theorem Moves.lost (hs : Inv store s) {e : PyError} {clock : Time} :
    Moves store s i o (.error e) { server := s.state.server.rollback i, clock := clock } := by
  refine Moves.quiet hs ?_ ?_ ?_ call?_error fun _ => no_commit_error
  · exact hs.tidy.rollback
  · rfl
  · intro k hk
    show (s.state.server.rollback i).txns.get? k = _
    rw [Server.txns_rollback, if_neg hk]

end Steps

end EventSession

end A2AEvents

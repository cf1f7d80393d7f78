import A2AEvents.ForStd.Linearization
import A2AEvents.ForStd.Protocol
import A2AEvents.Native.PostgresRetryQueue

/-!
# The table of retries between two statements

A claim scans, locks and writes in steps, and others insert, complete and reschedule in between. What it has
locked stays as it was: the rows wait in the table, due, until the claim commits or is given up. So the commit
of a claim is one call that leases rows that were due.

## Key results

- `Tidy.commit`: the commit of a claim leaves the other claims their rows
- `Inv.next`: a statement that does what its call does keeps the invariant
-/

namespace A2AEvents

namespace RetryTable

variable {table : RetryTable} {id : String}

theorem get?_insert (item : RetryItem) : (table.insert item).rows.get? id =
    if id = item.retryId then some ((table.rows.get? id).getD ⟨item, table.tuples⟩) else table.rows.get? id := by
  unfold insert
  split
  · rename_i row hrow
    split
    · rename_i hid
      rw [hid, hrow, Option.getD_some]
    · rfl
  · rename_i hnone
    rw [Dict.get?_set]
    split
    · rename_i hid
      rw [hid, hnone, Option.getD_none]
    · rfl

theorem get?_modify (retryId : String) (f : RetryItem → RetryItem) : (table.modify retryId f).rows.get? id =
    if id = retryId then (table.rows.get? id).map fun row => { row with item := f row.item } else table.rows.get? id := by
  unfold modify
  split
  · rename_i hnone
    split
    · rename_i hid
      rw [hid, hnone, Option.map_none]
    · rfl
  · rename_i row hrow
    rw [Dict.get?_set]
    split
    · rename_i hid
      rw [hid, hrow, Option.map_some]
    · rfl

theorem get?_delete (retryId : String) :
    (table.delete retryId).rows.get? id = if id = retryId then none else table.rows.get? id :=
  Dict.get?_erase ..

/-- Items are kept under their own ids. -/
def Keyed (table : RetryTable) : Prop :=
  ∀ id row, table.rows.get? id = some row → row.item.retryId = id

theorem keyed_empty : ({} : RetryTable).Keyed := fun _ _ h => by cases h

theorem Keyed.insert (h : table.Keyed) (item : RetryItem) : (table.insert item).Keyed := by
  intro id row hrow
  rw [get?_insert] at hrow
  split at hrow
  · rename_i hid
    cases hold : table.rows.get? id with
    | none =>
      rw [hold] at hrow
      cases hrow
      exact hid.symm
    | some old =>
      rw [hold] at hrow
      cases hrow
      exact h id _ hold
  · exact h id row hrow

theorem Keyed.modify (h : table.Keyed) (retryId : String) {f : RetryItem → RetryItem}
    (hf : ∀ item, (f item).retryId = item.retryId) : (table.modify retryId f).Keyed := by
  intro id row hrow
  rw [get?_modify] at hrow
  split at hrow
  · obtain ⟨old, hold, rfl⟩ := Option.map_eq_some_iff.mp hrow
    exact (hf old.item).trans (h id old hold)
  · exact h id row hrow

theorem Keyed.delete (h : table.Keyed) (retryId : String) : (table.delete retryId).Keyed := by
  intro id row hrow
  rw [get?_delete] at hrow
  split at hrow
  · cases hrow
  · exact h id row hrow

end RetryTable

namespace QueueSession

open Async Transactions

/-- An executed statement. -/
abbrev Entry := sem.Entry

/-- The server together with the statements executed so far. -/
abbrev Snapshot := sem.Traced

/-! ## The history -/

/-- The calls that the statements stand for. A claim leases rows. -/
inductive RowCall where
  | enqueue (item : RetryItem)
  | lease (now : Time) (leases : List Lease)
  | complete (retryId : String)
  | reschedule (retryId : String) (nextRetryAt : Time) (attempt : Nat) (lastError : Option String)

def RowCall.apply (table : RetryTable) : RowCall → RetryTable
  | .enqueue item => table.insert item
  | .lease _ leases => leases.foldl Lease.apply table
  | .complete retryId => table.delete retryId
  | .reschedule retryId nextRetryAt attempt lastError =>
    table.modify retryId fun item => { item with nextRetryAt, attempt, lastError }

/-- The call of a statement. -/
def Entry.call? : Entry → Option RowCall
  | ⟨_, .insert item, .ok _, _⟩ => some (.enqueue item)
  | ⟨i, .commit, .ok _, db⟩ => (db.txns.get? i).map fun t => .lease t.begun t.writes
  | ⟨_, .delete retryId, .ok _, _⟩ => some (.complete retryId)
  | ⟨_, .update retryId nextRetryAt attempt lastError, .ok _, _⟩ =>
    some (.reschedule retryId nextRetryAt attempt lastError)
  | _ => none

/-- The history explains the committed table. -/
def linearization : Linearization sem RowCall RetryTable where
  call? := Entry.call?
  apply := RowCall.apply
  view db := db.committed
  start := {}

/-- The table after the calls. -/
def tableAfter (calls : List RowCall) : RetryTable := calls.foldl RowCall.apply {}

/-- The calls that the statements stand for. -/
def calls (trace : List Entry) : List RowCall := trace.filterMap Entry.call?

/-! ## Leases -/

/-- What guards a lease. -/
def guards (lease : Lease) : List String := [lease.retryId]

/-- A lease leaves the other rows alone. -/
theorem unguarded (id : String) (table : RetryTable) (lease : Lease) (h : id ∉ guards lease) :
    (Lease.apply table lease).rows.get? id = table.rows.get? id := by
  rw [Lease.apply, RetryTable.get?_modify, if_neg (by simpa [guards] using h)]

theorem keyed_leases {table : RetryTable} (h : table.Keyed) (leases : List Lease) :
    (leases.foldl Lease.apply table).Keyed := by
  induction leases generalizing table with
  | nil => exact h
  | cons lease rest ih => exact ih (h.modify _ fun _ => rfl)

/-! ## The invariant -/

/-- The server is in order: no row is locked twice, a claim writes to rows that it has locked, and a locked row
    is there and due for its claim. -/
structure Tidy (db : Database) : Prop where
  keyed : db.committed.Keyed
  exclusive : Exclusive db
  covered : Covered guards db
  once : ∀ i t, db.txns.get? i = some t → t.locks.Nodup
  held : ∀ i t, db.txns.get? i = some t → ∀ id ∈ t.locks,
    ∃ row, db.committed.rows.get? id = some row ∧ row.item.nextRetryAt ≤ t.begun

/-- What is known of a claim that commits. -/
structure Claims (s : Snapshot) (i : Nat) (db : Database) (t : Txn Time String Lease) : Prop where
  txn : db.txns.get? i = some t
  tidy : Tidy db
  asked : ∃ limit due, s.received i (.scanDue t.begun limit) (.ok due)
  answered : ∃ deadline items, s.received i (.updateLocked t.locks deadline) (.ok items) ∧
    items.Perm (Database.leased db t.locks deadline) ∧ t.writes = t.locks.map fun id => ⟨id, deadline⟩

/-- What is known of an executed statement. A row that a claim passes over is not one of its own. -/
def Known (s : Snapshot) : Entry → Prop
  | ⟨i, .commit, .ok _, db⟩ => ∃ t, Claims s i db t
  | ⟨i, .lockRow row, .ok false, db⟩ => ∃ t limit due, db.txns.get? i = some t ∧ row.item.retryId ∉ t.locks ∧
    s.received i (.scanDue t.begun limit) (.ok due)
  | _ => True

/-- What always holds. -/
structure Inv (s : Snapshot) : Prop where
  tidy : Tidy s.state
  explained : linearization.Explains s
  known : ∀ e ∈ s.trace, Known s e

/-- What session `k` relies on. -/
structure Leaves (k : Nat) (s s' : Snapshot) : Prop where
  own : s'.state.txns.get? k = s.state.txns.get? k ∨ s'.state.txns.get? k = none
  rows : ∀ t id, s'.state.txns.get? k = some t → id ∈ t.locks →
    s'.state.committed.rows.get? id = s.state.committed.rows.get? id
  trace : ∀ e ∈ s.trace, e ∈ s'.trace

theorem Leaves.refl (k : Nat) (s : Snapshot) : Leaves k s s where
  own := .inl rfl
  rows := fun _ _ _ _ => rfl
  trace := fun _ h => h

/-- An open transaction was open before, and the same. -/
theorem Leaves.open_before {k : Nat} {s s' : Snapshot} (hx : Leaves k s s') {t : Txn Time String Lease}
    (ht : s'.state.txns.get? k = some t) : s.state.txns.get? k = some t := by
  rcases hx.own with heq | hnone
  · rw [← heq]
    exact ht
  · rw [hnone] at ht
    cases ht

theorem Leaves.trans {k : Nat} {a b c : Snapshot} (h : Leaves k a b) (h' : Leaves k b c) : Leaves k a c where
  own := by
    rcases h'.own with heq | hnone
    · rw [heq]
      exact h.own
    · exact .inr hnone
  rows := fun t id ht hid => (h'.rows t id ht hid).trans (h.rows t id (h'.open_before ht) hid)
  trace := fun e he => h'.trace e (h.trace e he)

theorem Leaves.received {k i : Nat} {s s' : Snapshot} (hx : Leaves k s s') {o : Statement} {r : Except PyError o.Ans}
    (h : s.received i o r) : s'.received i o r := by
  obtain ⟨before, hmem⟩ := h
  exact ⟨before, hx.trace _ hmem⟩

/-- The promises of the sessions. -/
def contract : Contract sem.traced where
  inv := Inv
  rely _ k s s' := Leaves k s s'
  guar _ i s s' := ∀ k, k ≠ i → Leaves k s s'
  adm _ _ _ _ _ := True
  pre _ _ := True
  peer _ _ := True

/-! ## The server -/

theorem notMem_of_locked {db : Database} {id : String} (h : Database.locked db id = false) {k : Nat}
    {t : Txn Time String Lease} (ht : db.txns.get? k = some t) : id ∉ t.locks := by
  have hentry := List.any_eq_false.mp h (k, t) (Dict.mem_entries_iff.mpr ht)
  simpa using hentry

theorem busy_of_locked {db : Database} {id : String} (h : Database.locked db id = false) (i : Nat) :
    db.busy i [id] = false := by
  rw [Server.busy, List.any_eq_false]
  intro e he
  have hentry := List.any_eq_false.mp h e he
  simp only [decide_eq_true_eq] at hentry
  simp only [List.mem_singleton, Bool.and_eq_true, decide_eq_true_eq, List.any_eq_true, not_and, not_exists]
  rintro - id' hid' rfl
  exact hentry hid'

namespace Tidy

variable {db : Database} {i : Nat}

theorem initial {table : RetryTable} (h : table.Keyed) : Tidy { committed := table } where
  keyed := h
  exclusive := .empty table
  covered := .empty table
  once := fun _ _ h => by cases h
  held := fun _ _ h => by cases h

theorem rollback (h : Tidy db) : Tidy (db.rollback i) where
  keyed := h.keyed
  exclusive := h.exclusive.rollback
  covered := h.covered.rollback
  once := by
    intro k t ht
    rw [Server.txns_rollback] at ht
    split at ht
    · cases ht
    · exact h.once k t ht
  held := by
    intro k t ht
    rw [Server.txns_rollback] at ht
    split at ht
    · cases ht
    · exact h.held k t ht

theorem openTxn (h : Tidy db) (now : Time) : Tidy (db.openTxn i now) where
  keyed := h.keyed
  exclusive := h.exclusive.openTxn now
  covered := h.covered.openTxn now
  once := by
    intro k t ht
    rw [Server.txns_openTxn] at ht
    split at ht
    · cases ht
      exact List.nodup_nil
    · exact h.once k t ht
  held := by
    intro k t ht id hid
    rw [Server.txns_openTxn] at ht
    split at ht
    · cases ht
      cases hid
    · exact h.held k t ht id hid

/-- A claim locks a row that is due. -/
theorem hold (h : Tidy db) {t : Txn Time String Lease} (ht : db.txns.get? i = some t) {id : String} {row : RetryRow}
    (hfree : Database.locked db id = false) (hrow : db.committed.rows.get? id = some row)
    (hdue : row.item.nextRetryAt ≤ t.begun) : Tidy (db.hold i [id]) where
  keyed := by
    rw [Server.hold, Server.committed_amend]
    exact h.keyed
  exclusive := h.exclusive.hold (busy_of_locked hfree i)
  covered := h.covered.hold [id]
  once := by
    intro k u hu
    rw [Server.hold, Server.txns_amend] at hu
    split at hu
    · obtain ⟨u₀, hu₀, rfl⟩ := Option.map_eq_some_iff.mp hu
      exact List.nodup_append.mpr ⟨h.once i u₀ hu₀, List.nodup_singleton id, fun a ha b hb => by
        rw [List.mem_singleton.mp hb]
        exact fun heq => notMem_of_locked hfree hu₀ (heq ▸ ha)⟩
    · exact h.once k u hu
  held := by
    intro k u hu id' hid'
    rw [Server.hold, Server.committed_amend]
    rw [Server.hold, Server.txns_amend] at hu
    split at hu
    · rw [ht, Option.map_some] at hu
      cases hu
      rcases List.mem_append.mp hid' with hold | hnew
      · exact h.held i t ht id' hold
      · rw [List.mem_singleton.mp hnew]
        exact ⟨row, hrow, hdue⟩
    · exact h.held k u hu id' hid'

/-- A claim writes to the rows that it has locked. -/
theorem write (h : Tidy db) {leases : List Lease}
    (hleases : ∀ t, db.txns.get? i = some t → ∀ lease ∈ leases, lease.retryId ∈ t.locks) :
    Tidy (db.amend i fun t => { t with writes := t.writes ++ leases }) where
  keyed := by
    rw [Server.committed_amend]
    exact h.keyed
  exclusive := h.exclusive.grow [] (fun _ _ hk => .inl hk) fun _ _ _ _ _ hk => by cases hk
  covered := by
    intro k u hu lease hlease id hid
    rw [Server.txns_amend] at hu
    split at hu
    · obtain ⟨u₀, hu₀, rfl⟩ := Option.map_eq_some_iff.mp hu
      rcases List.mem_append.mp hlease with hold | hnew
      · exact h.covered i u₀ hu₀ lease hold id hid
      · rw [List.mem_singleton.mp hid]
        exact hleases u₀ hu₀ lease hnew
    · exact h.covered k u hu lease hlease id hid
  once := by
    intro k u hu
    rw [Server.txns_amend] at hu
    split at hu
    · obtain ⟨u₀, hu₀, rfl⟩ := Option.map_eq_some_iff.mp hu
      exact h.once i u₀ hu₀
    · exact h.once k u hu
  held := by
    intro k u hu id hid
    rw [Server.committed_amend]
    rw [Server.txns_amend] at hu
    split at hu
    · obtain ⟨u₀, hu₀, rfl⟩ := Option.map_eq_some_iff.mp hu
      exact h.held i u₀ hu₀ id hid
    · exact h.held k u hu id hid

/-- Another table in which the locked rows are as they were. -/
theorem set (h : Tidy db) {table : RetryTable} (hkeyed : table.Keyed)
    (hrows : ∀ k t, db.txns.get? k = some t → ∀ id ∈ t.locks, table.rows.get? id = db.committed.rows.get? id) :
    Tidy (Database.set db table) where
  keyed := hkeyed
  exclusive := h.exclusive
  covered := h.covered
  once := h.once
  held := by
    intro k t ht id hid
    obtain ⟨row, hrow, hdue⟩ := h.held k t ht id hid
    exact ⟨row, (hrows k t ht id hid).trans hrow, hdue⟩

/-- The commit of a claim leaves the other claims their rows. -/
theorem commit_rows (h : Tidy db) {k : Nat} (hne : k ≠ i) {t : Txn Time String Lease} (ht : db.txns.get? k = some t)
    {id : String} (hid : id ∈ t.locks) :
    (db.commit Lease.apply i).committed.rows.get? id = db.committed.rows.get? id :=
  h.covered.part (π := fun table : RetryTable => table.rows.get? id) h.exclusive (unguarded id) (Ne.symm hne) ht hid

theorem commit (h : Tidy db) {t : Txn Time String Lease} (ht : db.txns.get? i = some t) :
    Tidy (db.commit Lease.apply i) where
  keyed := by
    rw [Server.commit_eq Lease.apply ht]
    exact keyed_leases h.keyed t.writes
  exclusive := h.exclusive.commit Lease.apply
  covered := h.covered.commit Lease.apply
  once := by
    intro k u hu
    rw [Server.txns_commit] at hu
    split at hu
    · cases hu
    · exact h.once k u hu
  held := by
    intro k u hu id hid
    rw [Server.txns_commit] at hu
    split at hu
    · cases hu
    · rename_i hne
      obtain ⟨row, hrow, hdue⟩ := h.held k u hu id hid
      exact ⟨row, (h.commit_rows hne hu hid).trans hrow, hdue⟩

end Tidy

/-! ## Steps -/

section Steps

variable {s : Snapshot} {i : Nat} {o : Statement} {r : Except PyError o.Ans} {db : Database}

/-- The snapshot after a statement. -/
abbrev next (s : Snapshot) (i : Nat) (o : Statement) (r : Except PyError o.Ans) (db : Database) : Snapshot :=
  ⟨db, s.trace ++ [⟨i, o, r, s.state⟩]⟩

theorem received_next (s : Snapshot) (db : Database) : (next s i o r db).received i o r :=
  ⟨s.state, by simp⟩

theorem leaves_trace {k : Nat} (htxns : db.txns.get? k = s.state.txns.get? k)
    (hrows : ∀ t id, s.state.txns.get? k = some t → id ∈ t.locks →
      db.committed.rows.get? id = s.state.committed.rows.get? id) : Leaves k s (next s i o r db) where
  own := .inl htxns
  rows := fun t id ht hid => hrows t id (htxns ▸ ht) hid
  trace := fun _ he => List.mem_append_left _ he

/-- What is known of a claim stays known. -/
theorem Claims.mono {s' : Snapshot} (htrace : ∀ e ∈ s.trace, e ∈ s'.trace) {t : Txn Time String Lease} (h : Claims s i db t) :
    Claims s' i db t where
  txn := h.txn
  tidy := h.tidy
  asked := by
    obtain ⟨limit, due, before, hmem⟩ := h.asked
    exact ⟨limit, due, before, htrace _ hmem⟩
  answered := by
    obtain ⟨deadline, items, ⟨before, hmem⟩, hrest⟩ := h.answered
    exact ⟨deadline, items, ⟨before, htrace _ hmem⟩, hrest⟩

theorem Known.mono {s' : Snapshot} (htrace : ∀ e ∈ s.trace, e ∈ s'.trace) {e : Entry} (h : Known s e) : Known s' e := by
  unfold Known at h ⊢
  split at h
  · obtain ⟨t, hclaims⟩ := h
    exact ⟨t, hclaims.mono htrace⟩
  · obtain ⟨t, limit, due, htxn, hnew, before, hmem⟩ := h
    exact ⟨t, limit, due, htxn, hnew, before, htrace _ hmem⟩
  · trivial

/-- Nothing need be known of a statement that failed. -/
theorem known_error {e : PyError} : Known s ⟨i, o, .error e, db⟩ := by
  cases o <;> trivial

/-- A statement that leaves the server in order and does to the table what its call does. -/
theorem Inv.next (hs : Inv s) (htidy : Tidy db)
    (hcall : db.committed = (Entry.call? ⟨i, o, r, s.state⟩).toList.foldl RowCall.apply s.state.committed)
    (hknown : Known s ⟨i, o, r, s.state⟩) : Inv (next s i o r db) where
  tidy := htidy
  explained := hs.explained.next hcall
  known := by
    have htrace : ∀ e ∈ s.trace, e ∈ (QueueSession.next s i o r db).trace := fun e he => List.mem_append_left _ he
    intro e he
    rcases List.mem_append.mp he with hold | hnew
    · exact (hs.known e hold).mono htrace
    · rw [List.mem_singleton.mp hnew]
      exact hknown.mono htrace

/-- A step of session `i` keeps the promises. -/
abbrev Moves (s : Snapshot) (i : Nat) (o : Statement) (r : Except PyError o.Ans) (db : Database) : Prop :=
  Inv (next s i o r db) ∧ ∀ k, k ≠ i → Leaves k s (next s i o r db)

theorem call?_error {e : PyError} {i : Nat} {o : Statement} {db : Database} :
    Entry.call? ⟨i, o, .error e, db⟩ = none := by
  cases o <;> rfl

/-- A statement that does not change the table. -/
theorem Moves.quiet (hs : Inv s) (htidy : Tidy db) (htable : db.committed = s.state.committed)
    (htxns : ∀ k, k ≠ i → db.txns.get? k = s.state.txns.get? k) (hcall : Entry.call? ⟨i, o, r, s.state⟩ = none)
    (hknown : Known s ⟨i, o, r, s.state⟩) : Moves s i o r db := by
  refine ⟨hs.next htidy ?_ hknown, fun k hk => leaves_trace (htxns k hk) fun t id _ _ => ?_⟩
  · rw [htable, hcall]
    rfl
  · rw [htable]

/-- The connection is lost, and with it the transaction. -/
theorem Moves.lost (hs : Inv s) {e : PyError} : Moves s i o (.error e) (s.state.rollback i) :=
  .quiet hs hs.tidy.rollback rfl (fun _ hk => (Server.txns_rollback _).trans (if_neg hk)) call?_error known_error

/-- A statement that is refused. -/
theorem Moves.refused (hs : Inv s) {e : PyError} : Moves s i o (.error e) s.state :=
  .quiet hs hs.tidy rfl (fun _ _ => rfl) call?_error known_error

/-- A statement on one row that no claim has locked. -/
theorem Moves.row (hs : Inv s) {table : RetryTable} {call : RowCall} (hcall : Entry.call? ⟨i, o, r, s.state⟩ = some call)
    (hknown : Known s ⟨i, o, r, s.state⟩) (htable : call.apply s.state.committed = table) (hkeyed : table.Keyed)
    (hrows : ∀ k t, s.state.txns.get? k = some t → ∀ id ∈ t.locks,
      table.rows.get? id = s.state.committed.rows.get? id) : Moves s i o r (Database.set s.state table) := by
  refine ⟨hs.next (hs.tidy.set hkeyed hrows) ?_ hknown, fun k _ => leaves_trace rfl fun t id ht hid => hrows k t ht id hid⟩
  rw [hcall]
  exact htable.symm

end Steps

end QueueSession

end A2AEvents

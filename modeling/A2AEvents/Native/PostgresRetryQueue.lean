import A2AEvents.ForStd.Machine
import A2AEvents.ForStd.Transactions
import A2AEvents.Native.PostgresEventStore

/-!
# Postgres retry queue

`runtime/postgres/retry_queue.py`. Every method is one statement on the table `a2a_retry_queue`, in a
transaction of its own. Most statements touch one row at once. A claim does not: it scans the due rows,
locks them one by one, passing over those that another claim has locked (`FOR UPDATE SKIP LOCKED`), and
writes their new due times at the end. While it does so, other sessions execute theirs.

A statement that has been executed is answered; the connection may fail before either.
-/

namespace A2AEvents

/-- A row of `a2a_retry_queue`. What is deleted and inserted again is another tuple. -/
structure RetryRow where
  item : RetryItem
  tuple : Nat
  deriving DecidableEq

/-- `a2a_retry_queue`, by `retry_id`. -/
structure RetryTable where
  rows : Dict String RetryRow := ∅
  tuples : Nat := 0

namespace RetryTable

/-- `INSERT ... ON CONFLICT (retry_id) DO NOTHING`. -/
def insert (table : RetryTable) (item : RetryItem) : RetryTable :=
  match table.rows.get? item.retryId with
  | some _ => table
  | none =>
    { rows := table.rows.set item.retryId ⟨item, table.tuples⟩, tuples := table.tuples + 1 }

/-- Change the item of a row. -/
def modify (table : RetryTable) (retryId : String) (f : RetryItem → RetryItem) : RetryTable :=
  match table.rows.get? retryId with
  | none => table
  | some row => { table with rows := table.rows.set retryId { row with item := f row.item } }

def delete (table : RetryTable) (retryId : String) : RetryTable :=
  { table with rows := table.rows.erase retryId }

/-- The rows that are due. -/
def due (table : RetryTable) (now : Time) : List RetryRow :=
  table.rows.values.filter fun row => row.item.nextRetryAt ≤ now

end RetryTable

namespace QueueSession

open Async Transactions

/-- What a claim writes: the row is due again at the deadline. -/
structure Lease where
  retryId : String
  deadline : Time
  deriving DecidableEq

def Lease.apply (table : RetryTable) (lease : Lease) : RetryTable :=
  table.modify lease.retryId fun item => { item with nextRetryAt := lease.deadline }

/-- The server. A claim notes its time when it begins, and it locks rows. -/
abbrev Database := Server RetryTable Time String Lease

inductive Job where
  | enqueue (item : RetryItem)
  | claimDue (now : Time) (limit leaseSeconds : Int)
  | complete (retryId : String)
  | reschedule (retryId : String) (nextRetryAt : Time) (attempt : Nat) (lastError : Option String)
  | pending

inductive Val where
  | unit
  | items (items : List RetryItem)

/-- The statements, and the steps of a claim. `acknowledged` is the arrival of the answer. -/
inductive Statement where
  | insert (item : RetryItem)
  | scanDue (now : Time) (limit : Int)
  | lockRow (row : RetryRow)
  | updateLocked (retryIds : List String) (deadline : Time)
  | commit
  | acknowledged
  | delete (retryId : String)
  | update (retryId : String) (nextRetryAt : Time) (attempt : Nat) (lastError : Option String)
  | selectPending

/-- What they answer. -/
@[reducible] def Statement.Ans : Statement → Type
  | .scanDue .. => List RetryRow
  | .lockRow _ => Bool
  | .updateLocked .. | .selectPending => List RetryItem
  | _ => Unit

abbrev sql : Sig where
  Op := Statement
  Res o := Except PyError o.Ans
  Job := Job
  Val := Val
  Err := PyError

/-- What the server does not determine: whether the connection fails, the order of rows with equal due times,
    and the order of `RETURNING`. -/
structure Choice where
  fails : Bool := false
  order : List RetryRow := []
  returning : List RetryItem := []

/-- The server gives up the transaction of a session. -/
inductive Env where
  | terminate (i : Nat)

def connectionLost : PyError := .other "OperationalError"

/-- `ORDER BY next_retry_at`: an arrangement of the rows in that order. -/
def isOrdering (order rows : List RetryRow) : Bool :=
  order.isPerm rows && decide (order.Pairwise fun a b => a.item.nextRetryAt ≤ b.item.nextRetryAt)

namespace Database

/-- A claim has locked the row. -/
def locked (db : Database) (retryId : String) : Bool :=
  db.txns.entries.any fun e => decide (retryId ∈ e.2.locks)

/-- A statement of session `i`, unless the connection fails. -/
def reach {α : Type} (i : Nat) (c : Choice) (db : Database) (execute : Except PyError α × Database) :
    Option (Except PyError α × Database) :=
  if c.fails then some (.error connectionLost, db.rollback i) else some execute

/-- The same for a statement that waits for a row. -/
def await {α : Type} (i : Nat) (c : Choice) (db : Database) (retryId : String)
    (execute : Except PyError α × Database) : Option (Except PyError α × Database) :=
  if !c.fails && Database.locked db retryId then none else Database.reach i c db execute

/-- Change the table. -/
def set (db : Database) (table : RetryTable) : Database := { db with committed := table }

/-- `LIMIT`. -/
def checkLimit (limit : Int) : Except PyError Unit :=
  if limit < 0 then .error (.other "InvalidRowCountInLimitClause")
  else if limit > PostgresEventStore.maxBigint then .error PostgresEventStore.outOfRange
  else .ok ()

/-- The row of a claim is locked unless another claim has it, it is gone or it is not due any more. -/
def lockRow (i : Nat) (db : Database) (t : Txn Time String Lease) (row : RetryRow) : Bool × Database :=
  if Database.locked db row.item.retryId then (false, db)
  else
    match db.committed.rows.get? row.item.retryId with
    | none => (false, db)
    | some current =>
      if current.tuple = row.tuple ∧ current.item.nextRetryAt ≤ t.begun then (true, db.hold i [row.item.retryId])
      else (false, db)

/-- The locked rows with their new due time. -/
def leased (db : Database) (retryIds : List String) (deadline : Time) : List RetryItem :=
  (retryIds.filterMap fun id => db.committed.rows.get? id).map fun row => { row.item with nextRetryAt := deadline }

/-- Execute a statement of session `i`. -/
def exec (i : Nat) (o : Statement) (c : Choice) (db : Database) : Option (Except PyError o.Ans × Database) :=
  match o with
  | .insert item =>
    Database.reach i c db
      (if item.attempt > PostgresEventStore.maxInteger then (.error PostgresEventStore.outOfRange, db)
        else (.ok (), Database.set db (db.committed.insert item)))
  | .scanDue now limit =>
    match checkLimit limit with
    | .error e => Database.reach i c db (.error e, db)
    | .ok _ =>
      if isOrdering c.order (db.committed.due now) then Database.reach i c db (.ok c.order, db.openTxn i now) else none
  | .lockRow row =>
    match db.txns.get? i with
    | none => some (.error connectionLost, db)
    | some t => Database.reach i c db (.ok (Database.lockRow i db t row).1, (Database.lockRow i db t row).2)
  | .updateLocked retryIds deadline =>
    match db.txns.get? i with
    | none => some (.error connectionLost, db)
    | some _ =>
      if c.returning.isPerm (Database.leased db retryIds deadline) then
        Database.reach i c db (.ok c.returning,
          db.amend i fun t => { t with writes := t.writes ++ retryIds.map fun id => ⟨id, deadline⟩ })
      else none
  | .commit =>
    match db.txns.get? i with
    | none => some (.error connectionLost, db)
    | some _ => Database.reach i c db (.ok (), db.commit Lease.apply i)
  | .acknowledged => Database.reach i c db (.ok (), db)
  | .delete retryId => Database.await i c db retryId (.ok (), Database.set db (db.committed.delete retryId))
  | .update retryId nextRetryAt attempt lastError =>
    Database.await i c db retryId
      (if attempt > PostgresEventStore.maxInteger then (.error PostgresEventStore.outOfRange, db)
        else (.ok (), Database.set db
          (db.committed.modify retryId fun item => { item with nextRetryAt, attempt, lastError })))
  | .selectPending =>
    if isOrdering c.order db.committed.rows.values then
      Database.reach i c db (.ok (c.order.map RetryRow.item), db)
    else none

def env (e : Env) (db : Database) : Option Database :=
  match e with
  | .terminate i => some (db.rollback i)

/-- The clients are gone: the server gives up all transactions. -/
def restart (db : Database) : Database := { db with txns := ∅ }

end Database

/-! ## The methods -/

/-- Programs over statements. -/
abbrev M (α : Type) := Prog sql α

/-- Execute a statement, raising its error. -/
def execute (o : Statement) : M o.Ans := Prog.call (S := sql) o >>= fun r => (Prog.lift r : M o.Ans)

/-- Execute a statement and wait for the answer. -/
def answered (o : Statement) : M o.Ans := do
  let a ← execute o
  execute .acknowledged
  return a

def enqueue (item : RetryItem) : M Unit := answered (.insert item)

/-- Lock at most `n` of the rows. -/
def lockRows : Nat → List RetryRow → M (List String)
  | 0, _ => return []
  | _ + 1, [] => return []
  | n + 1, row :: rest => do
    if ← execute (.lockRow row) then
      let others ← lockRows n rest
      return row.item.retryId :: others
    else lockRows (n + 1) rest

def claimDue (now : Time) (limit leaseSeconds : Int) : M (List RetryItem) := do
  let due ← execute (.scanDue now limit)
  let retryIds ← lockRows limit.toNat due
  let items ← execute (.updateLocked retryIds (now + seconds leaseSeconds))
  execute .commit
  execute .acknowledged
  return items

def complete (retryId : String) : M Unit := answered (.delete retryId)

def reschedule (retryId : String) (nextRetryAt : Time) (attempt : Nat) (lastError : Option String) : M Unit :=
  answered (.update retryId nextRetryAt attempt lastError)

def pending : M (List RetryItem) := answered .selectPending

def code : Job → M Val
  | .enqueue item => do
    enqueue item
    return .unit
  | .claimDue now limit leaseSeconds => do
    let items ← claimDue now limit leaseSeconds
    return .items items
  | .complete retryId => do
    complete retryId
    return .unit
  | .reschedule retryId nextRetryAt attempt lastError => do
    reschedule retryId nextRetryAt attempt lastError
    return .unit
  | .pending => do
    let items ← pending
    return .items items

/-- The semantics of the statements: another session may come in before each step. -/
@[reducible] def sem : Sem sql where
  State := Database
  Choice := Choice
  Env := Env
  isLocal _ := false
  exec i o c db := Database.exec i o c db
  env := Database.env
  restart := Database.restart
  code := code
  exec_local h := by cases h

end QueueSession

end A2AEvents

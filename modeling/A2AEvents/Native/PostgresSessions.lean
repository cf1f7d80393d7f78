import A2AEvents.ForStd.Machine
import A2AEvents.ForStd.Transactions
import A2AEvents.Native.PostgresEventStore

/-!
# Sessions of the Postgres event store

`runtime/postgres/event_store.py`, statement by statement. The methods of the store are programs
over the statements that they execute. Many of them run at once, each on a connection of its own
(`runtime/postgres/pool.py`), in one process or in several: between two statements of the one, the
others execute theirs. A statement outside a transaction has a connection of its own, too, and sees what
is committed when it is executed.

The connection may fail at every statement. The server then rolls back what the session has open.
-/

namespace A2AEvents

namespace EventSession

open Async Transactions

/-- What sessions wait for: the advisory locks, the entries of the unique indexes and the rows of the topics. -/
inductive Lock where
  | advisory (key : Int)
  | eventId (eventId : String)
  | cursor (cursor : String)
  | topicRow (topic : String)
  deriving DecidableEq

/-- What a transaction writes. -/
inductive Write where
  | event (record : EventRecord)
  | nextOffset (topic : String) (offset : Nat)

def Write.apply (store : PostgresEventStore) : Write → PostgresEventStore
  | .event record => { store with events := store.events ++ [record] }
  | .nextOffset topic offset =>
    match store.topics.get? topic with
    | none => store
    | some row => { store with topics := store.topics.set topic { row with nextOffset := offset } }

/-- The server, with its clock. A transaction notes the time at which it began. -/
structure Database where
  server : Server PostgresEventStore Time Lock Write
  clock : Time := 0

/-- The methods of the store. -/
inductive Job where
  | declareTopic (topic : Topic)
  | append (topic eventType source : String) (data : List (String × Json)) (subject : Option String)
  | compact (topic : Option String)
  | read (topic : String) (fromCursor toCursor : Option String) (limit : Int)

/-- What they return. -/
inductive Val where
  | unit
  | record (record : EventRecord)
  | count (n : Nat)
  | page (records : List EventRecord) (next : Option String)

/-- The statements. `newEventId` draws a uuid, `acknowledged` is the arrival of the reply to `COMMIT`. -/
inductive Statement where
  | selectConfig (name : String)
  | selectConfigs
  | insertTopic (topic : Topic)
  | newEventId
  | openTransaction
  | advisoryLock (topic : String)
  | selectNextOffset (topic : String)
  | countEvents (topic : String)
  | insertEvent (eventId topic cursor : String) (subject : Option String) (eventType source : String)
      (payload : List (String × Json))
  | updateNextOffset (offset : Nat) (topic : String)
  | commit
  | acknowledged
  | rollback
  | deleteAged (name : String) (retention : Int)
  | selectOldest (topic : String) (retention : Int)
  | selectEvents (topic : String) (lower upper : Option String) (retention limit : Int)

/-- What they select. -/
@[reducible] def Statement.Ans : Statement → Type
  | .selectConfig _ => Option Topic
  | .selectConfigs => List Topic
  | .newEventId => String
  | .selectNextOffset _ => Option Nat
  | .countEvents _ => Nat
  | .insertEvent .. => Time
  | .deleteAged .. => Nat
  | .selectOldest .. => Option String
  | .selectEvents .. => List EventRecord
  | _ => Unit

abbrev sql : Sig where
  Op := Statement
  Res o := Except PyError o.Ans
  Job := Job
  Val := Val
  Err := PyError

/-- What the server does not determine: the uuids, and whether the connection fails. -/
structure Choice where
  eventId : String := ""
  fails : Bool := false

/-- What happens beside the sessions: time passes, and the server gives up the transaction of a session
    whose client is gone. -/
inductive Env where
  | tick (d : Nat)
  | terminate (i : Nat)

def connectionLost : PyError := .other "OperationalError"

namespace Database

/-- A statement of session `i`, unless the connection fails. -/
def reach {α : Type} (i : Nat) (c : Choice) (db : Database) (execute : Except PyError α × Database) :
    Option (Except PyError α × Database) :=
  if c.fails then some (.error connectionLost, { db with server := db.server.rollback i })
  else some execute

/-- The same for a statement that waits for locks. -/
def await {α : Type} (i : Nat) (c : Choice) (db : Database) (locks : List Lock)
    (execute : Except PyError α × Database) : Option (Except PyError α × Database) :=
  if !c.fails && db.server.busy i locks then none else db.reach i c execute

/-- A statement in a transaction, which the server may have given up. -/
def within {α : Type} (i : Nat) (db : Database)
    (execute : Txn Time Lock Write → Except PyError α × Database) : Except PyError α × Database :=
  match db.server.txns.get? i with
  | none => (.error connectionLost, db)
  | some t => execute t

/-- The tables as session `i` sees them in its transaction. -/
def view (db : Database) (i : Nat) : PostgresEventStore := db.server.view Write.apply i

/-- Whether a row is inside a retention window; a window of no length keeps everything. -/
def keeps (now : Time) (retention : Int) (r : EventRecord) : Bool :=
  retention ≤ 0 || r.createdAt ≥ now - seconds retention

/-- `created_at < now() - make_interval(secs => %s)` of the rows of one topic. -/
def isAged (now : Time) (name : String) (retention : Int) (r : EventRecord) : Bool :=
  r.topic = name && r.createdAt < now - seconds retention

/-- The rows of a topic that are inside its retention window, ordered by cursor. -/
def selectLive (db : Database) (topic : String) (retention : Int) : List EventRecord :=
  ((db.server.committed.rows topic).filter (keeps db.clock retention)).insertionSort PostgresEventStore.cursorLe

/-- `INSERT INTO a2a_events`. The row waits in the transaction; the unique indexes and the foreign key are
    checked against everything that is committed. -/
def insertEvent (i : Nat) (db : Database) (record : Time → EventRecord) : Except PyError Time × Database :=
  db.within i fun t =>
    let row := record t.begun
    let held := db.server.hold i [.eventId row.eventId, .cursor row.cursor]
    match (db.view i).insertEvent row with
    | .error e => (.error e, { db with server := held })
    | .ok _ =>
      match (db.view i).topics.get? row.topic with
      | none => (.error (.other "ForeignKeyViolation"), { db with server := held })
      | some _ => (.ok t.begun, { db with server := held.write i (.event row) })

/-- `UPDATE a2a_event_topics SET next_offset`. -/
def updateNextOffset (i : Nat) (db : Database) (offset : Nat) (topic : String) : Except PyError Unit × Database :=
  db.within i fun _ =>
    if offset > PostgresEventStore.maxBigint then (.error PostgresEventStore.outOfRange, db)
    else
      (.ok (), { db with
        server := (db.server.hold i [.topicRow topic]).write i (.nextOffset topic offset) })

/-- Change what is committed, in a transaction of its own. -/
def set (db : Database) (tables : PostgresEventStore) : Database :=
  { db with server := { db.server with committed := tables } }

/-- Execute a statement of session `i`. `hashtext` maps topics to the keys of their locks. -/
def exec (hashtext : String → Int) (i : Nat) (o : Statement) (c : Choice) (db : Database) :
    Option (Except PyError o.Ans × Database) :=
  match o with
  | .selectConfig name =>
    db.reach i c (.ok ((db.server.committed.topics.get? name).map TopicRow.config), db)
  | .selectConfigs => db.reach i c (.ok (db.server.committed.topics.values.map TopicRow.config), db)
  | .insertTopic topic =>
    let r := db.server.committed.declareTopic topic
    db.reach i c (r.1, db.set r.2)
  | .newEventId => some (.ok c.eventId, db)
  | .openTransaction => db.reach i c (.ok (), { db with server := db.server.openTxn i db.clock })
  | .advisoryLock topic =>
    db.await i c [.advisory (hashtext topic)]
      (db.within i fun _ => (.ok (), { db with server := db.server.hold i [.advisory (hashtext topic)] }))
  | .selectNextOffset topic =>
    db.reach i c (db.within i fun _ => (.ok (((db.view i).topics.get? topic).map TopicRow.nextOffset), db))
  | .countEvents topic => db.reach i c (db.within i fun _ => (.ok ((db.view i).rows topic).length, db))
  | .insertEvent eventId topic cursor subject eventType source payload =>
    db.await i c [.eventId eventId, .cursor cursor]
      (db.insertEvent i fun now =>
        { eventId, topic, cursor, eventType, source, data := payload, subject, createdAt := now })
  | .updateNextOffset offset topic =>
    db.await i c [.topicRow topic] (db.updateNextOffset i offset topic)
  | .commit =>
    db.reach i c (db.within i fun _ => (.ok (), { db with server := db.server.commit Write.apply i }))
  | .acknowledged => db.reach i c (.ok (), db)
  | .rollback => some (.ok (), { db with server := db.server.rollback i })
  | .deleteAged name retention =>
    let tables := db.server.committed
    let aged := isAged db.clock name retention
    db.reach i c (.ok (tables.events.countP aged),
      db.set { tables with events := tables.events.filter fun r => !aged r })
  | .selectOldest topic retention =>
    db.reach i c (.ok ((db.selectLive topic retention).head?.map EventRecord.cursor), db)
  | .selectEvents topic lower upper retention limit =>
    db.reach i c
      (if limit < 0 ∨ limit > PostgresEventStore.maxBigint then .error PostgresEventStore.outOfRange
        else .ok (((db.selectLive topic retention).filter (PostgresEventStore.inBounds lower upper)).take limit.toNat),
        db)

def env (e : Env) (db : Database) : Option Database :=
  match e with
  | .tick d => some { db with clock := db.clock + d }
  | .terminate i => some { db with server := db.server.rollback i }

/-- The clients are gone: the server gives up all transactions. -/
def restart (db : Database) : Database := { db with server := { db.server with txns := ∅ } }

end Database

/-! ## The methods -/

/-- Programs over statements. -/
abbrev M (α : Type) := Prog sql α

def raising {α : Type} (x : Except PyError α) : M α := Prog.lift x

/-- Execute a statement, raising its error. -/
def execute (o : Statement) : M o.Ans := Prog.call (S := sql) o >>= fun r => raising r

/-- `with transaction()`: commit if the block returns, roll back if it raises. -/
def transaction {α : Type} (block : M α) : M α := do
  execute .openTransaction
  match ← block.attempt with
  | .ok a =>
    execute .commit
    execute .acknowledged
    return a
  | .error e =>
    execute .rollback
    raising (.error e)

def declareTopic (topic : Topic) : M Unit := execute (.insertTopic topic)

def getTopic (name : String) : M Topic := do
  match ← execute (.selectConfig name) with
  | none => raising (EventStore.topicNotFound name)
  | some config => return config

/-- The block in the transaction of an append. -/
def allocate (eventId topic eventType source : String) (data : List (String × Json))
    (subject : Option String) : M (String × Time) := do
  execute (.advisoryLock topic)
  let stored ← execute (.selectNextOffset topic)
  let count ← execute (.countEvents topic)
  let offset : Nat := max (stored.getD 0) count
  let cursor ← raising (Cursor.encode topic offset)
  let createdAt ← execute (.insertEvent eventId topic cursor subject eventType source data)
  execute (.updateNextOffset (offset + 1) topic)
  return (cursor, createdAt)

def append (topic eventType source : String) (data : List (String × Json)) (subject : Option String) :
    M EventRecord := do
  let _ ← getTopic topic
  let eventId ← execute .newEventId
  -- the hash is of the canonical text
  let _ ← raising (canonicalize (.obj data))
  let (cursor, createdAt) ← transaction (allocate eventId topic eventType source data subject)
  return { eventId, topic, cursor, eventType, source, data, subject, createdAt }

/-- Delete the aged events of the topics one by one. -/
def compactNames (removed : Nat) : List String → M Nat
  | [] => return removed
  | name :: rest => do
    let retention := (← getTopic name).retentionSeconds
    if retention ≤ 0 then compactNames removed rest
    else
      let deleted ← execute (.deleteAged name retention)
      compactNames (removed + deleted) rest

def compact (topic : Option String) : M Nat := do
  match topic with
  | some name => compactNames 0 [name]
  | none =>
    let topics ← execute .selectConfigs
    compactNames 0 (topics.map Topic.name)

def oldestAvailableCursor (topic : String) : M (Option String) := do
  let retention := (← getTopic topic).retentionSeconds
  execute (.selectOldest topic retention)

/-- The clause on `from_cursor`. -/
def lowerBound (topic : String) : Option String → M (Option String)
  | none => return none
  | some from_ =>
    if from_ = Cursor.earliest then return none
    else do
      let _ ← raising (Cursor.offsetFor topic from_)
      match ← oldestAvailableCursor topic with
      | none => return some from_
      | some oldest =>
        if from_ < oldest then
          raising (raiseA2A .cursorExpired "The requested cursor is outside the topic retention window."
            [("fromCursor", .str from_), ("oldestAvailableCursor", .str oldest)])
        else return some from_

/-- The page of at most `limit` records, of which one more has been fetched. -/
def pageOf (limit : Int) (rows : List EventRecord) : Except PyError (List EventRecord × Option String) :=
  let records := rows.take limit.toNat
  if (rows.length : Int) > limit then
    match records.getLast? with
    | none => .error (.other "IndexError")
    | some last => .ok (records, some last.cursor)
  else .ok (records, none)

def read (topic : String) (fromCursor toCursor : Option String) (limit : Int) :
    M (List EventRecord × Option String) := do
  let _ ← getTopic topic
  if fromCursor = some Cursor.latest then return ([], none)
  else
    let lower ← lowerBound topic fromCursor
    let upper ← raising (PostgresEventStore.upperBound topic toCursor)
    let retention := (← getTopic topic).retentionSeconds
    let rows ← execute (.selectEvents topic lower upper retention (limit + 1))
    raising (pageOf limit rows)

def code : Job → M Val
  | .declareTopic topic => do
    declareTopic topic
    return .unit
  | .append topic eventType source data subject => do
    let record ← append topic eventType source data subject
    return .record record
  | .compact topic => do
    let removed ← compact topic
    return .count removed
  | .read topic fromCursor toCursor limit => do
    let (records, next) ← read topic fromCursor toCursor limit
    return .page records next

/-- The semantics of the statements. No statement is local: another session may come in before each. -/
@[reducible] def sem (hashtext : String → Int) : Sem sql where
  State := Database
  Choice := Choice
  Env := Env
  isLocal _ := false
  exec i o c db := db.exec hashtext i o c
  env := Database.env
  restart := Database.restart
  code := code
  exec_local h := by cases h

end EventSession

end A2AEvents

import A2AEvents.Native.EventStore

/-!
# Postgres event store

`runtime/postgres/event_store.py`: the tables `a2a_event_topics` and `a2a_events` and the
statements on them. A call is one transaction; one clock reading stands for its `now()`.
`ORDER BY cursor` and the comparisons of cursors are byte-wise, which for UTF-8 is the
order of Lean's strings. A payload comes back from its JSONB column as it went in.
-/

namespace A2AEvents

/-- A row of `a2a_event_topics`. -/
structure TopicRow where
  config : Topic
  nextOffset : Nat := 0

/-- The tables; topics are keyed by name, events are listed in the order of their insertion. -/
structure PostgresEventStore where
  topics : Dict String TopicRow := ∅
  events : List EventRecord := []

namespace PostgresEventStore

/-- The error of a value outside the range of its column. -/
def outOfRange : PyError := .other "NumericValueOutOfRange"

/-- The largest value of an `INTEGER` column. -/
def maxInteger : Nat := 2 ^ 31 - 1

/-- The largest value of a `BIGINT` column. -/
def maxBigint : Nat := 2 ^ 63 - 1

/-- `INSERT ... ON CONFLICT (topic) DO NOTHING`. -/
def declareTopic (store : PostgresEventStore) (topic : Topic) :
    Except PyError Unit × PostgresEventStore :=
  if topic.retentionSeconds < -(maxInteger : Int) - 1 ∨ topic.retentionSeconds > maxInteger then
    (.error outOfRange, store)
  else (.ok (), { store with topics := store.topics.setDefault topic.name { config := topic } })

def getTopic (store : PostgresEventStore) (name : String) : Except PyError Topic :=
  match store.topics.get? name with
  | none => EventStore.topicNotFound name
  | some row => .ok row.config

/-- The rows of a topic. -/
def rows (store : PostgresEventStore) (topic : String) : List EventRecord :=
  store.events.filter fun r => r.topic = topic

/-- Insert an event; event ids and cursors are unique. -/
def insertEvent (store : PostgresEventStore) (record : EventRecord) :
    Except PyError PostgresEventStore :=
  if (store.events.any fun r => r.eventId = record.eventId || r.cursor = record.cursor) = true then
    .error (.other "UniqueViolation")
  else .ok { store with events := store.events ++ [record] }

/-- The stored counter, or the number of rows if that is larger. -/
def nextOffset (store : PostgresEventStore) (topic : String) (row : TopicRow) : Nat :=
  max row.nextOffset (store.rows topic).length

/-- The transaction of an append: it is rolled back when a statement fails. -/
def allocate (store : PostgresEventStore) (now : Time) (eventId topic eventType source : String)
    (data : List (String × Json)) (subject : Option String) (row : TopicRow) :
    Except PyError (EventRecord × PostgresEventStore) :=
  let offset := store.nextOffset topic row
  match Cursor.encode topic offset with
  | .error e => .error e
  | .ok cursor =>
    let record : EventRecord :=
      { eventId, topic, cursor, eventType, source, data, subject, createdAt := now }
    match store.insertEvent record with
    | .error e => .error e
    | .ok inserted =>
      if offset + 1 > maxBigint then .error outOfRange
      else
        .ok (record, { inserted with
          topics := inserted.topics.set topic { row with nextOffset := offset + 1 } })

/-- Append an event. The payload is canonicalized before an offset is taken. -/
def append (store : PostgresEventStore) (now : Time) (eventId topic eventType source : String)
    (data : List (String × Json)) (subject : Option String) :
    Except PyError EventRecord × PostgresEventStore :=
  match store.topics.get? topic with
  | none => (EventStore.topicNotFound topic, store)
  | some row =>
    match canonicalize (.obj data) with
    | .error e => (.error e, store)
    | .ok _ =>
      match store.allocate now eventId topic eventType source data subject row with
      | .error e => (.error e, store)
      | .ok (record, store') => (.ok record, store')

/-- `DELETE` the rows of a topic outside its retention window. -/
def compactTopic (store : PostgresEventStore) (now : Time) (name : String) (config : Topic) :
    PostgresEventStore :=
  { store with events := store.events.filter fun r => r.topic ≠ name || EventStore.retained config now r }

/-- Compact the topics one after the other; an unknown one raises. -/
def compactAll (store : PostgresEventStore) (now : Time) :
    List String → Except PyError Unit × PostgresEventStore
  | [] => (.ok (), store)
  | name :: rest =>
    match store.getTopic name with
    | .error e => (.error e, store)
    | .ok config => compactAll (store.compactTopic now name config) now rest

/-- Delete the events outside the retention window, of one topic or of all of them. -/
def compact (store : PostgresEventStore) (now : Time) (topic : Option String) :
    Except PyError Unit × PostgresEventStore :=
  match topic with
  | some name => store.compactAll now [name]
  | none => store.compactAll now (store.topics.values.map fun row => row.config.name)

/-- `ORDER BY cursor ASC`. -/
def cursorLe (a b : EventRecord) : Prop := a.cursor ≤ b.cursor

instance : DecidableRel cursorLe := fun a b => inferInstanceAs (Decidable (a.cursor ≤ b.cursor))

/-- The rows of a topic inside its retention window, ordered by cursor. -/
def liveRows (store : PostgresEventStore) (now : Time) (topic : String) (config : Topic) :
    List EventRecord :=
  ((store.rows topic).filter (EventStore.retained config now)).insertionSort cursorLe

/-- The clause on `from_cursor`: the cursor to stay above, if there is one. -/
def lowerBound (live : List EventRecord) (topic : String) :
    Option String → Except PyError (Option String)
  | none => .ok none
  | some from_ =>
    if from_ = Cursor.earliest then .ok none
    else
      match Cursor.offsetFor topic from_ with
      | .error e => .error e
      | .ok _ =>
        match live.head? with
        | none => .ok (some from_)
        | some oldest =>
          if from_ < oldest.cursor then
            raiseA2A .cursorExpired
              "The requested cursor is outside the topic retention window."
              [("fromCursor", .str from_), ("oldestAvailableCursor", .str oldest.cursor)]
          else .ok (some from_)

/-- The clause on `to_cursor`: the cursor to stay below, if there is one. -/
def upperBound (topic : String) : Option String → Except PyError (Option String)
  | none => .ok none
  | some to_ => (Cursor.offsetFor topic to_).map fun _ => some to_

/-- Whether a row meets the clauses on the cursors. -/
def inBounds (lower upper : Option String) (r : EventRecord) : Bool :=
  lower.all (fun c => decide (c < r.cursor)) && upper.all fun c => decide (r.cursor ≤ c)

/-- `LIMIT limit + 1`, of which the last row only tells that there are more. -/
def fetchPage (limit : Int) (selected : List EventRecord) :
    Except PyError (List EventRecord × Option String) :=
  if limit + 1 < 0 ∨ limit + 1 > maxBigint then .error outOfRange
  else
    let fetched := selected.take (limit + 1).toNat
    -- `rows[:limit]`; for a negative limit nothing has been fetched
    let records := fetched.take limit.toNat
    if (fetched.length : Int) > limit then
      match records.getLast? with
      | none => .error (.other "IndexError")
      | some last => .ok (records, some last.cursor)
    else .ok (records, none)

/-- The events after `fromCursor`, with the cursor of the last one if more follow. -/
def read (store : PostgresEventStore) (now : Time) (topic : String)
    (fromCursor toCursor : Option String) (limit : Int) :
    Except PyError (List EventRecord × Option String) :=
  match store.getTopic topic with
  | .error e => .error e
  | .ok config =>
    if fromCursor = some Cursor.latest then .ok ([], none)
    else
      let live := store.liveRows now topic config
      match lowerBound live topic fromCursor with
      | .error e => .error e
      | .ok lower =>
        match upperBound topic toCursor with
        | .error e => .error e
        | .ok upper => fetchPage limit (live.filter (inBounds lower upper))

end PostgresEventStore

end A2AEvents

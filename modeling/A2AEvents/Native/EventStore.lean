import A2AEvents.Native.Cursor
import A2AEvents.Native.Models
import A2AEvents.Native.Signing

/-!
# In-memory event store

`runtime/memory/event_store.py`: append-only logs, one for each topic. Every
operation is one atomic call; the clock reading and the fresh event id of a call
are arguments. A call that can raise returns the exception beside the store, since
`append` has already taken its offset when the payload turns out to have no
canonical encoding.
-/

namespace A2AEvents

/-- The log of one topic. `nextOffset` is counted apart from the events, so that
    compaction never makes an offset available again. -/
structure TopicLog where
  topic : Topic
  events : List EventRecord := []
  nextOffset : Nat := 0

/-- `InMemoryEventStore`. -/
structure EventStore where
  logs : Dict String TopicLog := ∅

namespace EventStore

/-- The error of an unknown topic. -/
def topicNotFound {α : Type} (name : String) : Except PyError α :=
  raiseA2A .topicNotFound ("Topic " ++ name ++ " does not exist.") [("topic", .str name)]

/-- First declaration wins. -/
def declareTopic (store : EventStore) (topic : Topic) : EventStore :=
  { logs := store.logs.setDefault topic.name { topic := topic } }

def getTopic (store : EventStore) (name : String) : Except PyError Topic :=
  match store.logs.get? name with
  | none => topicNotFound name
  | some log => .ok log.topic

/-- Total ever appended, whatever compaction has removed. -/
def count (store : EventStore) (topic : String) : Nat :=
  match store.logs.get? topic with
  | some log => log.nextOffset
  | none => 0

/-- Append an event. The offset is consumed before the payload is canonicalized. -/
def append (store : EventStore) (now : Time) (eventId topic eventType source : String)
    (data : List (String × Json)) (subject : Option String) :
    Except PyError EventRecord × EventStore :=
  match store.logs.get? topic with
  | none => (topicNotFound topic, store)
  | some log =>
    let offset := log.nextOffset
    let taken : TopicLog := { log with nextOffset := offset + 1 }
    match Cursor.encode topic offset, canonicalize (.obj data) with
    | .error e, _ => (.error e, { logs := store.logs.set topic taken })
    | .ok _, .error e => (.error e, { logs := store.logs.set topic taken })
    | .ok cursor, .ok _ =>
      let record : EventRecord :=
        { eventId, topic, cursor, eventType, source, data, subject, createdAt := now }
      (.ok record, { logs := store.logs.set topic { taken with events := log.events ++ [record] } })

/-- Whether an event is inside the retention window of its topic. -/
def retained (topic : Topic) (now : Time) (record : EventRecord) : Bool :=
  topic.retentionSeconds ≤ 0 || record.createdAt ≥ now - seconds topic.retentionSeconds

/-- Drop the events of a log outside its retention window. -/
def compactLog (now : Time) (log : TopicLog) : TopicLog :=
  { log with events := log.events.filter (retained log.topic now) }

/-- Drop the events outside the retention window, of one topic or of all of them;
    also returns how many were dropped. -/
def compact (store : EventStore) (now : Time) (topic : Option String) : Nat × EventStore :=
  let logs := store.logs.mapValues fun name log =>
    if topic = none ∨ topic = some name then compactLog now log else log
  let size := fun (d : Dict String TopicLog) => (d.values.map fun log => log.events.length).sum
  (size store.logs - size logs, { logs := logs })

/-- The events of a log inside the retention window. -/
def liveLog (now : Time) (log : TopicLog) : List EventRecord :=
  log.events.filter (retained log.topic now)

/-- The cursor of the oldest live event. -/
def oldestAvailableCursor (store : EventStore) (now : Time) (topic : String) :
    Except PyError (Option String) :=
  match store.logs.get? topic with
  | none => .error (.keyError topic)
  | some log => .ok ((liveLog now log).head?.map EventRecord.cursor)

/-- The cursor of the last event, or of the last offset ever given out. -/
def latestCursor (store : EventStore) (topic : String) : Except PyError String :=
  match store.logs.get? topic with
  | none => .error (.keyError topic)
  | some log =>
    match log.events.getLast? with
    | some record => .ok record.cursor
    | none => Cursor.encode topic (max ((log.nextOffset : Int) - 1) 0)

/-- Whether some live event follows `offset` within the range. -/
def hasMore (offset : Nat) (toOffset : Option Nat) : List EventRecord → Except PyError Bool
  | [] => .ok false
  | record :: rest =>
    match Cursor.offsetOf record.cursor with
    | .error e => .error e
    | .ok o =>
      if o > offset ∧ toOffset.all (fun t => decide (o ≤ t)) then .ok true
      else hasMore offset toOffset rest

/-- Collect events after `start`, up to `toOffset` and at most `limit` of them. -/
def collect (live : List EventRecord) (start : Int) (toOffset : Option Nat) (limit : Int)
    (out : List EventRecord) :
    List EventRecord → Except PyError (List EventRecord × Option String)
  | [] => .ok (out, none)
  | record :: rest =>
    match Cursor.offsetOf record.cursor with
    | .error e => .error e
    | .ok offset =>
      if (offset : Int) ≤ start then collect live start toOffset limit out rest
      else if toOffset.any (fun t => decide (offset > t)) then .ok (out, none)
      else
        let out := out ++ [record]
        if (out.length : Int) ≥ limit then
          match hasMore offset toOffset live with
          | .error e => .error e
          | .ok more => .ok (out, if more then some record.cursor else none)
        else collect live start toOffset limit out rest

/-- Where a read starts: after the decoded cursor, which must not be older than the
    oldest live event, or before the first event. -/
def startOffset (live : List EventRecord) (topic : String) :
    Option String → Except PyError Int
  | none => .ok (-1)
  | some from_ =>
    if from_ = Cursor.earliest then .ok (-1)
    else
      match Cursor.offsetFor topic from_ with
      | .error e => .error e
      | .ok start =>
        match live.head? with
        | none => .ok start
        | some oldest =>
          match Cursor.offsetOf oldest.cursor with
          | .error e => .error e
          | .ok first =>
            if start < first then
              raiseA2A .cursorExpired
                "The requested cursor is outside the topic retention window."
                [("fromCursor", .str from_), ("oldestAvailableCursor", .str oldest.cursor)]
            else .ok start

/-- `to_cursor` of `None` or an empty text is no bound. -/
def endOffset (topic : String) : Option String → Except PyError (Option Nat)
  | none => .ok none
  | some to_ => if to_ = "" then .ok none else (Cursor.offsetFor topic to_).map some

/-- The events after `fromCursor`, with the cursor of the last one if more follow. -/
def read (store : EventStore) (now : Time) (topic : String) (fromCursor toCursor : Option String)
    (limit : Int) : Except PyError (List EventRecord × Option String) :=
  match store.logs.get? topic with
  | none => topicNotFound topic
  | some log =>
    let live := liveLog now log
    if fromCursor = some Cursor.latest then .ok ([], none)
    else
      match startOffset live topic fromCursor with
      | .error e => .error e
      | .ok start =>
        match endOffset topic toCursor with
        | .error e => .error e
        | .ok toOffset => collect live start toOffset limit [] live

end EventStore

end A2AEvents

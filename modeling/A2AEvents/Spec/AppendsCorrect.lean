import A2AEvents.Spec.CanonicalCorrect
import A2AEvents.Spec.PostgresOffsets

/-!
# Appends that raise

The in-memory store takes the offset of an append before it encodes the payload, and does not
give it back. So an append that raises leaves the store as it was only if it raises for another
reason, which is that the topic is unknown. The Postgres store encodes the payload first; after
an append that raised, the two stores no longer issue the same cursors.

## Key results

- `EventStore.failsCleanly_iff`: the payloads with which a failed append leaves nothing behind
- `EventStore.count_run`: without other payloads, `count` is the number of events ever appended
-/

namespace A2AEvents

/-- The next offset of a topic in the tables. -/
def PostgresEventStore.next? (store : PostgresEventStore) (topic : String) : Option Nat :=
  (store.topics.get? topic).map (store.nextOffset topic)

/-- A Postgres append that raises is rolled back. -/
theorem PostgresEventStore.append_unchanged {store : PostgresEventStore} {now : Time}
    {eventId topic eventType source : String} {data : List (String × Json)} {subject : Option String}
    {e : PyError} (h : (store.append now eventId topic eventType source data subject).1 = .error e) :
    (store.append now eventId topic eventType source data subject).2 = store := by
  obtain ⟨e', h'⟩ | ⟨row, record, -, -, -, -, -, h'⟩ :=
    PostgresEventStore.append_cases store now eventId topic eventType source data subject
  · rw [h']
  · rw [h'] at h
    cases h

namespace EventStore

/-- The next offset of a topic. -/
def next? (store : EventStore) (topic : String) : Option Nat :=
  (store.logs.get? topic).map TopicLog.nextOffset

/-- An append of `data` that raises leaves the store as it was, `count` goes on counting the
    events that were appended, and a Postgres store that is in step with this one stays so. -/
structure FailsCleanly (store : EventStore) (topic : String) (data : List (String × Json)) : Prop where
  unchanged : ∀ now eventId eventType source subject e,
    (store.append now eventId topic eventType source data subject).1 = .error e →
      (store.append now eventId topic eventType source data subject).2 = store
  counted : ∀ now eventId eventType source subject,
    (store.append now eventId topic eventType source data subject).2.count topic = store.count topic +
      if (store.append now eventId topic eventType source data subject).1.toBool then 1 else 0
  inStep : ∀ (pg : PostgresEventStore) now eventId eventType source subject e,
    pg.next? topic = store.next? topic →
    (store.append now eventId topic eventType source data subject).1 = .error e →
      (pg.append now eventId topic eventType source data subject).1.toBool = false ∧
      (pg.append now eventId topic eventType source data subject).2.next? topic =
        (store.append now eventId topic eventType source data subject).2.next? topic

/-- Nothing is wrong with the payload and the offset it would get, or the topic is unknown. -/
def Appendable (store : EventStore) (topic : String) (data : List (String × Json)) : Prop :=
  store.logs.get? topic = none ∨
    ((Json.obj data).encodable = true ∧ store.count topic < 10 ^ Cursor.maxStrDigits)

/-! ## What an append does -/

section Append

variable {store : EventStore} {topic : String} {data : List (String × Json)}

/-- An append to a topic that is there: it succeeds, or takes an offset for nothing. -/
theorem append_outcome (data : List (String × Json)) {log : TopicLog} (hlog : store.logs.get? topic = some log) (now : Time)
    (eventId eventType source : String) (subject : Option String) :
    (store.Appendable topic data ∧
      ∃ record, store.append now eventId topic eventType source data subject =
        (.ok record, store.setLog topic (log.push record))) ∨
    (¬ store.Appendable topic data ∧
      ∃ e, store.append now eventId topic eventType source data subject =
        (.error e, store.setLog topic { log with nextOffset := log.nextOffset + 1 })) := by
  have hcount := count_of_get? hlog
  cases henc : Cursor.encode topic (log.nextOffset : Int) with
  | error e =>
    right
    constructor
    · -- the interpreter does not print the offset
      rintro (hnone | ⟨-, hlt⟩)
      · rw [hlog] at hnone
        cases hnone
      · rw [hcount] at hlt
        obtain ⟨cursor, hcursor⟩ := Cursor.exists_encode_of_digits topic hlt
        rw [henc] at hcursor
        cases hcursor
    · exact ⟨e, by simp [append, hlog, henc, setLog]⟩
  | ok cursor =>
    cases hcan : canonicalize (.obj data) with
    | error e =>
      right
      constructor
      · rintro (hnone | ⟨hdata, -⟩)
        · rw [hlog] at hnone
          cases hnone
        · obtain ⟨bytes, hbytes⟩ := canonicalize_ok_iff.mpr hdata
          rw [hcan] at hbytes
          cases hbytes
      · exact ⟨e, by simp [append, hlog, henc, hcan, setLog]⟩
    | ok bytes =>
      left
      constructor
      · right
        rw [hcount]
        exact ⟨canonicalize_ok_iff.mp ⟨bytes, hcan⟩, by simpa using Cursor.encode_lt henc⟩
      · exact ⟨{ eventId, topic, cursor, eventType, source, data, subject, createdAt := now },
          by simp [append, hlog, henc, hcan, setLog, TopicLog.push]⟩

theorem append_unknown (data : List (String × Json)) (hlog : store.logs.get? topic = none) (now : Time)
    (eventId eventType source : String) (subject : Option String) :
    store.append now eventId topic eventType source data subject = (topicNotFound topic, store) := by
  simp [append, hlog]

/-- Taking an offset shows in the store. -/
private theorem setLog_ne {log : TopicLog} (hlog : store.logs.get? topic = some log) :
    store.setLog topic { log with nextOffset := log.nextOffset + 1 } ≠ store := by
  intro heq
  have hcount : (store.setLog topic { log with nextOffset := log.nextOffset + 1 }).count topic =
      log.nextOffset + 1 := by
    simp [count, setLog]
  rw [heq, count_of_get? hlog] at hcount
  omega

/-- An append that leaves nothing behind when it raises does not raise. -/
private theorem FailsCleanly.appendable {log : TopicLog} (h : store.FailsCleanly topic data)
    (hlog : store.logs.get? topic = some log) : store.Appendable topic data := by
  obtain ⟨hok, -⟩ | ⟨-, e, heq⟩ := append_outcome data hlog 0 "" "" "" none
  · exact hok
  · have hsame := h.unchanged 0 "" "" "" none e (by rw [heq])
    rw [heq] at hsame
    exact absurd hsame (setLog_ne hlog)

/-- An append that raises leaves the store as it was exactly if the topic is unknown, or there is
    nothing to raise about: the payload has an encoding and the offset can be printed. -/
theorem failsCleanly_iff (store : EventStore) (topic : String) (data : List (String × Json)) :
    store.FailsCleanly topic data ↔ store.Appendable topic data := by
  cases hlog : store.logs.get? topic with
  | none =>
    constructor
    · intro _
      exact .inl hlog
    · intro _
      have hunknown := append_unknown data hlog
      constructor
      · intro now eventId eventType source subject e _
        rw [hunknown]
      · intro now eventId eventType source subject
        rw [hunknown]
        rfl
      · -- the topic is unknown to the tables, too
        intro pg now eventId eventType source subject e hnext _
        rw [hunknown]
        rw [next?, hlog, Option.map_none, PostgresEventStore.next?, Option.map_eq_none_iff] at hnext
        simp [PostgresEventStore.append, hnext, topicNotFound, raiseA2A, PostgresEventStore.next?, next?,
          hlog, Except.toBool]
  | some log =>
    constructor
    · intro h
      exact h.appendable hlog
    · intro h
      have hok : ∀ now eventId eventType source subject, ∃ record,
          store.append now eventId topic eventType source data subject =
            (.ok record, store.setLog topic (log.push record)) := by
        intro now eventId eventType source subject
        obtain ⟨-, hok⟩ | ⟨hnot, -⟩ := append_outcome data hlog now eventId eventType source subject
        · exact hok
        · exact absurd h hnot
      constructor
      · intro now eventId eventType source subject e he
        obtain ⟨record, heq⟩ := hok now eventId eventType source subject
        rw [heq] at he
        cases he
      · intro now eventId eventType source subject
        obtain ⟨record, heq⟩ := hok now eventId eventType source subject
        rw [heq, count_of_get? hlog]
        simp [count, setLog, TopicLog.push, Except.toBool]
      · intro pg now eventId eventType source subject e _ he
        obtain ⟨record, heq⟩ := hok now eventId eventType source subject
        rw [heq] at he
        cases he

end Append

/-! ## Histories -/

/-- The call is no append that could raise after it took an offset. -/
def AppendableCall (store : EventStore) : StoreCall → Prop
  | .append _ _ topic _ _ data _ => store.Appendable topic data
  | _ => True

/-- So are all the calls, each in the store it finds. -/
def AllAppendable (store : EventStore) : List StoreCall → Prop
  | [] => True
  | c :: rest => store.AppendableCall c ∧ (c.exec store).AllAppendable rest

/-- The records of a topic among those that the calls issue. -/
def issuedFor (store : EventStore) (name : String) (calls : List StoreCall) : List EventRecord :=
  (store.issued calls).filter fun r => r.topic = name

theorem issuedFor_cons (store : EventStore) (name : String) (c : StoreCall) (rest : List StoreCall) :
    store.issuedFor name (c :: rest) =
      (c.issued? store).toList.filter (fun r => r.topic = name) ++ (c.exec store).issuedFor name rest := by
  rw [issuedFor, issued, List.filter_append, issuedFor]

/-- A call raises `count` by the records it issues. -/
theorem count_exec {store : EventStore} {c : StoreCall} (h : store.AppendableCall c) (name : String) :
    (c.exec store).count name =
      store.count name + ((c.issued? store).toList.filter fun r => r.topic = name).length := by
  cases c with
  | declareTopic topic =>
    simp only [StoreCall.exec, StoreCall.issued?, StoreCall.result?, count, declareTopic,
      Dict.get?_setDefault]
    by_cases hname : name = topic.name
    · subst hname
      cases hlog : store.logs.get? topic.name <;> simp
    · simp [hname]
  | compact now topic =>
    simp only [StoreCall.exec, StoreCall.issued?, StoreCall.result?, count, get?_compact]
    cases store.logs.get? name with
    | none => rfl
    | some log =>
      simp only [Option.map_some]
      split <;> rfl
  | append now eventId topic eventType source data subject =>
    simp only [StoreCall.exec, StoreCall.issued?, StoreCall.result?]
    cases hlog : store.logs.get? topic with
    | none =>
      rw [append_unknown data hlog]
      rfl
    | some log =>
      obtain ⟨-, record, heq⟩ | ⟨hnot, -⟩ :=
        append_outcome data hlog now eventId eventType source subject
      · have hat := append_ok (show (store.append now eventId topic eventType source data subject).1 =
          .ok record by rw [heq])
        rw [heq]
        by_cases hname : name = topic
        · subst hname
          simp [count, hlog, setLog, TopicLog.push, hat.1.topic]
        · have hne : ¬ topic = name := fun h => hname h.symm
          simp [count, setLog, hname, hat.1.topic, hne]
      · exact absurd h hnot

/-- Over a history whose appends are of that kind, `count` is the number of events that were ever
    appended to the topic, however many of them compaction has removed. -/
theorem count_run {store : EventStore} {calls : List StoreCall} (h : store.AllAppendable calls)
    (name : String) :
    (store.run calls).count name = store.count name + (store.issuedFor name calls).length := by
  induction calls generalizing store with
  | nil => simp [issuedFor, issued]
  | cons c rest ih =>
    rw [run_cons, ih h.2, count_exec h.1, issuedFor_cons, List.length_append, Nat.add_assoc]

/-! ## A payload that takes an offset -/

/-- A topic, an append of a payload with a NaN inside, and a good one. -/
def afterBadPayload : List StoreCall :=
  [.declareTopic { name := "t" },
    .append 0 "e0" "t" "x" "s" [("reading", .arr [.obj [("value", .float .nan)]])] none,
    .append 0 "e1" "t" "x" "s" [] none]

/-- An offset is gone: one event was appended and two are counted, and its cursor is not the one
    that the Postgres store gives to it. -/
theorem bad_payload_takes_offset :
    ¬ ((({} : EventStore).run (afterBadPayload.take 1)).FailsCleanly "t"
      [("reading", .arr [.obj [("value", .float .nan)]])]) ∧
    (({} : EventStore).run afterBadPayload).count "t" = 2 ∧
    (({} : EventStore).issuedFor "t" afterBadPayload).map EventRecord.cursor = ["t:0000000000000001"] ∧
    (({} : PostgresEventStore).issued afterBadPayload).map EventRecord.cursor = ["t:0000000000000000"] := by
  refine ⟨?_, by decide +kernel, by decide +kernel, by decide +kernel⟩
  intro h
  obtain hnone | ⟨hdata, -⟩ := h.appendable (show _ = some { topic := { name := "t" } } from rfl)
  · cases hnone
  · cases hdata

end EventStore

end A2AEvents

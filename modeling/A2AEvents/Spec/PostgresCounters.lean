import A2AEvents.Spec.PostgresOffsets

/-!
# Counters of the Postgres event store

Once the counters have caught up with the rows, and they have from the beginning in tables that
`create_schema` made, they stay ahead: the counter alone is the next offset, and the events of a
topic are numbered one by one in the order of their appends.

## Key results

- `Counted.run`: counters that have caught up stay ahead
- `Counted.issued_liesAt`: the events of a topic lie at consecutive offsets
-/

namespace A2AEvents.PostgresEventStore

variable {store : PostgresEventStore} {name : String}

/-- The counter of a topic. -/
def counter (store : PostgresEventStore) (name : String) : Nat :=
  ((store.topics.get? name).map TopicRow.nextOffset).getD 0

/-- No counter is behind the rows of its topic. -/
def Counted (store : PostgresEventStore) : Prop :=
  ∀ name, (store.rows name).length ≤ store.counter name

theorem counter_of_get? {row : TopicRow} (h : store.topics.get? name = some row) :
    store.counter name = row.nextOffset := by
  rw [counter, h, Option.map_some, Option.getD_some]

theorem counted_empty : ({} : PostgresEventStore).Counted := fun _ => Nat.le_refl 0

/-- The next offset is the counter. -/
theorem Counted.nextOffset (h : store.Counted) {row : TopicRow} (hrow : store.topics.get? name = some row) :
    store.nextOffset name row = row.nextOffset := by
  have hle := h name
  rw [counter_of_get? hrow] at hle
  exact Nat.max_eq_left hle

/-! ## One call -/

/-- A topic that is declared starts at zero. -/
theorem counter_declareTopic (topic : Topic) (name : String) :
    (store.declareTopic topic).2.counter name = store.counter name := by
  rcases declareTopic_cases store topic with heq | heq
  · rw [heq]
  · rw [heq, counter, counter, Dict.get?_setDefault]
    split
    · rename_i hname
      rw [hname]
      cases store.topics.get? topic.name <;> rfl
    · rfl

theorem events_declareTopic (topic : Topic) : (store.declareTopic topic).2.events = store.events := by
  rcases declareTopic_cases store topic with heq | heq
  · rw [heq]
  · rw [heq]

/-- What a compaction leaves of the rows. -/
theorem rows_compact_sublist (store : PostgresEventStore) (now : Time) (topic : Option String) (name : String) :
    ((store.compact now topic).2.rows name).Sublist (store.rows name) ∧
      (store.compact now topic).2.topics = store.topics := by
  have hall : ∀ names, ((store.compactAll now names).2.rows name).Sublist (store.rows name) ∧
      (store.compactAll now names).2.topics = store.topics := by
    intro names
    obtain ⟨htopics, keep, hevents, -⟩ := compactAll_spec store now names
    refine ⟨?_, htopics⟩
    rw [rows, rows, hevents]
    exact List.filter_sublist.filter _
  cases topic with
  | none => exact hall _
  | some name => exact hall [name]

/-- An append that succeeds takes the counter. -/
theorem Counted.append_ok (h : store.Counted) {now : Time} {eventId topic eventType source : String}
    {data : List (String × Json)} {subject : Option String} {record : EventRecord}
    (hres : (store.append now eventId topic eventType source data subject).1 = .ok record) :
    ∃ row, store.topics.get? topic = some row ∧ record.LiesAt topic (store.counter topic) ∧
      (store.append now eventId topic eventType source data subject).2 =
        { topics := store.topics.set topic { row with nextOffset := store.counter topic + 1 }
          events := store.events ++ [record] } := by
  rcases append_cases store now eventId topic eventType source data subject with
    ⟨e, heq⟩ | ⟨row, record', hrow, hat, -, -, -, heq⟩
  · rw [heq] at hres
    cases hres
  · rw [heq] at hres
    cases hres
    rw [h.nextOffset hrow, ← counter_of_get? hrow] at hat heq
    exact ⟨row, hrow, hat, by rw [heq]⟩

theorem append_error {now : Time} {eventId topic eventType source : String} {data : List (String × Json)}
    {subject : Option String} {e : PyError}
    (hres : (store.append now eventId topic eventType source data subject).1 = .error e) :
    (store.append now eventId topic eventType source data subject).2 = store := by
  rcases append_cases store now eventId topic eventType source data subject with
    ⟨e', heq⟩ | ⟨row, record', -, -, -, -, -, heq⟩
  · rw [heq]
  · rw [heq] at hres
    cases hres

/-- A new event and its counter. -/
theorem counter_append (row : TopicRow) (record : EventRecord) (offset : Nat) (topic name : String) :
    PostgresEventStore.counter { topics := store.topics.set topic { row with nextOffset := offset }
                                 events := store.events ++ [record] } name =
      if name = topic then offset else store.counter name := by
  rw [counter, Dict.get?_set]
  split <;> rfl

/-- One call: the counter of a topic goes up with the event that the call issues for it. -/
theorem Counted.counter_exec (h : store.Counted) (call : StoreCall) (name : String) :
    (store.exec call).counter name =
      store.counter name + ((store.issued? call).toList.filter fun r => r.topic = name).length := by
  cases call with
  | declareTopic topic => exact counter_declareTopic topic name
  | compact now topic =>
    show PostgresEventStore.counter (store.compact now topic).2 name = _
    rw [counter, (rows_compact_sublist store now topic name).2]
    rfl
  | append now eventId topic eventType source data subject =>
    simp only [exec, issued?]
    cases hres : (store.append now eventId topic eventType source data subject).1 with
    | error e =>
      rw [append_error hres]
      rfl
    | ok record =>
      obtain ⟨row, -, hat, heq⟩ := h.append_ok hres
      rw [heq, counter_append, Option.toList_some]
      by_cases hname : name = topic
      · subst hname
        rw [if_pos rfl, List.filter_cons_of_pos (by simpa using hat.topic)]
        rfl
      · rw [if_neg hname, List.filter_cons_of_neg (by simpa [hat.topic] using Ne.symm hname)]
        rfl

theorem Counted.exec (h : store.Counted) (call : StoreCall) : (store.exec call).Counted := by
  intro name
  cases call with
  | declareTopic topic =>
    show (PostgresEventStore.rows (store.declareTopic topic).2 name).length ≤ _
    rw [rows, events_declareTopic]
    exact (h name).trans (counter_declareTopic topic name).ge
  | compact now topic =>
    obtain ⟨hsub, htopics⟩ := rows_compact_sublist store now topic name
    show (PostgresEventStore.rows (store.compact now topic).2 name).length ≤
      PostgresEventStore.counter (store.compact now topic).2 name
    rw [counter, htopics]
    exact hsub.length_le.trans (h name)
  | append now eventId topic eventType source data subject =>
    rw [h.counter_exec]
    simp only [PostgresEventStore.exec, issued?]
    cases hres : (store.append now eventId topic eventType source data subject).1 with
    | error e =>
      rw [append_error hres]
      exact h name
    | ok record =>
      obtain ⟨row, -, -, heq⟩ := h.append_ok hres
      have hle := h name
      rw [rows] at hle
      rw [heq, rows, List.filter_append, List.length_append, Option.toList_some]
      omega

/-! ## Whole runs -/

theorem Counted.run (h : store.Counted) (calls : List StoreCall) : (store.run calls).Counted := by
  induction calls generalizing store with
  | nil => exact h
  | cons call rest ih => exact ih (h.exec call)

/-- The counter of a topic counts its events. -/
theorem Counted.counter_run (h : store.Counted) (calls : List StoreCall) (name : String) :
    (store.run calls).counter name =
      store.counter name + ((store.issued calls).filter fun r => r.topic = name).length := by
  induction calls generalizing store with
  | nil => rfl
  | cons call rest ih =>
    rw [run_cons, ih (h.exec call), h.counter_exec, issued, List.filter_append, List.length_append]
    omega

/-- What is issued, call by call. -/
theorem issued_append (calls more : List StoreCall) :
    store.issued (calls ++ more) = store.issued calls ++ (store.run calls).issued more := by
  induction calls generalizing store with
  | nil => rfl
  | cons call rest ih => rw [List.cons_append, issued, ih, issued, run_cons, List.append_assoc]

/-- The event that a call issues takes the counter of its topic. -/
theorem Counted.issued?_liesAt (h : store.Counted) {call : StoreCall} {r : EventRecord}
    (hr : store.issued? call = some r) : r.LiesAt r.topic (store.counter r.topic) := by
  cases call with
  | declareTopic topic => cases hr
  | compact now topic => cases hr
  | append now eventId topic eventType source data subject =>
    simp only [issued?] at hr
    split at hr
    · rename_i record hres
      cases hr
      obtain ⟨row, -, hat, -⟩ := h.append_ok hres
      rw [hat.topic]
      exact hat
    · cases hr

/-- The events of a topic are numbered one by one. -/
theorem Counted.issued_liesAt (h : store.Counted) {calls : List StoreCall} {k : Nat} {r : EventRecord}
    (hr : ((store.issued calls).filter fun r => r.topic = name)[k]? = some r) :
    r.LiesAt name (store.counter name + k) := by
  induction calls generalizing store k with
  | nil => simp [issued] at hr
  | cons call rest ih =>
    rw [issued, List.filter_append] at hr
    have hcount := h.counter_exec call name
    cases hissued : store.issued? call with
    | none =>
      rw [hissued] at hr hcount
      have hrest := ih (h.exec call) hr
      rwa [hcount] at hrest
    | some new =>
      rw [hissued, Option.toList_some] at hr hcount
      by_cases hname : new.topic = name
      · -- the event of this call comes first
        rw [List.filter_cons_of_pos (by simpa using hname)] at hr hcount
        cases k with
        | zero =>
          obtain rfl : new = r := by simpa using hr
          have hat := h.issued?_liesAt hissued
          rw [hname] at hat
          exact hat
        | succ k =>
          have hrest := ih (h.exec call) (k := k) (by simpa using hr)
          rw [hcount] at hrest
          have hsum : store.counter name + (k + 1) = store.counter name + 1 + k := by omega
          rw [hsum]
          exact hrest
      · rw [List.filter_cons_of_neg (by simpa using hname)] at hr hcount
        have hrest := ih (h.exec call) hr
        rwa [hcount] at hrest

end A2AEvents.PostgresEventStore

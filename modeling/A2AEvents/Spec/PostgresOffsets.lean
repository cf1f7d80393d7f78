import A2AEvents.Native.PostgresEventStore
import A2AEvents.Spec.LogCorrect

/-!
# Offsets of the Postgres event store

The next offset of a topic is the stored counter or the number of its rows, whichever is
larger. Over a table from before the counter the number of rows speaks for the counter until
the first append; a compaction that removes rows before that append takes offsets back.

## Key results

- `append_above`: as long as no compaction removes rows ahead of the counter, every append
  succeeds with an offset above all offsets ever issued for the topic
-/

namespace A2AEvents.PostgresEventStore

/-- The store after the call. -/
def exec (store : PostgresEventStore) : StoreCall → PostgresEventStore
  | .declareTopic topic => (store.declareTopic topic).2
  | .append now eventId topic eventType source data subject =>
    (store.append now eventId topic eventType source data subject).2
  | .compact now topic => (store.compact now topic).2

/-- The record that an append issues. -/
def issued? (store : PostgresEventStore) : StoreCall → Option EventRecord
  | .append now eventId topic eventType source data subject =>
    match (store.append now eventId topic eventType source data subject).1 with
    | .ok record => some record
    | .error _ => none
  | _ => none

/-- The store after some calls. -/
def run (store : PostgresEventStore) (calls : List StoreCall) : PostgresEventStore :=
  calls.foldl exec store

/-- The records that the calls issue. -/
def issued (store : PostgresEventStore) : List StoreCall → List EventRecord
  | [] => []
  | c :: rest => (store.issued? c).toList ++ issued (store.exec c) rest

@[simp] theorem run_nil (store : PostgresEventStore) : store.run [] = store := rfl

@[simp] theorem run_cons (store : PostgresEventStore) (c : StoreCall) (rest : List StoreCall) :
    store.run (c :: rest) = (store.exec c).run rest := rfl

/-! ## One call -/

theorem mem_rows {store : PostgresEventStore} {name : String} {r : EventRecord} :
    r ∈ store.rows name ↔ r ∈ store.events ∧ r.topic = name := by
  simp [rows]

/-- What a declaration can do. -/
theorem declareTopic_cases (store : PostgresEventStore) (topic : Topic) :
    (store.declareTopic topic).2 = store ∨
      (store.declareTopic topic).2 =
        { store with topics := store.topics.setDefault topic.name { config := topic } } := by
  unfold declareTopic
  split
  · exact .inl rfl
  · exact .inr rfl

/-- What an append can do. -/
theorem append_cases (store : PostgresEventStore) (now : Time)
    (eventId topic eventType source : String) (data : List (String × Json))
    (subject : Option String) :
    (∃ e, store.append now eventId topic eventType source data subject = (.error e, store)) ∨
      ∃ row record, store.topics.get? topic = some row ∧
        record.LiesAt topic (store.nextOffset topic row) ∧ record.eventId = eventId ∧
        record.createdAt = now ∧ record.data = data ∧
        store.append now eventId topic eventType source data subject = (.ok record,
          { topics := store.topics.set topic { row with nextOffset := store.nextOffset topic row + 1 }
            events := store.events ++ [record] }) := by
  unfold append
  cases hrow : store.topics.get? topic with
  | none => exact .inl ⟨_, rfl⟩
  | some row =>
    cases canonicalize (.obj data) with
    | error e => exact .inl ⟨e, rfl⟩
    | ok bytes =>
      simp only
      cases halloc : store.allocate now eventId topic eventType source data subject row with
      | error e => exact .inl ⟨e, rfl⟩
      | ok p =>
        obtain ⟨record, store'⟩ := p
        unfold allocate at halloc
        cases henc : Cursor.encode topic (store.nextOffset topic row : Int) with
        | error e => simp [henc] at halloc
        | ok cursor =>
          simp only [henc, insertEvent] at halloc
          split at halloc
          · cases halloc
          · rename_i inserted hins
            split at hins
            · cases hins
            · cases hins
              split at halloc
              · cases halloc
              · simp only [Except.ok.injEq, Prod.mk.injEq] at halloc
                obtain ⟨rfl, rfl⟩ := halloc
                exact .inr ⟨row, _, rfl, ⟨rfl, henc⟩, rfl, rfl, rfl, rfl⟩

/-- A compaction leaves the topics alone and removes expired rows. -/
theorem compactAll_spec (store : PostgresEventStore) (now : Time) (names : List String) :
    (store.compactAll now names).2.topics = store.topics ∧
      ∃ keep : EventRecord → Bool, (store.compactAll now names).2.events = store.events.filter keep ∧
        ∀ r, keep r = false → r.topic ∈ names ∧
          ∃ row, store.topics.get? r.topic = some row ∧ EventStore.retained row.config now r = false := by
  induction names generalizing store with
  | nil => exact ⟨rfl, fun _ => true, by simp [compactAll], fun r h => (by cases h)⟩
  | cons name rest ih =>
    unfold compactAll getTopic
    cases hrow : store.topics.get? name with
    | none => exact ⟨rfl, fun _ => true, by simp [EventStore.topicNotFound, raiseA2A], fun r h => (by cases h)⟩
    | some row =>
      obtain ⟨htopics, keep, hevents, hkeep⟩ := ih (store.compactTopic now name row.config)
      refine ⟨htopics, fun r => (r.topic ≠ name || EventStore.retained row.config now r) && keep r, ?_, ?_⟩
      · show ((store.compactTopic now name row.config).compactAll now rest).2.events = _
        rw [hevents, compactTopic, List.filter_filter]
        exact List.filter_congr fun r _ => Bool.and_comm _ _
      · intro r hr
        simp only [Bool.and_eq_false_iff, Bool.or_eq_false_iff, decide_eq_false_iff_not, not_not,
          ne_eq] at hr
        rcases hr with ⟨rfl, hret⟩ | hr
        · exact ⟨List.mem_cons_self, row, hrow, hret⟩
        · obtain ⟨hmem, row', hrow', hret⟩ := hkeep r hr
          exact ⟨List.mem_cons_of_mem _ hmem, row', hrow', hret⟩

/-! ## Offsets ahead of everything issued -/

/-- Every record issued so far lies below the next offset of its topic. -/
structure Ahead (store : PostgresEventStore) (past : List EventRecord) : Prop where
  listed : ∀ r ∈ store.events, r ∈ past
  below : ∀ r ∈ past, ∃ row o, store.topics.get? r.topic = some row ∧ r.LiesAt r.topic o ∧
    o < store.nextOffset r.topic row

/-- The steps that keep the next offsets ahead. An event id is a fresh uuid and the counter fits
    its column; a compaction removes rows only of topics whose counter has caught up with them. -/
def steady (store : PostgresEventStore) : StoreCall → Bool
  | .declareTopic _ => true
  | .append _ eventId topic _ _ _ _ => (store.events.all fun r => r.eventId ≠ eventId) &&
      (store.topics.get? topic).all fun row => decide (store.nextOffset topic row < maxBigint)
  | .compact now topic => store.topics.entries.all fun (name, row) =>
      !(topic = none || topic = some name) || (store.rows name).length ≤ row.nextOffset ||
        (store.rows name).all (EventStore.retained row.config now)

/-- Every step is steady. -/
def allSteady (store : PostgresEventStore) : List StoreCall → Bool
  | [] => true
  | c :: rest => store.steady c && allSteady (store.exec c) rest

private theorem steady_compact {store : PostgresEventStore} {now : Time} {topic : Option String}
    (h : store.steady (.compact now topic) = true) {name : String} {row : TopicRow}
    (hrow : store.topics.get? name = some row) (hmeant : topic = none ∨ topic = some name) :
    (store.rows name).length ≤ row.nextOffset ∨
      ∀ r ∈ store.rows name, EventStore.retained row.config now r = true := by
  simp only [steady, List.all_eq_true] at h
  have htest := h (name, row) (Dict.mem_entries_iff.mpr hrow)
  simp only [Bool.or_eq_true, Bool.not_eq_true', Bool.or_eq_false_iff, decide_eq_false_iff_not,
    decide_eq_true_eq, List.all_eq_true] at htest
  rcases htest with (⟨hnone, hsome⟩ | hle) | hlive
  · exact absurd hmeant (not_or.mpr ⟨hnone, hsome⟩)
  · exact .inl hle
  · exact .inr hlive

private theorem steady_append {store : PostgresEventStore} {now : Time}
    {eventId topic eventType source : String} {data : List (String × Json)} {subject : Option String}
    (h : store.steady (.append now eventId topic eventType source data subject) = true) :
    (∀ r ∈ store.events, r.eventId ≠ eventId) ∧ ∀ row, store.topics.get? topic = some row →
      store.nextOffset topic row < maxBigint := by
  simp only [steady, Bool.and_eq_true, List.all_eq_true, decide_eq_true_eq, Option.all_eq_true] at h
  exact h

private theorem Ahead.mono {store store' : PostgresEventStore} {past : List EventRecord}
    (h : Ahead store past) (hlisted : ∀ r ∈ store'.events, r ∈ past)
    (hnext : ∀ name row, store.topics.get? name = some row → ∃ row',
      store'.topics.get? name = some row' ∧ store.nextOffset name row ≤ store'.nextOffset name row') :
    Ahead store' past := by
  refine ⟨hlisted, fun r hr => ?_⟩
  obtain ⟨row, o, hrow, hat, hlt⟩ := h.below r hr
  obtain ⟨row', hrow', hle⟩ := hnext _ row hrow
  exact ⟨row', o, hrow', hat, Nat.lt_of_lt_of_le hlt hle⟩

/-- One step. -/
theorem Ahead.exec {store : PostgresEventStore} {past : List EventRecord} (h : Ahead store past)
    {c : StoreCall} (hsteady : store.steady c = true) :
    Ahead (store.exec c) (past ++ (store.issued? c).toList) := by
  cases c with
  | declareTopic topic =>
    simp only [PostgresEventStore.exec, issued?, Option.toList_none, List.append_nil]
    rcases declareTopic_cases store topic with heq | heq
    · rw [heq]
      exact h
    · rw [heq]
      refine h.mono h.listed fun name row hrow => ⟨row, ?_, Nat.le_refl _⟩
      rw [Dict.get?_setDefault]
      split
      · rename_i hname
        rw [← hname, hrow, Option.getD_some]
      · exact hrow
  | append now eventId topic eventType source data subject =>
    simp only [PostgresEventStore.exec, issued?]
    rcases append_cases store now eventId topic eventType source data subject with
      ⟨e, heq⟩ | ⟨row, record, hrow, hat, -, -, -, heq⟩
    · simpa [heq] using h
    · simp only [heq, Option.toList_some]
      have hnew : ∀ name, (store.rows name).length ≤
          (({ store with events := store.events ++ [record] } : PostgresEventStore).rows name).length := by
        intro name
        simp [rows, List.filter_append]
      refine ⟨fun r hr => ?_, fun r hr => ?_⟩
      · rcases List.mem_append.mp hr with hr | hr
        · exact List.mem_append_left _ (h.listed r hr)
        · exact List.mem_append_right _ hr
      · rcases List.mem_append.mp hr with hr | hr
        · obtain ⟨old, o, hold, hro, hlt⟩ := h.below r hr
          by_cases hname : r.topic = topic
          · subst hname
            rw [hrow] at hold
            cases hold
            refine ⟨_, o, by rw [Dict.get?_set, if_pos rfl], hro, ?_⟩
            simp only [nextOffset] at hlt ⊢
            omega
          · refine ⟨old, o, by rw [Dict.get?_set, if_neg hname, hold], hro, ?_⟩
            have hle := hnew r.topic
            simp only [nextOffset, rows] at hlt hle ⊢
            omega
        · obtain rfl := List.mem_singleton.mp hr
          rw [hat.topic]
          refine ⟨_, _, by rw [Dict.get?_set, if_pos rfl], hat, ?_⟩
          simp only [nextOffset]
          omega
  | compact now topic =>
    simp only [PostgresEventStore.exec, issued?, Option.toList_none, List.append_nil]
    obtain ⟨names, hnames, heq⟩ : ∃ names : List String, (∀ name row, name ∈ names →
        store.topics.get? name = some row → topic = none ∨ topic = some name) ∧
        (store.compact now topic).2 = (store.compactAll now names).2 := by
      cases topic with
      | none => exact ⟨_, fun _ _ _ _ => .inl rfl, rfl⟩
      | some name =>
        refine ⟨[name], fun other row hmem _ => .inr ?_, rfl⟩
        rw [List.mem_singleton.mp hmem]
    obtain ⟨htopics, keep, hevents, hkeep⟩ := compactAll_spec store now names
    rw [heq]
    refine h.mono (fun r hr => ?_) fun name row hrow => ⟨row, by rw [htopics, hrow], ?_⟩
    · rw [hevents] at hr
      exact h.listed r (List.mem_of_mem_filter hr)
    · -- either nothing of the topic is removed, or its counter has caught up
      by_cases hall : ∀ r ∈ store.rows name, keep r = true
      · have hrows : (store.compactAll now names).2.rows name = store.rows name := by
          rw [rows, rows, hevents, List.filter_filter]
          refine List.filter_congr fun r hr => ?_
          by_cases hname : r.topic = name
          · simp [hname, hall r (mem_rows.mpr ⟨hr, hname⟩)]
          · simp [hname]
        simp only [nextOffset, hrows, Nat.le_refl]
      · simp only [not_forall, Bool.not_eq_true] at hall
        obtain ⟨r, hr, hgone⟩ := hall
        obtain ⟨hmem, row', hrow', hret⟩ := hkeep r hgone
        have hname := (mem_rows.mp hr).2
        rw [hname] at hmem hrow'
        rw [hrow] at hrow'
        cases hrow'
        rcases steady_compact hsteady hrow (hnames name row hmem hrow) with hle | hlive
        · simp only [nextOffset]
          omega
        · rw [hlive r hr] at hret
          cases hret

/-- A whole run. -/
theorem Ahead.run {store : PostgresEventStore} {past : List EventRecord} (h : Ahead store past)
    {calls : List StoreCall} (hsteady : store.allSteady calls = true) :
    Ahead (store.run calls) (past ++ store.issued calls) := by
  induction calls generalizing store past with
  | nil => simpa [issued] using h
  | cons c rest ih =>
    obtain ⟨hc, hrest⟩ := Bool.and_eq_true_iff.mp hsteady
    have hall := ih (h.exec hc) hrest
    rw [List.append_assoc] at hall
    exact hall

/-- The next cursor is a new one. -/
theorem Ahead.cursor_ne {store : PostgresEventStore} {past : List EventRecord} (h : Ahead store past)
    {r : EventRecord} (hr : r ∈ past) {topic : String} {row : TopicRow}
    (hrow : store.topics.get? topic = some row) {cursor : String}
    (hcursor : Cursor.encode topic (store.nextOffset topic row) = .ok cursor) : r.cursor ≠ cursor := by
  obtain ⟨row', o, hrow', hat, hlt⟩ := h.below r hr
  rintro rfl
  have hcur := hat.cursor
  have htopic := Cursor.encode_topic_inj hcur hcursor
  rw [htopic] at hrow' hlt hcur
  rw [hrow] at hrow'
  cases hrow'
  have hoff := Cursor.encode_inj hcur hcursor
  omega

/-- An append to a store whose offsets are ahead succeeds with the next offset. -/
theorem Ahead.append {store : PostgresEventStore} {past : List EventRecord} (h : Ahead store past)
    {now : Time} {eventId topic eventType source : String} {data : List (String × Json)}
    {subject : Option String} (hfresh : ∀ r ∈ store.events, r.eventId ≠ eventId) {row : TopicRow}
    (hrow : store.topics.get? topic = some row) (hroom : store.nextOffset topic row < maxBigint)
    {bytes : Bytes} (hdata : canonicalize (.obj data) = .ok bytes) :
    ∃ record, (store.append now eventId topic eventType source data subject).1 = .ok record ∧
      record.LiesAt topic (store.nextOffset topic row) := by
  have hprinted : store.nextOffset topic row < 10 ^ Cursor.maxStrDigits :=
    Nat.lt_of_lt_of_le (Nat.lt_trans hroom (by decide : maxBigint < 10 ^ 20))
      (Nat.pow_le_pow_right (by decide) (by decide))
  obtain ⟨cursor, hcursor⟩ := Cursor.exists_encode_of_digits topic hprinted
  let record : EventRecord :=
    { eventId, topic, cursor, eventType, source, data, subject, createdAt := now }
  have hunique : (store.events.any fun r => r.eventId = eventId || r.cursor = cursor) = false := by
    rw [List.any_eq_false]
    intro r hr
    simp [hfresh r hr, h.cursor_ne (h.listed r hr) hrow hcursor]
  refine ⟨record, ?_, rfl, hcursor⟩
  simp only [PostgresEventStore.append, hrow, hdata, allocate, hcursor, insertEvent, hunique,
    Bool.false_eq_true, if_false]
  rw [if_neg (by omega)]

/-! ## Tables from before the counter -/

/-- A table from before the counter: the rows of every topic lie at the offsets from zero on. -/
structure Uncounted (store : PostgresEventStore) : Prop where
  counters : ∀ name row, store.topics.get? name = some row → row.nextOffset = 0
  declared : ∀ r ∈ store.events, ∃ row, store.topics.get? r.topic = some row
  numbered : ∀ name, ∃ l : List EventRecord, (store.rows name).Perm l ∧
    ∀ (i : Nat) (r : EventRecord), l[i]? = some r → r.LiesAt name i

theorem uncounted_empty : ({} : PostgresEventStore).Uncounted where
  counters := fun _ _ h => (by cases h)
  declared := fun _ h => (by cases h)
  numbered := fun _ => ⟨[], .nil, fun _ _ h => by simp at h⟩

theorem Uncounted.ahead {store : PostgresEventStore} (h : store.Uncounted) :
    Ahead store store.events where
  listed := fun _ hr => hr
  below := by
    intro r hr
    obtain ⟨row, hrow⟩ := h.declared r hr
    obtain ⟨l, hperm, hat⟩ := h.numbered r.topic
    have hmem : r ∈ l := hperm.mem_iff.mp (mem_rows.mpr ⟨hr, rfl⟩)
    obtain ⟨i, hi⟩ := List.getElem?_of_mem hmem
    refine ⟨row, i, hrow, hat i r hi, ?_⟩
    have hlt : i < l.length := (List.getElem?_eq_some_iff.mp hi).1
    rw [nextOffset, hperm.length_eq]
    omega

/-- A table from before the counter with two rows, of a topic that keeps them for a second. -/
def aged : PostgresEventStore :=
  { topics := (∅ : Dict String TopicRow).set "t" { config := { name := "t", retentionSeconds := 1 } }
    events := [
      { eventId := "e0", topic := "t", cursor := "t:0000000000000000", eventType := "x", source := "s",
        data := [], subject := none, createdAt := 0 },
      { eventId := "e1", topic := "t", cursor := "t:0000000000000001", eventType := "x", source := "s",
        data := [], subject := none, createdAt := 0 }] }

private theorem liesAt_of_toOption {r : EventRecord} {name : String} {o : Nat} (htopic : r.topic = name)
    (h : (Cursor.encode name o).toOption = some r.cursor) : r.LiesAt name o := by
  refine ⟨htopic, ?_⟩
  cases henc : Cursor.encode name o with
  | error e =>
    rw [henc] at h
    cases h
  | ok cursor =>
    rw [henc] at h
    cases h
    rfl

theorem uncounted_aged : aged.Uncounted where
  counters := by
    intro name row h
    simp only [aged, Dict.get?_set] at h
    split at h
    · cases h
      rfl
    · cases h
  declared := by
    intro r hr
    simp only [aged, List.mem_cons, List.not_mem_nil, or_false] at hr
    rcases hr with rfl | rfl <;> exact ⟨_, rfl⟩
  numbered := by
    intro name
    by_cases hname : name = "t"
    · subst hname
      refine ⟨aged.events, by rw [show aged.rows "t" = aged.events from rfl], ?_⟩
      intro i r h
      rcases i with _ | _ | i
      · cases h
        exact liesAt_of_toOption rfl (by decide +kernel)
      · cases h
        exact liesAt_of_toOption rfl (by decide +kernel)
      · cases h
    · refine ⟨[], ?_, fun i r h => by simp at h⟩
      have hnone : aged.rows name = [] := by
        simp [rows, aged, Ne.symm hname]
      rw [hnone]


end A2AEvents.PostgresEventStore

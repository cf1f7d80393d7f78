import A2AEvents.Spec.PostgresOffsets

/-!
# The Postgres event store reads like the in-memory one

After one history both stores hold the same events, and a read returns the same from both
when its cursors lie, as texts, where their offsets lie, an empty `toCursor` is not given
and the limit is one that both understand. For all other arguments some history tells the
stores apart.

## Key results

- `Mirrors.run`: after a plain history the stores hold the same events
- `read_agrees_iff`: the arguments for which reads agree after every plain history
-/

namespace A2AEvents

namespace StoreCall

/-- The event id of an append. -/
def appendId? : StoreCall → Option String
  | .append _ eventId .. => some eventId
  | _ => none

/-- Neither store refuses the call for its own reasons: the retention fits its column and the
    payload has a canonical encoding. -/
def plain : StoreCall → Bool
  | .declareTopic topic =>
    -(PostgresEventStore.maxInteger : Int) - 1 ≤ topic.retentionSeconds &&
      topic.retentionSeconds ≤ PostgresEventStore.maxInteger
  | .append _ _ _ _ _ data _ => (canonicalize (.obj data)).toBool
  | .compact .. => true

end StoreCall

/-- A history of plain calls with fresh event ids, no longer than the padded offsets count. -/
structure Plain (calls : List StoreCall) : Prop where
  plain : ∀ c ∈ calls, c.plain = true
  ids : (calls.filterMap StoreCall.appendId?).Nodup
  few : (calls.filterMap StoreCall.appendId?).length ≤ 10 ^ Cursor.offsetWidth

namespace PostgresEventStore

/-! ## Both stores hold the same -/

/-- After `calls` both stores hold the same events of the same topics. -/
structure Mirrors (calls : List StoreCall) (mem : EventStore) (pg : PostgresEventStore) : Prop where
  wf : mem.Wf
  topics : ∀ name, (pg.topics.get? name).map (fun row => (row.config, row.nextOffset)) =
    (mem.logs.get? name).map fun log => (log.topic, log.nextOffset)
  rows : ∀ name, pg.rows name = mem.events name
  size : ∀ name, (mem.events name).length ≤ mem.count name
  count : ∀ name, mem.count name ≤ (calls.filterMap StoreCall.appendId?).length
  ids : ∀ r ∈ pg.events, r.eventId ∈ calls.filterMap StoreCall.appendId?

section Mirrors

variable {calls : List StoreCall} {mem : EventStore} {pg : PostgresEventStore}

theorem Mirrors.get? (h : Mirrors calls mem pg) (name : String) :
    (mem.logs.get? name = none ∧ pg.topics.get? name = none) ∨
      ∃ log row, mem.logs.get? name = some log ∧ pg.topics.get? name = some row ∧
        row.config = log.topic ∧ row.nextOffset = log.nextOffset := by
  have hname := h.topics name
  cases hlog : mem.logs.get? name with
  | none =>
    rw [hlog, Option.map_none, Option.map_eq_none_iff] at hname
    exact .inl ⟨rfl, hname⟩
  | some log =>
    rw [hlog, Option.map_some, Option.map_eq_some_iff] at hname
    obtain ⟨row, hrow, heq⟩ := hname
    rw [Prod.mk.injEq] at heq
    exact .inr ⟨log, row, rfl, hrow, heq.1, heq.2⟩

/-- The next offset is the same in both stores. -/
theorem Mirrors.nextOffset (h : Mirrors calls mem pg) {name : String} {log : TopicLog} {row : TopicRow}
    (hlog : mem.logs.get? name = some log) (heq : row.nextOffset = log.nextOffset) :
    pg.nextOffset name row = log.nextOffset := by
  have hsize := h.size name
  rw [EventStore.count_of_get? hlog] at hsize
  rw [PostgresEventStore.nextOffset, h.rows, heq]
  omega

/-- The table is ahead of its own rows. -/
theorem Mirrors.ahead (h : Mirrors calls mem pg) : Ahead pg pg.events where
  listed := fun _ hr => hr
  below := by
    intro r hr
    have hmem : r ∈ mem.events r.topic := by
      rw [← h.rows]
      exact mem_rows.mpr ⟨hr, rfl⟩
    obtain ⟨o, ho, hat⟩ := h.wf.liesAt hmem
    rcases h.get? r.topic with ⟨hlog, -⟩ | ⟨log, row, hlog, hrow, -, hoffset⟩
    · simp [EventStore.events, hlog] at hmem
    · rw [EventStore.count_of_get? hlog] at ho
      exact ⟨row, o, hrow, hat, by rwa [h.nextOffset hlog hoffset]⟩

private theorem Mirrors.declareTopic (h : Mirrors calls mem pg) {topic : Topic}
    (hplain : (StoreCall.declareTopic topic).plain = true) :
    Mirrors (calls ++ [.declareTopic topic]) (mem.declareTopic topic) (pg.declareTopic topic).2 := by
  simp only [StoreCall.plain, Bool.and_eq_true, decide_eq_true_eq] at hplain
  have hdecl : (pg.declareTopic topic).2 =
      { pg with topics := pg.topics.setDefault topic.name { config := topic } } := by
    unfold PostgresEventStore.declareTopic
    rw [if_neg (by omega)]
  have hids : (calls ++ [StoreCall.declareTopic topic]).filterMap StoreCall.appendId? =
      calls.filterMap StoreCall.appendId? := by simp [StoreCall.appendId?]
  have hcount : ∀ name, (mem.declareTopic topic).count name = mem.count name := by
    intro name
    simp only [EventStore.count, EventStore.declareTopic, Dict.get?_setDefault]
    by_cases hname : name = topic.name
    · subst hname
      cases hlog : mem.logs.get? topic.name <;> simp
    · simp [hname]
  rw [hdecl]
  refine ⟨h.wf.declareTopic topic, fun name => ?_, fun name => ?_, fun name => ?_, fun name => ?_, ?_⟩
  · simp only [EventStore.declareTopic, Dict.get?_setDefault]
    by_cases hname : name = topic.name
    · simp only [hname, if_true, Option.map_some]
      rcases h.get? topic.name with ⟨hlog, hrow⟩ | ⟨log, row, hlog, hrow, hconfig, hoffset⟩
      · simp [hlog, hrow]
      · simp [hlog, hrow, hconfig, hoffset]
    · simp only [hname, if_false]
      exact h.topics name
  · rw [EventStore.events_declareTopic]
    exact h.rows name
  · rw [EventStore.events_declareTopic, hcount]
    exact h.size name
  · rw [hcount, hids]
    exact h.count name
  · rw [hids]
    exact h.ids

/-- Compacting known topics filters the rows of each of them. -/
private theorem rows_compactAll (now : Time) {names : List String} {store : PostgresEventStore}
    (hknown : ∀ name ∈ names, ∃ row, store.topics.get? name = some row) {name : String} {row : TopicRow}
    (hrow : store.topics.get? name = some row) :
    (store.compactAll now names).2.rows name =
      if name ∈ names then (store.rows name).filter (EventStore.retained row.config now)
      else store.rows name := by
  induction names generalizing store with
  | nil => rfl
  | cons first rest ih =>
    obtain ⟨config, hfirst⟩ : ∃ row, store.topics.get? first = some row := hknown first (by simp)
    simp only [compactAll, getTopic, hfirst]
    have hstep : (store.compactTopic now first config.config).rows name =
        if name = first then (store.rows name).filter (EventStore.retained row.config now)
        else store.rows name := by
      simp only [rows, compactTopic, List.filter_filter]
      split
      · rename_i hname
        subst hname
        rw [hrow] at hfirst
        cases hfirst
        refine List.filter_congr fun r _ => ?_
        by_cases hr : r.topic = name <;> simp [hr]
      · rename_i hname
        refine List.filter_congr fun r _ => ?_
        by_cases hr : r.topic = name
        · simp [hr, hname]
        · simp [hr]
    rw [@ih (store.compactTopic now first config.config)
      (fun n hn => hknown n (List.mem_cons_of_mem _ hn)) hrow, hstep]
    by_cases hname : name = first
    · by_cases hmem : name ∈ rest <;> simp [hname, List.filter_filter]
    · simp [hname]

private theorem Mirrors.compact (h : Mirrors calls mem pg) (now : Time) (topic : Option String) :
    Mirrors (calls ++ [.compact now topic]) (mem.compact now topic).2 (pg.compact now topic).2 := by
  have hids : (calls ++ [StoreCall.compact now topic]).filterMap StoreCall.appendId? =
      calls.filterMap StoreCall.appendId? := by simp [StoreCall.appendId?]
  have hcount : ∀ name, (mem.compact now topic).2.count name = mem.count name := by
    intro name
    simp only [EventStore.count, EventStore.get?_compact]
    cases mem.logs.get? name with
    | none => rfl
    | some log =>
      simp only [Option.map_some]
      split <;> rfl
  -- the topics that are compacted in the table
  obtain ⟨names, hknown, hnames, heq⟩ : ∃ names : List String,
      (∀ name ∈ names, ∃ row, pg.topics.get? name = some row) ∧
      (∀ name row, pg.topics.get? name = some row → (name ∈ names ↔ topic = none ∨ topic = some name)) ∧
        (pg.compact now topic).2 = (pg.compactAll now names).2 := by
    cases topic with
    | none =>
      have hname : ∀ name row, pg.topics.get? name = some row → row.config.name = name := by
        intro name row hrow
        rcases h.get? name with ⟨-, hnone⟩ | ⟨log, row', hlog, hrow', hconfig, -⟩
        · rw [hrow] at hnone
          cases hnone
        · rw [hrow] at hrow'
          cases hrow'
          rw [hconfig, (h.wf name log hlog).name_eq]
      refine ⟨_, fun name hmem => ?_, fun name row hrow => ?_, rfl⟩
      · obtain ⟨row, hrow, rfl⟩ := List.mem_map.mp hmem
        obtain ⟨key, hkey⟩ := Dict.mem_values_iff.mp hrow
        rw [hname key row hkey]
        exact ⟨row, hkey⟩
      · simp only [true_or, iff_true, List.mem_map]
        exact ⟨row, Dict.mem_values_iff.mpr ⟨name, hrow⟩, hname name row hrow⟩
    | some only =>
      cases honly : pg.topics.get? only with
      | some row =>
        refine ⟨[only], fun name hmem => ?_, fun name _ _ => by simp [eq_comm], rfl⟩
        rw [List.mem_singleton.mp hmem]
        exact ⟨row, honly⟩
      | none =>
        -- an unknown topic raises
        refine ⟨[], (fun _ hmem => (by cases hmem)), fun name row hrow => ?_, ?_⟩
        · have hne : only ≠ name := by
            rintro rfl
            rw [honly] at hrow
            cases hrow
          simp [hne]
        · simp [PostgresEventStore.compact, compactAll, getTopic, honly, EventStore.topicNotFound,
            raiseA2A]
  obtain ⟨htopics, keep, hevents, -⟩ := compactAll_spec pg now names
  have hgone : ∀ name, (pg.compactAll now names).2.rows name = (pg.rows name).filter keep := by
    intro name
    rw [PostgresEventStore.rows, PostgresEventStore.rows, hevents, List.filter_filter, List.filter_filter]
    exact List.filter_congr fun r _ => Bool.and_comm _ _
  have hmem : ∀ name, (mem.compact now topic).2.events name = (pg.compactAll now names).2.rows name := by
    intro name
    rcases h.get? name with ⟨hlog, hrow⟩ | ⟨log, row, hlog, hrow, hconfig, -⟩
    · have hnone : pg.rows name = [] := by
        rw [h.rows, EventStore.events, hlog]
      rw [hgone, hnone, EventStore.events, EventStore.get?_compact, hlog]
      rfl
    · have hevents' : pg.rows name = log.events := by
        rw [h.rows, EventStore.events_of_get? hlog]
      rw [rows_compactAll now hknown hrow, EventStore.events, EventStore.get?_compact, hlog, hevents',
        hconfig]
      simp only [Option.map_some, hnames name row hrow]
      split <;> rfl
  rw [heq]
  refine ⟨h.wf.compact now topic, fun name => ?_, fun name => (hmem name).symm, fun name => ?_,
    fun name => ?_, ?_⟩
  · rw [htopics, h.topics name, EventStore.get?_compact, Option.map_map]
    congr 1
    funext log
    simp only [Function.comp_apply]
    split <;> rfl
  · rw [hcount, hmem, hgone, h.rows]
    exact Nat.le_trans (List.length_filter_le keep _) (h.size name)
  · rw [hcount, hids]
    exact h.count name
  · rw [hids, hevents]
    exact fun r hr => h.ids r (List.mem_of_mem_filter hr)

/-- Both stores append the same record. -/
theorem Mirrors.append (h : Mirrors calls mem pg) {now : Time} {eventId topic eventType source : String}
    {data : List (String × Json)} {subject : Option String}
    (hfresh : eventId ∉ calls.filterMap StoreCall.appendId?)
    (hdata : (canonicalize (.obj data)).toBool = true)
    (hfew : (calls.filterMap StoreCall.appendId?).length < 10 ^ Cursor.offsetWidth) :
    Mirrors (calls ++ [.append now eventId topic eventType source data subject])
      (mem.append now eventId topic eventType source data subject).2
      (pg.append now eventId topic eventType source data subject).2 := by
  obtain ⟨bytes, hbytes⟩ : ∃ bytes, canonicalize (.obj data) = .ok bytes := by
    cases hcan : canonicalize (.obj data) with
    | error e =>
      rw [hcan] at hdata
      cases hdata
    | ok bytes => exact ⟨bytes, rfl⟩
  have hids : (calls ++ [StoreCall.append now eventId topic eventType source data subject]).filterMap
      StoreCall.appendId? = calls.filterMap StoreCall.appendId? ++ [eventId] := by
    simp [StoreCall.appendId?]
  have hwf := h.wf.append now eventId topic eventType source data subject
  rcases h.get? topic with ⟨hlog, hrow⟩ | ⟨log, row, hlog, hrow, hconfig, hoffset⟩
  · -- neither store knows the topic
    simp only [EventStore.append, hlog] at hwf ⊢
    simp only [PostgresEventStore.append, hrow]
    refine ⟨hwf, h.topics, h.rows, h.size, fun name => ?_, fun r hr => ?_⟩
    · rw [hids, List.length_append]
      exact Nat.le_trans (h.count name) (Nat.le_add_right _ _)
    · rw [hids]
      exact List.mem_append_left _ (h.ids r hr)
  · have hnext := h.nextOffset hlog hoffset
    have hcount := h.count topic
    rw [EventStore.count_of_get? hlog] at hcount
    have hroom : pg.nextOffset topic row < maxBigint := by
      rw [hnext]
      exact Nat.lt_of_le_of_lt hcount (Nat.lt_trans hfew (by decide))
    obtain ⟨cursor, hcursor⟩ := Cursor.exists_encode topic (Nat.lt_of_le_of_lt hcount hfew)
    have hunique : (pg.events.any fun r => r.eventId = eventId || r.cursor = cursor) = false := by
      rw [List.any_eq_false]
      intro r hr
      have hid : r.eventId ≠ eventId := fun heq => hfresh (heq ▸ h.ids r hr)
      have hcur : r.cursor ≠ cursor := h.ahead.cursor_ne hr hrow (by rw [hnext]; exact hcursor)
      simp [hid, hcur]
    let record : EventRecord :=
      { eventId, topic, cursor, eventType, source, data, subject, createdAt := now }
    have hpg : (pg.append now eventId topic eventType source data subject).2 =
        { topics := pg.topics.set topic { row with nextOffset := log.nextOffset + 1 }
          events := pg.events ++ [record] } := by
      simp only [PostgresEventStore.append, hrow, hbytes, allocate, hnext, hcursor, insertEvent, hunique,
        Bool.false_eq_true, if_false, record]
      rw [if_neg (by omega)]
    have hmem : (mem.append now eventId topic eventType source data subject).2 =
        mem.setLog topic (log.push record) := by
      simp only [EventStore.append, hlog, hbytes, hcursor]
      rfl
    have hevents : ∀ name, (mem.setLog topic (log.push record)).events name =
        if name = topic then log.events ++ [record] else mem.events name := by
      intro name
      rw [EventStore.events_setLog]
      rfl
    have hcounts : ∀ name, (mem.setLog topic (log.push record)).count name =
        if name = topic then log.nextOffset + 1 else mem.count name := by
      intro name
      simp only [EventStore.count, EventStore.setLog, Dict.get?_set]
      by_cases hname : name = topic <;> simp [hname, TopicLog.push]
    rw [hmem] at hwf ⊢
    rw [hpg]
    refine ⟨hwf, fun name => ?_, fun name => ?_, fun name => ?_, fun name => ?_, fun r hr => ?_⟩
    · simp only [EventStore.setLog, Dict.get?_set]
      split
      · simp [TopicLog.push, hconfig]
      · exact h.topics name
    · have hrows := h.rows name
      rw [hevents]
      by_cases hname : name = topic
      · subst hname
        rw [EventStore.events_of_get? hlog] at hrows
        rw [if_pos rfl, ← hrows]
        simp [PostgresEventStore.rows, record]
      · rw [if_neg hname, ← hrows]
        simp [PostgresEventStore.rows, record, Ne.symm hname]
    · have hsize := h.size name
      rw [hevents, hcounts]
      split
      · rename_i hname
        rw [hname, EventStore.events_of_get? hlog, EventStore.count_of_get? hlog] at hsize
        simpa using hsize
      · exact hsize
    · have hname := h.count name
      rw [hcounts, hids, List.length_append, List.length_singleton]
      split
      · omega
      · omega
    · rw [hids]
      rcases List.mem_append.mp hr with hr | hr
      · exact List.mem_append_left _ (h.ids r hr)
      · rw [List.mem_singleton.mp hr]
        exact List.mem_append_right _ List.mem_cons_self

end Mirrors

/-- After a plain history both stores hold the same events. -/
theorem mirrors_of_calls {calls : List StoreCall} (h : Plain calls) :
    Mirrors calls (EventStore.run {} calls) (run {} calls) := by
  induction calls using List.reverseRecOn with
  | nil =>
    exact ⟨EventStore.wf_empty, fun _ => rfl, fun _ => rfl, fun _ => Nat.le_refl _,
      fun _ => Nat.le_refl _, fun r hr => (by cases hr)⟩
  | append_singleton calls c ih =>
    have hsplit : (calls ++ [c]).filterMap StoreCall.appendId? =
        calls.filterMap StoreCall.appendId? ++ c.appendId?.toList := by
      rw [List.filterMap_append]
      cases hc : c.appendId? <;> simp [hc]
    have hids := h.ids
    have hfew := h.few
    rw [hsplit] at hids hfew
    rw [List.length_append] at hfew
    have hmirrors := ih ⟨fun x hx => h.plain x (List.mem_append_left _ hx),
      (List.nodup_append.mp hids).1, Nat.le_trans (Nat.le_add_right _ _) hfew⟩
    have hplain := h.plain c (by simp)
    rw [EventStore.run_concat, run, List.foldl_append]
    cases c with
    | declareTopic topic => exact hmirrors.declareTopic hplain
    | compact now topic => exact hmirrors.compact now topic
    | append now eventId topic eventType source data subject =>
      refine hmirrors.append ?_ hplain ?_
      · intro hmem
        exact (List.nodup_append.mp hids).2.2 _ hmem _ (by simp [StoreCall.appendId?]) rfl
      · simp only [StoreCall.appendId?, Option.toList_some, List.length_singleton] at hfew
        omega

/-! ## Reads that agree -/

/-- As a text the cursor lies among the cursors of the topic where its offset lies, from the offset
    `above` on. -/
def Aligned (topic : String) (above : Int) (c : String) : Prop :=
  ∀ o, Cursor.offsetFor topic c = .ok o → ∀ n : Nat, above < n → n < 10 ^ Cursor.offsetWidth →
    ∀ cursor, Cursor.encode topic n = .ok cursor → (c < cursor ↔ o < n)

/-- Cursors that `encode` makes are aligned. -/
theorem aligned_encode {topic c : String} {o : Nat} (ho : o < 10 ^ Cursor.offsetWidth)
    (hc : Cursor.encode topic o = .ok c) (above : Int) : Aligned topic above c := by
  intro o' ho' n _ hn cursor hcursor
  have hne := Cursor.topic_ne_of_offsetFor ho'
  rw [Cursor.offsetFor_encode hne hc] at ho'
  cases ho'
  exact Cursor.encode_lt_encode ho hn hc hcursor

/-- The offset after which a read with this `fromCursor` starts. -/
def startOf (topic : String) : Option String → Int
  | none => -1
  | some c =>
    match Cursor.offsetFor topic c with
    | .ok o => o
    | .error _ => -1

/-- The arguments of reads that agree: `latest`; a `fromCursor` or a `toCursor` that is refused;
    or aligned cursors and a limit that both stores understand. -/
inductive Comparable (topic : String) : Option String → Option String → Int → Prop where
  | latest (to_ : Option String) (limit : Int) : Comparable topic (some Cursor.latest) to_ limit
  | refusedFrom {c : String} (hne : c ≠ Cursor.earliest)
      (hc : ∀ o, Cursor.offsetFor topic c ≠ .ok o) (to_ : Option String) (limit : Int) :
      Comparable topic (some c) to_ limit
  | refusedTo {from_ : Option String} {c : String} (hfrom : ∀ c, from_ = some c → Aligned topic (-1) c)
      (hne : c ≠ "") (hc : ∀ o, Cursor.offsetFor topic c ≠ .ok o) (limit : Int) :
      Comparable topic from_ (some c) limit
  | page {from_ to_ : Option String} {limit : Int} (hname : topic ≠ "")
      (hfrom : ∀ c, from_ = some c → Aligned topic (-1) c)
      (hto : ∀ c, to_ = some c → c ≠ "" ∧ Aligned topic (startOf topic from_) c)
      (hlimit : (1 ≤ limit ∧ limit < maxBigint) ∨ (limit = 0 ∧ ∀ n : Nat, startOf topic from_ < n →
        n < 10 ^ Cursor.offsetWidth → ∃ c t, to_ = some c ∧ Cursor.offsetFor topic c = .ok t ∧ t < n)) :
      Comparable topic from_ to_ limit

private theorem liveRows_eq {calls : List StoreCall} {mem : EventStore} {pg : PostgresEventStore}
    (h : Mirrors calls mem pg) (hplain : Plain calls) {topic : String} {log : TopicLog} {row : TopicRow}
    (hlog : mem.logs.get? topic = some log) (hconfig : row.config = log.topic) (now : Time) :
    pg.liveRows now topic row.config = mem.live now topic := by
  have hlive : mem.live now topic = log.events.filter (EventStore.retained log.topic now) := by
    simp [EventStore.live, hlog, EventStore.liveLog]
  rw [liveRows, h.rows, EventStore.events_of_get? hlog, hconfig, ← hlive]
  -- the events are in the order of their offsets, which is the order of their cursors
  refine List.Pairwise.insertionSort_eq ((h.wf.live_sorted now topic).imp_of_mem ?_)
  intro a b ha hb hlt
  have hbound := Nat.le_trans (h.count topic) hplain.few
  obtain ⟨x, hx, hax⟩ := h.wf.liesAt (EventStore.mem_events_of_mem_live ha)
  obtain ⟨y, hy, hby⟩ := h.wf.liesAt (EventStore.mem_events_of_mem_live hb)
  have hless := (Cursor.encode_lt_encode (Nat.lt_of_lt_of_le hx hbound) (Nat.lt_of_lt_of_le hy hbound)
    hax.cursor hby.cursor).mpr (hlt x y hax hby)
  exact String.not_lt.mp (String.lt_asymm hless)

/-- What the live events of a topic are known to be. -/
private def Numbered (topic : String) (live : List EventRecord) : Prop :=
  ∀ r ∈ live, r.LiesAt topic r.offset ∧ r.offset < 10 ^ Cursor.offsetWidth

private theorem lowerBound_eq {topic : String} {live : List EventRecord}
    (hnum : topic ≠ "" → Numbered topic live) {from_ : Option String}
    (hfrom : ∀ c, from_ = some c → Aligned topic (-1) c) :
    (∃ e, EventStore.startOffset live topic from_ = .error e ∧ lowerBound live topic from_ = .error e) ∨
      ∃ lower, EventStore.startOffset live topic from_ = .ok (startOf topic from_) ∧
        lowerBound live topic from_ = .ok lower ∧
        ∀ r ∈ live, (lower.all fun c => decide (c < r.cursor)) = decide (startOf topic from_ < r.offset) := by
  have hfirst : ∀ r ∈ live, true = decide ((-1 : Int) < r.offset) := fun r _ => by
    rw [eq_comm, decide_eq_true_eq]
    omega
  cases from_ with
  | none => exact .inr ⟨none, rfl, rfl, hfirst⟩
  | some c =>
    simp only [EventStore.startOffset, lowerBound]
    by_cases hearliest : c = Cursor.earliest
    · rw [if_pos hearliest, if_pos hearliest]
      have hstart : startOf topic (some c) = -1 := by
        simp only [startOf]
        split
        · rename_i o ho
          exact absurd hearliest (Cursor.ne_sentinel_of_offsetFor ho (by decide))
        · rfl
      rw [hstart]
      exact .inr ⟨none, rfl, rfl, hfirst⟩
    · rw [if_neg hearliest, if_neg hearliest]
      cases hoff : Cursor.offsetFor topic c with
      | error e => exact .inl ⟨e, rfl, rfl⟩
      | ok o =>
        have hstart : startOf topic (some c) = o := by simp only [startOf, hoff]
        have hname := Cursor.topic_ne_of_offsetFor hoff
        have hcompare : ∀ r ∈ live, (c < r.cursor ↔ o < r.offset) := by
          intro r hr
          obtain ⟨hat, hlt⟩ := hnum hname r hr
          exact hfrom c rfl o hoff r.offset (by omega) hlt r.cursor hat.cursor
        have hbounds : ∀ r ∈ live, ((some c).all fun c => decide (c < r.cursor)) =
            decide ((o : Int) < r.offset) := by
          intro r hr
          rw [Option.all_some]
          exact decide_eq_decide.mpr ((hcompare r hr).trans Int.ofNat_lt.symm)
        rw [hstart]
        cases hhead : live.head? with
        | none => exact .inr ⟨some c, rfl, rfl, hbounds⟩
        | some oldest =>
          -- both compare with the oldest live event
          have hmem := List.mem_of_head? hhead
          have hoffset : Cursor.offsetOf oldest.cursor = .ok oldest.offset := by
            simpa using Cursor.offsetOf_encode hname (hnum hname oldest hmem).1.cursor
          simp only [hoffset, hcompare oldest hmem]
          by_cases hold : o < oldest.offset
          · rw [if_pos hold, if_pos hold]
            exact .inl ⟨_, rfl, rfl⟩
          · rw [if_neg hold, if_neg hold]
            exact .inr ⟨some c, rfl, rfl, hbounds⟩

private theorem upperBound_eq {topic : String} {live : List EventRecord}
    (hnum : Numbered topic live) {above : Int} {to_ : Option String}
    (hto : ∀ c, to_ = some c → c ≠ "" ∧ Aligned topic above c) :
    (∃ e, EventStore.endOffset topic to_ = .error e ∧ upperBound topic to_ = .error e) ∨
      ∃ toOffset upper, EventStore.endOffset topic to_ = .ok toOffset ∧ upperBound topic to_ = .ok upper ∧
        ∀ r ∈ live, above < r.offset → (upper.all fun c => decide (r.cursor ≤ c)) =
          toOffset.all fun t => decide (r.offset ≤ t) := by
  cases to_ with
  | none => exact .inr ⟨none, none, rfl, rfl, fun _ _ _ => rfl⟩
  | some c =>
    obtain ⟨hne, haligned⟩ := hto c rfl
    simp only [EventStore.endOffset, upperBound, if_neg hne]
    cases hoff : Cursor.offsetFor topic c with
    | error e => exact .inl ⟨e, rfl, rfl⟩
    | ok t =>
      refine .inr ⟨some t, some c, rfl, rfl, fun r hr habove => ?_⟩
      obtain ⟨hat, hlt⟩ := hnum r hr
      have hcompare := haligned t hoff r.offset habove hlt r.cursor hat.cursor
      simp only [Option.all_some, decide_eq_decide]
      rw [← String.not_lt, hcompare, Nat.not_lt]

private theorem fetchPage_eq {limit : Int} (hone : 1 ≤ limit) (hmax : limit < maxBigint)
    (selected : List EventRecord) :
    fetchPage limit selected = .ok (EventStore.firstPage limit selected) := by
  unfold fetchPage
  rw [if_neg (by omega)]
  have hk : max 1 limit.toNat = limit.toNat := by omega
  have hrecords : (selected.take (limit + 1).toNat).take limit.toNat = selected.take limit.toNat := by
    rw [List.take_take, Nat.min_eq_left (by omega)]
  have hmore : ((selected.take (limit + 1).toNat).length : Int) > limit ↔ limit.toNat < selected.length := by
    rw [List.length_take]
    omega
  simp only [EventStore.firstPage, hk, hrecords, hmore]
  split
  · rename_i hlt
    cases hlast : (selected.take limit.toNat).getLast? with
    | none =>
      rw [List.getLast?_eq_none_iff, List.take_eq_nil_iff] at hlast
      rcases hlast with h | h
      · omega
      · rw [h] at hlt
        simp at hlt
    | some last => rfl
  · rfl

/-- What both stores do with the live events of a topic they know. -/
private theorem reads_eq {calls : List StoreCall} (hplain : Plain calls) {topic : String} {log : TopicLog}
    (hlog : (EventStore.run {} calls).logs.get? topic = some log) (now : Time) {from_ : Option String}
    (hlatest : from_ ≠ some Cursor.latest) (to_ : Option String) (limit : Int) :
    let live := (EventStore.run {} calls).live now topic
    (EventStore.run {} calls).read now topic from_ to_ limit =
      (match EventStore.startOffset live topic from_ with
      | .error e => .error e
      | .ok start =>
        match EventStore.endOffset topic to_ with
        | .error e => .error e
        | .ok toOffset => EventStore.collect live start toOffset limit [] live) ∧
    (run {} calls).read now topic from_ to_ limit =
      match lowerBound live topic from_ with
      | .error e => .error e
      | .ok lower =>
        match upperBound topic to_ with
        | .error e => .error e
        | .ok upper => fetchPage limit (live.filter (inBounds lower upper)) := by
  have hmirrors := mirrors_of_calls hplain
  rcases hmirrors.get? topic with ⟨hnone, -⟩ | ⟨log', row, hlog', hrow, hconfig, -⟩
  · rw [hlog] at hnone
    cases hnone
  rw [hlog] at hlog'
  cases hlog'
  have hlive := liveRows_eq hmirrors hplain hlog hconfig now
  have hmem : EventStore.liveLog now log = (EventStore.run {} calls).live now topic := by
    simp [EventStore.live, hlog]
  constructor
  · simp only [EventStore.read, hlog, hmem]
    exact if_neg hlatest
  · simp only [read, getTopic, hrow, hlive]
    exact if_neg hlatest

/-- The live events of a named topic have their numbers. -/
private theorem numbered_live {calls : List StoreCall} (hplain : Plain calls) (now : Time) {topic : String}
    (hname : topic ≠ "") : Numbered topic ((EventStore.run {} calls).live now topic) := by
  have hmirrors := mirrors_of_calls hplain
  intro r hr
  obtain ⟨o, ho, hat⟩ := hmirrors.wf.liesAt (EventStore.mem_events_of_mem_live hr)
  rw [hat.offset_eq hname]
  exact ⟨hat, Nat.lt_of_lt_of_le ho (Nat.le_trans (hmirrors.count topic) hplain.few)⟩

/-- With comparable arguments a read returns the same from both stores. -/
theorem read_eq_of_comparable {calls : List StoreCall} (hplain : Plain calls) {topic : String}
    {from_ to_ : Option String} {limit : Int} (h : Comparable topic from_ to_ limit) (now : Time) :
    (EventStore.run {} calls).read now topic from_ to_ limit =
      (run {} calls).read now topic from_ to_ limit := by
  have hmirrors := mirrors_of_calls hplain
  rcases hmirrors.get? topic with ⟨hlog, hrow⟩ | ⟨log, row, hlog, hrow, -, -⟩
  · simp only [EventStore.read, hlog, read, getTopic, hrow]
    rfl
  by_cases hlatest : from_ = some Cursor.latest
  · simp only [EventStore.read, hlog, read, getTopic, hrow, if_pos hlatest]
  obtain ⟨hread', hread⟩ := reads_eq hplain hlog now hlatest to_ limit
  have hnum := @numbered_live calls hplain now topic
  rw [hread, hread']
  cases h with
  | latest => exact absurd rfl hlatest
  | @refusedFrom c hne hc =>
    simp only [EventStore.startOffset, lowerBound, if_neg hne]
    cases hoff : Cursor.offsetFor topic c with
    | error e => rfl
    | ok o => exact absurd hoff (hc o)
  | @refusedTo _ c hfrom hne hc =>
    rcases lowerBound_eq hnum hfrom with ⟨e, hstart, hlower⟩ | ⟨lower, hstart, hlower, -⟩
    · rw [hstart, hlower]
    · rw [hstart, hlower]
      simp only [EventStore.endOffset, upperBound, if_neg hne]
      cases hoff : Cursor.offsetFor topic c with
      | error e => rfl
      | ok o => exact absurd hoff (hc o)
  | page hname hfrom hto hlimit =>
    rcases lowerBound_eq hnum hfrom with ⟨e, hstart, hlower⟩ | ⟨lower, hstart, hlower, habove⟩
    · rw [hstart, hlower]
    rcases upperBound_eq (hnum hname) hto with ⟨e, hend, hupper⟩ | ⟨toOffset, upper, hend, hupper, hbelow⟩
    · rw [hstart, hlower, hend, hupper]
    have hselected : ((EventStore.run {} calls).live now topic).filter (inBounds lower upper) =
        ((EventStore.run {} calls).live now topic).filter
          (EventStore.inRange (startOf topic from_) toOffset) := by
      refine List.filter_congr fun r hr => ?_
      rw [inBounds, EventStore.inRange, habove r hr]
      by_cases hlt : startOf topic from_ < r.offset
      · rw [hbelow r hr hlt]
      · simp [hlt]
    have hpage := @EventStore.read_eq _ hmirrors.wf _ hname _ hlog now _ to_ limit hlatest
    rw [hread', hstart, hend] at hpage
    rw [hstart, hlower, hend, hupper]
    refine hpage.trans ?_
    simp only [hselected]
    rcases hlimit with ⟨hone, hmax⟩ | ⟨rfl, hempty⟩
    · rw [fetchPage_eq hone hmax]
    · -- nothing is in the range
      have hnone : ((EventStore.run {} calls).live now topic).filter
          (EventStore.inRange (startOf topic from_) toOffset) = [] := by
        rw [List.filter_eq_nil_iff]
        intro r hr hin
        obtain ⟨-, hlt⟩ := hnum hname r hr
        simp only [EventStore.inRange, Bool.and_eq_true, decide_eq_true_eq] at hin
        obtain ⟨c, t, rfl, ht, hlow⟩ := hempty r.offset hin.1 hlt
        simp only [EventStore.endOffset, if_neg (hto c rfl).1, ht, Except.map, Except.ok.injEq] at hend
        rw [← hend, Option.all_some, decide_eq_true_eq] at hin
        omega
      rw [hnone]
      rfl

/-! ## Reads that do not -/

/-- The same answer: one page, or one error code. -/
def Agrees {α : Type} : Except PyError α → Except PyError α → Prop
  | .ok a, .ok b => a = b
  | .error e, .error f => e.code? = f.code?
  | _, _ => False

theorem Agrees.of_eq {α : Type} {a b : Except PyError α} (h : a = b) : Agrees a b := by
  subst h
  cases a <;> rfl

/-- A text for the id of an event. -/
private def stagedId (k : Nat) : String := String.ofList (List.replicate k 'e')

/-- A history of `k` events of one topic, of which those at the offsets `S` are live ten seconds
    after its beginning. -/
private structure Staged (topic : String) (calls : List StoreCall) (k : Nat) (S : List Nat) : Prop where
  plain : ∀ c ∈ calls, c.plain = true
  ids : calls.filterMap StoreCall.appendId? = (List.range k).map stagedId
  log : ∃ log, (EventStore.run {} calls).logs.get? topic = some log ∧
    log.topic.retentionSeconds = 1 ∧ log.nextOffset = k
  live : List.Forall₂ (fun r o => r.LiesAt topic o) ((EventStore.run {} calls).live (seconds 10) topic) S

private theorem Staged.history {topic : String} {calls : List StoreCall} {k : Nat} {S : List Nat}
    (h : Staged topic calls k S) (hk : k ≤ 10 ^ Cursor.offsetWidth) : Plain calls where
  plain := h.plain
  ids := by
    rw [h.ids]
    refine List.Nodup.map ?_ List.nodup_range
    intro a b hab
    have := congrArg (fun s => s.toList.length) hab
    simpa [stagedId] using this
  few := by
    rw [h.ids, List.length_map, List.length_range]
    exact hk

private theorem staged_zero (topic : String) :
    Staged topic [.declareTopic { name := topic, retentionSeconds := 1 }] 0 [] where
  plain := by
    intro c hc
    rw [List.mem_singleton.mp hc]
    rfl
  ids := rfl
  log := by
    refine ⟨{ topic := { name := topic, retentionSeconds := 1 } }, ?_, rfl, rfl⟩
    simp [EventStore.run, StoreCall.exec, EventStore.declareTopic, Dict.get?_setDefault]
  live := by
    simp [EventStore.run, StoreCall.exec, EventStore.declareTopic, EventStore.live,
      Dict.get?_setDefault, EventStore.liveLog]

/-- One more event, live or not. -/
private theorem Staged.step {topic : String} {calls : List StoreCall} {k : Nat} {S : List Nat}
    (h : Staged topic calls k S) (hk : k < 10 ^ Cursor.offsetWidth) (kept : Bool) :
    ∃ calls', Staged topic calls' (k + 1) (if kept = true then S ++ [k] else S) := by
  obtain ⟨log, hlog, hret, hnext⟩ := h.log
  let now : Time := if kept = true then seconds 10 else 0
  obtain ⟨cursor, hcursor⟩ := Cursor.exists_encode topic hk
  let record : EventRecord :=
    { eventId := stagedId k, topic, cursor, eventType := "", source := "", data := [], subject := none,
      createdAt := now }
  have hexec : EventStore.run {} (calls ++ [.append now (stagedId k) topic "" "" [] none]) =
      (EventStore.run {} calls).setLog topic (log.push record) := by
    rw [EventStore.run_concat]
    simp only [StoreCall.exec, EventStore.append, hlog, hnext, hcursor]
    rw [show canonicalize (.obj []) = .ok _ from rfl]
    simp only [EventStore.setLog, TopicLog.push, hnext]
    rfl
  refine ⟨calls ++ [.append now (stagedId k) topic "" "" [] none], ⟨?_, ?_, ?_, ?_⟩⟩
  · intro c hc
    rcases List.mem_append.mp hc with hc | hc
    · exact h.plain c hc
    · rw [List.mem_singleton.mp hc]
      rfl
  · rw [List.filterMap_append, h.ids, List.range_succ, List.map_append]
    rfl
  · rw [hexec]
    refine ⟨log.push record, by simp [EventStore.setLog], hret, ?_⟩
    rw [← hnext]
    rfl
  · have hlive : (EventStore.run {} calls).live (seconds 10) topic =
        EventStore.liveLog (seconds 10) log := by
      simp [EventStore.live, hlog]
    have hold := h.live
    rw [hlive] at hold
    have hkept : EventStore.retained log.topic (seconds 10) record = kept := by
      cases kept <;> simp [EventStore.retained, hret, record, now, seconds]
    have hnew : ((EventStore.run {} calls).setLog topic (log.push record)).live (seconds 10) topic =
        EventStore.liveLog (seconds 10) log ++ if kept = true then [record] else [] := by
      simp only [EventStore.live, EventStore.setLog, Dict.get?_set, if_true, EventStore.liveLog,
        TopicLog.push, List.filter_append, List.filter_cons, hkept, List.filter_nil]
    rw [hexec, hnew]
    cases kept with
    | true => exact List.rel_append hold (.cons ⟨rfl, hcursor⟩ .nil)
    | false => simpa using hold

/-- Events that age out before the next one. -/
private theorem Staged.skip {topic : String} {calls : List StoreCall} {k m : Nat} {S : List Nat}
    (h : Staged topic calls k S) (hkm : k ≤ m) (hm : m ≤ 10 ^ Cursor.offsetWidth) :
    ∃ calls', Staged topic calls' m S := by
  induction m, hkm using Nat.le_induction with
  | base => exact ⟨calls, h⟩
  | succ m _ ih =>
    obtain ⟨calls', h'⟩ := ih (by omega)
    exact h'.step (by omega) false

/-- No history tells the stores apart by a read with these arguments. -/
def ReadsAgree (topic : String) (from_ to_ : Option String) (limit : Int) : Prop :=
  ∀ calls, Plain calls → ∀ now, Agrees ((EventStore.run {} calls).read now topic from_ to_ limit)
    ((run {} calls).read now topic from_ to_ limit)

private theorem offsetFor_code {topic c : String} {e : PyError} (h : Cursor.offsetFor topic c = .error e) :
    e.code? ≠ some .cursorExpired := by
  rcases Cursor.offsetFor_error h with hcode | ⟨message, rfl⟩
  · simp [hcode]
  · simp [PyError.code?]

/-- Only the start of a read can have expired. -/
private theorem endOffset_code {topic : String} {to_ : Option String} {e : PyError}
    (h : EventStore.endOffset topic to_ = .error e) : e.code? ≠ some .cursorExpired := by
  cases to_ with
  | none => cases h
  | some c =>
    simp only [EventStore.endOffset] at h
    split at h
    · cases h
    · cases hoff : Cursor.offsetFor topic c with
      | ok t => simp [hoff, Except.map] at h
      | error e' =>
        simp only [hoff, Except.map, Except.error.injEq] at h
        exact h ▸ offsetFor_code hoff

private theorem upperBound_code {topic : String} {to_ : Option String} {e : PyError}
    (h : upperBound topic to_ = .error e) : e.code? ≠ some .cursorExpired := by
  cases to_ with
  | none => cases h
  | some c =>
    cases hoff : Cursor.offsetFor topic c with
    | ok t => simp [upperBound, hoff, Except.map] at h
    | error e' =>
      simp only [upperBound, hoff, Except.map, Except.error.injEq] at h
      exact h ▸ offsetFor_code hoff

private theorem fetchPage_code {limit : Int} {selected : List EventRecord} {e : PyError}
    (h : fetchPage limit selected = .error e) : e.code? = none := by
  simp only [fetchPage] at h
  split at h
  · cases h
    rfl
  · split at h
    · split at h
      · cases h
        rfl
      · cases h
    · cases h

/-- A history that leaves one live event. -/
private theorem staged_single (topic : String) {n : Nat}
    (hn : n < 10 ^ Cursor.offsetWidth) : ∃ calls r, Plain calls ∧
      (∃ log, (EventStore.run {} calls).logs.get? topic = some log) ∧
      (EventStore.run {} calls).live (seconds 10) topic = [r] ∧ r.LiesAt topic n := by
  obtain ⟨_, hold⟩ := (staged_zero topic).skip (Nat.zero_le n) (Nat.le_of_lt hn)
  obtain ⟨calls, hstaged⟩ := hold.step hn true
  have hlive := hstaged.live
  simp only [if_true, List.nil_append, List.forall₂_cons_right_iff, List.forall₂_nil_right_iff] at hlive
  obtain ⟨r, _, hr, rfl, heq⟩ := hlive
  obtain ⟨log, hlog, -, -⟩ := hstaged.log
  exact ⟨calls, r, hstaged.history hn, ⟨log, hlog⟩, heq, hr⟩

/-- A `fromCursor` that lies elsewhere as a text expires at another time. -/
private theorem aligned_from {topic c : String} {to_ : Option String} {limit : Int}
    (hagree : ReadsAgree topic (some c) to_ limit) : Aligned topic (-1) c := by
  intro o ho n _ hn cursor hcursor
  have hname := Cursor.topic_ne_of_offsetFor ho
  have hlatest : some c ≠ some Cursor.latest := fun h =>
    Cursor.ne_sentinel_of_offsetFor ho (by decide) (Option.some.inj h)
  -- event number `n` is the only live one
  obtain ⟨calls, r, hplain, ⟨log, hlog⟩, hlive, hr⟩ := staged_single topic hn
  obtain ⟨hmem, hpg⟩ := reads_eq hplain hlog (seconds 10) hlatest to_ limit
  have hanswer := hagree calls hplain (seconds 10)
  have hearliest := @Cursor.ne_sentinel_of_offsetFor _ _ Cursor.earliest _ ho (by decide)
  have hcur : r.cursor = cursor := by
    have henc := hr.cursor
    rw [hcursor] at henc
    exact (Except.ok.inj henc).symm
  have hoff : Cursor.offsetOf cursor = .ok n := by
    simpa using Cursor.offsetOf_encode hname hcursor
  have hasc := (mirrors_of_calls hplain).wf.ascending hname (seconds 10)
  rw [hlive] at hasc
  rw [hmem, hpg, hlive] at hanswer
  simp only [EventStore.startOffset, lowerBound, if_neg hearliest, ho, List.head?_cons, hcur, hoff]
    at hanswer
  by_cases hlt : o < n
  · simp only [hlt, iff_true]
    by_contra htext
    rw [if_pos hlt, if_neg htext] at hanswer
    cases hup : upperBound topic to_ with
    | error e =>
      rw [hup] at hanswer
      exact upperBound_code hup hanswer.symm
    | ok upper =>
      simp only [hup] at hanswer
      cases hpage : fetchPage limit ([r].filter (inBounds (some c) upper)) with
      | error e =>
        rw [hpage] at hanswer
        have hcode : some ErrorCode.cursorExpired = e.code? := hanswer
        rw [fetchPage_code hpage] at hcode
        cases hcode
      | ok page =>
        rw [hpage] at hanswer
        exact hanswer
  · simp only [hlt, iff_false]
    intro htext
    rw [if_neg hlt, if_pos htext] at hanswer
    cases hend : EventStore.endOffset topic to_ with
    | error e =>
      rw [hend] at hanswer
      exact endOffset_code hend hanswer
    | ok toOffset =>
      simp only [hend, EventStore.collect_page hasc] at hanswer
      exact hanswer

/-- The start of a read that is neither at `latest` nor refused. -/
private inductive Starts (topic : String) : Option String → Prop where
  | first : Starts topic none
  | earliest : Starts topic (some Cursor.earliest)
  | after {c : String} {o : Nat} (h : Cursor.offsetFor topic c = .ok o) : Starts topic (some c)

private theorem Starts.ne_latest {topic : String} {from_ : Option String} (h : Starts topic from_) :
    from_ ≠ some Cursor.latest := by
  cases h with
  | first => exact fun h => (by cases h)
  | earliest => decide
  | after h => exact fun heq => Cursor.ne_sentinel_of_offsetFor h (by decide) (Option.some.inj heq)

/-- Over an empty log such a read starts. -/
private theorem Starts.nil {topic : String} {from_ : Option String} (h : Starts topic from_) :
    (∃ start, EventStore.startOffset [] topic from_ = .ok start) ∧
      ∃ lower, lowerBound [] topic from_ = .ok lower := by
  cases h with
  | first => exact ⟨⟨_, rfl⟩, ⟨_, rfl⟩⟩
  | earliest => exact ⟨⟨_, rfl⟩, ⟨_, rfl⟩⟩
  | after h =>
    have hne := @Cursor.ne_sentinel_of_offsetFor _ _ Cursor.earliest _ h (by decide)
    simp [EventStore.startOffset, lowerBound, if_neg hne, h]

/-- What reads answer over an empty log. -/
private theorem answers_nil {topic : String} {from_ to_ : Option String} {limit : Int}
    (hstarts : Starts topic from_) (hagree : ReadsAgree topic from_ to_ limit) :
    Agrees ((EventStore.endOffset topic to_).map fun _ => (([], none) : List EventRecord × Option String))
      (match upperBound topic to_ with
      | .error e => .error e
      | .ok _ => fetchPage limit []) := by
  have hstaged := staged_zero topic
  have hplain := hstaged.history (Nat.zero_le _)
  obtain ⟨log, hlog, -, -⟩ := hstaged.log
  obtain ⟨hmem, hpg⟩ := reads_eq hplain hlog (seconds 10) hstarts.ne_latest to_ limit
  have hlive : (EventStore.run {} [.declareTopic { name := topic, retentionSeconds := 1 }]).live
      (seconds 10) topic = [] := List.forall₂_nil_right_iff.mp hstaged.live
  obtain ⟨⟨start, hstart⟩, lower, hlower⟩ := hstarts.nil
  have hanswer := hagree _ hplain (seconds 10)
  rw [hmem, hpg, hlive, hstart, hlower] at hanswer
  cases hend : EventStore.endOffset topic to_ with
  | error e => simpa [hend, Except.map] using hanswer
  | ok toOffset => simpa [hend, Except.map, EventStore.collect] using hanswer

/-- The empty text is no cursor for one store and no bound for the other. -/
private theorem toCursor_ne_empty {topic c : String} {from_ : Option String} {limit : Int}
    (hstarts : Starts topic from_) (hagree : ReadsAgree topic from_ (some c) limit) : c ≠ "" := by
  rintro rfl
  have hanswer := answers_nil hstarts hagree
  have hupper : ∃ e, upperBound topic (some "") = .error e := ⟨_, rfl⟩
  obtain ⟨e, he⟩ := hupper
  rw [he] at hanswer
  exact hanswer

/-- Over an empty log only a limit of the range of `LIMIT` gives a page. -/
private theorem limit_range {topic : String} {from_ to_ : Option String} {limit : Int}
    (hstarts : Starts topic from_) (hend : ∃ toOffset, EventStore.endOffset topic to_ = .ok toOffset)
    (hupper : ∃ upper, upperBound topic to_ = .ok upper) (hagree : ReadsAgree topic from_ to_ limit) :
    0 ≤ limit ∧ limit < maxBigint := by
  have hanswer := answers_nil hstarts hagree
  obtain ⟨toOffset, hend⟩ := hend
  obtain ⟨upper, hupper⟩ := hupper
  rw [hend, hupper] at hanswer
  simp only [fetchPage, List.take_nil, List.length_nil, List.getLast?_nil] at hanswer
  split at hanswer
  · exact hanswer.elim
  · split at hanswer
    · exact hanswer.elim
    · omega

/-- A topic without a name has no readable cursors in memory. -/
private theorem name_ne_empty {topic : String} {from_ : Option String} {limit : Int}
    (hstarts : Starts topic from_) (hagree : ReadsAgree topic from_ none limit) : topic ≠ "" := by
  rintro rfl
  obtain ⟨calls, r, hplain, ⟨log, hlog⟩, hlive, hr⟩ := staged_single "" (n := 0) (by decide)
  obtain ⟨hmem, hpg⟩ := reads_eq hplain hlog (seconds 10) hstarts.ne_latest none limit
  have hanswer := hagree calls hplain (seconds 10)
  obtain ⟨e, he, hcode⟩ := Cursor.split_encode_empty hr.cursor
  have hbounds : EventStore.startOffset [r] "" from_ = .ok (-1) ∧ lowerBound [r] "" from_ = .ok none := by
    cases hstarts with
    | first => exact ⟨rfl, rfl⟩
    | earliest => exact ⟨rfl, rfl⟩
    | after h => exact absurd rfl (Cursor.topic_ne_of_offsetFor h)
  rw [hmem, hpg, hlive, hbounds.1, hbounds.2] at hanswer
  simp only [EventStore.endOffset, EventStore.collect, Cursor.offsetOf, he, Except.map, upperBound]
    at hanswer
  cases hpage : fetchPage limit ([r].filter (inBounds none none)) with
  | ok page =>
    rw [hpage] at hanswer
    exact hanswer
  | error e' =>
    rw [hpage] at hanswer
    have hsame : e.code? = e'.code? := hanswer
    rw [hcode, fetchPage_code hpage] at hsame
    cases hsame

/-- A history that leaves one live event after the start of a read. If the read starts at a cursor,
    the event of that cursor is live as well, so that it has not expired. -/
private theorem staged_after {topic : String} (hname : topic ≠ "") {from_ : Option String}
    (hstarts : Starts topic from_) {n : Nat} (habove : startOf topic from_ < n)
    (hn : n < 10 ^ Cursor.offsetWidth) : ∃ calls front r, Plain calls ∧
      (∃ log, (EventStore.run {} calls).logs.get? topic = some log) ∧
      (EventStore.run {} calls).live (seconds 10) topic = front ++ [r] ∧ r.LiesAt topic n ∧
      (∀ q ∈ front, (q.offset : Int) ≤ startOf topic from_) ∧
      EventStore.startOffset (front ++ [r]) topic from_ = .ok (startOf topic from_) := by
  cases hstarts with
  | first =>
    obtain ⟨calls, r, hplain, hlog, hlive, hr⟩ := staged_single topic hn
    exact ⟨calls, [], r, hplain, hlog, hlive, hr, (fun q hq => (by cases hq)), rfl⟩
  | earliest =>
    obtain ⟨calls, r, hplain, hlog, hlive, hr⟩ := staged_single topic hn
    refine ⟨calls, [], r, hplain, hlog, hlive, hr, (fun q hq => (by cases hq)), ?_⟩
    have hrefused : ∀ o, Cursor.offsetFor topic Cursor.earliest ≠ .ok o := fun o ho =>
      Cursor.ne_sentinel_of_offsetFor ho (by decide) rfl
    simp only [EventStore.startOffset, if_true, startOf]
    split
    · rename_i o ho
      exact absurd ho (hrefused o)
    · rfl
  | @after c o h =>
    have hstart : startOf topic (some c) = o := by simp only [startOf, h]
    rw [hstart] at habove ⊢
    have hlt : o < n := by omega
    obtain ⟨_, hold⟩ := (staged_zero topic).skip (Nat.zero_le o) (by omega)
    obtain ⟨_, hnamed⟩ := hold.step (by omega) true
    obtain ⟨_, hmore⟩ := hnamed.skip (m := n) hlt (Nat.le_of_lt hn)
    obtain ⟨calls, hstaged⟩ := hmore.step hn true
    have hplain := hstaged.history hn
    obtain ⟨log, hlog, -, -⟩ := hstaged.log
    have hlive := hstaged.live
    simp only [if_true, List.nil_append, List.singleton_append, List.forall₂_cons_right_iff,
      List.forall₂_nil_right_iff] at hlive
    obtain ⟨q, _, hq, ⟨r, _, hr, rfl, rfl⟩, heq⟩ := hlive
    have hoffset := hq.offset_eq hname
    have hasc := (mirrors_of_calls hplain).wf.ascending hname (seconds 10)
    rw [heq] at hasc
    refine ⟨calls, [q], r, hplain, ⟨log, hlog⟩, heq, hr, fun q' hq' => ?_, ?_⟩
    · rw [List.mem_singleton.mp hq', hoffset]
    · refine EventStore.startOffset_cursor hasc h fun q' hq' => ?_
      simp only [List.head?_cons, Option.some.injEq] at hq'
      rw [← hq', hoffset]

/-- What reads answer when a single live event lies after their start. -/
private theorem answers_single {topic : String} (hname : topic ≠ "") {from_ to_ : Option String}
    {limit : Int} (hstarts : Starts topic from_) (hfrom : ∀ c, from_ = some c → Aligned topic (-1) c)
    (hagree : ReadsAgree topic from_ to_ limit) {n : Nat} (habove : startOf topic from_ < n)
    (hn : n < 10 ^ Cursor.offsetWidth) {toOffset : Option Nat} {upper : Option String}
    (hend : EventStore.endOffset topic to_ = .ok toOffset) (hupper : upperBound topic to_ = .ok upper) :
    ∃ r, r.LiesAt topic n ∧
      Agrees (.ok (EventStore.firstPage limit (if toOffset.all (fun t => decide (n ≤ t)) = true then [r] else [])))
        (fetchPage limit (if upper.all (fun c => decide (r.cursor ≤ c)) = true then [r] else [])) := by
  obtain ⟨calls, front, r, hplain, ⟨log, hlog⟩, hlive, hr, hfront, hstart⟩ :=
    staged_after hname hstarts habove hn
  obtain ⟨hmem, hpg⟩ := reads_eq hplain hlog (seconds 10) hstarts.ne_latest to_ limit
  have hanswer := hagree calls hplain (seconds 10)
  have hasc := (mirrors_of_calls hplain).wf.ascending hname (seconds 10)
  have hnum := numbered_live hplain (seconds 10) hname
  have hoffset := hr.offset_eq hname
  rw [hlive] at hmem hpg hasc hnum
  rcases lowerBound_eq (fun _ => hnum) hfrom with ⟨e, herr, -⟩ | ⟨lower, -, hlower, hbounds⟩
  · rw [hstart] at herr
    cases herr
  have hsame : ∀ q ∈ front ++ [r], (startOf topic from_ < q.offset ↔ q = r) := by
    intro q hq
    rcases List.mem_append.mp hq with hq | hq
    · have hle := hfront q hq
      refine ⟨fun h => absurd h (by omega), fun h => ?_⟩
      rw [h, hoffset] at hle
      omega
    · rw [List.mem_singleton.mp hq, hoffset]
      simp [habove]
  -- only `r` lies after the start, for both stores
  have hfrontOut : ∀ test : EventRecord → Bool, (∀ q ∈ front ++ [r], test q = true → startOf topic from_ < q.offset) →
      (front ++ [r]).filter test = if test r = true then [r] else [] := by
    intro test htest
    have hnone : front.filter test = [] := by
      rw [List.filter_eq_nil_iff]
      intro q hq hin
      have hlt := htest q (List.mem_append_left _ hq) hin
      have hle := hfront q hq
      omega
    rw [List.filter_append, hnone, List.nil_append, List.filter_cons, List.filter_nil]
  have hinRange : (front ++ [r]).filter (EventStore.inRange (startOf topic from_) toOffset) =
      if toOffset.all (fun t => decide (n ≤ t)) = true then [r] else [] := by
    rw [hfrontOut _ fun q _ hin => ?_]
    · simp only [EventStore.inRange, hoffset, habove, decide_true, Bool.true_and]
    · simp only [EventStore.inRange, Bool.and_eq_true, decide_eq_true_eq] at hin
      exact hin.1
  have hinBounds : (front ++ [r]).filter (inBounds lower upper) =
      if upper.all (fun c => decide (r.cursor ≤ c)) = true then [r] else [] := by
    rw [hfrontOut _ fun q hq hin => ?_]
    · rw [inBounds, hbounds r (by simp), hoffset]
      simp only [habove, decide_true, Bool.true_and]
    · rw [inBounds, hbounds q hq, Bool.and_eq_true, decide_eq_true_eq] at hin
      exact hin.1
  rw [hmem, hpg, hstart, hlower] at hanswer
  simp only [hend, hupper, EventStore.collect_page hasc, hinRange, hinBounds] at hanswer
  exact ⟨r, hr, hanswer⟩

/-- Both stores have to select the event, or neither; with a limit of zero, neither. -/
private theorem selected_iff {limit : Int} (hlimit : 0 ≤ limit ∧ limit < maxBigint) {r : EventRecord}
    {p q : Bool} (h : Agrees (.ok (EventStore.firstPage limit (if p = true then [r] else [])))
      (fetchPage limit (if q = true then [r] else []))) : p = q ∧ (limit = 0 → p = false) := by
  by_cases hzero : limit = 0
  · subst hzero
    -- a selected event has no page of length zero to end
    have hraise : fetchPage 0 [r] = .error (.other "IndexError") := rfl
    cases q with
    | true =>
      rw [if_pos rfl, hraise] at h
      exact h.elim
    | false =>
      cases p with
      | true => cases (show ([r], none) = ([], none) from h)
      | false => exact ⟨rfl, fun _ => rfl⟩
  · rw [fetchPage_eq (by omega) hlimit.2] at h
    refine ⟨?_, fun h' => absurd h' hzero⟩
    have hrecords : ∀ b : Bool, (EventStore.firstPage limit (if b = true then [r] else [])).1 =
        if b = true then [r] else [] := by
      intro b
      have hmax : 1 ≤ max 1 limit.toNat := Nat.le_max_left _ _
      cases b with
      | true => exact List.take_of_length_le hmax
      | false => exact List.take_nil
    have hpage := congrArg Prod.fst (show _ = _ from h)
    rw [hrecords, hrecords] at hpage
    cases p <;> cases q <;> first | rfl | cases hpage

/-- What is left of the arguments once both ends of the read are accepted. -/
private theorem comparable_of_agree {topic : String} {from_ to_ : Option String} {limit : Int}
    (hstarts : Starts topic from_) (hfrom : ∀ c, from_ = some c → Aligned topic (-1) c)
    (hto : ∀ c, to_ = some c → ∃ t, Cursor.offsetFor topic c = .ok t)
    (hagree : ReadsAgree topic from_ to_ limit) : Comparable topic from_ to_ limit := by
  cases to_ with
  | none =>
    have hname := name_ne_empty hstarts hagree
    have hlimit := limit_range hstarts ⟨_, rfl⟩ ⟨_, rfl⟩ hagree
    refine .page hname hfrom (fun c hc => (by cases hc)) ?_
    by_cases hzero : limit = 0
    · -- without an end the first event after the start would be selected
      refine .inr ⟨hzero, fun n habove hn => ?_⟩
      obtain ⟨r, -, hanswer⟩ := answers_single hname hstarts hfrom hagree habove hn rfl rfl
      cases ((selected_iff hlimit hanswer).2 hzero)
    · exact .inl ⟨by omega, hlimit.2⟩
  | some c =>
    obtain ⟨t, ht⟩ := hto c rfl
    have hname := Cursor.topic_ne_of_offsetFor ht
    have hne := toCursor_ne_empty hstarts hagree
    have hend : EventStore.endOffset topic (some c) = .ok (some t) := by
      simp [EventStore.endOffset, hne, ht, Except.map]
    have hupper : upperBound topic (some c) = .ok (some c) := by
      simp [upperBound, ht, Except.map]
    have hlimit := limit_range hstarts ⟨_, hend⟩ ⟨_, hupper⟩ hagree
    have hselected : ∀ n : Nat, startOf topic from_ < n → n < 10 ^ Cursor.offsetWidth →
        ∀ cursor, Cursor.encode topic n = .ok cursor →
          decide (n ≤ t) = decide (cursor ≤ c) ∧ (limit = 0 → decide (n ≤ t) = false) := by
      intro n habove hn cursor hcursor
      obtain ⟨r, hr, hanswer⟩ := answers_single hname hstarts hfrom hagree habove hn hend hupper
      have hcur : r.cursor = cursor := by
        have henc := hr.cursor
        rw [hcursor] at henc
        exact (Except.ok.inj henc).symm
      rw [hcur] at hanswer
      exact selected_iff hlimit hanswer
    refine .page hname hfrom (fun c' hc' => ?_) ?_
    · cases hc'
      refine ⟨hne, fun o ho n habove hn cursor hcursor => ?_⟩
      rw [ht] at ho
      cases ho
      have hiff := decide_eq_decide.mp (hselected n habove hn cursor hcursor).1
      rw [← Nat.not_le, hiff, String.not_le]
    · by_cases hzero : limit = 0
      · refine .inr ⟨hzero, fun n habove hn => ⟨c, t, rfl, ht, ?_⟩⟩
        obtain ⟨cursor, hcursor⟩ := Cursor.exists_encode topic hn
        exact Nat.not_le.mp (of_decide_eq_false ((hselected n habove hn cursor hcursor).2 hzero))
      · exact .inl ⟨by omega, hlimit.2⟩

end PostgresEventStore

end A2AEvents

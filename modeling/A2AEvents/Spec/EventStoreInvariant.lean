import A2AEvents.Native.EventStore
import A2AEvents.Spec.CursorCorrect

/-!
# Invariant of the event store

The events of a log are numbered in ascending order below `nextOffset`, their cursors
encode these numbers and their payloads have a canonical encoding. Every operation
keeps this, and reading a log returns exactly the live events of the requested range
up to the page limit.

## Key results

- `EventStore.Wf.declareTopic`, `Wf.append`, `Wf.compact`: the invariant is kept
- `EventStore.Grows`: topics never change and offsets are never taken back
- `EventStore.read_ok`: what a page holds and what it leaves out
- `EventStore.latestCursor_ok`: what the cursor of the head spells
-/

namespace A2AEvents

/-- The record is the event number `o` of topic `name`. -/
structure EventRecord.LiesAt (r : EventRecord) (name : String) (o : Nat) : Prop where
  topic : r.topic = name
  cursor : Cursor.encode name o = .ok r.cursor

theorem EventRecord.LiesAt.unique {r : EventRecord} {name : String} {a b : Nat}
    (ha : r.LiesAt name a) (hb : r.LiesAt name b) : a = b := by
  have := Cursor.encode_inj ha.cursor hb.cursor
  omega

theorem EventRecord.LiesAt.offsetOf {r : EventRecord} {name : String} {o n : Nat}
    (h : r.LiesAt name o) (hn : Cursor.offsetOf r.cursor = .ok n) : n = o := by
  simpa using (Cursor.eq_of_offsetOf_encode h.cursor hn).1

theorem EventRecord.LiesAt.split {r : EventRecord} {name : String} {o n : Nat}
    (h : r.LiesAt name o) (hn : Cursor.offsetOf r.cursor = .ok n) :
    Cursor.split r.cursor = .ok (name, o) := by
  simpa using Cursor.split_encode (Cursor.eq_of_offsetOf_encode h.cursor hn).2 h.cursor

/-- What every log satisfies. -/
structure TopicLog.Wf (name : String) (log : TopicLog) : Prop where
  name_eq : log.topic.name = name
  numbered : ∀ r ∈ log.events, ∃ o, o < log.nextOffset ∧ r.LiesAt name o
  sorted : log.events.Pairwise fun a b => ∀ x y, a.LiesAt name x → b.LiesAt name y → x < y
  canonical : ∀ r ∈ log.events, ∃ bytes, canonicalize (.obj r.data) = .ok bytes

/-- The last event is the one with the largest offset. -/
theorem TopicLog.Wf.last_event {name : String} {log : TopicLog} (hlog : log.Wf name) {last : EventRecord}
    (hlast : log.events.getLast? = some last) :
    ∃ o, o < log.nextOffset ∧ last.LiesAt name o ∧ ∀ r ∈ log.events, ∀ x, r.LiesAt name x → x ≤ o := by
  obtain ⟨o, hlt, hat⟩ := hlog.numbered last (List.mem_of_getLast? hlast)
  refine ⟨o, hlt, hat, fun r hr x hx => ?_⟩
  obtain ⟨init, hinit⟩ := List.getLast?_eq_some_iff.mp hlast
  have hsorted := hlog.sorted
  rw [hinit] at hr hsorted
  rcases List.mem_append.mp hr with hr | hr
  · exact Nat.le_of_lt ((List.pairwise_append.mp hsorted).2.2 r hr last (by simp) x o hx hat)
  · rw [List.mem_singleton.mp hr] at hx
    exact (hx.unique hat).le

/-- A log whose next offset went to `record`. -/
def TopicLog.push (log : TopicLog) (record : EventRecord) : TopicLog :=
  { log with nextOffset := log.nextOffset + 1, events := log.events ++ [record] }

namespace EventStore

/-- What every store satisfies. -/
def Wf (store : EventStore) : Prop :=
  ∀ name log, store.logs.get? name = some log → log.Wf name

/-- The events that a topic still has. -/
def events (store : EventStore) (name : String) : List EventRecord :=
  match store.logs.get? name with
  | some log => log.events
  | none => []

/-- The events of a topic inside its retention window. -/
def live (store : EventStore) (now : Time) (name : String) : List EventRecord :=
  match store.logs.get? name with
  | some log => liveLog now log
  | none => []

/-- Topics never change and offsets are never taken back. -/
def Grows (a b : EventStore) : Prop :=
  ∀ name log, a.logs.get? name = some log →
    ∃ log', b.logs.get? name = some log' ∧ log'.topic = log.topic ∧ log.nextOffset ≤ log'.nextOffset

theorem Grows.refl (a : EventStore) : Grows a a := fun _ log h => ⟨log, h, rfl, Nat.le_refl _⟩

theorem Grows.trans {a b c : EventStore} (hab : Grows a b) (hbc : Grows b c) : Grows a c := by
  intro name log h
  obtain ⟨log₁, h₁, ht₁, ho₁⟩ := hab name log h
  obtain ⟨log₂, h₂, ht₂, ho₂⟩ := hbc name log₁ h₁
  exact ⟨log₂, h₂, ht₂.trans ht₁, Nat.le_trans ho₁ ho₂⟩

theorem Grows.count {a b : EventStore} (h : Grows a b) (name : String) :
    a.count name ≤ b.count name := by
  simp only [EventStore.count]
  cases ha : a.logs.get? name with
  | none => exact Nat.zero_le _
  | some log =>
    obtain ⟨log', hb, -, ho⟩ := h name log ha
    simpa [hb] using ho

theorem events_of_get? {store : EventStore} {name : String} {log : TopicLog}
    (h : store.logs.get? name = some log) : store.events name = log.events := by
  simp [events, h]

theorem count_of_get? {store : EventStore} {name : String} {log : TopicLog}
    (h : store.logs.get? name = some log) : store.count name = log.nextOffset := by
  simp [count, h]

theorem mem_live {store : EventStore} {now : Time} {name : String} {r : EventRecord} :
    r ∈ store.live now name ↔ ∃ log, store.logs.get? name = some log ∧ r ∈ log.events ∧
      retained log.topic now r = true := by
  simp only [live]
  cases store.logs.get? name with
  | none => simp
  | some log => simp [liveLog]

/-- Live events are events. -/
theorem mem_events_of_mem_live {store : EventStore} {now : Time} {name : String} {r : EventRecord}
    (h : r ∈ store.live now name) : r ∈ store.events name := by
  obtain ⟨log, hlog, hr, -⟩ := mem_live.mp h
  rwa [events_of_get? hlog]

/-- Every event of a well-formed store has its number. -/
theorem Wf.liesAt {store : EventStore} (hwf : store.Wf) {name : String} {r : EventRecord}
    (h : r ∈ store.events name) : ∃ o, o < store.count name ∧ r.LiesAt name o := by
  simp only [events] at h
  cases hlog : store.logs.get? name with
  | none => simp [hlog] at h
  | some log =>
    simp only [hlog] at h
    rw [count_of_get? hlog]
    exact (hwf name log hlog).numbered r h

theorem Wf.live_sorted {store : EventStore} (hwf : store.Wf) (now : Time) (name : String) :
    (store.live now name).Pairwise fun a b => ∀ x y, a.LiesAt name x → b.LiesAt name y → x < y := by
  simp only [live]
  cases hlog : store.logs.get? name with
  | none => exact List.Pairwise.nil
  | some log => exact (hwf name log hlog).sorted.filter _

/-- Time only takes events out of retention. -/
theorem mem_live_of_le {store : EventStore} {now later : Time} {name : String} {r : EventRecord}
    (hle : now ≤ later) (h : r ∈ store.live later name) : r ∈ store.live now name := by
  obtain ⟨log, hlog, hr, hret⟩ := mem_live.mp h
  refine mem_live.mpr ⟨log, hlog, hr, ?_⟩
  simp only [retained, Bool.or_eq_true, decide_eq_true_eq, ge_iff_le] at hret ⊢
  exact hret.imp_right fun h => Int.le_trans (Int.sub_le_sub_right hle _) h

/-! ## The operations keep the invariant -/

theorem Wf.declareTopic {store : EventStore} (hwf : store.Wf) (topic : Topic) :
    (store.declareTopic topic).Wf := by
  intro name log h
  simp only [EventStore.declareTopic, Dict.get?_setDefault] at h
  split at h
  · rename_i hname
    subst hname
    cases hold : store.logs.get? topic.name with
    | some old =>
      simp only [hold, Option.getD_some, Option.some.injEq] at h
      subst h
      exact hwf _ _ hold
    | none =>
      simp only [hold, Option.getD_none, Option.some.injEq] at h
      subst h
      exact ⟨rfl, by simp, by simp, by simp⟩
  · exact hwf name log h

theorem grows_declareTopic (store : EventStore) (topic : Topic) :
    Grows store (store.declareTopic topic) := by
  intro name log h
  refine ⟨log, ?_, rfl, Nat.le_refl _⟩
  simp only [EventStore.declareTopic, Dict.get?_setDefault]
  split
  · rename_i hname
    subst hname
    simp [h]
  · exact h

theorem events_declareTopic (store : EventStore) (topic : Topic) (name : String) :
    (store.declareTopic topic).events name = store.events name := by
  simp only [events, EventStore.declareTopic, Dict.get?_setDefault]
  by_cases hname : name = topic.name
  · subst hname
    cases h : store.logs.get? topic.name <;> simp
  · simp [hname]

/-- The store with another log for a topic. -/
def setLog (store : EventStore) (topic : String) (log : TopicLog) : EventStore :=
  { logs := store.logs.set topic log }

/-- Consuming an offset without an event. -/
private theorem wf_take {store : EventStore} (hwf : store.Wf) {topic : String} {log : TopicLog}
    (hlog : store.logs.get? topic = some log) :
    (store.setLog topic { log with nextOffset := log.nextOffset + 1 }).Wf := by
  intro name log' h
  rw [setLog, Dict.get?_set] at h
  split at h
  · rename_i hname
    subst hname
    simp only [Option.some.injEq] at h
    subst h
    obtain ⟨h₁, h₂, h₃, h₄⟩ := hwf _ _ hlog
    refine ⟨h₁, ?_, h₃, h₄⟩
    intro r hr
    obtain ⟨o, ho, hat⟩ := h₂ r hr
    exact ⟨o, Nat.lt_succ_of_lt ho, hat⟩
  · exact hwf name log' h

/-- What `append` can do. -/
theorem append_cases (store : EventStore) (now : Time) (eventId topic eventType source : String)
    (data : List (String × Json)) (subject : Option String) :
    (store.logs.get? topic = none ∧
      store.append now eventId topic eventType source data subject = (topicNotFound topic, store)) ∨
    ∃ log, store.logs.get? topic = some log ∧
      ((∃ e, store.append now eventId topic eventType source data subject =
          (.error e, store.setLog topic { log with nextOffset := log.nextOffset + 1 })) ∨
        ∃ record bytes, record.LiesAt topic log.nextOffset ∧ record.eventId = eventId ∧
          record.createdAt = now ∧ canonicalize (.obj record.data) = .ok bytes ∧
          store.append now eventId topic eventType source data subject =
            (.ok record, store.setLog topic (log.push record))) := by
  cases hlog : store.logs.get? topic with
  | none => exact .inl ⟨rfl, by simp [append, hlog]⟩
  | some log =>
    refine .inr ⟨log, rfl, ?_⟩
    cases henc : Cursor.encode topic (log.nextOffset : Int) with
    | error e => exact .inl ⟨e, by simp [append, hlog, henc, setLog]⟩
    | ok cursor =>
      cases hcan : canonicalize (.obj data) with
      | error e => exact .inl ⟨e, by simp [append, hlog, henc, hcan, setLog]⟩
      | ok bytes =>
        refine .inr ⟨{ eventId, topic, cursor, eventType, source, data, subject, createdAt := now },
          bytes, ⟨rfl, henc⟩, rfl, rfl, hcan, ?_⟩
        simp [append, hlog, henc, hcan, setLog, TopicLog.push]

theorem Wf.append {store : EventStore} (hwf : store.Wf) (now : Time)
    (eventId topic eventType source : String) (data : List (String × Json))
    (subject : Option String) :
    (store.append now eventId topic eventType source data subject).2.Wf := by
  obtain ⟨-, h⟩ | ⟨log, hlog, ⟨e, h⟩ | ⟨record, bytes, hat, -, -, hcan, h⟩⟩ :=
    append_cases store now eventId topic eventType source data subject
  · rw [h]; exact hwf
  · rw [h]; exact wf_take hwf hlog
  · rw [h]
    intro name log' hget
    rw [setLog, Dict.get?_set] at hget
    split at hget
    · rename_i hname
      subst hname
      simp only [Option.some.injEq] at hget
      subst hget
      obtain ⟨h₁, h₂, h₃, h₄⟩ := hwf _ _ hlog
      refine ⟨h₁, ?_, ?_, ?_⟩
      · intro r hr
        rcases List.mem_append.mp hr with hr | hr
        · obtain ⟨o, ho, hr⟩ := h₂ r hr
          exact ⟨o, Nat.lt_succ_of_lt ho, hr⟩
        · obtain rfl := List.mem_singleton.mp hr
          exact ⟨log.nextOffset, Nat.lt_succ_self _, hat⟩
      · -- the new event lies above all the others
        refine List.pairwise_append.mpr ⟨h₃, List.pairwise_singleton _ _, ?_⟩
        intro a ha b hb x y hx hy
        obtain rfl := List.mem_singleton.mp hb
        obtain ⟨o, ho, hao⟩ := h₂ a ha
        rw [hx.unique hao, hy.unique hat]
        exact ho
      · intro r hr
        rcases List.mem_append.mp hr with hr | hr
        · exact h₄ r hr
        · obtain rfl := List.mem_singleton.mp hr
          exact ⟨bytes, hcan⟩
    · exact hwf name log' hget

theorem grows_append (store : EventStore) (now : Time) (eventId topic eventType source : String)
    (data : List (String × Json)) (subject : Option String) :
    Grows store (store.append now eventId topic eventType source data subject).2 := by
  intro name old hold
  obtain ⟨-, h⟩ | ⟨log, hlog, ⟨e, h⟩ | ⟨record, bytes, -, -, -, -, h⟩⟩ :=
    append_cases store now eventId topic eventType source data subject
  · rw [h]; exact ⟨old, hold, rfl, Nat.le_refl _⟩
  all_goals
    rw [h]
    simp only [setLog, Dict.get?_set]
    split
    · rename_i hname
      subst hname
      rw [hlog] at hold
      cases hold
      exact ⟨_, rfl, rfl, Nat.le_succ _⟩
    · exact ⟨old, hold, rfl, Nat.le_refl _⟩

/-- A successful append numbers the event with the count before it. -/
theorem append_ok {store : EventStore} {now : Time} {eventId topic eventType source : String}
    {data : List (String × Json)} {subject : Option String} {r : EventRecord}
    (h : (store.append now eventId topic eventType source data subject).1 = .ok r) :
    r.LiesAt topic (store.count topic) ∧ store.count topic <
      (store.append now eventId topic eventType source data subject).2.count topic := by
  obtain ⟨-, h'⟩ | ⟨log, hlog, ⟨e, h'⟩ | ⟨record, bytes, hat, -, -, -, h'⟩⟩ :=
    append_cases store now eventId topic eventType source data subject
  · rw [h'] at h; cases h
  · rw [h'] at h; cases h
  · rw [h'] at h ⊢
    simp only [Except.ok.injEq] at h
    subst h
    rw [count_of_get? hlog]
    exact ⟨hat, by simp [count, setLog, TopicLog.push]⟩

theorem events_setLog (store : EventStore) (topic name : String) (log : TopicLog) :
    (store.setLog topic log).events name = if name = topic then log.events else store.events name := by
  simp only [events, setLog, Dict.get?_set]
  by_cases h : name = topic <;> simp [h]

/-- An append adds its event to its topic and nothing else. -/
theorem mem_events_append {store : EventStore} {now : Time} {eventId topic eventType source : String}
    {data : List (String × Json)} {subject : Option String} {name : String} {r : EventRecord}
    (h : r ∈ (store.append now eventId topic eventType source data subject).2.events name) :
    r ∈ store.events name ∨ (name = topic ∧
      (store.append now eventId topic eventType source data subject).1 = .ok r) := by
  obtain ⟨-, h'⟩ | ⟨log, hlog, ⟨e, h'⟩ | ⟨record, bytes, -, -, -, -, h'⟩⟩ :=
    append_cases store now eventId topic eventType source data subject
  · rw [h'] at h; exact .inl h
  · rw [h', events_setLog] at h
    split at h
    · rename_i hname
      rw [hname, events_of_get? hlog]
      exact .inl h
    · exact .inl h
  · rw [h', events_setLog] at h
    split at h
    · rename_i hname
      rw [hname, events_of_get? hlog, h']
      rcases List.mem_append.mp h with h | h
      · exact .inl h
      · exact .inr ⟨rfl, by rw [List.mem_singleton.mp h]⟩
    · exact .inl h

theorem get?_compact (store : EventStore) (now : Time) (topic : Option String)
    (name : String) : (store.compact now topic).2.logs.get? name =
      (store.logs.get? name).map fun log =>
        if topic = none ∨ topic = some name then compactLog now log else log := by
  simp [compact]

theorem Wf.compact {store : EventStore} (hwf : store.Wf) (now : Time) (topic : Option String) :
    (store.compact now topic).2.Wf := by
  intro name log h
  rw [get?_compact, Option.map_eq_some_iff] at h
  obtain ⟨old, hold, rfl⟩ := h
  obtain ⟨h₁, h₂, h₃, h₄⟩ := hwf name old hold
  split
  · refine ⟨h₁, ?_, h₃.filter _, ?_⟩
    · intro r hr
      exact h₂ r (List.mem_of_mem_filter hr)
    · intro r hr
      exact h₄ r (List.mem_of_mem_filter hr)
  · exact ⟨h₁, h₂, h₃, h₄⟩

theorem grows_compact (store : EventStore) (now : Time) (topic : Option String) :
    Grows store (store.compact now topic).2 := by
  intro name log h
  rw [get?_compact, h]
  refine ⟨_, rfl, ?_⟩
  split <;> exact ⟨rfl, Nat.le_refl _⟩

theorem mem_events_compact {store : EventStore} {now : Time} {topic : Option String}
    {name : String} {r : EventRecord} (h : r ∈ (store.compact now topic).2.events name) :
    r ∈ store.events name := by
  simp only [events, get?_compact] at h ⊢
  cases hlog : store.logs.get? name with
  | none => simp [hlog] at h
  | some log =>
    simp only [hlog, Option.map_some] at h ⊢
    split at h
    · exact List.mem_of_mem_filter h
    · exact h

/-! ## Reading -/

/-- Inside the range of a read. -/
def InRange (start : Int) (toOffset : Option Nat) (o : Nat) : Prop :=
  start < o ∧ ∀ t, toOffset = some t → o ≤ t

/-- What a page of the events `l` holds: events of `l` in the range, in order, and all of
    them up to the last one. -/
structure IsPage (name : String) (start : Int) (toOffset : Option Nat) (l page : List EventRecord) :
    Prop where
  sublist : page.Sublist l
  inRange : ∀ q ∈ page, ∀ o, q.LiesAt name o → InRange start toOffset o
  covers : ∀ r ∈ l, ∀ o, r.LiesAt name o → InRange start toOffset o →
    r ∈ page ∨ (page ≠ [] ∧ ∀ q ∈ page, ∀ x, q.LiesAt name x → x < o)

private theorem collect_ok (name : String) {live : List EventRecord} {start : Int}
    {toOffset : Option Nat} {limit : Int} {out l : List EventRecord}
    {res : List EventRecord × Option String}
    (hat : ∀ r ∈ l, ∃ o, r.LiesAt name o)
    (hsorted : l.Pairwise fun a b => ∀ x y, a.LiesAt name x → b.LiesAt name y → x < y)
    (h : collect live start toOffset limit out l = .ok res) :
    ∃ page, res.1 = out ++ page ∧ IsPage name start toOffset l page := by
  induction l generalizing out with
  | nil =>
    simp only [collect, Except.ok.injEq] at h
    subst h
    exact ⟨[], by simp, .slnil, by simp, by simp⟩
  | cons r rest ih =>
    obtain ⟨hhead, htail⟩ := List.pairwise_cons.mp hsorted
    obtain ⟨o, ho⟩ := hat r (by simp)
    have hat' : ∀ q ∈ rest, ∃ o, q.LiesAt name o := fun q hq => hat q (by simp [hq])
    simp only [collect] at h
    cases hoff : Cursor.offsetOf r.cursor with
    | error e => simp [hoff] at h
    | ok n =>
      obtain rfl := ho.offsetOf hoff
      simp only [hoff] at h
      split at h
      · -- before the range: skipped
        rename_i hle
        obtain ⟨page, hres, hp⟩ := ih hat' htail h
        refine ⟨page, hres, hp.sublist.cons _, hp.inRange, ?_⟩
        intro q hq x hx hin
        rcases List.mem_cons.mp hq with rfl | hq
        · rw [hx.unique ho] at hin
          have := hin.1
          omega
        · exact hp.covers q hq x hx hin
      · rename_i hgt
        split at h
        · -- past the range: so is everything that follows
          rename_i hany
          simp only [Except.ok.injEq] at h
          subst h
          obtain ⟨t, ht, hlt⟩ : ∃ t, toOffset = some t ∧ t < n := by
            cases toOffset with
            | none => simp at hany
            | some t => exact ⟨t, rfl, by simpa using hany⟩
          refine ⟨[], by simp, List.nil_sublist _, by simp, ?_⟩
          intro q hq x hx hin
          exfalso
          have hle := hin.2 t ht
          rcases List.mem_cons.mp hq with rfl | hq
          · rw [hx.unique ho] at hle
            omega
          · have := hhead q hq n x ho hx
            omega
        · rename_i hany
          have hin : InRange start toOffset n := by
            refine ⟨by omega, ?_⟩
            intro t ht
            simp only [ht, Option.any_some, decide_eq_true_eq, Nat.not_lt, gt_iff_lt] at hany
            exact hany
          split at h
          · -- the page is full
            have hres : res.1 = out ++ [r] := by
              cases hmore : hasMore n toOffset live with
              | error e => simp [hmore] at h
              | ok more =>
                simp only [hmore, Except.ok.injEq] at h
                rw [← h]
            refine ⟨[r], hres, (List.nil_sublist rest).cons_cons r, ?_, ?_⟩
            · intro q hq x hx
              obtain rfl := List.mem_singleton.mp hq
              rw [hx.unique ho]
              exact hin
            · intro q hq x hx _
              rcases List.mem_cons.mp hq with rfl | hq'
              · exact .inl (by simp)
              · refine .inr ⟨by simp, ?_⟩
                intro p hp y hy
                obtain rfl := List.mem_singleton.mp hp
                exact hhead q hq' y x hy hx
          · obtain ⟨page, hres, hp⟩ := ih hat' htail h
            refine ⟨r :: page, by simp [hres], hp.sublist.cons_cons r, ?_, ?_⟩
            · intro q hq x hx
              rcases List.mem_cons.mp hq with rfl | hq
              · rw [hx.unique ho]; exact hin
              · exact hp.inRange q hq x hx
            · intro q hq x hx hqin
              rcases List.mem_cons.mp hq with rfl | hq'
              · exact .inl (by simp)
              · rcases hp.covers q hq' x hx hqin with h' | ⟨-, h'⟩
                · exact .inl (by simp [h'])
                · refine .inr ⟨by simp, ?_⟩
                  intro p hp' y hy
                  rcases List.mem_cons.mp hp' with rfl | hp'
                  · exact hhead q hq' y x hy hx
                  · exact h' p hp' y hy

/-- Where a successful read started. -/
theorem startOffset_ok {live : List EventRecord} {topic : String}
    {fromCursor : Option String} {start : Int} (h : startOffset live topic fromCursor = .ok start) :
    (fromCursor = none ∧ start = -1) ∨ (fromCursor = some Cursor.earliest ∧ start = -1) ∨
      ∃ cursor n, fromCursor = some cursor ∧ Cursor.offsetFor topic cursor = .ok n ∧ start = n := by
  cases fromCursor with
  | none =>
    simp only [startOffset, Except.ok.injEq] at h
    exact .inl ⟨rfl, h.symm⟩
  | some cursor =>
    refine .inr ?_
    simp only [startOffset] at h
    split at h
    · rename_i he
      simp only [Except.ok.injEq] at h
      exact .inl ⟨by rw [he], h.symm⟩
    · refine .inr ?_
      cases hoff : Cursor.offsetFor topic cursor with
      | error e => simp [hoff] at h
      | ok n =>
        simp only [hoff] at h
        refine ⟨cursor, n, rfl, hoff, ?_⟩
        split at h
        · simpa using h.symm
        · split at h
          · cases h
          · split at h
            · cases h
            · simpa using h.symm

/-- What a page holds and what it leaves out. -/
theorem read_ok {store : EventStore} (hwf : store.Wf) {now : Time} {topic : String}
    {fromCursor toCursor : Option String} {limit : Int} {records : List EventRecord}
    {next : Option String} (hlatest : fromCursor ≠ some Cursor.latest)
    (h : store.read now topic fromCursor toCursor limit = .ok (records, next)) :
    ∃ start toOffset, startOffset (store.live now topic) topic fromCursor = .ok start ∧
      endOffset topic toCursor = .ok toOffset ∧
      IsPage topic start toOffset (store.live now topic) records := by
  simp only [read] at h
  cases hlog : store.logs.get? topic with
  | none => simp only [hlog] at h; cases h
  | some log =>
    have hlive : store.live now topic = liveLog now log := by simp [live, hlog]
    simp only [hlog, if_neg hlatest, ← hlive] at h
    cases hstart : startOffset (store.live now topic) topic fromCursor with
    | error e => simp [hstart] at h
    | ok start =>
      simp only [hstart] at h
      cases hend : endOffset topic toCursor with
      | error e => simp [hend] at h
      | ok toOffset =>
        simp only [hend] at h
        have hlogwf := hwf topic log hlog
        have hsub : (store.live now topic).Sublist log.events := by
          rw [hlive]; exact List.filter_sublist
        obtain ⟨page, hpage, hp⟩ := collect_ok topic
          (fun r hr => (hlogwf.numbered r (hsub.mem hr)).imp fun _ => And.right)
          (hlogwf.sorted.sublist hsub) h
        simp only [List.nil_append] at hpage
        exact ⟨start, toOffset, rfl, rfl, hpage ▸ hp⟩

private theorem hasMore_total {l : List EventRecord} (offset : Nat) (toOffset : Option Nat)
    (h : ∀ r ∈ l, ∃ o, Cursor.offsetOf r.cursor = .ok o) :
    ∃ more, hasMore offset toOffset l = .ok more := by
  induction l with
  | nil => exact ⟨false, rfl⟩
  | cons r rest ih =>
    obtain ⟨o, ho⟩ := h r (by simp)
    simp only [hasMore, ho]
    split
    · exact ⟨true, rfl⟩
    · exact ih fun q hq => h q (by simp [hq])

private theorem collect_total {live l : List EventRecord} (out : List EventRecord) (start : Int) (toOffset : Option Nat)
    (limit : Int) (hlive : ∀ r ∈ live, ∃ o, Cursor.offsetOf r.cursor = .ok o)
    (h : ∀ r ∈ l, ∃ o, Cursor.offsetOf r.cursor = .ok o) :
    ∃ res, collect live start toOffset limit out l = .ok res := by
  induction l generalizing out with
  | nil => exact ⟨_, rfl⟩
  | cons r rest ih =>
    obtain ⟨o, ho⟩ := h r (by simp)
    have hrest : ∀ q ∈ rest, ∃ o, Cursor.offsetOf q.cursor = .ok o := fun q hq => h q (by simp [hq])
    simp only [collect, ho]
    split
    · exact ih _ hrest
    split
    · exact ⟨_, rfl⟩
    split
    · obtain ⟨more, hmore⟩ := hasMore_total o toOffset hlive
      simp only [hmore]
      exact ⟨_, rfl⟩
    · exact ih _ hrest

/-- A read from a cursor of the topic fails only if the cursor aged out. -/
private theorem startOffset_error {store : EventStore} (hwf : store.Wf) {now : Time}
    {topic : String} (hne : topic ≠ "") {fromCursor : Option String} {e : PyError}
    (hfrom : ∀ c, fromCursor = some c → ∃ n : Nat, Cursor.encode topic n = .ok c)
    (h : startOffset (store.live now topic) topic fromCursor = .error e) :
    e.code? = some .cursorExpired ∧ ∃ (c : String) (n : Nat), fromCursor = some c ∧
      Cursor.encode topic n = .ok c ∧
      ∀ r ∈ store.live now topic, ∀ x, r.LiesAt topic x → n < x := by
  cases fromCursor with
  | none => cases h
  | some c =>
    obtain ⟨n, hn⟩ := hfrom c rfl
    simp only [startOffset] at h
    rw [if_neg (Cursor.encode_ne_sentinel hn (by decide)), Cursor.offsetFor_encode hne hn] at h
    simp only [Int.toNat_natCast] at h
    cases hlive : store.live now topic with
    | nil => simp [hlive] at h
    | cons oldest rest =>
      have hsorted : (store.live now topic).Pairwise fun a b =>
          ∀ x y, a.LiesAt topic x → b.LiesAt topic y → x < y := hwf.live_sorted now topic
      have hmem : oldest ∈ store.live now topic := by rw [hlive]; exact List.mem_cons_self
      obtain ⟨o, -, ho⟩ := hwf.liesAt (mem_events_of_mem_live hmem)
      have hoff : Cursor.offsetOf oldest.cursor = .ok o := by
        simpa using Cursor.offsetOf_encode hne ho.cursor
      simp only [hlive, List.head?_cons, hoff] at h
      split at h
      · rename_i hlt
        simp only [raiseA2A, Except.error.injEq] at h
        subst h
        refine ⟨rfl, c, n, rfl, hn, ?_⟩
        rw [hlive] at hsorted
        intro r hr x hx
        rcases List.mem_cons.mp hr with rfl | hr
        · rw [hx.unique ho]
          exact hlt
        · exact Nat.lt_trans hlt ((List.pairwise_cons.mp hsorted).1 r hr o x ho hx)
      · cases h

/-- A read between cursors of the topic fails only if the first of them aged out. -/
theorem read_error {store : EventStore} (hwf : store.Wf) {now : Time} {topic : String}
    (hne : topic ≠ "") {log : TopicLog} (hlog : store.logs.get? topic = some log)
    {fromCursor toCursor : Option String} {limit : Int} {e : PyError}
    (hfrom : ∀ c, fromCursor = some c → ∃ n : Nat, Cursor.encode topic n = .ok c)
    (hto : ∀ c, toCursor = some c → ∃ n : Nat, Cursor.encode topic n = .ok c)
    (h : store.read now topic fromCursor toCursor limit = .error e) :
    e.code? = some .cursorExpired ∧ ∃ (c : String) (n : Nat), fromCursor = some c ∧
      Cursor.encode topic n = .ok c ∧
      ∀ r ∈ store.live now topic, ∀ x, r.LiesAt topic x → n < x := by
  have hlive : store.live now topic = liveLog now log := by simp [live, hlog]
  have hlatest : fromCursor ≠ some Cursor.latest := by
    intro heq
    obtain ⟨n, hn⟩ := hfrom _ heq
    exact Cursor.encode_ne_sentinel hn (by decide) rfl
  simp only [read, hlog, if_neg hlatest, ← hlive] at h
  cases hstart : startOffset (store.live now topic) topic fromCursor with
  | error e' =>
    simp only [hstart, Except.error.injEq] at h
    exact h ▸ startOffset_error hwf hne hfrom hstart
  | ok start =>
    simp only [hstart] at h
    have hend : ∃ toOffset, endOffset topic toCursor = .ok toOffset := by
      cases toCursor with
      | none => exact ⟨none, rfl⟩
      | some c =>
        obtain ⟨n, hn⟩ := hto c rfl
        simp only [endOffset]
        split
        · exact ⟨none, rfl⟩
        · exact ⟨some n, by simp [Cursor.offsetFor_encode hne hn, Except.map]⟩
    obtain ⟨toOffset, hend⟩ := hend
    have hok : ∀ r ∈ store.live now topic, ∃ o, Cursor.offsetOf r.cursor = .ok o := by
      intro r hr
      obtain ⟨o, -, ho⟩ := hwf.liesAt (mem_events_of_mem_live hr)
      exact ⟨o, by simpa using Cursor.offsetOf_encode hne ho.cursor⟩
    obtain ⟨res, hres⟩ := collect_total [] start toOffset limit hok hok
    simp only [hend, hres] at h
    cases h

/-- The order of the events of a page. -/
theorem IsPage.sorted {store : EventStore} (hwf : store.Wf) {now : Time} {topic : String}
    {start : Int} {toOffset : Option Nat} {page : List EventRecord}
    (h : IsPage topic start toOffset (store.live now topic) page) :
    page.Pairwise fun a b => ∀ x y, a.LiesAt topic x → b.LiesAt topic y → x < y :=
  (hwf.live_sorted now topic).sublist h.sublist

/-- A page of a topic holds events of the topic. -/
theorem mem_events_of_read {store : EventStore} (hwf : store.Wf) {now : Time} {topic : String}
    {from_ to_ : Option String} {limit : Int} {records : List EventRecord} {next : Option String}
    (hpage : store.read now topic from_ to_ limit = .ok (records, next)) {record : EventRecord}
    (hrecord : record ∈ records) : record ∈ store.events topic := by
  by_cases hlatest : from_ = some Cursor.latest
  · -- nothing lies beyond the head
    rw [hlatest, EventStore.read] at hpage
    cases hlog : store.logs.get? topic with
    | none => simp [hlog, EventStore.topicNotFound, raiseA2A] at hpage
    | some log =>
      simp only [hlog, if_true, Except.ok.injEq, Prod.mk.injEq] at hpage
      rw [← hpage.1] at hrecord
      cases hrecord
  · obtain ⟨start, toOffset, -, -, hpage⟩ := read_ok hwf hlatest hpage
    exact mem_events_of_mem_live (hpage.sublist.mem hrecord)

/-- The cursor of the head spells an offset that is given out and that no event exceeds. -/
theorem latestCursor_ok {store : EventStore} (hwf : store.Wf) {topic cursor : String} {n : Nat}
    (hcount : 0 < store.count topic) (h : store.latestCursor topic = .ok cursor) (hn : Cursor.offsetOf cursor = .ok n) :
    n < store.count topic ∧ ∀ r ∈ store.events topic, ∀ o, r.LiesAt topic o → o ≤ n := by
  simp only [EventStore.latestCursor] at h
  cases hlog : store.logs.get? topic with
  | none => simp [hlog] at h
  | some log =>
    rw [count_of_get? hlog] at hcount ⊢
    rw [events_of_get? hlog]
    simp only [hlog] at h
    cases hlast : log.events.getLast? with
    | some record =>
      simp only [hlast, Except.ok.injEq] at h
      obtain ⟨o, ho, hat, hle⟩ := (hwf topic log hlog).last_event hlast
      subst h
      rw [hat.offsetOf hn]
      exact ⟨ho, hle⟩
    | none =>
      simp only [hlast] at h
      have hoffset := (Cursor.eq_of_offsetOf_encode h hn).1
      refine ⟨by omega, fun r hr => ?_⟩
      rw [List.getLast?_eq_none_iff.mp hlast] at hr
      cases hr

end EventStore

end A2AEvents

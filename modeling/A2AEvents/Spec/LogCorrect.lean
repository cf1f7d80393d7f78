import Mathlib.Data.List.Induction
import A2AEvents.Spec.ReadCorrect

/-!
# Histories of the event store

What holds after any sequence of calls to the in-memory event store: the logs represent what
was appended, offsets are issued once, compaction is invisible to readers, and a read that
does not report an expired cursor has missed nothing unless the whole log aged out.

## Key results

- `represents_of_calls`: the representation invariant of the logs
- `compact_transparent`: a compaction changes no later answer
- `gapless_iff`: when a read that returns has missed nothing
-/

namespace A2AEvents

/-- The calls that change an event store. -/
inductive StoreCall where
  | declareTopic (topic : Topic)
  | append (now : Time) (eventId topic eventType source : String) (data : List (String × Json))
      (subject : Option String)
  | compact (now : Time) (topic : Option String)

namespace StoreCall

/-- The store after the call. -/
def exec (store : EventStore) : StoreCall → EventStore
  | .declareTopic topic => store.declareTopic topic
  | .append now eventId topic eventType source data subject =>
    (store.append now eventId topic eventType source data subject).2
  | .compact now topic => (store.compact now topic).2

/-- What an append returns. -/
def result? (store : EventStore) : StoreCall → Option (Except PyError EventRecord)
  | .append now eventId topic eventType source data subject =>
    some (store.append now eventId topic eventType source data subject).1
  | _ => none

/-- The record that an append issues. -/
def issued? (store : EventStore) (call : StoreCall) : Option EventRecord :=
  match call.result? store with
  | some (.ok record) => some record
  | _ => none

/-- The topic that a call declares. -/
def declares? : StoreCall → Option Topic
  | .declareTopic topic => some topic
  | _ => none

/-- The clock of an append. -/
def appendTime? : StoreCall → Option Time
  | .append now .. => some now
  | _ => none

end StoreCall

namespace EventStore

/-- The store after some calls. -/
def run (store : EventStore) (calls : List StoreCall) : EventStore := calls.foldl StoreCall.exec store

/-- What the appends among the calls return. -/
def results (store : EventStore) : List StoreCall → List (Except PyError EventRecord)
  | [] => []
  | c :: rest => (c.result? store).toList ++ results (c.exec store) rest

/-- The records that the calls issue. -/
def issued (store : EventStore) : List StoreCall → List EventRecord
  | [] => []
  | c :: rest => (c.issued? store).toList ++ issued (c.exec store) rest

/-- Two events of a topic that keeps them for a second. -/
def briefly : List StoreCall :=
  [.declareTopic { name := "t", retentionSeconds := 1 }, .append 0 "e0" "t" "x" "s" [] none,
    .append 0 "e1" "t" "x" "s" [] none]

@[simp] theorem run_nil (store : EventStore) : store.run [] = store := rfl

@[simp] theorem run_cons (store : EventStore) (c : StoreCall) (rest : List StoreCall) :
    store.run (c :: rest) = (c.exec store).run rest := rfl

theorem run_append (store : EventStore) (as bs : List StoreCall) :
    store.run (as ++ bs) = (store.run as).run bs := List.foldl_append

@[simp] theorem run_concat (store : EventStore) (calls : List StoreCall) (c : StoreCall) :
    store.run (calls ++ [c]) = c.exec (store.run calls) := run_append store calls [c]

@[simp] theorem issued_concat (store : EventStore) (calls : List StoreCall) (c : StoreCall) :
    store.issued (calls ++ [c]) = store.issued calls ++ (c.issued? (store.run calls)).toList := by
  induction calls generalizing store with
  | nil => simp [issued]
  | cons a rest ih => simp [issued, ih]

/-! ## One call -/

theorem Wf.exec {store : EventStore} (hwf : store.Wf) (c : StoreCall) : (c.exec store).Wf := by
  cases c with
  | declareTopic topic => exact hwf.declareTopic topic
  | append now eventId topic eventType source data subject =>
    exact hwf.append now eventId topic eventType source data subject
  | compact now topic => exact hwf.compact now topic

theorem grows_exec (store : EventStore) (c : StoreCall) : Grows store (c.exec store) := by
  cases c with
  | declareTopic topic => exact grows_declareTopic store topic
  | append now eventId topic eventType source data subject =>
    exact grows_append store now eventId topic eventType source data subject
  | compact now topic => exact grows_compact store now topic

/-- A call that issues a record takes the next offset of its topic. -/
theorem issued?_spec {store : EventStore} {c : StoreCall} {r : EventRecord}
    (h : c.issued? store = some r) :
    r.LiesAt r.topic (store.count r.topic) ∧ store.count r.topic < (c.exec store).count r.topic ∧
      c.appendTime? = some r.createdAt := by
  cases c with
  | declareTopic topic => cases h
  | compact now topic => cases h
  | append now eventId topic eventType source data subject =>
    simp only [StoreCall.issued?, StoreCall.result?] at h
    split at h
    · rename_i record hres
      simp only [Option.some.injEq] at h hres
      subst h
      obtain ⟨hat, hlt⟩ := append_ok hres
      have htime : record.createdAt = now := by
        obtain ⟨-, h'⟩ | ⟨log, -, ⟨e, h'⟩ | ⟨q, bytes, -, -, htime, -, h'⟩⟩ :=
          append_cases store now eventId topic eventType source data subject
        · rw [h'] at hres
          cases hres
        · rw [h'] at hres
          cases hres
        · rw [h'] at hres
          cases hres
          exact htime
      rw [hat.topic, htime]
      exact ⟨hat, hlt, rfl⟩
    · cases h

/-- A log is there because it was there, or because its topic was just declared. -/
theorem get?_exec {store : EventStore} {c : StoreCall} {name : String} {log : TopicLog}
    (h : (c.exec store).logs.get? name = some log) :
    (∃ old, store.logs.get? name = some old ∧ log.topic = old.topic) ∨
      (store.logs.get? name = none ∧ c.declares? = some log.topic ∧ log.topic.name = name) := by
  cases hold : store.logs.get? name with
  | some old =>
    obtain ⟨log', hlog', htopic, -⟩ := grows_exec store c name old hold
    rw [h] at hlog'
    cases hlog'
    exact .inl ⟨old, rfl, htopic⟩
  | none =>
    refine .inr ⟨rfl, ?_⟩
    cases c with
    | declareTopic topic =>
      simp only [StoreCall.exec, EventStore.declareTopic, Dict.get?_setDefault] at h
      split at h
      · rename_i hname
        subst hname
        simp only [hold, Option.getD_none, Option.some.injEq] at h
        subst h
        exact ⟨rfl, rfl⟩
      · rw [hold] at h
        cases h
    | append now eventId topic eventType source data subject =>
      simp only [StoreCall.exec] at h
      obtain ⟨-, h'⟩ | ⟨log', hlog', ⟨e, h'⟩ | ⟨q, bytes, -, -, -, -, h'⟩⟩ :=
        append_cases store now eventId topic eventType source data subject
      · rw [h', hold] at h
        cases h
      all_goals
        rw [h', setLog, Dict.get?_set] at h
        split at h
        · rename_i hname
          rw [hname, hlog'] at hold
          cases hold
        · rw [hold] at h
          cases h
    | compact now topic =>
      simp only [StoreCall.exec, EventStore.compact, Dict.get?_mapValues, hold, Option.map_none] at h
      cases h

/-! ## The representation invariant -/

theorem wf_empty : ({} : EventStore).Wf := fun _ _ h => (by cases h)

theorem Wf.run {store : EventStore} (hwf : store.Wf) (calls : List StoreCall) :
    (store.run calls).Wf := by
  induction calls generalizing store with
  | nil => exact hwf
  | cons c rest ih => exact ih (hwf.exec c)

theorem grows_run (store : EventStore) (calls : List StoreCall) : Grows store (store.run calls) := by
  induction calls generalizing store with
  | nil => exact .refl _
  | cons c rest ih => exact (grows_exec store c).trans (ih _)

/-- A log of the store has the topic it had before, or the first one declared under its name. -/
theorem topic_of_run {store : EventStore} {calls : List StoreCall} {name : String} {log : TopicLog}
    (h : (store.run calls).logs.get? name = some log) :
    (∃ old, store.logs.get? name = some old ∧ log.topic = old.topic) ∨
      (store.logs.get? name = none ∧
        (calls.filterMap StoreCall.declares?).find? (fun t => t.name = name) = some log.topic) := by
  induction calls generalizing store with
  | nil => exact .inl ⟨log, h, rfl⟩
  | cons c rest ih =>
    rcases ih h with ⟨mid, hmid, htopic⟩ | ⟨hnone, hfind⟩
    · rcases get?_exec hmid with ⟨old, hold, ht⟩ | ⟨hnone, hdecl, hname⟩
      · exact .inl ⟨old, hold, htopic.trans ht⟩
      · refine .inr ⟨hnone, ?_⟩
        rw [List.filterMap_cons_some hdecl, List.find?_cons_of_pos (by simpa using hname), htopic]
    · have hbefore : store.logs.get? name = none := by
        cases hold : store.logs.get? name with
        | none => rfl
        | some old =>
          obtain ⟨log', hlog', -⟩ := grows_exec store c name old hold
          rw [hnone] at hlog'
          cases hlog'
      refine .inr ⟨hbefore, ?_⟩
      cases hdecl : c.declares? with
      | none => rwa [List.filterMap_cons_none hdecl]
      | some topic =>
        rw [List.filterMap_cons_some hdecl]
        by_cases hname : topic.name = name
        · -- this declaration would have made the log
          cases c with
          | declareTopic t =>
            simp only [StoreCall.declares?, Option.some.injEq] at hdecl
            subst hdecl
            simp [StoreCall.exec, EventStore.declareTopic, Dict.get?_setDefault, hname] at hnone
          | append => cases hdecl
          | compact => cases hdecl
        · rw [List.find?_cons_of_neg (by simpa using hname)]
          exact hfind

/-- Every record was issued with an offset below the count of its topic, and with no offset
    twice. -/
theorem issued_spec (store : EventStore) (calls : List StoreCall) :
    (∀ r ∈ store.issued calls, ∃ o, o < (store.run calls).count r.topic ∧ r.LiesAt r.topic o) ∧
      (store.issued calls).Pairwise fun a b => a.topic = b.topic →
        ∀ x y, a.LiesAt a.topic x → b.LiesAt b.topic y → x < y := by
  induction calls using List.reverseRecOn with
  | nil => exact ⟨(fun r hr => (by cases hr)), .nil⟩
  | append_singleton calls c ih =>
    obtain ⟨hat, hsorted⟩ := ih
    have hgrows := grows_exec (store.run calls) c
    rw [issued_concat, run_concat]
    cases hissued : c.issued? (store.run calls) with
    | none =>
      simp only [Option.toList_none, List.append_nil]
      refine ⟨fun r hr => ?_, hsorted⟩
      obtain ⟨o, ho, hro⟩ := hat r hr
      exact ⟨o, Nat.lt_of_lt_of_le ho (hgrows.count _), hro⟩
    | some q =>
      obtain ⟨hq, hlt, -⟩ := issued?_spec hissued
      simp only [Option.toList_some]
      refine ⟨fun r hr => ?_, List.pairwise_append.mpr ⟨hsorted, List.pairwise_singleton _ _, ?_⟩⟩
      · rcases List.mem_append.mp hr with hr | hr
        · obtain ⟨o, ho, hro⟩ := hat r hr
          exact ⟨o, Nat.lt_of_lt_of_le ho (hgrows.count _), hro⟩
        · rw [List.mem_singleton.mp hr]
          exact ⟨_, hlt, hq⟩
      · intro a ha b hb htopic x y hx hy
        rw [List.mem_singleton.mp hb] at htopic hy
        obtain ⟨o, ho, hao⟩ := hat a ha
        rw [hx.unique hao, hy.unique hq, ← htopic]
        exact ho

/-- What the log of a topic says about what was appended to it. -/
structure Represents (declared : List Topic) (name : String) (log : TopicLog) : Prop where
  decodes : ∀ r ∈ log.events, ∃ o, o < log.nextOffset ∧ Cursor.split r.cursor = .ok (name, o)
  ascending : log.events.Pairwise fun a b =>
    ∀ x y, Cursor.offsetOf a.cursor = .ok x → Cursor.offsetOf b.cursor = .ok y → x < y
  config : declared.find? (fun t => t.name = name) = some log.topic

theorem represents_of_wf {declared : List Topic} {name : String} {log : TopicLog}
    (hwf : log.Wf name) (hne : name ≠ "")
    (hfirst : declared.find? (fun t => t.name = name) = some log.topic) :
    Represents declared name log where
  decodes := by
    intro r hr
    obtain ⟨o, ho, hat⟩ := hwf.numbered r hr
    exact ⟨o, ho, by simpa using Cursor.split_encode hne hat.cursor⟩
  ascending := by
    refine hwf.sorted.imp_of_mem ?_
    intro a b ha hb hlt x y hx hy
    obtain ⟨o, -, hao⟩ := hwf.numbered a ha
    obtain ⟨p, -, hbp⟩ := hwf.numbered b hb
    rw [hao.offsetOf hx, hbp.offsetOf hy]
    exact hlt o p hao hbp
  config := hfirst

/-- After any calls the logs represent what was appended under the first configs, offsets have
    only gone up, and no position was issued twice. -/
theorem represents_of_calls (calls : List StoreCall)
    (hnames : ∀ topic, StoreCall.declareTopic topic ∈ calls → topic.name ≠ "") :
    (∀ name log, (run {} calls).logs.get? name = some log →
      Represents (calls.filterMap StoreCall.declares?) name log) ∧
    (∀ before after, calls = before ++ after →
      ∀ name, (run {} before).count name ≤ (run {} calls).count name) ∧
    (∀ r ∈ issued {} calls, ∃ o, Cursor.split r.cursor = .ok (r.topic, o)) ∧
    (issued {} calls).Pairwise fun a b => Cursor.split a.cursor ≠ Cursor.split b.cursor := by
  have hfirst : ∀ {name log}, (run {} calls).logs.get? name = some log →
      (calls.filterMap StoreCall.declares?).find? (fun t => t.name = name) = some log.topic ∧
        name ≠ "" := by
    intro name log hlog
    rcases topic_of_run hlog with ⟨old, hold, -⟩ | ⟨-, hfind⟩
    · cases hold
    · refine ⟨hfind, ?_⟩
      obtain ⟨c, hc, hdecl⟩ := List.mem_filterMap.mp (List.mem_of_find?_eq_some hfind)
      have hname : log.topic.name = name := by simpa using List.find?_some hfind
      cases c with
      | declareTopic topic =>
        simp only [StoreCall.declares?, Option.some.injEq] at hdecl
        rw [← hname, ← hdecl]
        exact hnames topic hc
      | append => cases hdecl
      | compact => cases hdecl
  obtain ⟨hat, hsorted⟩ := issued_spec {} calls
  have hsplit : ∀ r ∈ issued {} calls, ∃ o, r.LiesAt r.topic o ∧
      Cursor.split r.cursor = .ok (r.topic, o) := by
    intro r hr
    obtain ⟨o, ho, hro⟩ := hat r hr
    have hne : r.topic ≠ "" := by
      simp only [count] at ho
      split at ho
      · rename_i log hlog
        exact (hfirst hlog).2
      · exact absurd ho (Nat.not_lt_zero _)
    exact ⟨o, hro, by simpa using Cursor.split_encode hne hro.cursor⟩
  refine ⟨fun name log hlog => ?_, fun before after hcalls name => ?_, fun r hr => ?_, ?_⟩
  · obtain ⟨hconfig, hne⟩ := hfirst hlog
    exact represents_of_wf (wf_empty.run calls name log hlog) hne hconfig
  · rw [hcalls, run_append]
    exact (grows_run _ after).count name
  · obtain ⟨o, -, ho⟩ := hsplit r hr
    exact ⟨o, ho⟩
  · refine hsorted.imp_of_mem ?_
    intro a b ha hb hlt heq
    obtain ⟨x, hx, hax⟩ := hsplit a ha
    obtain ⟨y, hy, hby⟩ := hsplit b hb
    rw [hax, hby] at heq
    simp only [Except.ok.injEq, Prod.mk.injEq] at heq
    have := hlt heq.1 x y hx hy
    omega

/-- The two events have the offsets zero and one. -/
theorem represents_of_calls_sample : ((run {} briefly).count "t" = 2 ∧
      (issued {} briefly).map EventRecord.offset = [0, 1]) ∧
    (∀ name log, (run {} briefly).logs.get? name = some log →
      Represents (briefly.filterMap StoreCall.declares?) name log) ∧
    (∀ before after, briefly = before ++ after →
      ∀ name, (run {} before).count name ≤ (run {} briefly).count name) ∧
    (∀ r ∈ issued {} briefly, ∃ o, Cursor.split r.cursor = .ok (r.topic, o)) ∧
    (issued {} briefly).Pairwise fun a b => Cursor.split a.cursor ≠ Cursor.split b.cursor := by
  refine ⟨by decide +kernel, represents_of_calls briefly fun topic h => ?_⟩
  simp only [briefly, List.mem_cons, StoreCall.declareTopic.injEq, reduceCtorEq, List.not_mem_nil,
    or_false] at h
  rw [h]
  decide

/-! ## Compaction -/

/-- From `t` on no reader can tell the stores apart: they differ in expired records only. -/
def Agree (t : Time) (a b : EventStore) : Prop :=
  ∀ name, (a.logs.get? name).map (compactLog t) = (b.logs.get? name).map (compactLog t)

theorem compactLog_comm (s t : Time) (log : TopicLog) :
    compactLog s (compactLog t log) = compactLog t (compactLog s log) := by
  simp only [compactLog, List.filter_filter, Bool.and_comm]

theorem compactLog_idem (t : Time) (log : TopicLog) :
    compactLog t (compactLog t log) = compactLog t log := by
  simp [compactLog, List.filter_filter]

/-- What is retained later is retained now. -/
theorem liveLog_compactLog {t now : Time} (h : t ≤ now) (log : TopicLog) :
    liveLog now (compactLog t log) = liveLog now log := by
  simp only [liveLog, compactLog, List.filter_filter]
  refine List.filter_congr fun r _ => ?_
  rw [Bool.eq_iff_iff, Bool.and_eq_true, and_iff_left_iff_imp]
  intro hret
  simp only [retained, Bool.or_eq_true, decide_eq_true_eq] at hret ⊢
  exact hret.imp_right fun hr => Int.le_trans (Int.sub_le_sub_right h _) hr

/-- Logs that agree from `t` on differ in expired records only. -/
theorem compactLog_eq {t : Time} {la lb : TopicLog} (h : compactLog t la = compactLog t lb) :
    la.topic = lb.topic ∧ la.nextOffset = lb.nextOffset ∧
      la.events.filter (retained la.topic t) = lb.events.filter (retained lb.topic t) := by
  simp only [compactLog, TopicLog.mk.injEq] at h
  exact ⟨h.1, h.2.2, h.2.1⟩

theorem agree_compact (store : EventStore) (t : Time) (topic : Option String) :
    Agree t store (store.compact t topic).2 := by
  intro name
  rw [get?_compact, Option.map_map]
  congr 1
  funext log
  simp only [Function.comp_apply]
  split
  · rw [compactLog_idem]
  · rfl

/-- Agreeing stores know the same topics. -/
theorem Agree.get? {t : Time} {a b : EventStore} (h : Agree t a b) (name : String) :
    (a.logs.get? name = none ∧ b.logs.get? name = none) ∨
      ∃ la lb, a.logs.get? name = some la ∧ b.logs.get? name = some lb ∧
        compactLog t la = compactLog t lb := by
  have hname := h name
  cases ha : a.logs.get? name with
  | none =>
    rw [ha, Option.map_none, eq_comm, Option.map_eq_none_iff] at hname
    exact .inl ⟨rfl, hname⟩
  | some la =>
    rw [ha, Option.map_some, eq_comm, Option.map_eq_some_iff] at hname
    obtain ⟨lb, hlb, heq⟩ := hname
    exact .inr ⟨la, lb, rfl, hlb, heq.symm⟩

private theorem agree_setLog {t : Time} {a b : EventStore} (h : Agree t a b) {topic : String}
    {la lb : TopicLog} (heq : compactLog t la = compactLog t lb) :
    Agree t (a.setLog topic la) (b.setLog topic lb) := by
  intro name
  simp only [setLog, Dict.get?_set]
  split
  · rw [Option.map_some, Option.map_some, heq]
  · exact h name

/-- A call that is made in both of two agreeing stores has the same result, and they go on to
    agree. -/
theorem Agree.exec {t : Time} {a b : EventStore} (h : Agree t a b) (c : StoreCall) :
    c.result? a = c.result? b ∧ Agree t (c.exec a) (c.exec b) := by
  cases c with
  | declareTopic topic =>
    refine ⟨rfl, fun name => ?_⟩
    simp only [StoreCall.exec, EventStore.declareTopic, Dict.get?_setDefault]
    split
    · rcases h.get? topic.name with ⟨ha, hb⟩ | ⟨la, lb, ha, hb, heq⟩
      · simp [ha, hb]
      · simp [ha, hb, heq]
    · exact h name
  | compact now topic =>
    refine ⟨rfl, fun name => ?_⟩
    simp only [StoreCall.exec]
    rw [get?_compact, get?_compact]
    rcases h.get? name with ⟨ha, hb⟩ | ⟨la, lb, ha, hb, heq⟩
    · rw [ha, hb]
    · simp only [ha, hb, Option.map_some, Option.some.injEq]
      split
      · rw [compactLog_comm t now la, compactLog_comm t now lb, heq]
      · exact heq
  | append now eventId topic eventType source data subject =>
    simp only [StoreCall.result?, StoreCall.exec, Option.some.injEq]
    rcases h.get? topic with ⟨ha, hb⟩ | ⟨la, lb, ha, hb, heq⟩
    · simp only [append, ha, hb]
      exact ⟨trivial, h⟩
    · -- the offset is counted apart from the records
      obtain ⟨htopic, hoffset, hevents⟩ := compactLog_eq heq
      have htaken : ∀ tail, compactLog t { la with nextOffset := lb.nextOffset + 1, events := la.events ++ tail } =
          compactLog t { lb with nextOffset := lb.nextOffset + 1, events := lb.events ++ tail } := by
        intro tail
        simp only [compactLog, List.filter_append, hevents]
        rw [htopic]
      have hfail := htaken []
      simp only [List.append_nil] at hfail
      simp only [append, ha, hb, hoffset]
      cases Cursor.encode topic (lb.nextOffset : Int) with
      | error e => exact ⟨rfl, agree_setLog h hfail⟩
      | ok cursor =>
        cases canonicalize (.obj data) with
        | error e => exact ⟨rfl, agree_setLog h hfail⟩
        | ok bytes => exact ⟨rfl, agree_setLog h (htaken _)⟩

theorem Agree.run {t : Time} {a b : EventStore} (h : Agree t a b) (calls : List StoreCall) :
    a.results calls = b.results calls ∧ Agree t (a.run calls) (b.run calls) := by
  induction calls generalizing a b with
  | nil => exact ⟨rfl, h⟩
  | cons c rest ih =>
    obtain ⟨hres, hexec⟩ := h.exec c
    obtain ⟨hrest, hrun⟩ := ih hexec
    exact ⟨by rw [results, results, hres, hrest], hrun⟩

/-- Readers of agreeing stores see the same. -/
theorem Agree.answers {t now : Time} (hle : t ≤ now) {a b : EventStore} (h : Agree t a b)
    (name : String) : a.count name = b.count name ∧
      a.oldestAvailableCursor now name = b.oldestAvailableCursor now name ∧
      ∀ fromCursor toCursor limit, a.read now name fromCursor toCursor limit =
        b.read now name fromCursor toCursor limit := by
  rcases h.get? name with ⟨ha, hb⟩ | ⟨la, lb, ha, hb, heq⟩
  · simp [count, oldestAvailableCursor, EventStore.read, ha, hb]
  · have hlive : liveLog now la = liveLog now lb := by
      rw [← liveLog_compactLog hle la, heq, liveLog_compactLog hle lb]
    obtain ⟨-, hoffset, -⟩ := compactLog_eq heq
    simp [count, oldestAvailableCursor, EventStore.read, ha, hb, hlive, hoffset]

/-- A compaction at `t` changes no answer from `t` on: not the results of the appends, not the
    count, not the oldest available cursor, not a page or an error of a read. -/
theorem compact_transparent (store : EventStore) (t : Time) (topic : Option String)
   
    (calls : List StoreCall) {now : Time} (hnow : t ≤ now) :
    let compacted := (store.compact t topic).2
    store.results calls = compacted.results calls ∧
      ∀ name, (store.run calls).count name = (compacted.run calls).count name ∧
        (store.run calls).oldestAvailableCursor now name =
          (compacted.run calls).oldestAvailableCursor now name ∧
        ∀ fromCursor toCursor limit, (store.run calls).read now name fromCursor toCursor limit =
          (compacted.run calls).read now name fromCursor toCursor limit := by
  obtain ⟨hresults, hrun⟩ := (agree_compact store t topic).run calls
  exact ⟨hresults, fun name => hrun.answers hnow name⟩

/-- A compaction that removes both events, before another one is appended. -/
theorem compact_transparent_sample :
    let store := run {} briefly
    let compacted := (store.compact (seconds 5) none).2
    let calls := [StoreCall.append (seconds 6) "e2" "t" "x" "s" [] none]
    (store.compact (seconds 5) none).1 = 2 ∧ store.results calls = compacted.results calls ∧
      ∀ name, (store.run calls).count name = (compacted.run calls).count name ∧
        (store.run calls).oldestAvailableCursor (seconds 6) name =
          (compacted.run calls).oldestAvailableCursor (seconds 6) name ∧
        ∀ fromCursor toCursor limit, (store.run calls).read (seconds 6) name fromCursor toCursor limit =
          (compacted.run calls).read (seconds 6) name fromCursor toCursor limit :=
  ⟨by decide +kernel, compact_transparent _ _ none _ (by decide)⟩

/-! ## Gaps -/

/-- The clocks of the appends never go back. -/
def Chronological (calls : List StoreCall) : Prop :=
  (calls.filterMap StoreCall.appendTime?).Pairwise (· ≤ ·)

instance (calls : List StoreCall) : Decidable (Chronological calls) :=
  inferInstanceAs (Decidable (List.Pairwise _ _))

private theorem createdAt_issued (store : EventStore) (calls : List StoreCall) :
    ((store.issued calls).map EventRecord.createdAt).Sublist
      (calls.filterMap StoreCall.appendTime?) := by
  induction calls generalizing store with
  | nil => exact .slnil
  | cons c rest ih =>
    simp only [issued]
    cases hissued : c.issued? store with
    | none =>
      refine (ih _).trans ?_
      cases htime : c.appendTime? with
      | none => rw [List.filterMap_cons_none htime]
      | some t =>
        rw [List.filterMap_cons_some htime]
        exact List.sublist_cons_self t _
    | some r =>
      rw [List.filterMap_cons_some (issued?_spec hissued).2.2]
      exact (ih _).cons_cons _

/-- What is left of the records of a topic is in the order of time. -/
private theorem Chronological.sorted {calls : List StoreCall} (hchron : Chronological calls)
    {test : EventRecord → Bool} {dropped left : List EventRecord}
    (h : (issued {} calls).filter test = dropped ++ left) :
    left.Pairwise fun a b => a.createdAt ≤ b.createdAt := by
  have hissued := hchron.sublist (createdAt_issued {} calls)
  rw [List.pairwise_map] at hissued
  have hsub : left.Sublist ((issued {} calls).filter test) := by
    rw [h]
    exact List.sublist_append_right dropped left
  exact hissued.sublist (hsub.trans List.filter_sublist)

/-- In a chronological log the retained records are the last ones. -/
private theorem filter_retained_suffix (topic : Topic) (now : Time) {l : List EventRecord}
    (h : l.Pairwise fun a b => a.createdAt ≤ b.createdAt) :
    ∃ aged, l = aged ++ l.filter (retained topic now) := by
  induction l with
  | nil => exact ⟨[], rfl⟩
  | cons r rest ih =>
    obtain ⟨hr, hrest⟩ := List.pairwise_cons.mp h
    by_cases hret : retained topic now r = true
    · have hall : ∀ q ∈ r :: rest, retained topic now q = true := by
        intro q hq
        rcases List.mem_cons.mp hq with rfl | hq
        · exact hret
        · simp only [retained, Bool.or_eq_true, decide_eq_true_eq] at hret ⊢
          exact hret.imp_right fun h => Int.le_trans h (hr q hq)
      exact ⟨[], by rw [List.filter_eq_self.mpr hall, List.nil_append]⟩
    · obtain ⟨aged, haged⟩ := ih hrest
      refine ⟨r :: aged, ?_⟩
      rw [List.filter_cons_of_neg hret, List.cons_append, ← haged]

/-- Compaction has removed a first part of what was appended to a topic. -/
theorem events_suffix {calls : List StoreCall} (hchron : Chronological calls) (name : String) :
    ∃ dropped, (issued {} calls).filter (fun r => decide (r.topic = name)) =
      dropped ++ (run {} calls).events name := by
  induction calls using List.reverseRecOn with
  | nil => exact ⟨[], rfl⟩
  | append_singleton calls c ih =>
    have hbefore : Chronological calls := by
      refine List.Pairwise.sublist ?_ hchron
      exact (List.sublist_append_left calls [c]).filterMap _
    obtain ⟨dropped, hdropped⟩ := ih hbefore
    have hage := hbefore.sorted hdropped
    rw [issued_concat, run_concat, List.filter_append, hdropped]
    cases c with
    | declareTopic topic =>
      refine ⟨dropped, ?_⟩
      simp only [StoreCall.issued?, StoreCall.result?, StoreCall.exec, events_declareTopic,
        Option.toList_none, List.filter_nil, List.append_nil]
    | append now eventId topic eventType source data subject =>
      refine ⟨dropped, ?_⟩
      simp only [StoreCall.issued?, StoreCall.result?, StoreCall.exec]
      obtain ⟨-, h⟩ | ⟨log, hlog, ⟨e, h⟩ | ⟨record, bytes, hat, -, -, -, h⟩⟩ :=
        append_cases (run {} calls) now eventId topic eventType source data subject
      · simp [h, topicNotFound, raiseA2A]
      · -- the offset is gone, the records are the same
        simp only [h, events_setLog, Option.toList_none, List.filter_nil, List.append_nil]
        split
        · rename_i hname
          rw [hname, events_of_get? hlog]
        · rfl
      · simp only [h, events_setLog, Option.toList_some]
        by_cases hname : name = topic
        · simp [hname, events_of_get? hlog, TopicLog.push, hat.topic]
        · simp [hat.topic, hname, Ne.symm hname]
    | compact now topic =>
      simp only [StoreCall.issued?, StoreCall.result?, StoreCall.exec, Option.toList_none,
        List.filter_nil, List.append_nil]
      simp only [events, get?_compact] at hage ⊢
      cases hlog : (run {} calls).logs.get? name with
      | none => exact ⟨dropped, rfl⟩
      | some log =>
        simp only [hlog, Option.map_some] at hage ⊢
        split
        · -- the compaction drops what has aged out since
          obtain ⟨aged, haged⟩ := filter_retained_suffix log.topic now hage
          refine ⟨dropped ++ aged, ?_⟩
          rw [List.append_assoc]
          exact congrArg _ haged
        · exact ⟨dropped, rfl⟩

/-- The records of a topic after an offset. -/
def laterThan (topic : String) (o : Nat) (records : List EventRecord) : List EventRecord :=
  records.filter fun r => decide (r.topic = topic ∧ o < r.offset)

/-- The live events are the last ones of those appended to the topic. -/
private theorem live_suffix {calls : List StoreCall} (hchron : Chronological calls) (now : Time)
    (name : String) : ∃ dropped, (issued {} calls).filter (fun r => decide (r.topic = name)) =
      dropped ++ (run {} calls).live now name := by
  obtain ⟨dropped, hdropped⟩ := events_suffix hchron name
  have hage := hchron.sorted hdropped
  simp only [live, events] at hage hdropped ⊢
  cases hlog : (run {} calls).logs.get? name with
  | none => exact ⟨dropped, by simpa [hlog] using hdropped⟩
  | some log =>
    simp only [hlog] at hage hdropped ⊢
    obtain ⟨aged, haged⟩ := filter_retained_suffix log.topic now hage
    refine ⟨dropped ++ aged, ?_⟩
    rw [hdropped, List.append_assoc]
    exact congrArg _ haged

/-- A topic with records has a log. -/
private theorem log_of_issued {calls : List StoreCall} {r : EventRecord} (h : r ∈ issued {} calls) :
    ∃ log, (run {} calls).logs.get? r.topic = some log := by
  obtain ⟨o, ho, -⟩ := (issued_spec _ calls).1 r h
  simp only [count] at ho
  split at ho
  · rename_i log hlog
    exact ⟨log, hlog⟩
  · exact absurd ho (Nat.not_lt_zero _)

/-- What a client at the cursor of `record` is owed: every record after it, all of them live, and
    its pages put together are these records. -/
def Gapless (calls : List StoreCall) (now : Time) (record : EventRecord) : Prop :=
  ∀ limit page, (run {} calls).read now record.topic (some record.cursor) none limit = .ok page →
    (∀ r ∈ laterThan record.topic record.offset (issued {} calls),
      r ∈ (run {} calls).live now record.topic) ∧
    Pages (run {} calls) now record.topic limit record.cursor
      (laterThan record.topic record.offset (issued {} calls))

/-- A read from the cursor of an appended record that returns has missed nothing, unless the
    whole log has aged out with later records in it. Without a name a topic has no cursors to
    read from. -/
theorem gapless_iff {calls : List StoreCall} (hchron : Chronological calls) (now : Time)
    {record : EventRecord} (hrecord : record ∈ issued {} calls) :
    Gapless calls now record ↔ record.topic = "" ∨
      (run {} calls).live now record.topic ≠ [] ∨
      laterThan record.topic record.offset (issued {} calls) = [] := by
  have hwf := wf_empty.run calls
  obtain ⟨log, hlog⟩ := log_of_issued hrecord
  obtain ⟨o, -, hat⟩ := (issued_spec _ calls).1 record hrecord
  by_cases hne : record.topic = ""
  · -- the cursor does not decode
    refine ⟨fun _ => .inl hne, fun _ limit page h => ?_⟩
    have herr : ∀ n, Cursor.offsetFor record.topic record.cursor ≠ .ok n := by
      intro n hn
      exact Cursor.topic_ne_of_offsetFor hn hne
    have hlatest : some record.cursor ≠ some Cursor.latest := fun h =>
      Cursor.encode_ne_sentinel hat.cursor (by decide) (Option.some.inj h)
    obtain ⟨start, _, hstart, -⟩ := read_ok hwf hlatest h
    rcases startOffset_ok hstart with ⟨h, -⟩ | ⟨h, -⟩ | ⟨c, n, h, hn, -⟩
    · cases h
    · exact absurd (Option.some.inj h) (Cursor.encode_ne_sentinel hat.cursor (by decide))
    · cases h
      exact absurd hn (herr n)
  have hoffset := hat.offset_eq hne
  have hcursor : Cursor.offsetFor record.topic record.cursor = .ok record.offset := by
    rw [hoffset]
    simpa using Cursor.offsetFor_encode hne hat.cursor
  have hasc := hwf.ascending hne now
  have hlatest : some record.cursor ≠ some Cursor.latest := fun h =>
    Cursor.ne_sentinel_of_offsetFor hcursor (by decide) (Option.some.inj h)
  by_cases hempty : (run {} calls).live now record.topic = []
  · -- nothing is live: the read returns an empty page
    have hread : ∀ limit, (run {} calls).read now record.topic (some record.cursor) none limit =
        .ok ([], none) := by
      intro limit
      rw [read_eq hwf hne hlog now limit hlatest, startOffset_cursor hasc hcursor (by simp [hempty]),
        hempty]
      simp [endOffset, firstPage]
    constructor
    · intro h
      obtain ⟨hlive, -⟩ := h 100 _ (hread 100)
      rw [hempty] at hlive
      exact .inr (.inr (List.eq_nil_iff_forall_not_mem.mpr fun r hr => by simpa using hlive r hr))
    · rintro (h | h | h) limit page _
      · exact absurd h hne
      · exact absurd hempty h
      · rw [h]
        exact ⟨(fun r hr => (by cases hr)), .last (hread limit)⟩
  · refine ⟨fun _ => .inr (.inl hempty), fun _ limit page hpage => ?_⟩
    obtain ⟨oldest, holdest⟩ : ∃ r, ((run {} calls).live now record.topic).head? = some r :=
      ⟨_, List.head?_eq_some_head hempty⟩
    have hnew : oldest.offset ≤ record.offset := by
      by_contra hold
      rw [read_eq hwf hne hlog now limit hlatest,
        startOffset_expired hasc hcursor holdest (Nat.lt_of_not_le hold)] at hpage
      cases hpage
    -- the records before the oldest live one are not later than the cursor
    have hlater : laterThan record.topic record.offset (issued {} calls) =
        ((run {} calls).live now record.topic).filter fun r => decide (record.offset < r.offset) := by
      obtain ⟨dropped, hdropped⟩ := live_suffix hchron now record.topic
      have hsplit : laterThan record.topic record.offset (issued {} calls) =
          (dropped ++ (run {} calls).live now record.topic).filter
            fun r => decide (record.offset < r.offset) := by
        rw [← hdropped, laterThan, List.filter_filter]
        refine List.filter_congr fun r _ => ?_
        rw [Bool.decide_and, Bool.and_comm]
      have hbefore : dropped.filter (fun r => decide (record.offset < r.offset)) = [] := by
        rw [List.filter_eq_nil_iff]
        intro r hr
        have hissued := (issued_spec {} calls)
        have hmem : ∀ q ∈ dropped ++ (run {} calls).live now record.topic,
            q ∈ issued {} calls ∧ q.topic = record.topic := by
          intro q hq
          rw [← hdropped] at hq
          simpa using List.mem_filter.mp hq
        have hsorted := hissued.2.sublist
          (List.filter_sublist (p := fun r => decide (r.topic = record.topic)))
        rw [hdropped, List.pairwise_append] at hsorted
        have hoin := List.mem_of_head? holdest
        obtain ⟨hr₁, hr₂⟩ := hmem r (List.mem_append_left _ hr)
        obtain ⟨ho₁, ho₂⟩ := hmem oldest (List.mem_append_right _ hoin)
        obtain ⟨x, -, hx⟩ := hissued.1 r hr₁
        obtain ⟨y, -, hy⟩ := hissued.1 oldest ho₁
        have hlt := hsorted.2.2 r hr oldest hoin (hr₂.trans ho₂.symm) x y hx hy
        rw [hr₂] at hx
        rw [ho₂] at hy
        have hxo := hx.offset_eq hne
        have hyo := hy.offset_eq hne
        simp only [decide_eq_true_eq]
        omega
      rw [hsplit, List.filter_append, hbefore, List.nil_append]
    rw [hlater]
    refine ⟨fun r hr => (List.mem_filter.mp hr).1, ?_⟩
    refine pages_live hwf hne hlog now limit hcursor fun r hr => ?_
    rw [holdest] at hr
    cases hr
    exact hnew

/-- As long as the log is live a read has missed nothing. -/
theorem gapless_iff_sample : ∃ record ∈ issued {} briefly, record.offset = 0 ∧
    Gapless briefly 0 record := by
  have hlive : ((run {} briefly).live 0 "t").isEmpty = false := by decide +kernel
  have hhead : ((issued {} briefly).head?.any fun r => decide (r.topic = "t" ∧ r.offset = 0)) = true := by
    decide +kernel
  obtain ⟨record, hrecord, htest⟩ := (Option.any_eq_true _ _).mp hhead
  obtain ⟨htopic, hoffset⟩ := of_decide_eq_true htest
  refine ⟨record, List.mem_of_head? hrecord, hoffset, ?_⟩
  refine (gapless_iff (by decide) 0 (List.mem_of_head? hrecord)).mpr (.inr (.inl ?_))
  rw [htopic]
  exact List.isEmpty_eq_false_iff.mp hlive

/-- Ten seconds later the log has aged out: a read from the cursor of the first event returns an
    empty page, and the second event is lost. -/
theorem aged_out_read_returns : ∃ calls, Chronological calls ∧ ∃ record ∈ issued {} calls, ∃ now page,
    (run {} calls).read now record.topic (some record.cursor) none 100 = .ok page ∧
      ∃ r ∈ laterThan record.topic record.offset (issued {} calls),
        r ∉ (run {} calls).live now record.topic := by
  have hlive : ((run {} briefly).live (seconds 10) "t").isEmpty = true := by decide +kernel
  have hread : ((issued {} briefly).head?.any fun r => decide (r.topic = "t") &&
      ((run {} briefly).read (seconds 10) "t" (some r.cursor) none 100).toBool &&
        !(laterThan "t" r.offset (issued {} briefly)).isEmpty) = true := by
    decide +kernel
  obtain ⟨record, hhead, htest⟩ := (Option.any_eq_true _ _).mp hread
  simp only [Bool.and_eq_true, decide_eq_true_eq, Bool.not_eq_true', List.isEmpty_eq_false_iff] at htest
  obtain ⟨⟨htopic, hpage⟩, hlater⟩ := htest
  obtain ⟨r, hr⟩ := List.exists_mem_of_ne_nil _ hlater
  refine ⟨briefly, by decide, record, List.mem_of_head? hhead, seconds 10, ?_⟩
  rw [htopic]
  cases hres : (run {} briefly).read (seconds 10) "t" (some record.cursor) none 100 with
  | error e =>
    rw [hres] at hpage
    cases hpage
  | ok page =>
    refine ⟨page, rfl, r, hr, fun hmem => ?_⟩
    rw [List.isEmpty_iff.mp hlive] at hmem
    cases hmem

end EventStore

end A2AEvents

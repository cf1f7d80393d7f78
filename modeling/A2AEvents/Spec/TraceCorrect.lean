import A2AEvents.ForStd.Chronicle
import A2AEvents.Spec.StartsKept

/-!
# What the trace tells

Every call on the trace was made at the world that it comes with. An event that was appended stands in
its log until it is out of retention, and an attempt is on record because a call put it there. All
this holds whatever is called, so it holds between any two states of a run; and it holds at the worlds
that the calls of the run found, too.

## Key results

- `written_includes`: no call breaks what the trace tells
- `Peaceful.worlds`: what is known of a run at its end, and at the worlds that its calls found
- `Told.of_run`: the same with what the tasks of the run did
-/

namespace A2AEvents

open Async Publisher

variable {cfg : PublisherConfig} {fuel : Nat} {s s' : Snapshot cfg fuel}

/-! ## Logs -/

namespace EventStore

/-- The topic is declared, and its log still has the event if that is in retention. -/
def Keeps (store : EventStore) (now : Time) (topic : String) (record : EventRecord) : Prop :=
  ∃ log, store.logs.get? topic = some log ∧ (retained log.topic now record = true → record ∈ log.events)

theorem retained_of_le {topic : Topic} {now later : Time} {record : EventRecord} (hle : now ≤ later)
    (h : retained topic later record = true) : retained topic now record = true := by
  simp only [retained, Bool.or_eq_true, decide_eq_true_eq, ge_iff_le] at h ⊢
  exact h.imp_right fun hr => Int.le_trans (Int.sub_le_sub_right hle _) hr

theorem Keeps.later {store : EventStore} {now later : Time} {topic : String} {record : EventRecord}
    (h : store.Keeps now topic record) (hle : now ≤ later) : store.Keeps later topic record := by
  obtain ⟨log, hlog, hkept⟩ := h
  exact ⟨log, hlog, fun hr => hkept (retained_of_le hle hr)⟩

theorem Keeps.mem_live {store : EventStore} {now : Time} {topic : String} {record : EventRecord}
    (h : store.Keeps now topic record)
    (hretained : ∀ log, store.logs.get? topic = some log → retained log.topic now record = true) :
    record ∈ store.live now topic := by
  obtain ⟨log, hlog, hkept⟩ := h
  exact EventStore.mem_live.mpr ⟨log, hlog, hkept (hretained log hlog), hretained log hlog⟩

theorem Keeps.declareTopic {store : EventStore} {now : Time} {name : String} {record : EventRecord}
    (h : store.Keeps now name record) (topic : Topic) : (store.declareTopic topic).Keeps now name record := by
  obtain ⟨log, hlog, hkept⟩ := h
  refine ⟨log, ?_, hkept⟩
  rw [EventStore.declareTopic, Dict.get?_setDefault]
  split
  · rename_i hname
    rw [← hname, hlog, Option.getD_some]
  · exact hlog

/-- A log that goes on keeps its events. -/
private theorem Keeps.setLog {store : EventStore} {now : Time} {name topic : String} {record : EventRecord} {log log' : TopicLog}
    (h : store.Keeps now name record) (hlog : store.logs.get? topic = some log) (htopic : log'.topic = log.topic)
    (hevents : ∀ r ∈ log.events, r ∈ log'.events) : (store.setLog topic log').Keeps now name record := by
  obtain ⟨old, hold, hkept⟩ := h
  by_cases hname : name = topic
  · -- retention is a matter of the topic, which is the same
    subst hname
    rw [hlog] at hold
    cases hold
    refine ⟨log', by rw [EventStore.setLog, Dict.get?_set, if_pos rfl], fun hr => hevents _ (hkept ?_)⟩
    rw [← htopic]
    exact hr
  · exact ⟨old, by rw [EventStore.setLog, Dict.get?_set, if_neg hname]; exact hold, hkept⟩

theorem Keeps.append {store : EventStore} {now : Time} {name : String} {record : EventRecord} (h : store.Keeps now name record)
    (clock : Time) (eventId topic eventType source : String) (data : List (String × Json)) (subject : Option String) :
    (store.append clock eventId topic eventType source data subject).2.Keeps now name record := by
  obtain ⟨-, h'⟩ | ⟨log, hlog, ⟨e, h'⟩ | ⟨new, bytes, -, -, -, -, h'⟩⟩ :=
    append_cases store clock eventId topic eventType source data subject
  · rw [h']
    exact h
  · -- a refused event takes a number all the same
    rw [h']
    exact h.setLog hlog rfl fun _ hr => hr
  · rw [h']
    exact h.setLog hlog rfl fun _ hr => List.mem_append_left _ hr

/-- The new event is there. -/
theorem keeps_appended {store : EventStore} {clock : Time} {eventId topic eventType source : String}
    {data : List (String × Json)} {subject : Option String} {record : EventRecord}
    (h : (store.append clock eventId topic eventType source data subject).1 = .ok record) (now : Time) :
    (store.append clock eventId topic eventType source data subject).2.Keeps now topic record := by
  obtain ⟨-, h'⟩ | ⟨log, hlog, ⟨e, h'⟩ | ⟨new, bytes, -, -, -, -, h'⟩⟩ :=
    append_cases store clock eventId topic eventType source data subject
  · rw [h'] at h
    cases h
  · rw [h'] at h
    cases h
  · rw [h'] at h ⊢
    cases h
    exact ⟨log.push record, by rw [setLog, Dict.get?_set, if_pos rfl], fun _ => List.mem_append_right _ (.head _)⟩

/-- Compaction takes events that are out of retention only. -/
theorem Keeps.compact {store : EventStore} {now : Time} {name : String} {record : EventRecord}
    (h : store.Keeps now name record) (topic : Option String) : (store.compact now topic).2.Keeps now name record := by
  obtain ⟨log, hlog, hkept⟩ := h
  refine ⟨_, by rw [get?_compact, hlog]; rfl, ?_⟩
  split
  · exact fun hr => List.mem_filter.mpr ⟨hkept hr, hr⟩
  · exact hkept

end EventStore

/-- No call makes a log lose an event that is in retention. -/
theorem World.keeps_exec {i : Nat} {o : Op} {c : Choice} {w w' : World} {r : o.Res} (hex : World.exec i o c w = some (r, w'))
    {topic : String} {record : EventRecord} (h : w.store.Keeps w.clock topic record) :
    w'.store.Keeps w'.clock topic record := by
  cases o with
  | declareTopic =>
    cases hex
    exact h.declareTopic _
  | append =>
    cases hex
    exact h.append _ _ _ _ _ _ _
  | compact =>
    cases hex
    exact h.compact _
  | add sub offsets =>
    obtain ⟨-, rfl, rfl⟩ := World.add_of_exec hex
    exact h
  | enqueue item =>
    obtain ⟨-, rfl⟩ := World.enqueue_of_exec hex
    exact h
  | acquire id =>
    obtain ⟨-, rfl⟩ := World.acquire_of_exec hex
    exact h
  | _ =>
    cases hex
    exact h

/-! ## The trace -/

/-- What the trace and the stores tell of each other. -/
structure Written (s : Snapshot cfg fuel) : Prop where
  performed : ∀ e ∈ s.trace, ∃ c w, World.exec e.task e.op c e.before = some (e.res, w)
  kept : ∀ topic, ∀ record ∈ appended s.trace topic, s.state.store.Keeps s.state.clock topic record
  recorded : ∀ a ∈ s.state.subs.attempts, ∃ e ∈ s.trace, e.op = .recordAttempt a
  counted : ∀ i topic n w, (⟨i, .count topic, n, w⟩ : Entry cfg fuel) ∈ s.trace → n ≤ s.state.store.count topic

/-- An attempt goes on record by one call. -/
private theorem recorded_exec {i : Nat} {o : Op} {c : Choice} {w w' : World} {r : o.Res}
    (hex : World.exec i o c w = some (r, w')) {a : DeliveryAttempt} (ha : a ∈ w'.subs.attempts) :
    a ∈ w.subs.attempts ∨ o = .recordAttempt a := by
  by_cases ho : o.unnumbered = true
  · rw [(World.exec_unnumbered ho hex).1] at ha
    exact .inl ha
  · -- what is left besides are the calls of the retry queue
    cases o with
    | recordAttempt attempt =>
      cases hex
      rcases List.mem_append.mp ha with ha | ha
      · exact .inl ha
      · rw [List.mem_singleton.mp ha]
        exact .inr rfl
    | enqueue item =>
      obtain ⟨-, rfl⟩ := World.enqueue_of_exec hex
      exact .inl ha
    | claimDue | complete | reschedule =>
      cases hex
      exact .inl ha
    | _ => exact absurd rfl ho

/-- An event is appended by one call. -/
private theorem appended_exec {i : Nat} {o : Op} {c : Choice} {w w' : World} {r : o.Res}
    (hex : World.exec i o c w = some (r, w')) {topic : String} {record : EventRecord}
    (h : Entry.appended? topic (⟨i, o, r, w⟩ : Entry cfg fuel) = some record) (now : Time) :
    w'.store.Keeps now topic record := by
  cases o with
  | append name type source data subject =>
    simp only [World.exec, Option.some.injEq, Prod.mk.injEq] at hex
    obtain ⟨hr, rfl⟩ := hex
    cases r with
    | error e => cases h
    | ok new =>
      simp only [Entry.appended?] at h
      split at h
      · rename_i hname
        cases h
        subst hname
        exact EventStore.keeps_appended hr now
      · cases h
  | _ => cases h

theorem Written.exec {i : Nat} {o : Op} {c : Choice} {r : o.Res} {w : World} (h : Written s)
    (hex : World.exec i o c s.state = some (r, w)) : Written (s.next i o r w) where
  performed := by
    intro e he
    rcases List.mem_append.mp he with he | he
    · exact h.performed e he
    · rw [List.mem_singleton.mp he]
      exact ⟨c, w, hex⟩
  kept := by
    intro topic record hr
    rw [Snapshot.next_trace, appended_concat, List.mem_append, Option.mem_toList] at hr
    rcases hr with hr | hr
    · exact World.keeps_exec hex (h.kept topic record hr)
    · -- the event is the one that this call appended
      exact appended_exec hex hr w.clock
  recorded := by
    intro a ha
    rcases recorded_exec hex ha with ha | rfl
    · obtain ⟨e, he, ho⟩ := h.recorded a ha
      exact ⟨e, List.mem_append_left _ he, ho⟩
    · exact ⟨_, List.mem_append_right _ (.head _), rfl⟩
  counted := by
    intro k topic n before he
    -- counts only grow, so an earlier answer is not above the count
    have hgrows := (World.store_grows_exec hex).count topic
    rcases List.mem_append.mp he with he | he
    · exact Nat.le_trans (h.counted k topic n before he) hgrows
    · cases List.mem_singleton.mp he
      cases hex
      exact Nat.le_refl _

/-- No call breaks what the trace tells, and neither does anything beside the calls. -/
theorem written_includes :
    Config.Includes (sem cfg fuel).traced fun s s' : Snapshot cfg fuel => Written s → Written s' where
  refl := fun _ h => h
  trans := fun h h' hs => h' (h hs)
  exec := by
    intro i o c s r s' hex h
    obtain ⟨⟨r', w⟩, hcall, heq⟩ := Option.map_eq_some_iff.mp hex
    cases heq
    exact h.exec hcall
  env := by
    intro e s s' he h
    obtain ⟨w, hw, rfl⟩ := Option.map_eq_some_iff.mp he
    obtain ⟨clock, authorizer, hle, rfl⟩ := World.env_cases hw
    exact ⟨h.performed, fun topic record hr => (h.kept topic record hr).later hle, h.recorded, h.counted⟩
  restart := fun _ h => ⟨h.performed, h.kept, h.recorded, h.counted⟩

/-! ## Runs -/

/-- What is known of a world of a run, seen from a later one. -/
structure Visited (R : Regime) (s later : Snapshot cfg fuel) : Prop where
  inv : Inv R s
  written : Written s
  live : s.state.subs.backend = .live
  grows : Grows R s later
  lapsed : R.gated = true → StaysLapsed s later

/-- A run told to its end: what its tasks did, and the worlds that they found. -/
structure Told (R : Regime) (c : Run.Config cfg fuel) (ds : List (Deed (sem cfg fuel))) : Prop where
  chronicle : Chronicle c ds
  now : Visited R c.state c.state
  found : ∀ before (e : Entry cfg fuel) after, c.state.trace = before ++ e :: after →
    Visited R ⟨e.before, before⟩ c.state
  pool : ∀ t ∈ c.tasks, R.exclusive t.job = false

section Run

variable {R : Regime} {ok : Run.Config cfg fuel → Action (sem cfg fuel).traced → Prop} {clock : Time}
  {authorizer : Option AllowlistAuthorizer} {a b c : Run.Config cfg fuel} {ds : List (Deed (sem cfg fuel))}

/-- The worlds of a run without exclusive calls, and how its second part goes on from the first. -/
theorem Peaceful.worlds (h : Peaceful R ok) (hfit : R.Fits cfg)
    (ha : Config.Run ok (initial cfg fuel .live clock authorizer) a) (hb : Config.Run ok a b) :
    Visited R b.state b.state ∧ ∃ later, b.state.trace = a.state.trace ++ later ∧ ∀ before (e : Entry cfg fuel) after,
      later = before ++ e :: after → Visited R ⟨e.before, a.state.trace ++ before⟩ b.state ∧
        Grows R a.state ⟨e.before, a.state.trace ++ before⟩ := by
  have hno : R.bounded = true → Backend.live = .live := fun _ => rfl
  -- the first two hold at the end of any run, and so at the end of both parts
  have hwritten : ∀ {x : Run.Config cfg fuel}, Config.Run ok (initial cfg fuel .live clock authorizer) x → Written x.state := by
    intro x hx
    exact written_includes.run hx ⟨fun _ he => (by cases he), fun _ _ hr => (by cases hr), fun _ hr => (by cases hr), fun _ _ _ _ he => (by cases he)⟩
  have hlive : ∀ {x : Run.Config cfg fuel}, Config.Run ok (initial cfg fuel .live clock authorizer) x →
      x.state.state.subs.backend = .live := by
    intro x hx
    exact (grows_of_run hfit h.suffices hno (.refl _) (h.runs hfit hno (.refl _) hx).2).backend
  have hab := ha.trans hb
  have hinv := inv_of_run hfit h.suffices hno (h.runs hfit hno hab (.refl _)).1
  refine ⟨⟨hinv, hwritten hab, hlive hab, .refl _, fun _ => .of_rows_eq rfl (Int.le_refl _)⟩, ?_⟩
  obtain ⟨later, htrace, hfound⟩ := h.found hfit hno written_includes ha hb
  refine ⟨later, htrace, fun before e after hsplit => ?_⟩
  -- the world of a call lies between the ends of the second part
  obtain ⟨hinv', hfrom, hto⟩ := hfound before e after hsplit
  exact ⟨⟨hinv', hfrom.includes (hwritten ha), hfrom.grows.backend.trans (hlive ha), hto.grows, hto.lapsed⟩, hfrom.grows⟩

/-- A run without exclusive calls and without crashes, told to its end. -/
theorem Told.of_run (h : Peaceful R ok) (hfit : R.Fits cfg) (hno : ∀ c, ¬ ok c .crash)
    (hc : Config.Run ok (initial cfg fuel .live clock authorizer) c) : ∃ ds, Told R c ds := by
  obtain ⟨ds, hchronicle⟩ := (Chronicle.initial (c := initial cfg fuel .live clock authorizer) rfl rfl).run hno hc
  obtain ⟨hnow, later, htrace, hfound⟩ := h.worlds hfit (.refl _) hc
  have hpool := (h.run_pool hfit (good_initial fun _ => rfl) (fun _ ht => (by cases ht)) hc).2
  refine ⟨ds, hchronicle, hnow, fun before e after hsplit => ?_, hpool⟩
  have hlater : later = before ++ e :: after := htrace.symm.trans hsplit
  exact (hfound before e after hlater).1

/-- An answer was given at a world of the run. -/
theorem Told.answer (h : Told R c ds) {past : List (Entry cfg fuel)} {i : Nat} {o : Op} {r : o.Res}
    (hr : c.state.receivedSince past i o r) : ∃ (w : World) (mid : List (Entry cfg fuel)) (ch : Choice) (w' : World),
      Visited R (⟨w, past ++ mid⟩ : Snapshot cfg fuel) c.state ∧ World.exec i o ch w = some (r, w') := by
  obtain ⟨mid, w, after, htrace⟩ := hr
  obtain ⟨ch, w', hex⟩ := h.now.written.performed ⟨i, o, r, w⟩ (by rw [htrace]; simp)
  exact ⟨w, mid, ch, w', h.found (past ++ mid) ⟨i, o, r, w⟩ after (by rw [htrace, List.append_assoc]), hex⟩

/-- The calls on the trace were made for a reason. -/
theorem Told.reason (h : Told R c ds) {before after : List (Entry cfg fuel)} {e : Entry cfg fuel}
    (htrace : c.state.trace = before ++ e :: after) : ∃ t, c.tasks[e.task]? = some t ∧
      (provenance cfg t.job (Sem.Traced.received (⟨e.before, before⟩ : Snapshot cfg fuel) e.task)).asks e.op :=
  h.chronicle.asks (R := provenance cfg) (fun j A => code_sourced cfg fuel j A) (fun hr => hr) htrace

/-- A subscription is added once. -/
theorem Told.added_unique (h : Told R c ds) {p q : Subscription × Dict String Int} (hp : p ∈ added c.state.trace)
    (hq : q ∈ added c.state.trace) (hid : p.1.subscriptionId = q.1.subscriptionId) : p = q := by
  have hadds : ∀ {p}, p ∈ added c.state.trace → ∃ (i : Nat) (r : (Op.add p.1 p.2).Res) (w : World),
      (⟨i, .add p.1 p.2, r, w⟩ : Entry cfg fuel) ∈ c.state.trace := by
    intro p hp
    obtain ⟨⟨i, o, r, w⟩, he, hadd⟩ := List.mem_filterMap.mp hp
    cases o with
    | add sub offsets =>
      cases hadd
      exact ⟨i, r, w, he⟩
    | _ => cases hadd
  -- the row of the first one is there when the second one is added
  have hlater : ∀ {p q : Subscription × Dict String Int} {i k : Nat} {r r' w w' before mid after},
      c.state.trace = (before ++ (⟨i, .add p.1 p.2, r, w⟩ : Entry cfg fuel) :: mid) ++ (⟨k, .add q.1 q.2, r', w'⟩ : Entry cfg fuel) :: after →
        p.1.subscriptionId ≠ q.1.subscriptionId := by
    intro p q i k r r' w w' before mid after htrace heq
    obtain ⟨ch, w'', hex⟩ := h.now.written.performed ⟨k, .add q.1 q.2, r', w'⟩ (by rw [htrace]; simp)
    obtain ⟨hfree, -⟩ := World.add_of_exec hex
    have hpast : p ∈ added (before ++ (⟨i, .add p.1 p.2, r, w⟩ : Entry cfg fuel) :: mid) :=
      List.mem_filterMap.mpr ⟨_, List.mem_append_right _ (.head _), rfl⟩
    obtain ⟨row, hrow, -⟩ := (h.found _ _ _ htrace).inv.rows.added p hpast
    rw [heq] at hrow
    rw [hfree] at hrow
    cases hrow
  obtain ⟨i, r, w, he⟩ := hadds hp
  obtain ⟨k, r', w', he'⟩ := hadds hq
  obtain ⟨sub, offsets⟩ := p
  obtain ⟨sub', offsets'⟩ := q
  obtain ⟨before, after, htrace⟩ := List.append_of_mem he
  obtain ⟨before', after', htrace'⟩ := List.append_of_mem he'
  rcases places_cases (htrace.symm.trans htrace') with ⟨-, heq⟩ | ⟨mid, hbefore⟩ | ⟨mid, hbefore⟩
  · -- both are the same call
    cases heq
    rfl
  · rw [hbefore] at htrace'
    exact absurd hid (hlater htrace')
  · rw [hbefore] at htrace
    exact absurd hid.symm (hlater htrace)

end Run

end A2AEvents

import A2AEvents.Spec.DeliveryEvaluation
import A2AEvents.Spec.Discipline
import A2AEvents.Spec.ReadCorrect

/-!
# Catching up alone

A catch-up that nothing interrupts goes through the live events after the position of its
subscription, in log order and once each, whatever the page size is, and whether or not the
position itself has aged out of retention.

## Key results

- `sweep`: what becomes of the events ahead, read off the selector and the replies
- `scanPage_eval`: one page is swept
- `catchUpPages_eval`, `catchUp_eval`: so is everything ahead
-/

namespace A2AEvents

open Async Publisher

variable {cfg : PublisherConfig} {fuel : Nat}

/-! ## Sweeps -/

/-- The events that were attempted, the number of sends and the exception that ended it, if one did. -/
structure Sweep where
  first : List EventRecord
  sends : Nat
  error : Option PyError

/-- A sweep and what follows it. -/
def Sweep.andThen (a : Sweep) (b : Nat → Sweep) : Sweep :=
  match a.error with
  | some e => ⟨a.first, a.sends, some e⟩
  | none => ⟨a.first ++ (b a.sends).first, a.sends + (b a.sends).sends, (b a.sends).error⟩

/-- The delivery of one event, as a sweep. -/
def Course.swept (c : Course) (record : EventRecord) : Sweep :=
  { first := if c.sends = 0 then [] else [record]
    sends := c.sends
    error := match c.ending with
      | .raised e => some e
      | _ => none }

/-- The fate of one event: the selector raises, lets it pass, or has it delivered. -/
def sweepOne (cfg : PublisherConfig) (reply : Nat → Choice) (topic : Topic) (selector : Option Selector)
    (base : Nat) (record : EventRecord) : Sweep :=
  match selectorMatches cfg.lower selector (rawEventDict record) topic.filterableFields with
  | .error e => ⟨[], 0, some e⟩
  | .ok false => ⟨[], 0, none⟩
  | .ok true => (delivery cfg reply base).swept record

/-- The fate of the events ahead, of which the first attempt is answered by reply `base`. -/
def sweep (cfg : PublisherConfig) (reply : Nat → Choice) (topic : Topic) (selector : Option Selector)
    (base : Nat) : List EventRecord → Sweep
  | [] => ⟨[], 0, none⟩
  | record :: rest =>
    (sweepOne cfg reply topic selector base record).andThen fun n =>
      sweep cfg reply topic selector (base + n) rest

@[simp] theorem Sweep.andThen_error {a : Sweep} {b : Nat → Sweep} {e : PyError} (h : a.error = some e) :
    a.andThen b = a := by
  obtain ⟨first, sends, error⟩ := a
  obtain rfl : error = some e := h
  rfl

theorem Sweep.andThen_ok {a : Sweep} {b : Nat → Sweep} (h : a.error = none) :
    a.andThen b = ⟨a.first ++ (b a.sends).first, a.sends + (b a.sends).sends, (b a.sends).error⟩ := by
  simp only [Sweep.andThen, h]

theorem Sweep.andThen_assoc (a : Sweep) (b c : Nat → Sweep) :
    (a.andThen b).andThen c = a.andThen fun n => (b n).andThen fun m => c (n + m) := by
  cases ha : a.error with
  | some e => rw [andThen_error ha, andThen_error ha, andThen_error ha]
  | none =>
    rw [andThen_ok ha, andThen_ok ha]
    cases hb : (b a.sends).error with
    | some e =>
      rw [andThen_error hb, andThen_error (e := e) rfl, hb]
    | none =>
      rw [andThen_ok hb, andThen_ok rfl, List.append_assoc, Nat.add_assoc]

theorem Sweep.nil_andThen (b : Nat → Sweep) : (⟨[], 0, none⟩ : Sweep).andThen b = b 0 := by
  simp [Sweep.andThen]

theorem sweep_append (cfg : PublisherConfig) (reply : Nat → Choice) (topic : Topic)
    (selector : Option Selector) (a b : List EventRecord) : ∀ base,
    sweep cfg reply topic selector base (a ++ b) =
      (sweep cfg reply topic selector base a).andThen fun n =>
        sweep cfg reply topic selector (base + n) b := by
  induction a with
  | nil =>
    intro base
    rw [List.nil_append, sweep, Sweep.nil_andThen, Nat.add_zero]
  | cons r rest ih =>
    intro base
    rw [List.cons_append, sweep, sweep, Sweep.andThen_assoc]
    congr 1
    funext n
    rw [ih]
    congr 1
    funext m
    rw [Nat.add_assoc]

/-- The position after a scan from `scan` on. -/
def lastOffset (scan : Int) : List EventRecord → Int
  | [] => scan
  | record :: rest => lastOffset record.offset rest

/-- The offsets of the first attempts. -/
def firstAttempts (trace : List (Entry cfg fuel)) (id topic : String) : List Nat :=
  ((sends trace id topic).filter fun p => p.2 = 1).map Prod.fst

/-- An event of the topic that can be sent. -/
structure Sendable (name : String) (r : EventRecord) : Prop where
  topic : r.topic = name
  offset : Cursor.offsetOf r.cursor = .ok r.offset
  data : ∃ bytes, canonicalize (.obj r.data) = .ok bytes

theorem EventStore.Wf.sendable {store : EventStore} (hwf : store.Wf) {topic : String} (hne : topic ≠ "")
    {now : Time} {r : EventRecord} (hr : r ∈ store.live now topic) : Sendable topic r := by
  obtain ⟨log, hlog, hmem, -⟩ := EventStore.mem_live.mp hr
  obtain ⟨o, -, hat⟩ := hwf.liesAt (EventStore.mem_events_of_mem_live hr)
  exact ⟨hat.topic, (hwf.ascending hne now).offsetOf r hr, (hwf _ log hlog).canonical r hmem⟩

/-! ## One page -/

section

variable {reply : Nat → Choice} {i : Nat} {s s' s₁ : Snapshot cfg fuel}

/-- What a sweep leaves behind. -/
structure Swept (h : Handle) (topic : String) (sw : Sweep) (s s' : Snapshot cfg fuel) (h' : Handle) : Prop where
  held : Held h' s'.state
  alike : h'.sub.Alike h.sub
  elsewhere : Elsewhere h.sub.subscriptionId topic s.state s'.state
  fresh : RetryIdsFresh s'.state
  count : sendCount s'.trace = sendCount s.trace + sw.sends
  first : firstAttempts s'.trace h.sub.subscriptionId topic =
    firstAttempts s.trace h.sub.subscriptionId topic ++ sw.first.map EventRecord.offset

theorem Swept.trans {h h₁ h₂ : Handle} {topic : String} {a : Sweep} {b : Nat → Sweep}
    (ha : Swept h topic a s s₁ h₁) (hok : a.error = none) (hb : Swept h₁ topic (b a.sends) s₁ s' h₂) :
    Swept h topic (a.andThen b) s s' h₂ := by
  have hid := ha.alike.subscriptionId
  rw [Sweep.andThen_ok hok]
  refine ⟨hb.held, hb.alike.trans ha.alike, ?_, hb.fresh, ?_, ?_⟩
  · have helse := hb.elsewhere
    rw [hid] at helse
    exact ha.elsewhere.trans helse
  · rw [hb.count, ha.count, Nat.add_assoc]
  · have hfirst := hb.first
    rw [hid] at hfirst
    rw [hfirst, ha.first, List.map_append, List.append_assoc]

/-- Calls that change nothing but leave a trace. -/
theorem Quiet.firstAttempts (hq : Quiet s s') (id topic : String) :
    firstAttempts s'.trace id topic = firstAttempts s.trace id topic := by
  unfold A2AEvents.firstAttempts
  rw [hq.sends]

private theorem Subscription.ackedAt_alike (sub : Subscription) (topic cursor : String) :
    (sub.ackedAt topic cursor).Alike sub := by
  unfold Subscription.ackedAt
  split
  · exact ⟨rfl, rfl, rfl, rfl, rfl, rfl⟩
  · exact .refl sub

private theorem Ending.sub_alike (e : Ending) (sub : Subscription) (record : EventRecord) :
    (e.sub sub record).Alike sub := by
  cases e with
  | delivered => exact Subscription.ackedAt_alike _ _ _
  | _ => exact .refl sub

/-- A delivery, seen as a sweep. -/
theorem Delivers.swept {h h' : Handle} {record : EventRecord} {c : Course} {topic : String}
    (hd : Delivers h record record.offset 1 c s s' h') (ht : record.topic = topic)
    (hfresh : RetryIdsFresh s'.state) : Swept h topic (c.swept record) s s' h' := by
  subst ht
  refine ⟨hd.held, ?_, hd.elsewhere, hfresh, hd.count, ?_⟩
  · rw [hd.sub]
    exact Ending.sub_alike _ _ _
  · unfold firstAttempts
    rw [hd.sends, if_pos ⟨rfl, rfl⟩, List.filter_append, List.map_append]
    congr 1
    unfold Course.swept
    cases hn : c.sends with
    | zero => rfl
    | succ n =>
      have hlater : (List.map (fun m => (record.offset, m)) (List.range' 2 n)).filter (fun p => decide (p.2 = 1)) =
          [] := by
        rw [List.filter_eq_nil_iff]
        intro p hp
        obtain ⟨m, hm, rfl⟩ := List.mem_map.mp hp
        have := (List.mem_range'_1.mp hm).1
        simp only [decide_eq_true_eq]
        omega
      rw [List.range'_succ, List.map_cons, List.filter_cons_of_pos (by simp), hlater]
      simp

private theorem Delivers.position_le {h h' : Handle} {record : EventRecord} {c : Course} {o n : Nat}
    (hd : Delivers h record o n c s s' h')
    (hle : s.state.subs.position h.sub.subscriptionId record.topic ≤ o) :
    s'.state.subs.position h.sub.subscriptionId record.topic ≤ o := by
  rw [hd.position]
  cases c.ending with
  | delivered => exact (max_eq_right hle).le
  | deadLettered => exact Int.le_refl _
  | queued => exact Int.le_refl _
  | untried => exact hle
  | raised e => exact hle

private theorem Swept.refl {h : Handle} {topic : String} (hh : Held h s.state) (hfresh : RetryIdsFresh s.state) :
    Swept h topic ⟨[], 0, none⟩ s s h :=
  ⟨hh, .refl _, .refl _ _ _, hfresh, rfl, (List.append_nil _).symm⟩

/-- One event is skipped, delivered, or ends the sweep. -/
theorem sweepOne_eval (reply : Nat → Choice) (i : Nat) {h : Handle} {record : EventRecord} {topic : Topic}
    {name : String} (hr : Sendable name record) (hh : Held h s.state)
    (hcached : s.state.topics.get? name = some topic) (hfresh : RetryIdsFresh s.state)
    (hpos : s.state.subs.position h.sub.subscriptionId name ≤ record.offset) :
    let sw := sweepOne cfg reply topic h.sub.selector (sendCount s.trace) record
    ∃ s' h', Swept h name sw s s' h' ∧
      s'.state.subs.position h.sub.subscriptionId name ≤ record.offset ∧
      ∀ {α : Type} (f : Handle → M α) {res : Except PyError α} {s'' : Snapshot cfg fuel},
        (match sw.error with
          | some e => res = .error e ∧ s'' = s'
          | none => Evals reply i (f h') s' res s'') →
        Evals reply i (do
          let matched ← orRaise (selectorMatches cfg.lower h.sub.selector (rawEventDict record)
            topic.filterableFields)
          let h ← (if matched then deliverOne cfg h record else pure h)
          f h) s res s'' := by
  intro sw
  obtain rfl := hr.topic
  have hnothing : ∀ error, Swept h record.topic ⟨[], 0, error⟩ s s h := fun _ =>
    ⟨hh, .refl _, .refl _ _ _, hfresh, rfl, (List.append_nil _).symm⟩
  cases hm : selectorMatches cfg.lower h.sub.selector (rawEventDict record) topic.filterableFields with
  | error e =>
    have hsw : sw = ⟨[], 0, some e⟩ := by simp only [sw, sweepOne, hm]
    refine ⟨s, h, ?_, hpos, ?_⟩
    · rw [hsw]
      exact hnothing _
    · rw [hsw]
      rintro α f res s'' ⟨rfl, rfl⟩
      exact Eval.bind_error _ (Eval.lift_iff.mpr ⟨rfl, rfl⟩)
  | ok matched =>
    cases matched with
    | false =>
      have hsw : sw = ⟨[], 0, none⟩ := by simp only [sw, sweepOne, hm]
      refine ⟨s, h, ?_, hpos, ?_⟩
      · rw [hsw]
        exact hnothing _
      · rw [hsw]
        intro α f res s'' hrest
        exact Evals.lift rfl hrest
    | true =>
      have hsw : sw = (delivery cfg reply (sendCount s.trace)).swept record := by simp only [sw, sweepOne, hm]
      obtain ⟨s', h', hrun, hd, hleaves⟩ := deliverOne_eval reply i hr.data hr.offset hh hcached hfresh
      refine ⟨s', h', ?_, hd.position_le hpos, ?_⟩
      · rw [hsw]
        exact hd.swept rfl (hleaves.fresh hd.elsewhere.uuids hfresh)
      · rw [hsw]
        intro α f res s'' hrest
        refine Evals.lift rfl ?_
        cases hend : (delivery cfg reply (sendCount s.trace)).ending with
        | raised e =>
          simp only [Course.swept, hend] at hrest
          obtain ⟨rfl, rfl⟩ := hrest
          rw [hend] at hrun
          exact Eval.bind_error _ hrun
        | _ =>
          simp only [Course.swept, hend] at hrest
          rw [hend] at hrun
          exact Eval.bind hrun hrest

/-- A page is swept. -/
theorem scanPage_eval (reply : Nat → Choice) (i : Nat) {topic : Topic} {name : String} (l : List EventRecord) :
    ∀ {s : Snapshot cfg fuel} {h : Handle} {scan : Int} {processed : Nat},
      (∀ r ∈ l, Sendable name r) → l.Pairwise (fun a b => a.offset < b.offset) →
      (∀ r ∈ l, scan < r.offset) → Held h s.state → s.state.topics.get? name = some topic →
      RetryIdsFresh s.state → s.state.subs.position h.sub.subscriptionId name ≤ scan →
      let sw := sweep cfg reply topic h.sub.selector (sendCount s.trace) l
      ∃ s' h', Evals reply i (scanPage cfg topic scan processed h l) s
          (match sw.error with
            | some e => .error e
            | none => .ok (lastOffset scan l, processed + l.length, h')) s' ∧
        Swept h name sw s s' h' ∧
        (sw.error = none → s'.state.subs.position h.sub.subscriptionId name ≤ lastOffset scan l) := by
  induction l with
  | nil =>
    intro s h scan processed _ _ _ hh _ hfresh hpos sw
    exact ⟨s, h, .pure _ _, .refl hh hfresh, fun _ => hpos⟩
  | cons r rest ih =>
    intro s h scan processed hsend hsorted hgt hh hcached hfresh hpos sw
    have hr := hsend r (by simp)
    have hlt := hgt r (by simp)
    obtain ⟨s₁, h₁, hswept, hpos₁, hgo⟩ := sweepOne_eval reply i hr hh hcached hfresh (by omega)
    have hid := hswept.alike.subscriptionId
    have hsel := hswept.alike.selector
    let a := sweepOne cfg reply topic h.sub.selector (sendCount s.trace) r
    have hscan : ∀ {res s''}, (match a.error with
          | some e => res = .error e ∧ s'' = s₁
          | none => Evals reply i (scanPage cfg topic r.offset (processed + 1) h₁ rest) s₁ res s'') →
        Evals reply i (scanPage cfg topic scan processed h (r :: rest)) s res s'' := by
      intro res s'' hrest
      refine Evals.lift hr.offset ?_
      rw [if_neg (by omega)]
      exact hgo (fun h => scanPage cfg topic r.offset (processed + 1) h rest) hrest
    have hcons : sw = a.andThen fun n => sweep cfg reply topic h.sub.selector (sendCount s.trace + n) rest := rfl
    cases ha : a.error with
    | some e =>
      -- the event ends the sweep
      have hsw : sw = a := by rw [hcons, Sweep.andThen_error ha]
      refine ⟨s₁, h₁, hscan ?_, ?_, fun hok => ?_⟩
      · rw [ha, hsw, ha]
        exact ⟨rfl, rfl⟩
      · rw [hsw]
        exact hswept
      · rw [hsw, ha] at hok
        cases hok
    | none =>
      obtain ⟨hfirst, hrest⟩ := List.pairwise_cons.mp hsorted
      obtain ⟨s₂, h₂, hrun, hswept₂, hpos₂⟩ := ih
        (fun q hq => hsend q (by simp [hq])) hrest (fun q hq => Int.ofNat_lt.mpr (hfirst q hq)) hswept.held
        (by rw [hswept.elsewhere.topics]; exact hcached) hswept.fresh (by rw [hid]; exact hpos₁)
      rw [hsel, hswept.count] at hrun hswept₂ hpos₂
      have hsw : sw.error = (sweep cfg reply topic h.sub.selector (sendCount s.trace + a.sends) rest).error := by
        rw [hcons, Sweep.andThen_ok ha]
      refine ⟨s₂, h₂, hscan ?_, ?_, fun hok => ?_⟩
      · rw [ha, hsw, List.length_cons, show processed + (rest.length + 1) = processed + 1 + rest.length by omega]
        exact hrun
      · rw [hcons]
        exact hswept.trans ha hswept₂
      · rw [hsw] at hok
        rw [← hid]
        exact hpos₂ hok

end

/-! ## Page by page -/

/-- The live events of a topic after a position. -/
def World.ahead (w : World) (topic : String) (position : Int) : List EventRecord :=
  (w.store.live w.clock topic).filter fun r => position < r.offset

/-- In an ascending list nothing comes before the first record. -/
theorem EventStore.Ascending.head_le {l : List EventRecord} (hasc : EventStore.Ascending l) {oldest r : EventRecord}
    (hhead : l.head? = some oldest) (hr : r ∈ l) : oldest.offset ≤ r.offset := by
  obtain ⟨rest, rfl⟩ := List.head?_eq_some_iff.mp hhead
  rcases List.mem_cons.mp hr with rfl | hr
  · exact Nat.le_refl _
  · exact Nat.le_of_lt ((List.pairwise_cons.mp hasc.sorted).1 r hr)

section

variable {reply : Nat → Choice} {i : Nat} {s s' s₁ : Snapshot cfg fuel}

/-- A page is the first part of what lies ahead, whether or not the position has aged out of retention. -/
theorem readPage_eval (reply : Nat → Choice) (i : Nat) {topic : String} {position : Int} {from_ : Option String}
    (hwf : s.state.store.Wf) (hne : topic ≠ "") {log : TopicLog}
    (hlog : s.state.store.logs.get? topic = some log) (hfrom : cursorAt topic position = .ok from_) :
    ∃ s', Evals reply i (readPage cfg topic from_) s
        (.ok ((s.state.ahead topic position).take (max 1 cfg.pageSize.toNat))) s' ∧
      s'.state = s.state ∧ Quiet s s' := by
  have hasc := hwf.ascending hne s.state.clock
  have hfirst : EventStore.startOffset (s.state.store.live s.state.clock topic) topic none = .ok (-1) := rfl
  have hread : ∀ {from_ : Option String} {start : Int}, from_ ≠ some Cursor.latest →
      EventStore.startOffset (s.state.store.live s.state.clock topic) topic from_ = .ok start →
      s.state.store.read s.state.clock topic from_ none cfg.pageSize =
        .ok (EventStore.firstPage cfg.pageSize (s.state.ahead topic start)) := by
    intro from_ start hlatest hstart
    have hrange : (s.state.store.live s.state.clock topic).filter (EventStore.inRange start none) =
        s.state.ahead topic start := List.filter_congr fun r _ => by simp [EventStore.inRange]
    rw [EventStore.read_eq hwf hne hlog s.state.clock cfg.pageSize hlatest, hstart, EventStore.endOffset]
    simp only [hrange]
  have hfound : ∀ {from_ : Option String} {start : Int}, from_ ≠ some Cursor.latest →
      EventStore.startOffset (s.state.store.live s.state.clock topic) topic from_ = .ok start →
      s.state.ahead topic start = s.state.ahead topic position →
      ∃ s', Evals reply i (readPage cfg topic from_) s
          (.ok ((s.state.ahead topic position).take (max 1 cfg.pageSize.toNat))) s' ∧
        s'.state = s.state ∧ Quiet s s' := by
    intro from_ start hlatest hstart hsame
    refine ⟨s.next i (.read topic from_ none cfg.pageSize)
      (.ok (EventStore.firstPage cfg.pageSize (s.state.ahead topic start))) s.state,
      Evals.call (exec_read (hread hlatest hstart)) ?_, rfl, (Quiet.refl s).next rfl⟩
    rw [hsame]
    exact .pure _ _
  by_cases hneg : position < 0
  · -- the subscription has seen nothing yet
    rw [cursorAt, if_neg (by omega)] at hfrom
    cases hfrom
    refine hfound (by decide) hfirst (List.filter_congr fun r _ => decide_eq_decide.mpr ?_)
    omega
  · rw [cursorAt, if_pos (by omega)] at hfrom
    cases hc : Cursor.encode topic position with
    | error e =>
      rw [hc] at hfrom
      cases hfrom
    | ok c =>
      rw [hc] at hfrom
      cases hfrom
      have hcfor : Cursor.offsetFor topic c = .ok position.toNat := Cursor.offsetFor_encode hne hc
      have hlatest : some c ≠ some Cursor.latest := fun h =>
        Cursor.ne_sentinel_of_offsetFor hcfor (by decide) (Option.some.inj h)
      have hpos : (position.toNat : Int) = position := by omega
      by_cases hold : ∃ oldest, (s.state.store.live s.state.clock topic).head? = some oldest ∧
          position.toNat < oldest.offset
      · -- the position aged out of retention: everything live lies ahead
        obtain ⟨oldest, hhead, hlt⟩ := hold
        have hexpired : s.state.store.read s.state.clock topic (some c) none cfg.pageSize =
            raiseA2A .cursorExpired "The requested cursor is outside the topic retention window."
              [("fromCursor", .str c), ("oldestAvailableCursor", .str oldest.cursor)] := by
          rw [EventStore.read_eq hwf hne hlog s.state.clock cfg.pageSize hlatest,
            EventStore.startOffset_expired hasc hcfor hhead hlt]
          rfl
        have hsame : s.state.ahead topic (-1) = s.state.ahead topic position := by
          refine List.filter_congr fun r hr => decide_eq_decide.mpr ?_
          have := hasc.head_le hhead hr
          omega
        let s₁ := s.next i (.read topic (some c) none cfg.pageSize)
          (raiseA2A .cursorExpired "The requested cursor is outside the topic retention window."
            [("fromCursor", .str c), ("oldestAvailableCursor", .str oldest.cursor)]) s.state
        have hagain := hread (by decide : none ≠ some Cursor.latest) hfirst
        refine ⟨s₁.next i (.read topic none none cfg.pageSize)
          (.ok (EventStore.firstPage cfg.pageSize (s.state.ahead topic (-1)))) s.state,
          Evals.call (exec_read hexpired) (Evals.call (exec_read hagain) (Evals.lift rfl ?_)), rfl,
          ((Quiet.refl s).next rfl).next rfl⟩
        rw [hsame]
        exact .pure _ _
      · have hnew : ∀ r, (s.state.store.live s.state.clock topic).head? = some r → r.offset ≤ position.toNat :=
          fun r hr => Nat.not_lt.mp fun hlt => hold ⟨r, hr, hlt⟩
        exact hfound hlatest (EventStore.startOffset_cursor hasc hcfor hnew) (by rw [hpos])

theorem lastOffset_append (a b : List EventRecord) : ∀ scan,
    lastOffset scan (a ++ b) = lastOffset (lastOffset scan a) b := by
  induction a with
  | nil => exact fun _ => rfl
  | cons r rest ih => exact fun _ => ih r.offset

theorem lastOffset_of_getLast? {l : List EventRecord} : ∀ {scan : Int} {r : EventRecord},
    l.getLast? = some r → lastOffset scan l = r.offset := by
  induction l with
  | nil =>
    intro scan r h
    cases h
  | cons q rest ih =>
    intro scan r h
    cases rest with
    | nil =>
      cases h
      rfl
    | cons q' rest => exact @ih q.offset r h

/-- The cursor of a live event can be asked for. -/
theorem cursorAt_live {w : World} (hwf : w.store.Wf) {topic : String} (hne : topic ≠ "") {now : Time}
    {r : EventRecord} (hr : r ∈ w.store.live now topic) : cursorAt topic r.offset = .ok (some r.cursor) := by
  obtain ⟨o, -, hat⟩ := hwf.liesAt (EventStore.mem_events_of_mem_live hr)
  rw [cursorAt, if_pos (by omega), hat.offset_eq hne, hat.cursor]
  rfl

/-- Reading calls before a sweep. -/
private theorem Swept.after {h h' : Handle} {topic : String} {sw : Sweep} (hsw : Swept h topic sw s₁ s' h')
    (hq : Quiet s s₁) (hstate : s₁.state = s.state) : Swept h topic sw s s' h' := by
  refine ⟨hsw.held, hsw.alike, ?_, hsw.fresh, ?_, ?_⟩
  · rw [← hstate]
    exact hsw.elsewhere
  · rw [← hq.count]
    exact hsw.count
  · rw [← hq.firstAttempts]
    exact hsw.first

/-- The position is raised after a sweep. -/
private theorem Swept.raised {h h' : Handle} {topic : String} {sw : Sweep} (hsw : Swept h topic sw s s₁ h')
    (hq : Quiet s₁ s') {positions : Dict String (Dict String Int)}
    (hstate : s'.state = { s₁.state with subs := { s₁.state.subs with positions := positions } })
    (hpos : ∀ id' topic', ¬ (id' = h.sub.subscriptionId ∧ topic' = topic) →
      s'.state.subs.position id' topic' = s₁.state.subs.position id' topic') : Swept h topic sw s s' h' := by
  have helse : Elsewhere h.sub.subscriptionId topic s₁.state s'.state := by
    refine ⟨?_, ?_, ?_, ?_, ?_, ?_, ?_, fun id' _ => ?_, hpos⟩
    all_goals rw [hstate]
  refine ⟨⟨?_, hsw.held.base⟩, hsw.alike, hsw.elsewhere.trans helse, ?_, ?_, ?_⟩
  · rw [hstate]
    exact hsw.held.row
  · rw [hstate]
    exact hsw.fresh
  · rw [hq.count]
    exact hsw.count
  · rw [hq.firstAttempts]
    exact hsw.first

/-- One round of the loop, from the page that it reads on. -/
theorem catchUpPages_round {topic : Topic} {name : String} {rounds : Nat} {reply : Nat → Choice} {i : Nat}
    {s s₂ s' : Snapshot cfg fuel} {h : Handle} {processed : Nat} {position : Int} {from_ : Option String}
    {records : List EventRecord} {res : Except PyError (Nat × Handle)}
    (hpos : s.state.subs.position h.sub.subscriptionId name = position) (hfrom : cursorAt name position = .ok from_)
    (hpage : Evals reply i (readPage cfg name from_)
      (s.next i (.highWater h.sub.subscriptionId) (s.state.subs.highWater h.sub.subscriptionId) s.state)
      (.ok records) s₂)
    (hrun : Evals reply i (do
        if records.isEmpty then pure (processed, h)
        else do
          let (scan, processed, h) ← scanPage cfg topic position processed h records
          raiseHighWater h.sub.subscriptionId name scan
          catchUpPages cfg topic name processed h rounds) s₂ res s') :
    Evals reply i (catchUpPages cfg topic name processed h (rounds + 1)) s res s' := by
  have hread : World.exec i (.highWater h.sub.subscriptionId) (reply (sendCount s.trace)) s.state =
      some (s.state.subs.highWater h.sub.subscriptionId, s.state) := rfl
  have hgetD : (s.state.subs.highWater h.sub.subscriptionId).getD name (-1) = position := hpos
  refine Evals.call hread ?_
  rw [hgetD]
  exact Evals.lift hfrom (hpage.bind hrun)

/-- Page by page everything ahead is swept. -/
theorem catchUpPages_eval (reply : Nat → Choice) (i : Nat) {topic : Topic} {name : String} (hne : name ≠ "")
    (rounds : Nat) : ∀ {s : Snapshot cfg fuel} {h : Handle} {processed : Nat} {position : Int}
      {from_ : Option String} {log : TopicLog}, s.state.store.Wf → s.state.store.logs.get? name = some log →
      Held h s.state → s.state.topics.get? name = some topic → RetryIdsFresh s.state →
      s.state.subs.position h.sub.subscriptionId name = position → cursorAt name position = .ok from_ →
      (s.state.ahead name position).length < rounds →
      let sw := sweep cfg reply topic h.sub.selector (sendCount s.trace) (s.state.ahead name position)
      ∃ s' h', Evals reply i (catchUpPages cfg topic name processed h rounds) s
          (match sw.error with
            | some e => .error e
            | none => .ok (processed + (s.state.ahead name position).length, h')) s' ∧
        Swept h name sw s s' h' ∧
        (sw.error = none → s'.state.subs.position h.sub.subscriptionId name =
          lastOffset position (s.state.ahead name position)) := by
  induction rounds with
  | zero =>
    intro s h processed position from_ log _ _ _ _ _ _ _ hlt
    exact absurd hlt (Nat.not_lt_zero _)
  | succ rounds ih =>
    intro s h processed position from_ log hwf hlog hh hcached hfresh hpos hfrom hlt sw
    let s₁ := s.next i (.highWater h.sub.subscriptionId) (s.state.subs.highWater h.sub.subscriptionId) s.state
    obtain ⟨s₂, hpage, hs₂, hq₂⟩ := readPage_eval (s := s₁) reply i hwf hne hlog hfrom
    have hstate₂ : s₂.state = s.state := hs₂
    have hquiet₂ : Quiet s s₂ := ((Quiet.refl s).next rfl).trans hq₂
    let L := s.state.ahead name position
    let k := max 1 cfg.pageSize.toNat
    have hahead : s₁.state.ahead name position = L := rfl
    rw [hahead] at hpage
    have hstart {res s'} := @catchUpPages_round cfg fuel topic name rounds reply i s s₂ s' h processed position from_
      (L.take k) res hpos hfrom hpage
    have hk : 1 ≤ k := Nat.le_max_left 1 _
    by_cases hnone : L.take k = []
    · -- the head is reached
      have hnil : L = [] := by
        rcases List.take_eq_nil_iff.mp hnone with h0 | h0
        · omega
        · exact h0
      have hsw : sw = ⟨[], 0, none⟩ := by
        show sweep cfg reply topic h.sub.selector (sendCount s.trace) L = _
        rw [hnil]
        rfl
      refine ⟨s₂, h, hstart ?_, ?_, fun _ => ?_⟩
      · rw [hnone, hsw, show s.state.ahead name position = L from rfl, hnil]
        exact .pure _ _
      · rw [hsw]
        refine Swept.after (Swept.refl ?_ ?_) hquiet₂ hstate₂
        · rw [hstate₂]
          exact hh
        · rw [hstate₂]
          exact hfresh
      · rw [hstate₂, show s.state.ahead name position = L from rfl, hnil]
        exact hpos
    · obtain ⟨last, hlast⟩ : ∃ r, (L.take k).getLast? = some r := ⟨_, List.getLast?_eq_some_getLast hnone⟩
      have hmem : ∀ r ∈ L.take k, r ∈ s.state.store.live s.state.clock name ∧ position < r.offset := by
        intro r hr
        have := List.mem_filter.mp (List.mem_of_mem_take hr)
        exact ⟨this.1, by simpa using this.2⟩
      have hasc := hwf.ascending hne s.state.clock
      have hsorted : L.Pairwise fun a b => a.offset < b.offset := hasc.sorted.filter _
      obtain ⟨s₃, h₃, hscan, hswept, hpos₃⟩ := scanPage_eval reply i (L.take k) (s := s₂)
        (fun r hr => hwf.sendable hne (hmem r hr).1)
        (hsorted.sublist (List.take_sublist k L)) (fun r hr => (hmem r hr).2) (by rw [hstate₂]; exact hh)
        (by rw [hstate₂]; exact hcached) (by rw [hstate₂]; exact hfresh) (by rw [hstate₂]; exact hpos.le)
      rw [hquiet₂.count] at hscan hswept hpos₃
      have hswept := hswept.after hquiet₂ hstate₂
      let a := sweep cfg reply topic h.sub.selector (sendCount s.trace) (L.take k)
      have hsplit : sw = a.andThen fun n => sweep cfg reply topic h.sub.selector (sendCount s.trace + n) (L.drop k) := by
        rw [← sweep_append, List.take_append_drop]
      have hnonempty : (L.take k).isEmpty = false := by simpa using hnone
      cases ha : a.error with
      | some e =>
        have hsw : sw = a := by rw [hsplit, Sweep.andThen_error ha]
        rw [ha] at hscan
        refine ⟨s₃, h₃, hstart ?_, ?_, fun hnone => ?_⟩
        · rw [hnonempty, if_neg (by decide), hsw, ha]
          exact Eval.bind_error _ hscan
        · rw [hsw]
          exact hswept
        · rw [hsw, ha] at hnone
          cases hnone
      | none =>
        rw [ha] at hscan
        have hid := hswept.alike.subscriptionId
        have hoffset : lastOffset position (L.take k) = last.offset := lastOffset_of_getLast? hlast
        obtain ⟨s₄, positions, hraise, hq₄, hs₄, hpos₄⟩ :=
          raiseHighWater_eval reply i s₃ h₃.sub.subscriptionId name last.offset
        have hswept₄ : Swept h name a s s₄ h₃ := by
          refine hswept.raised hq₄ hs₄ fun id' topic' hother => ?_
          rw [hpos₄, hid, if_neg hother]
        have hle := hpos₃ ha
        rw [hoffset] at hle
        have hposition : s₄.state.subs.position h₃.sub.subscriptionId name = last.offset := by
          rw [hpos₄, if_pos ⟨rfl, rfl⟩, hid]
          exact max_eq_right hle
        have hlive := hmem last (List.mem_of_getLast? hlast)
        have hrest : s₄.state.ahead name last.offset = L.drop k := by
          have hdrop := EventStore.drop_eq_filter hsorted hlast
          rw [hdrop, World.ahead, hswept₄.elsewhere.store, hswept₄.elsewhere.clock,
            show L = (s.state.store.live s.state.clock name).filter fun r => decide (position < r.offset) from rfl,
            List.filter_filter]
          refine List.filter_congr fun r _ => ?_
          rw [← Bool.decide_and]
          refine decide_eq_decide.mpr ?_
          have := hlive.2
          omega
        have hlen : (s₄.state.ahead name last.offset).length < rounds := by
          rw [hrest, List.length_drop]
          have : L.length < rounds + 1 := hlt
          have : L.length ≠ 0 := fun h0 => hnone (by rw [List.length_eq_zero_iff.mp h0, List.take_nil])
          omega
        obtain ⟨s₅, h₅, hrun, hswept₅, hpos₅⟩ := ih
          (by rw [hswept₄.elsewhere.store]; exact hwf) (by rw [hswept₄.elsewhere.store]; exact hlog) hswept₄.held
          (by rw [hswept₄.elsewhere.topics]; exact hcached) hswept₄.fresh hposition
          (cursorAt_live hwf hne hlive.1) hlen
        rw [hrest, hswept₄.alike.selector, hswept₄.count] at hrun hswept₅ hpos₅
        have hsw : sw.error = (sweep cfg reply topic h.sub.selector (sendCount s.trace + a.sends) (L.drop k)).error := by
          rw [hsplit, Sweep.andThen_ok ha]
        have htotal : processed + (L.take k).length + (L.drop k).length = processed + L.length := by
          rw [Nat.add_assoc, ← List.length_append, List.take_append_drop]
        refine ⟨s₅, h₅, hstart ?_, ?_, fun hnone => ?_⟩
        · rw [hnonempty, if_neg (by decide), hsw]
          rw [htotal] at hrun
          rw [hoffset] at hscan
          exact Eval.bind hscan (hraise.bind hrun)
        · rw [hsplit]
          exact hswept₄.trans ha hswept₅
        · rw [hsw] at hnone
          have hlast₅ := hpos₅ hnone
          rw [hid, ← hoffset, ← lastOffset_append, List.take_append_drop] at hlast₅
          exact hlast₅

/-- The topic exists, and the cache has no other idea of it. -/
structure World.Knows (w : World) (name : String) (topic : Topic) : Prop where
  log : ∃ log, w.store.logs.get? name = some log ∧ log.topic = topic
  cache : ∀ t, w.topics.get? name = some t → t = topic

/-- The topic exists, and the publisher takes this to be its declaration. -/
structure World.Finds (w : World) (name : String) (topic : Topic) (log : TopicLog) : Prop where
  declared : w.store.logs.get? name = some log
  cached : (w.topics.get? name).getD log.topic = topic

theorem World.Knows.finds {w : World} {name : String} {topic : Topic} (hk : w.Knows name topic) :
    ∃ log, w.Finds name topic log := by
  obtain ⟨log, hlog, htopic⟩ := hk.log
  refine ⟨log, hlog, ?_⟩
  cases hcached : w.topics.get? name with
  | none => exact htopic
  | some t => exact hk.cache t hcached

/-- The cache of topics has gained a topic at most. -/
def Gains (name : String) (topic : Topic) (topics topics' : Dict String Topic) : Prop :=
  ∀ n, topics'.get? n = topics.get? n ∨ n = name ∧ topics'.get? n = some topic

theorem Gains.cached {name n : String} {topic t : Topic} {topics topics' : Dict String Topic}
    (hg : Gains name topic topics topics') (ht : topics'.get? n = some t) :
    topics.get? n = some t ∨ n = name ∧ t = topic := by
  rcases hg n with hsame | ⟨hn, hnew⟩
  · exact .inl (hsame.symm.trans ht)
  · rw [hnew] at ht
    exact .inr ⟨hn, (Option.some.inj ht).symm⟩

/-- A topic is fetched from the cache or from the store, and cached. -/
theorem getTopic_found (reply : Nat → Choice) (i : Nat) {name : String} {topic : Topic} {log : TopicLog}
    (hf : s.state.Finds name topic log) :
    ∃ s' topics, Evals reply i (getTopic name) s (.ok topic) s' ∧ Quiet s s' ∧
      s'.state = { s.state with topics := topics } ∧ topics.get? name = some topic ∧
      Gains name topic s.state.topics topics := by
  have htopic := hf.cached
  cases hcached : s.state.topics.get? name with
  | some t =>
    rw [hcached] at htopic
    obtain rfl : t = topic := htopic
    have hex : World.exec i (.cachedTopic name) (reply (sendCount s.trace)) s.state = some (some t, s.state) := by
      simp [World.exec, hcached]
    exact ⟨s.next i (.cachedTopic name) (some t) s.state, s.state.topics, Evals.call hex (.pure _ _),
      (Quiet.refl s).next rfl, rfl, hcached, fun _ => .inl rfl⟩
  | none =>
    rw [hcached] at htopic
    obtain rfl : log.topic = topic := htopic
    have hlog := hf.declared
    have hex : World.exec i (.cachedTopic name) (reply (sendCount s.trace)) s.state = some (none, s.state) := by
      simp [World.exec, hcached]
    have hget : ∀ c, World.exec i (.getTopic name) c s.state = some (.ok log.topic, s.state) := by
      intro c
      simp [World.exec, EventStore.getTopic, hlog]
    let topics := s.state.topics.set name log.topic
    let s₁ := (s.next i (.cachedTopic name) none s.state).next i (.getTopic name) (.ok log.topic) s.state
    refine ⟨s₁.next i (.cacheTopic name log.topic) () { s.state with topics := topics }, topics,
      Evals.call hex (Evals.call (hget _) (Evals.lift rfl (Evals.call rfl (.pure _ _)))),
      (((Quiet.refl s).next rfl).next rfl).next rfl, rfl, by simp [topics], fun n => ?_⟩
    simp only [topics, Dict.get?_set]
    split
    · rename_i hn
      exact .inr ⟨hn, rfl⟩
    · exact .inl rfl

theorem getTopic_known (reply : Nat → Choice) (i : Nat) {name : String} {topic : Topic}
    (hk : s.state.Knows name topic) :
    ∃ s' topics, Evals reply i (getTopic name) s (.ok topic) s' ∧ Quiet s s' ∧
      s'.state = { s.state with topics := topics } ∧ topics.get? name = some topic ∧
      Gains name topic s.state.topics topics := by
  obtain ⟨log, hf⟩ := hk.finds
  exact getTopic_found reply i hf

/-- A catch-up sweeps everything ahead. -/
theorem catchUp_eval (reply : Nat → Choice) (i : Nat) {topic : Topic} {name : String} {log : TopicLog} (hne : name ≠ "")
    (rounds : Nat) {h : Handle} {position : Int} {from_ : Option String} (hwf : s.state.store.Wf)
    (hf : s.state.Finds name topic log) (hh : Held h s.state) (hfresh : RetryIdsFresh s.state)
    (hpos : s.state.subs.position h.sub.subscriptionId name = position)
    (hfrom : cursorAt name position = .ok from_) (hrounds : (s.state.ahead name position).length < rounds) :
    let sw := sweep cfg reply topic h.sub.selector (sendCount s.trace) (s.state.ahead name position)
    ∃ s₁ topics s' h', Quiet s s₁ ∧ s₁.state = { s.state with topics := topics } ∧
      topics.get? name = some topic ∧ Gains name topic s.state.topics topics ∧
      Evals reply i (catchUp cfg rounds h name) s
        (match sw.error with
          | some e => .error e
          | none => .ok ((s.state.ahead name position).length, h')) s' ∧
      Swept h name sw s₁ s' h' ∧
      (sw.error = none → s'.state.subs.position h.sub.subscriptionId name =
        lastOffset position (s.state.ahead name position)) := by
  intro sw
  obtain ⟨s₁, topics, hget, hq, hs₁, hcached, hgains⟩ := getTopic_found reply i hf
  have hlog := hf.declared
  have hahead : s₁.state.ahead name position = s.state.ahead name position := by
    rw [hs₁]
    rfl
  obtain ⟨s', h', hrun, hswept, hlast⟩ := catchUpPages_eval reply i hne rounds (s := s₁) (by rw [hs₁]; exact hwf) (by rw [hs₁]; exact hlog)
    (by rw [hs₁]; exact ⟨hh.row, hh.base⟩) (by rw [hs₁]; exact hcached) (by rw [hs₁]; exact hfresh)
    (by rw [hs₁]; exact hpos) hfrom (by rw [hahead]; exact hrounds)
  rw [hahead, hq.count, Nat.zero_add] at hrun
  rw [hahead, hq.count] at hswept hlast
  exact ⟨s₁, topics, s', h', hq, hs₁, hcached, hgains, hget.bind hrun, hswept, hlast⟩

end

end A2AEvents

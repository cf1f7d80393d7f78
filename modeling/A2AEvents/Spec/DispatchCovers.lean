import A2AEvents.Spec.TraceCorrect

/-!
# What dispatches cover

A publish that returned has appended its event, listed the subscriptions and waited for a dispatch of
each; a subscribe that returned has added its subscription and dispatched it. Of an event and a
subscription one is there first, and whoever comes second finds it: so some dispatch reads the log
when both are there, and does not end before its subscription has been taken past the event.

## Key results

- `Told.covers`: every event is covered by the subscribe or by the publish
- `Told.position_of_covered`: what is covered is not beyond the position
- `Told.sent_of_accounted`: what is accounted for was sent
- `Told.heads`, `Told.le_head`, `Told.head_lt`: where a subscribe from the latest event starts
-/

namespace A2AEvents

open Async Publisher

variable {cfg : PublisherConfig} {fuel : Nat}

/-! ## The moves of a publish and of a subscribe -/

section Programs

variable (hinline : cfg.deferredDispatch = false) {l : List (Move sig)}

include hinline

/-- A publish that returned has appended its event, then listed the subscriptions, and waited for a
    dispatch of each that has the topic. -/
theorem publish_returns {topic type : String} {data : List (String × Json)} {subject : Option String} {v : Val}
    (h : (code cfg fuel (.publish topic type data subject)).Returns l v) : ∃ record hs ids vs, v = .record record ∧
      l = [.op (.append topic type cfg.source data subject) (.ok record), .op .listAll hs,
        .fork ((hs.filter fun h => topic ∈ h.sub.topics).map fun h => .dispatchSubscription h (some [topic])) ids,
        .join ids (.ok vs)] := by
  -- the append, the listing, the fork of the dispatches and the join
  obtain ⟨l₁, record, l₂, rfl, hpublish, hval⟩ := Prog.returns_bind.mp h
  obtain ⟨rfl, rfl⟩ := Prog.returns_pure.mp hval
  obtain ⟨r, l₃, rfl, happended⟩ := Prog.returns_call_bind.mp hpublish
  obtain ⟨l₄, record', l₅, rfl, hraise, hafter⟩ := Prog.returns_bind.mp happended
  obtain ⟨rfl, rfl⟩ := Prog.returns_lift.mp hraise
  simp only [hinline, Bool.not_false, if_true] at hafter
  obtain ⟨l₆, u, l₇, rfl, hdispatch, hrecord⟩ := Prog.returns_bind.mp hafter
  obtain ⟨rfl, rfl⟩ := Prog.returns_pure.mp hrecord
  obtain ⟨hs, l₈, rfl, hlisted⟩ := Prog.returns_call_bind.mp hdispatch
  obtain ⟨l₉, vs, l₁₀, rfl, hgather, hunit⟩ := Prog.returns_bind.mp hlisted
  obtain ⟨rfl, -⟩ := Prog.returns_pure.mp hunit
  obtain ⟨ids, l₁₁, rfl, hforked⟩ := Prog.returns_fork.mp hgather
  obtain ⟨joined, l₁₂, rfl, hjoined⟩ := Prog.returns_join.mp hforked
  obtain ⟨rfl, rfl⟩ := Prog.returns_lift.mp hjoined
  exact ⟨record', hs, ids, vs, rfl, rfl⟩

/-- A subscribe that returned has added its subscription, and then dispatched it. -/
theorem subscribe_returns {req : SubscribeRequest} {sub : Subscription}
    (h : (code cfg fuel (.subscribe req)).Returns l (.subscription sub)) : ∃ l₀ added offsets hd l₁ n hd',
      l = l₀ ++ .op (.add added offsets) hd :: (l₁ ++ [.op (.deref hd) hd']) ∧
        (dispatchSubscription cfg fuel hd none).Returns l₁ n ∧ hd'.sub = sub := by
  -- the checks, time and name, the start offsets, the row
  obtain ⟨l₁, sub', l₂, rfl, hsubscribe, hval⟩ := Prog.returns_bind.mp h
  obtain ⟨rfl, hsub⟩ := Prog.returns_pure.mp hval
  cases hsub
  obtain ⟨l₃, u, l₄, rfl, -, hleased⟩ := Prog.returns_bind.mp hsubscribe
  obtain ⟨l₅, checks, l₆, rfl, -, hchecked⟩ := Prog.returns_bind.mp hleased
  obtain ⟨now, l₇, rfl, hnow⟩ := Prog.returns_call_bind.mp hchecked
  obtain ⟨hex, l₈, rfl, hnamed⟩ := Prog.returns_call_bind.mp hnow
  obtain ⟨l₉, offsets, l₁₀, rfl, -, hstarts⟩ := Prog.returns_bind.mp hnamed
  obtain ⟨hd, l₁₁, rfl, hadded⟩ := Prog.returns_call_bind.mp hstarts
  -- and then, in inline mode, the dispatch and the object to return
  simp only [hinline, Bool.not_false, if_true] at hadded
  obtain ⟨l₁₂, u', l₁₃, rfl, hserve, hserved⟩ := Prog.returns_bind.mp hadded
  obtain ⟨hd', l₁₄, rfl, hseen⟩ := Prog.returns_call_bind.mp hserved
  obtain ⟨rfl, hsub⟩ := Prog.returns_pure.mp hseen
  obtain ⟨l₁₅, n, l₁₆, rfl, hdispatch, hunit⟩ := Prog.returns_bind.mp hserve
  obtain ⟨rfl, -⟩ := Prog.returns_pure.mp hunit
  have hassoc : ∀ x, l₃ ++ (l₅ ++ .op .now now :: .op .uuid hex :: (l₉ ++ x)) =
      (l₃ ++ (l₅ ++ .op .now now :: .op .uuid hex :: l₉)) ++ x := by simp
  rw [List.append_nil, List.append_nil]
  exact ⟨_, _, offsets, hd, l₁₅, n, hd', hassoc _, hdispatch, hsub⟩

end Programs

/-! ## What tasks come to -/

section Tasks

variable {R : Regime} {s later : Snapshot cfg fuel} {c : Run.Config cfg fuel} {ds : List (Deed (sem cfg fuel))}
  {past : List (Entry cfg fuel)} {p : Subscription × Dict String Int} {i : Nat} {j : Job} {topic : String}
  {record : EventRecord} {o : Nat}

/-- The event is in retention, wherever it is. -/
def Retained (s : Snapshot cfg fuel) (topic : String) (record : EventRecord) : Prop :=
  ∀ log, s.state.store.logs.get? topic = some log → EventStore.retained log.topic s.state.clock record = true

/-- What is in retention at the end of a run was live in all its worlds. -/
theorem Visited.live_of_retained (hv : Visited R s later) (hrecord : record ∈ appended s.trace topic)
    (hretained : Retained later topic record) : record ∈ s.state.store.live s.state.clock topic := by
  refine (hv.written.kept topic record hrecord).mem_live fun log hlog => ?_
  obtain ⟨log', hlog', htopic, -⟩ := hv.grows.store topic log hlog
  have hlater := hretained log' hlog'
  rw [htopic] at hlater
  exact EventStore.retained_of_le hv.grows.clock hlater

/-- A subscription that was added is there. -/
theorem Visited.refers (hv : Visited R s later) (hp : p ∈ added s.trace) {h : Handle} (hh : h.sub.Alike p.1) :
    Refers h s := by
  obtain ⟨row, hrow, halike⟩ := hv.inv.rows.added p hp
  exact ⟨row, by rw [hh.subscriptionId]; exact hrow, halike.trans hh.symm⟩

theorem added_mono {mid : List (Entry cfg fuel)} (hp : p ∈ added past) : p ∈ added (past ++ mid) := by
  rw [added, List.filterMap_append]
  exact List.mem_append_left _ hp

theorem appended_mono {mid : List (Entry cfg fuel)} (hrecord : record ∈ appended past topic) :
    record ∈ appended (past ++ mid) topic := by
  rw [appended_append]
  exact List.mem_append_left _ hrecord

/-- Objects that a task comes to from one of a subscription are of this subscription. -/
theorem Told.derived_alike (h : Told R c ds) (hp : p ∈ added past) {h₀ h₁ : Handle} (hh : h₀.sub.Alike p.1)
    (hd : Answers.Derived (c.state.receivedSince past i) j h₀ h₁) : h₁.sub.Alike p.1 := by
  -- every object comes from one before it, by a look, a write or a write-back
  induction hd with
  | refl => exact hh
  | deref _ ha ih =>
    obtain ⟨w, mid, ch, w', hv, hex⟩ := h.answer ha
    cases hex
    exact (deref_spec (hv.refers (added_mono hp) ih)).1.trans ih
  | @assign h₁ h₂ e _ _ ha ih =>
    obtain ⟨w, mid, ch, w', hv, hex⟩ := h.answer ha
    cases hex
    exact ((hv.refers (added_mono hp) ih).assign e).trans ih
  | @update h₁ h₂ _ ha ih =>
    obtain ⟨w, mid, ch, w', hv, hex⟩ := h.answer ha
    cases hex
    -- over live rows an update hands back the object itself
    have hsame : (w.subs.update h₁).1 = h₁ := by
      have hlive : w.subs.backend = .live := hv.live
      simp only [SubscriptionStore.update, hlive]
    rw [hsame]
    exact ih

/-- An event that was appended before a task drained its topic is not beyond the position. -/
theorem Told.position_of_drained (h : Told R c ds) (hmonotone : R.monotone = true) {hd : Handle}
    (hdrained : Answers.Drained (c.state.receivedSince past i) cfg hd topic) (hrecord : record ∈ appended past topic)
    (hat : record.LiesAt topic o) (hretained : Retained c.state topic record) :
    (o : Int) ≤ c.state.state.subs.position hd.sub.subscriptionId topic := by
  obtain ⟨d, from_, next, hwater, hread, hfrom⟩ := hdrained
  have hposition : d.getD topic (-1) ≤ c.state.state.subs.position hd.sub.subscriptionId topic := by
    obtain ⟨w, mid, ch, w', hv, hex⟩ := h.answer hwater
    cases hex
    exact hv.grows.position hmonotone _ topic
  -- the page would hold the event if it lay beyond the position
  by_contra hlt
  obtain ⟨w, mid, ch, w', hv, hex⟩ := h.answer hread
  simp only [World.exec, Option.some.injEq, Prod.mk.injEq] at hex
  -- the read started at the position, or at the beginning
  have hreads : ReadsFrom topic (d.getD topic (-1)) from_ := by
    rcases hfrom with hcursor | hnone
    · exact cursorAt_ok hcursor
    · exact .inl hnone
  obtain ⟨start, toOffset, hstart, hend, hpage⟩ := EventStore.read_ok hv.inv.store.wf hreads.ne_latest hex.1
  cases hend
  have hle := hreads.start_le hstart
  have hlive := hv.live_of_retained (appended_mono hrecord) hretained
  rcases hpage.covers record hlive o hat ⟨by omega, fun _ ht => (by cases ht)⟩ with hmem | hmem
  · cases hmem
  · exact hmem.1 rfl

/-- The subscription is active, its lease is running, and its deliveries were authorized whenever that was asked. -/
structure Served (c : Run.Config cfg fuel) (subscriptionId : String) : Prop where
  active : ∀ row, c.state.state.subs.rows.get? subscriptionId = some row → ¬ row.Lapsed c.state.state.clock
  authorized : ∀ i h authorized w, (⟨i, .authorizeDelivery h, authorized, w⟩ : Entry cfg fuel) ∈ c.state.trace →
    h.sub.subscriptionId = subscriptionId → authorized = true

/-- A task dispatched the subscription after it had been added and the event had been appended. -/
structure Covered (c : Run.Config cfg fuel) (p : Subscription × Dict String Int) (topic : String) (record : EventRecord)
    (past : List (Entry cfg fuel)) (i : Nat) (j : Job) (h : Handle) (topics : Option (List String)) : Prop where
  added : p ∈ added past
  appended : record ∈ appended past topic
  handle : h.sub.Alike p.1
  has : topic ∈ topics.getD p.1.topics
  dispatched : Answers.Dispatched (c.state.receivedSince past i) j cfg h topics

/-- What a dispatch covers is not beyond the position when the subscription is served. -/
theorem Told.position_of_covered (h : Told R c ds) (hmonotone : R.monotone = true) (hgated : R.gated = true)
    (hserved : Served c p.1.subscriptionId) {hd : Handle} {topics : Option (List String)}
    (hcovered : Covered c p topic record past i j hd topics) (hat : record.LiesAt topic o)
    (hretained : Retained c.state topic record) :
    (o : Int) ≤ c.state.state.subs.position p.1.subscriptionId topic := by
  cases hcovered.dispatched with
  | @idle h₁ h₂ hd ha hidle =>
    -- it was not active then, and nobody revived it
    obtain ⟨w, mid, ch, w', hv, hex⟩ := h.answer ha
    cases hex
    have halike := h.derived_alike hcovered.added hcovered.handle hd
    have hrow := (deref_spec (hv.refers (added_mono hcovered.added) halike)).2.1 hv.live
    rw [halike.subscriptionId] at hrow
    obtain ⟨row, hlater, -⟩ := hv.grows.rows _ _ hrow
    exact absurd (.inl ((hv.lapsed hgated hv.live _ _ _ hrow hlater).1 hidle)) (hserved.active row hlater)
  | @denied h₁ hd ha =>
    -- which was never refused
    have halike := h.derived_alike hcovered.added hcovered.handle hd
    obtain ⟨w, hmem⟩ := ha.received
    cases hserved.authorized i h₁ false w hmem halike.subscriptionId
  | @drained h₁ hd hall =>
    -- so it went through the topic
    have halike := h.derived_alike hcovered.added hcovered.handle hd
    obtain ⟨h₂, hd₂, hdrained⟩ := hall topic (by rw [halike.topics]; exact hcovered.has)
    have hle := h.position_of_drained hmonotone hdrained hcovered.appended hat hretained
    rw [(h.derived_alike hcovered.added hcovered.handle hd₂).subscriptionId] at hle
    exact hle

theorem mem_added_of_deed {k : Nat} {r : (Op.add p.1 p.2).Res} {w : World}
    (h : (.call ⟨k, .add p.1 p.2, r, w⟩ : Deed (sem cfg fuel)) ∈ ds) : p ∈ added (entriesOf ds) :=
  List.mem_filterMap.mpr ⟨_, mem_entriesOf h, rfl⟩

theorem mem_appended {type source : String} {data : List (String × Json)} {subject : Option String} {w : World}
    (h : (⟨i, .append topic type source data subject, .ok record, w⟩ : Entry cfg fuel) ∈ past) :
    record ∈ appended past topic :=
  List.mem_filterMap.mpr ⟨_, h, by simp [Entry.appended?]⟩

theorem mem_appended_of_deed {type source : String} {data : List (String × Json)} {subject : Option String} {w : World}
    (h : (.call ⟨i, .append topic type source data subject, .ok record, w⟩ : Deed (sem cfg fuel)) ∈ ds) :
    record ∈ appended (entriesOf ds) topic :=
  mem_appended (mem_entriesOf h)

/-- What a subscribe that returned has done. -/
structure Subscribes (ds ds₁ ds₂ : List (Deed (sem cfg fuel))) (k : Nat) (p : Subscription × Dict String Int)
    (w : World) (sub : Subscription) : Prop where
  deeds : ds = ds₁ ++ .call ⟨k, .add p.1 p.2, ⟨p.1, p.1⟩, w⟩ :: ds₂
  alike : sub.Alike p.1
  dispatches : ∃ l l' n, movesOf k ds₂ = l ++ l' ∧ (dispatchSubscription cfg fuel ⟨p.1, p.1⟩ none).Returns l n

theorem Told.subscribes (h : Told R c ds) (hinline : cfg.deferredDispatch = false) {k : Nat} {req : SubscribeRequest}
    {sub : Subscription} (ht : c.tasks[k]? = some ⟨.subscribe req, .pure (.subscription sub)⟩) :
    ∃ ds₁ ds₂ p w, Subscribes ds ds₁ ds₂ k p w sub := by
  obtain ⟨l₀, row, offsets, hd, l₁, n, hd', hmoves, hdispatch, rfl⟩ := subscribe_returns hinline (h.chronicle.takes k _ ht)
  obtain ⟨dsₐ, dsᵦ, rfl, -, hrest⟩ := movesOf_eq_append hmoves
  obtain ⟨ds₁, w, ds₂, rfl, htail⟩ := movesOf_eq_op hrest
  have hds : dsₐ ++ (ds₁ ++ .call ⟨k, .add row offsets, hd, w⟩ :: ds₂) =
      (dsₐ ++ ds₁) ++ .call ⟨k, .add row offsets, hd, w⟩ :: ds₂ := (List.append_assoc _ _ _).symm
  have hentry : (⟨k, .add row offsets, hd, w⟩ : Entry cfg fuel) ∈ c.state.trace := by
    rw [← h.chronicle.trace]
    exact mem_entriesOf (by simp)
  obtain ⟨ch, w', hex⟩ := h.now.written.performed _ hentry
  obtain ⟨-, rfl, -⟩ := World.add_of_exec hex
  -- the object that it returns is the one that it added
  have hchronicle := h.chronicle
  rw [hds, List.append_cons] at hchronicle
  have hseen := hchronicle.received (i := k) (o := .deref ⟨row, row⟩) (r := hd') (by rw [htail]; simp)
  have hadded : (row, offsets) ∈ added (entriesOf (dsₐ ++ ds₁ ++
      [.call (⟨k, .add row offsets, ⟨row, row⟩, w⟩ : Entry cfg fuel)])) :=
    mem_added_of_deed (List.mem_append_right _ (.head _))
  have halike := h.derived_alike (j := .dispatchSubscription ⟨row, row⟩ none) hadded (.refl row) (.deref .refl hseen)
  exact ⟨dsₐ ++ ds₁, ds₂, (row, offsets), w, hds, halike, l₁, [.op (.deref ⟨row, row⟩) hd'], n, htail, hdispatch⟩

/-- A subscribe dispatches its subscription after it has added it. -/
theorem Told.covered_by_subscribe (h : Told R c ds) {ds₁ ds₂ : List (Deed (sem cfg fuel))} {k : Nat} {w : World}
    {sub : Subscription} (hsub : Subscribes ds ds₁ ds₂ k p w sub)
    (hrecord : record ∈ appended (entriesOf ds₁) topic) (htopic : topic ∈ p.1.topics) :
    ∃ past, Covered c p topic record past k (.dispatchSubscription ⟨p.1, p.1⟩ none) ⟨p.1, p.1⟩ none := by
  obtain ⟨l, l', n, hmoves, hdispatch⟩ := hsub.dispatches
  have hchronicle := h.chronicle
  rw [hsub.deeds, List.append_cons] at hchronicle
  refine ⟨entriesOf (ds₁ ++ [.call ⟨k, .add p.1 p.2, ⟨p.1, p.1⟩, w⟩]), ?_, ?_, .refl _, htopic, ?_⟩
  · exact mem_added_of_deed (List.mem_append_right _ (.head _))
  · rw [entriesOf_append]
    exact appended_mono hrecord
  · refine (dispatchSubscription_sourced (Answers.Handed.held (.given rfl)) none).returns hdispatch fun o r hmem => ?_
    exact hchronicle.received (by rw [hmoves]; exact List.mem_append_left _ hmem)

/-- A publish dispatches every subscription that it finds listed with its topic. -/
theorem Told.covered_by_publish (h : Told R c ds) {ds₁ ds₂ : List (Deed (sem cfg fuel))} {hs : List Handle} {w : World}
    {js : List Job} {ids : List Nat} {vs : List Val} (hds : ds = ds₁ ++ .call ⟨i, .listAll, hs, w⟩ :: ds₂)
    (hmoves : movesOf i ds₂ = [.fork js ids, .join ids (.ok vs)])
    (hjobs : ∀ h ∈ hs, topic ∈ h.sub.topics → .dispatchSubscription h (some [topic]) ∈ js)
    (hp : p ∈ added (entriesOf ds₁)) (hrecord : record ∈ appended (entriesOf ds₁) topic)
    (htopic : topic ∈ p.1.topics) :
    ∃ past n hd, Covered c p topic record past n (.dispatchSubscription hd (some [topic])) hd (some [topic]) := by
  obtain ⟨ds₃, ds₄, rfl, hjoin⟩ := movesOf_eq_fork hmoves
  obtain ⟨ds₅, ds₆, rfl, -⟩ := movesOf_eq_join hjoin
  -- the subscription is listed
  have htrace : c.state.trace = entriesOf ds₁ ++ (⟨i, .listAll, hs, w⟩ : Entry cfg fuel) ::
      entriesOf (ds₃ ++ .fork i js ids :: (ds₅ ++ .join i ids (.ok vs) :: ds₆)) := by
    rw [← h.chronicle.trace, hds, entriesOf_append]
    rfl
  have hv := h.found _ _ _ htrace
  obtain ⟨row, hrow, halike⟩ := hv.inv.rows.added p hp
  have hlisted : (⟨row, row⟩ : Handle) ∈ hs := by
    obtain ⟨ch, w', hex⟩ := h.now.written.performed _ (by rw [htrace]; exact List.mem_append_right _ (.head _))
    simp only [World.exec, Option.some.injEq, Prod.mk.injEq] at hex
    have hlive : w.subs.backend = .live := hv.live
    rw [← hex.1, SubscriptionStore.listAll, hlive]
    exact List.mem_map.mpr ⟨row, Dict.mem_values_iff.mpr ⟨_, hrow⟩, rfl⟩
  have hjob := hjobs ⟨row, row⟩ hlisted (by rw [halike.topics]; exact htopic)
  -- its dispatch was forked and has returned
  have hsplit : ds = (ds₁ ++ .call ⟨i, .listAll, hs, w⟩ :: ds₃) ++ .fork i js ids :: (ds₅ ++ .join i ids (.ok vs) :: ds₆) := by
    rw [hds, List.append_assoc]
    rfl
  have hchronicle := h.chronicle
  rw [hsplit] at hchronicle
  obtain ⟨n, v, hreturns⟩ := hchronicle.returned_of_forked (List.mem_append_right ds₅ (.head ds₆)) hjob
  refine ⟨entriesOf (ds₁ ++ .call ⟨i, .listAll, hs, w⟩ :: ds₃), n, ⟨row, row⟩, ?_, ?_, halike, List.mem_singleton_self _, ?_⟩
  · rw [entriesOf_append]
    exact added_mono hp
  · rw [entriesOf_append]
    exact appended_mono hrecord
  · -- and read the log since
    have hsourced : Sourced cfg (.dispatchSubscription ⟨row, row⟩ (some [topic]))
        (c.state.receivedSince (entriesOf (ds₁ ++ .call ⟨i, .listAll, hs, w⟩ :: ds₃)) n)
        (code cfg fuel (.dispatchSubscription ⟨row, row⟩ (some [topic]))) fun _ =>
          Answers.Dispatched _ (.dispatchSubscription ⟨row, row⟩ (some [topic])) cfg ⟨row, row⟩ (some [topic]) :=
      .bind (dispatchSubscription_sourced (Answers.Handed.held (.given rfl)) _) fun _ hd => .pure hd
    exact hsourced.returns hreturns fun o r hmem => hchronicle.received hmem

/-- Every publish on the topic has returned. -/
def Published (c : Run.Config cfg fuel) (topic : String) : Prop :=
  ∀ t ∈ c.tasks, ∀ type data subject, t.job = .publish topic type data subject → ∃ v, t.prog = .pure v

/-- An event was appended by a publish. -/
theorem Told.publish_of_appended (h : Told R c ds) (hrecord : record ∈ appended c.state.trace topic) :
    ∃ (i : Nat) (t : Task sig) (type : String) (data : List (String × Json)) (subject : Option String),
      c.tasks[i]? = some t ∧ t.job = .publish topic type data subject ∧
        ∃ source, .op (.append topic type source data subject) (.ok record) ∈ movesOf i ds := by
  obtain ⟨⟨i, o, r, w⟩, he, happended⟩ := List.mem_filterMap.mp hrecord
  cases o with
  | append name type source data subject =>
    cases r with
    | error e => cases happended
    | ok new =>
      simp only [Entry.appended?] at happended
      split at happended
      · rename_i hname
        cases happended
        subst hname
        obtain ⟨before, after, htrace⟩ := List.append_of_mem he
        obtain ⟨t, ht, hjob⟩ := h.reason htrace
        exact ⟨i, t, type, data, subject, ht, hjob, source, h.chronicle.mem_moves he⟩
      · cases happended
  | _ => cases happended

/-- Whichever of the two comes first: a publish that lists the subscriptions before the new one is added has
    appended its event before the subscribe catches up, and one that lists them later finds it. -/
theorem Told.covers (h : Told R c ds) (hinline : cfg.deferredDispatch = false) {ds₁ ds₂ : List (Deed (sem cfg fuel))}
    {k : Nat} {w : World} {sub : Subscription} (hsub : Subscribes ds ds₁ ds₂ k p w sub) (hpublished : Published c topic)
    (hrecord : record ∈ appended c.state.trace topic) (htopic : topic ∈ p.1.topics) :
    ∃ past i j hd topics, Covered c p topic record past i j hd topics := by
  obtain ⟨i, t, type, data, subject, ht, hjob, source, hmove⟩ := h.publish_of_appended hrecord
  -- the publish has returned, so it has listed the subscriptions after the append
  obtain ⟨v, hprog⟩ := hpublished t (List.mem_of_getElem? ht) type data subject hjob
  have hreturns := h.chronicle.takes i t ht
  rw [hjob, hprog] at hreturns
  change (code cfg fuel (.publish topic type data subject)).Returns (movesOf i ds) v at hreturns
  obtain ⟨record', hs, ids, vs, -, hmoves⟩ := publish_returns hinline hreturns
  have hsame : source = cfg.source ∧ record = record' := by
    rw [hmoves] at hmove
    simpa using hmove
  obtain ⟨-, rfl⟩ := hsame
  obtain ⟨dsₐ, wₐ, dsᵦ, hdsₐ, hlist⟩ := movesOf_eq_op hmoves
  obtain ⟨ds₃, wᵦ, ds₄, rfl, hgather⟩ := movesOf_eq_op hlist
  have hlisted : ds = (dsₐ ++ .call ⟨i, .append topic type cfg.source data subject, .ok record, wₐ⟩ :: ds₃) ++
      .call ⟨i, .listAll, hs, wᵦ⟩ :: ds₄ := by
    rw [hdsₐ, List.append_assoc]
    rfl
  rcases places_cases (hlisted.symm.trans hsub.deeds) with ⟨-, heq⟩ | ⟨mid, hlater⟩ | ⟨mid, hearlier⟩
  · cases heq
  · -- the list was read before the subscription was there
    have hrecord' : record ∈ appended (entriesOf ds₁) topic := by
      rw [hlater]
      exact mem_appended_of_deed (List.mem_append_left _ (List.mem_append_right _ (.head _)))
    obtain ⟨past, hcovered⟩ := h.covered_by_subscribe hsub hrecord' htopic
    exact ⟨past, k, _, _, _, hcovered⟩
  · -- the list has the subscription
    have hp : p ∈ added (entriesOf (dsₐ ++ .call ⟨i, .append topic type cfg.source data subject, .ok record, wₐ⟩ :: ds₃)) := by
      rw [hearlier]
      exact mem_added_of_deed (List.mem_append_right _ (.head _))
    obtain ⟨past, n, hd, hcovered⟩ := h.covered_by_publish hlisted hgather (fun hd hmem hhas =>
      List.mem_map.mpr ⟨hd, List.mem_filter.mpr ⟨hmem, decide_eq_true hhas⟩, rfl⟩) hp
      (mem_appended_of_deed (List.mem_append_right _ (.head _))) htopic
    exact ⟨past, n, _, hd, _, hcovered⟩

/-! ## What was sent -/

/-- An event that a task read had been appended. -/
theorem Told.appended_of_read (h : Told R c ds) {name : String} (hread : Answers.Read (c.state.received i) name record) :
    record ∈ appended c.state.trace name ∧ ∃ o, record.LiesAt name o := by
  obtain ⟨from_, to_, limit, records, next, ⟨w, he⟩, hmem⟩ := hread
  obtain ⟨before, after, htrace⟩ := List.append_of_mem he
  have hv := h.found before _ after htrace
  obtain ⟨ch, w', hex⟩ := h.now.written.performed _ he
  simp only [World.exec, Option.some.injEq, Prod.mk.injEq] at hex
  have hevent := EventStore.mem_events_of_read hv.inv.store.wf hex.1 hmem
  obtain ⟨o, -, hat⟩ := hv.inv.store.wf.liesAt hevent
  rw [htrace]
  exact ⟨appended_mono (hv.inv.store.logged name record hevent), o, hat⟩

/-- What the call sent, if anything, was acked. -/
def Entry.Acked : Entry cfg fuel → Prop
  | ⟨_, .send .., r, _⟩ => ∃ result, r = .ok result ∧ result.ack = true
  | _ => True

section Sends

variable {sub : Subscription} {n : Nat} {frame : Frame} {r : (Op.send sub record n frame).Res} {w : World}

private theorem received_before {before after : List (Entry cfg fuel)} {e : Entry cfg fuel}
    (htrace : c.state.trace = before ++ e :: after) {w : World} {o : Op} {r : o.Res}
    (hr : Sem.Traced.received (⟨w, before⟩ : Snapshot cfg fuel) i o r) : c.state.received i o r := by
  obtain ⟨w', hmem⟩ := hr
  exact ⟨w', by rw [htrace]; exact List.mem_append_left _ hmem⟩

/-- What is sent was appended. -/
theorem Told.sent_appended (h : Told R c ds) (he : (⟨i, .send sub record n frame, r, w⟩ : Entry cfg fuel) ∈ c.state.trace) :
    record ∈ appended c.state.trace record.topic ∧
      ∃ o, record.LiesAt record.topic o ∧ Cursor.offsetOf record.cursor = .ok o := by
  obtain ⟨before, after, htrace⟩ := List.append_of_mem he
  obtain ⟨t, ht, ⟨hd, name, offset, hdelivers, -⟩, -⟩ := h.reason htrace
  obtain ⟨from_, to_, limit, records, next, hreceived, hmem⟩ := hdelivers.read
  obtain ⟨hrecord, o, hat⟩ := h.appended_of_read ⟨from_, to_, limit, records, next, received_before htrace hreceived, hmem⟩
  rw [hat.topic]
  exact ⟨hrecord, o, hat, by rw [← hat.offsetOf hdelivers.offset]; exact hdelivers.offset⟩

/-- Where everything is acked, every attempt is a first one. -/
theorem Told.sent_first (h : Told R c ds) (hacked : ∀ e ∈ c.state.trace, Entry.Acked e)
    (he : (⟨i, .send sub record n frame, r, w⟩ : Entry cfg fuel) ∈ c.state.trace) : n = 1 := by
  obtain ⟨before, after, htrace⟩ := List.append_of_mem he
  obtain ⟨t, ht, -, htries⟩ := h.reason htrace
  have hpool := h.pool t (List.mem_of_getElem? ht)
  cases htries with
  | first hn => exact hn
  | again hsent hfailed =>
    -- nothing failed
    obtain ⟨m, frame', hreceived⟩ := hsent
    obtain ⟨w', hmem⟩ := received_before htrace hreceived
    obtain ⟨result, hok, hack⟩ := hacked _ hmem
    cases hok
    rw [hack] at hfailed
    cases hfailed
  | retried hitem =>
    -- retries are none of the run's
    cases hitem with
    | given hj =>
      rw [hj] at hpool
      cases hpool
    | claimed ha _ =>
      obtain ⟨w', hmem⟩ := received_before htrace ha
      obtain ⟨before', after', htrace'⟩ := List.append_of_mem hmem
      obtain ⟨t', ht', hj⟩ := h.reason htrace'
      rw [ht] at ht'
      cases ht'
      rw [show t.job = _ from hj] at hpool
      cases hpool

end Sends

/-- A send of the event at an offset stands among the sends. -/
theorem mem_sends {sub : Subscription} {n : Nat} {frame : Frame} {r : (Op.send sub record n frame).Res} {w : World}
    {trace : List (Entry cfg fuel)} (he : (⟨i, .send sub record n frame, r, w⟩ : Entry cfg fuel) ∈ trace)
    (ho : Cursor.offsetOf record.cursor = .ok o) : (o, n) ∈ sends trace sub.subscriptionId record.topic :=
  List.mem_filterMap.mpr ⟨_, he, by simp [Entry.sent?, ho]⟩

/-- An event that is accounted for was sent, if the subscription has no selector and the event is in retention. -/
theorem Told.sent_of_accounted (h : Told R c ds) (haccounted : Snapshot.Accounted c.state p.1 topic record o)
    (hselector : p.1.selector = none) (hrecord : record ∈ appended c.state.trace topic) (hat : record.LiesAt topic o)
    (hretained : Retained c.state topic record) :
    o ∈ (sends c.state.trace p.1.subscriptionId topic).map Prod.fst := by
  rcases haccounted with ⟨log, -, hrefused⟩ | ⟨e, he, hpasses⟩ | ⟨a, ha, hid, hevent, hcursor, -⟩
  · -- no selector refuses anything
    rw [hselector] at hrefused
    cases hrefused
  · -- no page passed it by: it was live
    obtain ⟨k, op, res, w⟩ := e
    obtain ⟨before, after, htrace⟩ := List.append_of_mem he
    have hv := h.found before _ after htrace
    cases op with
    | read name from_ to_ limit =>
      cases to_ with
      | some to_ => cases hpasses
      | none =>
        obtain ⟨rfl, -, -, hlt, hnotlive⟩ := hpasses
        rcases hv.grows.appended name record hrecord with hearlier | ⟨o', ho', hat'⟩
        · exact absurd (hv.live_of_retained hearlier hretained) hnotlive
        · -- it had a number below the count by then
          rw [hat.unique hat'] at hlt
          exact absurd hlt (Nat.not_lt.mpr ho')
    | _ => cases hpasses
  · -- the attempt on record was sent
    obtain ⟨e, he, hop⟩ := h.now.written.recorded a ha
    obtain ⟨before, after, htrace⟩ := List.append_of_mem he
    obtain ⟨t, -, hasks⟩ := h.reason htrace
    rw [hop] at hasks
    obtain ⟨-, hd, record', result, ⟨n, frame, w, hmem⟩, hsub, hevent', hcursor'⟩ := hasks
    have he' : (⟨e.task, .send hd.sub record' n frame, .ok result, w⟩ : Entry cfg fuel) ∈ c.state.trace := by
      rw [htrace]
      exact List.mem_append_left _ hmem
    -- its cursor says which event it was
    obtain ⟨-, o', hat', ho'⟩ := h.sent_appended he'
    have hsame : record'.cursor = record.cursor := hcursor'.symm.trans hcursor
    have hcode := hat'.cursor
    rw [hsame] at hcode
    obtain rfl := Cursor.encode_topic_inj hat.cursor hcode
    rw [hsame] at ho'
    obtain rfl := hat.offsetOf ho'
    rw [← hid, hsub]
    exact List.mem_map.mpr ⟨(o', n), mem_sends he' (by rw [hsame]; exact ho'), rfl⟩

/-! ## Where the subscription starts -/

variable {k : Nat} {req : SubscribeRequest} {sub : Subscription} {start : Int}

/-- A subscribe from the latest event starts at the heads that it looked up. -/
theorem Told.heads (h : Told R c ds) (hstarted : Started c.state) {ds₁ ds₂ : List (Deed (sem cfg fuel))} {w : World}
    (hsub : Subscribes ds ds₁ ds₂ k p w sub) (ht : c.tasks[k]? = some ⟨.subscribe req, .pure (.subscription sub)⟩)
    (hlatest : req.fromCursor = Cursor.latest) : p.1.selector = req.selector ∧
      ∀ name ∈ p.1.topics, ∃ start, p.2.get? name = some start ∧ Answers.Head (c.state.received k) name start := by
  have hsourced : Sourced cfg (.subscribe req) (c.state.received k) (code cfg fuel (.subscribe req)) fun v =>
      ∃ sub, v = .subscription sub ∧ ∃ row offsets h h', Answers.Subscribed (c.state.received k) req row offsets h ∧
        c.state.received k (.deref h) h' ∧ h'.sub = sub :=
    .bind (subscribe_sourced req) fun sub hsub => .pure ⟨sub, rfl, hsub⟩
  obtain ⟨sub', heq, row, offsets, hd, hd', hsubscribed, hseen, rfl⟩ := hsourced.returns (h.chronicle.takes k _ ht)
    fun o r hmem => h.chronicle.answered hmem
  cases heq
  -- what it was asked to add is what it returned
  obtain ⟨wₐ, hadd⟩ := hsubscribed.added
  obtain ⟨ch, w', hex⟩ := h.now.written.performed _ hadd
  obtain ⟨-, rfl, -⟩ := World.add_of_exec hex
  obtain ⟨wᵦ, hderef⟩ := hseen
  obtain ⟨before, after, htrace⟩ := List.append_of_mem hderef
  obtain ⟨ch, w', hex⟩ := h.now.written.performed _ hderef
  have hid : hd'.sub.subscriptionId = row.subscriptionId := by
    simp only [World.exec, Option.some.injEq, Prod.mk.injEq] at hex
    rw [← hex.1]
    exact World.Keyed.deref_id (h.found before _ after htrace).inv.rows.key ⟨row, row⟩
  have hp : p ∈ added c.state.trace := by
    rw [← h.chronicle.trace, hsub.deeds]
    exact mem_added_of_deed (List.mem_append_right _ (.head _))
  have hsame : (row, offsets) = p :=
    h.added_unique (List.mem_filterMap.mpr ⟨_, hadd, rfl⟩) hp (hid.symm.trans hsub.alike.subscriptionId)
  subst hsame
  refine ⟨hsubscribed.selector, fun name hname => ?_⟩
  obtain ⟨model, start, hconfigures, hstart, hhead⟩ := hsubscribed.starts name hname
  rw [(hstarted.configures_topic hconfigures).name_eq h.now.inv] at hstart hhead
  exact ⟨start, hstart, hhead hlatest⟩

/-- What was appended before the head was looked up is not beyond it. -/
theorem Told.le_head (h : Told R c ds) {later : List (Entry cfg fuel)} (htrace : c.state.trace = past ++ later)
    (hnone : ∀ e ∈ past, e.task ≠ k) (hhead : Answers.Head (c.state.received k) topic start)
    (hrecord : record ∈ appended past topic) (hat : record.LiesAt topic o) (hretained : Retained c.state topic record) :
    (o : Int) ≤ start := by
  -- the look-up came after the past
  have hvisited : ∀ {op : Op} {r : op.Res}, c.state.received k op r → ∃ w mid,
      Visited R (⟨w, past ++ mid⟩ : Snapshot cfg fuel) c.state ∧ (⟨k, op, r, w⟩ : Entry cfg fuel) ∈ c.state.trace := by
    rintro op r ⟨w, hmem⟩
    have hlater : (⟨k, op, r, w⟩ : Entry cfg fuel) ∈ later := by
      rw [htrace] at hmem
      exact (List.mem_append.mp hmem).resolve_left fun hpast => hnone _ hpast rfl
    obtain ⟨mid, after, hsplit⟩ := List.append_of_mem hlater
    exact ⟨w, mid, h.found _ ⟨k, op, r, w⟩ after (by rw [htrace, hsplit, List.append_assoc]), hmem⟩
  have hcount : ∀ {w : World} {mid : List (Entry cfg fuel)}, Visited R (⟨w, past ++ mid⟩ : Snapshot cfg fuel) c.state →
      o < w.store.count topic := by
    intro w mid hv
    obtain ⟨o', ho', hat'⟩ := hv.inv.store.numbered topic record (appended_mono hrecord)
    rw [hat.unique hat']
    exact ho'
  cases hhead with
  | empty ha =>
    -- an empty topic was counted, but the event was there
    obtain ⟨w, mid, hv, hmem⟩ := hvisited ha
    obtain ⟨ch, w', hex⟩ := h.now.written.performed _ hmem
    simp only [World.exec, Option.some.injEq, Prod.mk.injEq] at hex
    have hlt := hcount hv
    rw [show w.store.count topic = 0 from hex.1] at hlt
    exact absurd hlt (Nat.not_lt_zero o)
  | latest _ _ ha ho =>
    obtain ⟨w, mid, hv, hmem⟩ := hvisited ha
    obtain ⟨ch, w', hex⟩ := h.now.written.performed _ hmem
    simp only [World.exec, Option.some.injEq, Prod.mk.injEq] at hex
    have hpos : 0 < w.store.count topic := Nat.lt_of_le_of_lt (Nat.zero_le o) (hcount hv)
    have hevent := EventStore.mem_events_of_mem_live (hv.live_of_retained (appended_mono hrecord) hretained)
    exact Int.ofNat_le.mpr ((EventStore.latestCursor_ok hv.inv.store.wf hpos hex.1 ho).2 record hevent o hat)

/-- The head that was looked up is one of the offsets given out so far. -/
theorem Told.head_lt (h : Told R c ds) (hhead : Answers.Head (c.state.received k) topic start) :
    start < c.state.state.store.count topic := by
  cases hhead with
  | empty => omega
  | latest _ _ ha ho =>
    -- the count that was read before says that the topic is not empty
    obtain ⟨w, hmem⟩ := ha
    obtain ⟨before, after, htrace⟩ := List.append_of_mem hmem
    have hv := h.found before _ after htrace
    obtain ⟨t, -, n, hn, w', hcounted⟩ := h.reason htrace
    have hpos : 0 < w.store.count topic := Nat.lt_of_lt_of_le (Nat.pos_of_ne_zero hn) (hv.written.counted _ _ _ _ hcounted)
    obtain ⟨ch, w'', hex⟩ := h.now.written.performed _ hmem
    simp only [World.exec, Option.some.injEq, Prod.mk.injEq] at hex
    have hlt := (EventStore.latestCursor_ok hv.inv.store.wf hpos hex.1 ho).1
    exact Int.ofNat_lt.mpr (Nat.lt_of_lt_of_le hlt (hv.grows.store.count topic))

end Tasks

end A2AEvents

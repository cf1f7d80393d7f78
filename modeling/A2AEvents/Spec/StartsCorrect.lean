import A2AEvents.Spec.SubscribeCorrect

/-!
# Where a subscription starts

The cursor of a request is looked at once for each topic. In its own topic the subscription starts
at the cursor, in the others at the head. A cursor that belongs to none of the topics is never
refused as such: every topic starts at its head.

## Key results

- `headOf_cases`: what looking up a head gives
- `startsOf_heads`: the start offsets under a cursor of another topic
- `honors_cursor_iff`: when a subscribe does what its cursor says
-/

namespace A2AEvents

open Async Publisher

variable {cfg : PublisherConfig} {fuel : Nat} {w : World} {name : String} {topic : Topic}

/-! ## Heads -/

/-- The cursor of the head can be written: it is the one of an event, or its offset is one that the
    interpreter prints. -/
def World.HeadWritten (w : World) (name : String) : Prop :=
  w.store.events name ≠ [] ∨ w.store.count name ≤ 10 ^ Cursor.maxStrDigits

/-- The head of a topic can be looked up. -/
def World.HasHead (w : World) (name : String) : Prop :=
  w.store.count name = 0 ∨ name ≠ "" ∧ w.HeadWritten name

/-- The head of a topic without a name cannot be read, and is the first that cannot be looked up. -/
def World.RefusesHead (w : World) : List String → Prop
  | [] => False
  | name :: rest => w.store.count name ≠ 0 ∧ name = "" ∧ w.HeadWritten name ∨ w.HasHead name ∧ w.RefusesHead rest

private theorem encode_error {topic : String} {offset : Int} {e : PyError}
    (h : Cursor.encode topic offset = .error e) : e.code? ≠ some .invalidCursor := by
  simp only [Cursor.encode] at h
  split at h
  · cases h
    decide
  · split at h
    · cases h
      decide
    · cases h

/-- The cursor of the head, and which events come before it. -/
private theorem latestCursor_cases (hwf : w.store.Wf) {log : TopicLog} (hlog : w.store.logs.get? name = some log)
    (hcount : w.store.count name ≠ 0) :
    w.HeadWritten name ∧ (∃ c, ∃ o : Nat, w.store.latestCursor name = .ok c ∧ Cursor.encode name o = .ok c ∧
        ∀ r ∈ w.store.events name, ∀ x, r.LiesAt name x → x ≤ o) ∨
      ¬ w.HeadWritten name ∧ ∃ e, w.store.latestCursor name = .error e ∧ e.code? ≠ some .invalidCursor := by
  rw [EventStore.count_of_get? hlog] at hcount
  simp only [World.HeadWritten, EventStore.events_of_get? hlog, EventStore.count_of_get? hlog]
  cases hlast : log.events.getLast? with
  | some last =>
    obtain ⟨o, -, hat, hle⟩ := (hwf name log hlog).last_event hlast
    have hne : log.events ≠ [] := fun hnil => by
      rw [hnil] at hlast
      cases hlast
    exact .inl ⟨.inl hne, last.cursor, o, by simp only [EventStore.latestCursor, hlog, hlast], hat.cursor, hle⟩
  | none =>
    have hnil := List.getLast?_eq_none_iff.mp hlast
    obtain ⟨n, hn⟩ : ∃ n, log.nextOffset = n + 1 := ⟨log.nextOffset - 1, by omega⟩
    have hlatest : w.store.latestCursor name = Cursor.encode name (n : Int) := by
      have hmax : max ((log.nextOffset : Int) - 1) 0 = n := by omega
      simp only [EventStore.latestCursor, hlog, hlast, hmax]
    rw [hlatest, hnil, hn]
    by_cases hlt : n < 10 ^ Cursor.maxStrDigits
    · obtain ⟨c, hc⟩ := Cursor.exists_encode_of_digits name hlt
      exact .inl ⟨.inr hlt, c, n, hc, hc, fun _ hr => (by cases hr)⟩
    · refine .inr ⟨?_, ?_⟩
      · rintro (h | h)
        · exact h rfl
        · exact hlt h
      · cases hc : Cursor.encode name (n : Int) with
        | error e => exact ⟨e, rfl, encode_error hc⟩
        | ok c =>
          have := Cursor.encode_lt hc
          rw [Int.toNat_natCast] at this
          exact absurd this hlt

/-- Looking up a head gives the position after all events, or it raises: for want of a name, or because
    the cursor cannot be written. -/
theorem headOf_cases (hwf : w.store.Wf) {log : TopicLog} (hlog : w.store.logs.get? name = some log) :
    w.HasHead name ∧ (∃ o, w.store.headOf name = .ok o ∧ o < 10 ^ Cursor.maxStrDigits ∧
        (name = "" → o < 0 ∧ w.store.events name = []) ∧
        ∀ r ∈ w.store.events name, ∀ x : Nat, r.LiesAt name x → (x : Int) ≤ o) ∨
      ¬ w.HasHead name ∧ ∃ e, w.store.headOf name = .error e ∧
        (e.code? = some .invalidCursor ↔ name = "" ∧ w.HeadWritten name) := by
  unfold EventStore.headOf World.HasHead
  by_cases hcount : w.store.count name = 0
  · -- nothing was ever appended
    have hnone : w.store.events name = [] := by
      refine List.eq_nil_iff_forall_not_mem.mpr fun r hr => ?_
      obtain ⟨o, ho, -⟩ := hwf.liesAt hr
      omega
    have hpow : (0 : Int) < 10 ^ Cursor.maxStrDigits := Int.pow_pos (by decide)
    rw [if_pos hcount, hnone]
    exact .inl ⟨.inl hcount, -1, rfl, by omega, fun _ => ⟨by decide, rfl⟩, fun _ hr => (by cases hr)⟩
  rw [if_neg hcount]
  simp only [hcount, false_or]
  rcases latestCursor_cases hwf hlog hcount with ⟨hwritten, c, o, hlatest, hc, hle⟩ | ⟨hwritten, e, hlatest, hcode⟩
  · by_cases hne : name = ""
    · -- the cursor does not decode
      obtain ⟨e, hsplit, hcode⟩ := Cursor.split_encode_empty (hne ▸ hc)
      refine .inr ⟨fun h => h.1 hne, e, ?_, fun _ => ⟨hne, hwritten⟩, fun _ => hcode⟩
      simp only [hlatest, bind, Except.bind, Cursor.offsetOf, hsplit, Except.map]
    · refine .inl ⟨⟨hne, hwritten⟩, o, ?_, ?_, fun h => absurd h hne, fun r hr x hx => Int.ofNat_le.mpr (hle r hr x hx)⟩
      · simp only [hlatest, bind, Except.bind, Cursor.offsetOf_encode hne hc, Int.toNat_natCast, pure, Except.pure]
      · have hlt := Cursor.encode_lt hc
        rw [Int.toNat_natCast] at hlt
        exact_mod_cast hlt
  · refine .inr ⟨fun h => hwritten h.2, e, ?_, fun h => absurd h hcode, fun h => absurd h.2 hwritten⟩
    simp only [hlatest, bind, Except.bind]

/-! ## Start offsets -/

/-- Every topic starts where it is looked up to start. -/
theorem startsOf_ok {fromCursor : String} (models : List Topic) :
    ∀ {acc offsets}, (models.map Topic.name).Nodup → w.startsOf fromCursor acc models = .ok offsets →
      (∀ t ∈ models, ∃ o, w.startOf t.name fromCursor = .ok o ∧ offsets.get? t.name = some o) ∧
      ∀ n, n ∉ models.map Topic.name → offsets.get? n = acc.get? n := by
  induction models with
  | nil =>
    intro acc offsets _ h
    cases h
    exact ⟨(fun _ ht => (by cases ht)), fun _ _ => rfl⟩
  | cons t rest ih =>
    intro acc offsets hnodup h
    obtain ⟨hnotin, hnodup⟩ := List.nodup_cons.mp hnodup
    rw [World.startsOf] at h
    cases hone : w.startOf t.name fromCursor with
    | error e =>
      rw [hone] at h
      cases h
    | ok o =>
      rw [hone] at h
      obtain ⟨hrest, hothers⟩ := ih hnodup h
      refine ⟨fun q hq => ?_, fun n hn => ?_⟩
      · rcases List.mem_cons.mp hq with rfl | hq
        · exact ⟨o, hone, by rw [hothers _ hnotin, Dict.get?_set, if_pos rfl]⟩
        · exact hrest q hq
      · rw [List.map_cons, List.mem_cons, not_or] at hn
        rw [hothers n hn.2, Dict.get?_set, if_neg hn.1]

section

variable {fromCursor : String} (hearliest : fromCursor ≠ Cursor.earliest) (hlatest : fromCursor ≠ Cursor.latest)
include hearliest hlatest

/-- A malformed cursor is refused with the first topic. -/
theorem startsOf_malformed {e : PyError} (hsplit : Cursor.split fromCursor = .error e) (t : Topic) (rest : List Topic)
    (acc : Dict String Int) : w.startsOf fromCursor acc (t :: rest) = .error e := by
  rw [World.startsOf, World.startOf, if_neg hearliest, if_neg hlatest, Cursor.topicOf, hsplit]
  rfl

/-- In a topic other than that of the cursor a subscription starts at the head. -/
theorem startOf_outside {cursorTopic : String} {n : Nat} (hsplit : Cursor.split fromCursor = .ok (cursorTopic, n))
    (hne : cursorTopic ≠ name) : w.startOf name fromCursor = w.store.headOf name := by
  rw [World.startOf, if_neg hearliest, if_neg hlatest, Cursor.topicOf, hsplit]
  exact if_neg hne

/-- In the topic of the cursor it starts at the cursor. -/
theorem startOf_own {n : Nat} (hsplit : Cursor.split fromCursor = .ok (name, n)) {o : Int}
    (h : w.startOf name fromCursor = .ok o) : o = n := by
  rw [World.startOf, if_neg hearliest, if_neg hlatest, Cursor.topicOf, hsplit] at h
  change (if name = name then _ else _) = _ at h
  rw [if_pos rfl, Cursor.offsetOf, hsplit] at h
  cases hread : w.store.read w.clock name (some fromCursor) (some fromCursor) 1 with
  | error e =>
    rw [hread] at h
    cases h
  | ok page =>
    rw [hread] at h
    exact (Except.ok.inj h).symm

end

/-- Where every topic starts at its head, there are start offsets unless a head cannot be looked up. -/
theorem startsOf_heads (hwf : w.store.Wf) {fromCursor : String} (models : List Topic) :
    ∀ {acc}, (∀ t ∈ models, ∃ log, w.store.logs.get? t.name = some log) →
      (∀ t ∈ models, w.startOf t.name fromCursor = w.store.headOf t.name) →
      (∃ offsets, w.startsOf fromCursor acc models = .ok offsets) ∧ ¬ w.RefusesHead (models.map Topic.name) ∨
        ∃ e, w.startsOf fromCursor acc models = .error e ∧
          (e.code? = some .invalidCursor ↔ w.RefusesHead (models.map Topic.name)) := by
  induction models with
  | nil => exact fun {acc} _ _ => .inl ⟨⟨acc, rfl⟩, fun h => h⟩
  | cons t rest ih =>
    intro acc hlogs hheads
    obtain ⟨log, hlog⟩ := hlogs t (by simp)
    simp only [List.map_cons, World.RefusesHead, World.startsOf, hheads t (by simp)]
    rcases headOf_cases hwf hlog with ⟨hhead, o, ho, -⟩ | ⟨hhead, e, he, hcode⟩
    · have hnot : ¬ (w.store.count t.name ≠ 0 ∧ t.name = "" ∧ w.HeadWritten t.name) := by
        rintro ⟨hcount, hempty, -⟩
        rcases hhead with hzero | ⟨hne, -⟩
        · exact hcount hzero
        · exact hne hempty
      simp only [hnot, hhead, false_or, true_and, ho]
      exact ih (fun q hq => hlogs q (by simp [hq])) fun q hq => hheads q (by simp [hq])
    · rw [he]
      refine .inr ⟨e, rfl, ?_⟩
      have hcount : w.store.count t.name ≠ 0 := fun hzero => hhead (.inl hzero)
      simp only [hcount, hhead, ne_eq, not_false_eq_true, true_and, false_and, or_false]
      exact hcode

/-- Nothing lies ahead of a head. -/
theorem clears_heads (hw : w.Settled) {reply : Nat → Choice} {selector : Option Selector} {start : String → Int}
    (models : List Topic) : ∀ {base}, (∀ t ∈ models, ∃ log, w.store.logs.get? t.name = some log) →
      (∀ t ∈ models, w.store.headOf t.name = .ok (start t.name)) →
      Clears cfg reply w selector start base models := by
  induction models with
  | nil => exact fun _ _ => trivial
  | cons t rest ih =>
    intro base hlogs hheads
    obtain ⟨log, hlog⟩ := hlogs t (by simp)
    refine ⟨?_, ih (fun q hq => hlogs q (by simp [hq])) fun q hq => hheads q (by simp [hq])⟩
    rcases headOf_cases hw.wf hlog with ⟨-, o, ho, hlt, hunnamed, hle⟩ | ⟨-, e, he, -⟩
    · rw [hheads t (by simp)] at ho
      obtain rfl : start t.name = o := Except.ok.inj ho
      have hahead : w.ahead t.name (start t.name) = [] := by
        refine List.filter_eq_nil_iff.mpr fun r hr => ?_
        have hr := EventStore.mem_events_of_mem_live hr
        by_cases hne : t.name = ""
        · rw [(hunnamed hne).2] at hr
          cases hr
        · obtain ⟨x, -, hat⟩ := hw.wf.liesAt hr
          have := hle r hr x hat
          rw [hat.offset_eq hne, decide_eq_true_eq]
          omega
      refine ⟨⟨hlt, fun hne => ⟨(hunnamed hne).1, ?_⟩⟩, ?_, ?_⟩
      · refine List.eq_nil_iff_forall_not_mem.mpr fun r hr => ?_
        have hr := EventStore.mem_events_of_mem_live hr
        rw [(hunnamed hne).2] at hr
        cases hr
      · rw [hahead]
        exact fun _ hr => (by cases hr)
      · rw [World.backlog, hahead]
        trivial
    · rw [hheads t (by simp)] at he
      cases he

/-! ## What the cursor asks for -/

/-- The request passes all checks of `subscribe`. -/
def PassesChecks (cfg : PublisherConfig) (limiter : Except PyError Unit) (w : World) (req : SubscribeRequest) : Prop :=
  checkLease cfg req.leaseSeconds = .ok () ∧ ∃ checks, verdict cfg limiter w req req.topicNames = .ok checks

/-- If the subscribe returns, the subscription starts at the cursor, in one of its topics; a cursor of
    another topic is refused. -/
def HonorsCursor (cfg : PublisherConfig) (fuel : Nat) (reply : Nat → Choice) (i : Nat) (w : World)
    (req : SubscribeRequest) (rounds : Nat) : Prop :=
  ∃ res, ∃ s' : Snapshot cfg fuel, Evals reply i (subscribe cfg rounds req) ⟨w, []⟩ res s' ∧
    (∀ sub, res = .ok sub → ∃ name o, Cursor.split req.fromCursor = .ok (name, o) ∧ name ∈ req.topics ∧
      ∃ p ∈ added s'.trace, p.1.subscriptionId = sub.subscriptionId ∧ p.2.get? name = some (o : Int)) ∧
    (PassesChecks cfg (reply 0).limiter w req → ∀ name o, Cursor.split req.fromCursor = .ok (name, o) →
      name ∉ req.topics → ∃ e, res = .error e ∧ e.code? = some .invalidCursor)

/-- The cursor belongs to a requested topic, or the code comes to refuse it: a malformed one with the
    first topic, one of another topic at the head of a topic without a name. -/
def CursorFits (w : World) (req : SubscribeRequest) : Prop :=
  match Cursor.split req.fromCursor with
  | .ok (name, _) => name ∈ req.topics ∨ w.RefusesHead req.topicNames
  | .error _ => req.topics ≠ []

section

variable {limiter : Except PyError Unit} {req : SubscribeRequest} {resolved : ResolvedDelivery} {models : List Topic}
  (hearliest : req.fromCursor ≠ Cursor.earliest) (hlatest : req.fromCursor ≠ Cursor.latest)

/-- The topics of a request that passes the checks. -/
theorem PassesChecks.declared (hw : w.Settled) (hpasses : PassesChecks cfg limiter w req) :
    ∃ resolved models, checkLease cfg req.leaseSeconds = .ok () ∧
      verdict cfg limiter w req req.topicNames = .ok (resolved, models) ∧ models.map Topic.name = req.topicNames ∧
      ∀ t ∈ models, ∃ log, w.store.logs.get? t.name = some log := by
  obtain ⟨hlease, ⟨resolved, models⟩, hverdict⟩ := hpasses
  obtain ⟨hnames, hfinds⟩ := hw.topicModels_names _ (topicModels_of_verdict hverdict)
  exact ⟨resolved, models, hlease, hverdict, hnames, fun t ht => (hfinds t ht).imp fun _ hf => hf.declared⟩

include hearliest hlatest

/-- Without a topic of its own, a cursor leads to the heads. -/
theorem starts_outside (hw : w.Settled) {name : String} {o : Nat}
    (hsplit : Cursor.split req.fromCursor = .ok (name, o)) (hnotin : name ∉ req.topics)
    (hnames : models.map Topic.name = req.topicNames)
    (hlogs : ∀ t ∈ models, ∃ log, w.store.logs.get? t.name = some log) :
    (∀ t ∈ models, w.startOf t.name req.fromCursor = w.store.headOf t.name) ∧
      ((∃ offsets, w.startsOf req.fromCursor ∅ models = .ok offsets) ∧ ¬ w.RefusesHead req.topicNames ∨
        ∃ e, w.startsOf req.fromCursor ∅ models = .error e ∧
          (e.code? = some .invalidCursor ↔ w.RefusesHead req.topicNames)) := by
  have hheads : ∀ t ∈ models, w.startOf t.name req.fromCursor = w.store.headOf t.name := by
    intro t ht
    refine startOf_outside hearliest hlatest hsplit fun heq => hnotin ?_
    rw [heq, ← SubscribeRequest.mem_topicNames, ← hnames]
    exact List.mem_map_of_mem ht
  rw [← hnames]
  exact ⟨hheads, startsOf_heads hw.wf models hlogs hheads⟩

/-- What is admitted with a fitting cursor starts at the cursor. -/
theorem start_of_fits (hw : w.Settled) (hfits : CursorFits w req) {offsets : Dict String Int}
    (hadmitted : admission cfg limiter w req = .ok (resolved, models, offsets)) :
    ∃ name o, Cursor.split req.fromCursor = .ok (name, o) ∧ name ∈ req.topics ∧
      offsets.get? name = some (o : Int) := by
  obtain ⟨hlease, hverdict, hoffsets⟩ := admission_ok_iff.mp hadmitted
  obtain ⟨hnames, hfinds⟩ := hw.topicModels_names _ (topicModels_of_verdict hverdict)
  have hlogs : ∀ t ∈ models, ∃ log, w.store.logs.get? t.name = some log := fun t ht =>
    (hfinds t ht).imp fun _ hf => hf.declared
  rw [CursorFits] at hfits
  cases hsplit : Cursor.split req.fromCursor with
  | error e =>
    rw [hsplit] at hfits
    cases models with
    | nil =>
      refine absurd (List.eq_nil_iff_forall_not_mem.mpr fun name hin => ?_) hfits
      rw [← SubscribeRequest.mem_topicNames, ← hnames] at hin
      cases hin
    | cons t rest =>
      rw [startsOf_malformed hearliest hlatest hsplit] at hoffsets
      cases hoffsets
  | ok p =>
    obtain ⟨name, o⟩ := p
    rw [hsplit] at hfits
    by_cases hin : name ∈ req.topics
    · have hmem : name ∈ models.map Topic.name := by
        rw [hnames, SubscribeRequest.mem_topicNames]
        exact hin
      obtain ⟨t, ht, rfl⟩ := List.mem_map.mp hmem
      obtain ⟨x, hx, hget⟩ := (startsOf_ok models (hnames ▸ req.topicNames_nodup) hoffsets).1 t ht
      exact ⟨t.name, o, rfl, hin, by rw [hget, startOf_own hearliest hlatest hsplit hx]⟩
    · -- the cursor is refused at a head
      have hrefuses := hfits.resolve_left hin
      rcases (starts_outside hearliest hlatest hw hsplit hin hnames hlogs).2 with ⟨-, hno⟩ | ⟨e, he, -⟩
      · exact absurd hrefuses hno
      · rw [hoffsets] at he
        cases he

/-- The code refuses a cursor of another topic exactly where it fits nevertheless. -/
theorem refused_outside (hw : w.Settled) (hpasses : PassesChecks cfg limiter w req) {e : PyError}
    (hrefused : admission cfg limiter w req = .error e) :
    CursorFits w req ↔ ∀ name o, Cursor.split req.fromCursor = .ok (name, o) → name ∉ req.topics →
      e.code? = some .invalidCursor := by
  obtain ⟨resolved, models, hlease, hverdict, hnames, hlogs⟩ := hpasses.declared hw
  have hstarts : w.startsOf req.fromCursor ∅ models = .error e := by
    cases hoffsets : w.startsOf req.fromCursor ∅ models with
    | ok offsets =>
      rw [admission_ok_iff.mpr ⟨hlease, hverdict, hoffsets⟩] at hrefused
      cases hrefused
    | error e' =>
      have herror : admission cfg limiter w req = .error e' := by
        simp only [admission, hlease, hverdict, hoffsets, bind, Except.bind]
      rw [Except.error.inj (hrefused.symm.trans herror)]
  rw [CursorFits]
  cases hsplit : Cursor.split req.fromCursor with
  | error _ =>
    refine ⟨fun _ name o h => (by cases h), fun _ hnil => ?_⟩
    have hmodels : models = [] := by
      rw [← List.map_eq_nil_iff (f := Topic.name), hnames, SubscribeRequest.topicNames, hnil]
      rfl
    rw [hmodels] at hstarts
    cases hstarts
  | ok p =>
    obtain ⟨name, o⟩ := p
    dsimp only
    by_cases hin : name ∈ req.topics
    · refine ⟨fun _ name' o' h hnotin => ?_, fun _ => .inl hin⟩
      cases h
      exact absurd hin hnotin
    · rcases (starts_outside hearliest hlatest hw hsplit hin hnames hlogs).2 with ⟨⟨offsets, hoffsets⟩, -⟩ | ⟨e', he', hcode⟩
      · rw [hstarts] at hoffsets
        cases hoffsets
      · rw [hstarts] at he'
        cases he'
        rw [← hcode]
        refine ⟨fun h name' o' _ _ => h.resolve_left hin, fun h => .inr (h name o rfl hin)⟩

/-- What is admitted with a cursor that does not fit finds no backlog. -/
theorem clears_of_not_fits (hw : w.Settled) {reply : Nat → Choice} (hfits : ¬ CursorFits w req)
    {offsets : Dict String Int} (hadmitted : admission cfg limiter w req = .ok (resolved, models, offsets)) :
    Clears cfg reply w req.selector (fun name => offsets.getD name (-1)) 0 models := by
  obtain ⟨hlease, hverdict, hoffsets⟩ := admission_ok_iff.mp hadmitted
  obtain ⟨hnames, hfinds⟩ := hw.topicModels_names _ (topicModels_of_verdict hverdict)
  have hlogs : ∀ t ∈ models, ∃ log, w.store.logs.get? t.name = some log := fun t ht =>
    (hfinds t ht).imp fun _ hf => hf.declared
  rw [CursorFits] at hfits
  cases hsplit : Cursor.split req.fromCursor with
  | error e =>
    rw [hsplit] at hfits
    have hnil : models = [] := by
      rw [← List.map_eq_nil_iff (f := Topic.name), hnames, SubscribeRequest.topicNames, not_not.mp hfits]
      rfl
    rw [hnil]
    trivial
  | ok p =>
    obtain ⟨name, o⟩ := p
    rw [hsplit] at hfits
    have hin : name ∉ req.topics := fun hin => hfits (.inl hin)
    obtain ⟨hheads, -⟩ := starts_outside hearliest hlatest hw hsplit hin hnames hlogs
    refine clears_heads hw models hlogs fun t ht => ?_
    obtain ⟨x, hx, hget⟩ := (startsOf_ok models (hnames ▸ req.topicNames_nodup) hoffsets).1 t ht
    rw [← hheads t ht, hx, Dict.getD, hget]
    rfl

/-- A subscribe does what its cursor says exactly if another check refuses it or the cursor fits. -/
theorem honors_cursor_iff (fuel i : Nat) {reply : Nat → Choice} (hreply : ∀ m, ∃ result, (reply m).result = .ok result)
    (hw : w.Settled) {rounds : Nat} (hrounds : ∀ name, (w.store.live w.clock name).length < rounds) :
    HonorsCursor cfg fuel reply i w req rounds ↔ (PassesChecks cfg (reply 0).limiter w req → CursorFits w req) := by
  obtain ⟨rounds, rfl⟩ : ∃ k, rounds = k + 1 := ⟨rounds - 1, by have := hrounds ""; omega⟩
  obtain ⟨s', hrun⟩ := subscribe_eval cfg fuel i hreply hw req hrounds
  rcases hrun with ⟨e, hrefused, hrun, -⟩ | ⟨resolved, models, offsets, hadmitted, -, -, hin, hrun⟩
  · -- the request is refused
    constructor
    · rintro ⟨res, s'', hrun', -, hcode⟩ hpasses
      obtain ⟨rfl, rfl⟩ := Evals.det hrun hrun'
      refine (refused_outside hearliest hlatest hw hpasses hrefused).mpr fun name o hsplit hnotin => ?_
      obtain ⟨e', he', hinvalid⟩ := hcode hpasses name o hsplit hnotin
      cases he'
      exact hinvalid
    · refine fun hfits => ⟨_, s', hrun, (fun _ h => (by cases h)), fun hpasses name o hsplit hnotin => ⟨e, rfl, ?_⟩⟩
      exact (refused_outside hearliest hlatest hw hpasses hrefused).mp (hfits hpasses) name o hsplit hnotin
  have hpasses : PassesChecks cfg (reply 0).limiter w req := by
    obtain ⟨hlease, hverdict, -⟩ := admission_ok_iff.mp hadmitted
    exact ⟨hlease, _, hverdict⟩
  have hfitting : CursorFits w req → ∀ {res}, Evals reply i (subscribe cfg (rounds + 1) req) ⟨w, []⟩ res s' →
      (∀ sub, res = .ok sub → sub.subscriptionId = (req.subscription w resolved).subscriptionId) →
      HonorsCursor cfg fuel reply i w req (rounds + 1) := by
    intro hfits res hrun hid
    obtain ⟨name, o, hsplit, hmem, hget⟩ := start_of_fits hearliest hlatest hw hfits hadmitted
    refine ⟨res, s', hrun, fun sub hsub => ⟨name, o, hsplit, hmem, _, hin, (hid sub hsub).symm, hget⟩, ?_⟩
    intro _ name' o' hsplit' hnotin
    rw [hsplit] at hsplit'
    cases hsplit'
    exact absurd hmem hnotin
  rcases hrun with ⟨-, sub, hid, hrun⟩ | ⟨hraises, e, hrun⟩
  · constructor
    · rintro ⟨res, s'', hrun', hstart, -⟩ _
      obtain ⟨rfl, rfl⟩ := Evals.det hrun hrun'
      obtain ⟨name, o, hsplit, hmem, -⟩ := hstart sub rfl
      rw [CursorFits, hsplit]
      exact .inl hmem
    · intro hfits
      refine hfitting (hfits hpasses) hrun fun sub' hsub => ?_
      cases hsub
      exact hid
  · -- the backlog raises, so there is one
    have hfits : CursorFits w req := by
      by_contra hnot
      exact hraises.2.2 (clears_of_not_fits hearliest hlatest hw hnot hadmitted)
    exact ⟨fun _ _ => hfits, fun _ => hfitting hfits hrun fun _ h => (by cases h)⟩

end

namespace Sample

/-- A cursor of the topic itself. -/
def resumed : SubscribeRequest := { subscription with fromCursor := "t:0000000000000000" }

/-- A cursor of a topic that nobody subscribes to. -/
def elsewhere : SubscribeRequest := { subscription with fromCursor := "other:0000000000000000" }

private theorem split_resumed : Cursor.split resumed.fromCursor = .ok ("t", 0) := by
  have hcursor : Cursor.encode "t" 0 = .ok "t:0000000000000000" := rfl
  exact Cursor.split_encode (by decide) hcursor

private theorem split_elsewhere : Cursor.split elsewhere.fromCursor = .ok ("other", 0) := by
  have hcursor : Cursor.encode "other" 0 = .ok "other:0000000000000000" := rfl
  exact Cursor.split_encode (by decide) hcursor

end Sample

/-- The subscription resumes after the first event. -/
theorem honors_cursor_iff_sample : HonorsCursor Sample.config 0 (fun _ => {}) 0 Sample.logged Sample.resumed 4 := by
  refine (honors_cursor_iff (by decide) (by decide) 0 0 (fun _ => ⟨_, rfl⟩) Sample.logged_settled
    Sample.logged_live).mpr fun _ => ?_
  rw [CursorFits, Sample.split_resumed]
  exact .inl (by decide : "t" ∈ Sample.resumed.topics)

/-- The cursor of another topic is taken, and the subscription starts at the head. -/
theorem foreign_cursor_starts_at_head :
    ¬ HonorsCursor Sample.config 0 (fun _ => {}) 0 Sample.logged Sample.elsewhere 4 := by
  intro hhonors
  have hpasses : PassesChecks Sample.config (.ok ()) Sample.logged Sample.elsewhere := ⟨rfl, _, rfl⟩
  have hiff : HonorsCursor Sample.config 0 (fun _ => {}) 0 Sample.logged Sample.elsewhere 4 ↔ _ :=
    honors_cursor_iff (by decide) (by decide) 0 0 (fun _ => ⟨_, rfl⟩) Sample.logged_settled Sample.logged_live
  have hfits := hiff.mp hhonors hpasses
  have hnames : Sample.elsewhere.topicNames = ["t"] := rfl
  rw [CursorFits, Sample.split_elsewhere, hnames] at hfits
  have hother : "other" ∉ Sample.elsewhere.topics := by decide
  simp [World.RefusesHead, hother] at hfits

end A2AEvents

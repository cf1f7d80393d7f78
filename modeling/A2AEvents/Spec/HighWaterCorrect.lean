import A2AEvents.Native.SubscriptionStore
import A2AEvents.Native.PostgresSubscriptionStore

/-!
# Storing a dispatch position

`set_high_water` followed by `high_water` gives back the offset and leaves everything else
alone. In memory this is so for every offset. In Postgres the offset goes through a cast to
`int` and has to be below `2 ^ 31`, although cursors are sixteen digits wide and the offsets of
the event log are counted in a `BIGINT`.

## Key results

- `stores_position_iff`: the positions that both stores keep
- `PostgresSubscriptionStore.KeepsPositions.setHighWater`: below the bound the table holds the
  positions of the in-memory store
-/

namespace A2AEvents

/-- The two operations on positions of a subscription store. -/
structure PositionOps (σ : Type) where
  set : σ → String → String → Int → Except PyError Unit × σ
  read : σ → String → Except PyError (Dict String Int)

/-- Setting the position of a topic succeeds, is read back, and changes no other entry. -/
structure PositionOps.Stores {σ : Type} (ops : PositionOps σ) (store : σ)
    (subscriptionId topic : String) (offset : Int) : Prop where
  succeeds : (ops.set store subscriptionId topic offset).1 = .ok ()
  reads : ∃ entry, ops.read (ops.set store subscriptionId topic offset).2 subscriptionId = .ok entry ∧
    entry.get? topic = some offset
  topics : ∃ before after, ops.read store subscriptionId = .ok before ∧
    ops.read (ops.set store subscriptionId topic offset).2 subscriptionId = .ok after ∧
    ∀ other, other ≠ topic → after.get? other = before.get? other
  others : ∀ id, id ≠ subscriptionId →
    ops.read (ops.set store subscriptionId topic offset).2 id = ops.read store id

/-- The in-memory store. -/
def SubscriptionStore.positionOps : PositionOps SubscriptionStore where
  set store subscriptionId topic offset := (.ok (), store.setHighWater subscriptionId topic offset)
  read store subscriptionId := .ok (store.highWater subscriptionId)

/-- The Postgres store. -/
def PostgresSubscriptionStore.positionOps : PositionOps PostgresSubscriptionStore where
  set := PostgresSubscriptionStore.setHighWater
  read := PostgresSubscriptionStore.highWater

/-! ## In memory -/

theorem SubscriptionStore.highWater_setHighWater (store : SubscriptionStore)
    (subscriptionId topic : String) (offset : Int) (id : String) :
    (store.setHighWater subscriptionId topic offset).highWater id =
      if id = subscriptionId then (store.highWater subscriptionId).set topic offset
      else store.highWater id := by
  simp only [highWater, setHighWater, Dict.get?_set]
  by_cases h : id = subscriptionId <;> simp [h]

/-- The in-memory store keeps every position. -/
theorem SubscriptionStore.stores_position (store : SubscriptionStore) (subscriptionId topic : String)
    (offset : Int) : SubscriptionStore.positionOps.Stores store subscriptionId topic offset := by
  have hset := highWater_setHighWater store subscriptionId topic offset
  constructor
  · rfl
  · refine ⟨_, rfl, ?_⟩
    show ((store.setHighWater subscriptionId topic offset).highWater subscriptionId).get? topic = _
    rw [hset, if_pos rfl, Dict.get?_set, if_pos rfl]
  · refine ⟨_, _, rfl, rfl, ?_⟩
    intro other hother
    show ((store.setHighWater subscriptionId topic offset).highWater subscriptionId).get? other = _
    rw [hset, if_pos rfl, Dict.get?_set, if_neg hother]
  · intro id hid
    show Except.ok ((store.setHighWater subscriptionId topic offset).highWater id) = .ok (store.highWater id)
    rw [hset, if_neg hid]

/-! ## In Postgres -/

namespace PostgresSubscriptionStore

variable {store : PostgresSubscriptionStore} {subscriptionId : String} {entry : Dict String Int}

theorem isDbText_of_get? (h : store.rows.get? subscriptionId = some entry) :
    isDbText subscriptionId = true :=
  store.ids_text subscriptionId (Dict.mem_keys_iff.mpr ⟨entry, h⟩)

theorem rows_jsonbSet (h : store.rows.get? subscriptionId = some entry) (topic : String) (value : Int) :
    (store.jsonbSet subscriptionId topic value).rows =
      store.rows.set subscriptionId (entry.set topic value) := by
  unfold jsonbSet
  split
  · rename_i hnone
    rw [hnone] at h
    cases h
  · rename_i entry' hentry
    rw [hentry] at h
    cases h
    rfl

/-- An offset of the event log fits the cast below `2 ^ 31` only. -/
theorem castInteger_ok_iff {offset : Int} (hpos : 0 ≤ offset) :
    castInteger offset = .ok offset ↔ offset < 2 ^ 31 := by
  have hmax : (PostgresEventStore.maxInteger : Int) = 2 ^ 31 - 1 := by decide
  unfold castInteger
  constructor
  · intro h
    by_contra hlarge
    rw [if_pos (by omega)] at h
    cases h
  · intro h
    rw [if_neg (by omega)]

theorem castInteger_eq {offset value : Int} (h : castInteger offset = .ok value) : value = offset := by
  unfold castInteger at h
  split at h
  · cases h
  · exact (Except.ok.inj h).symm

/-- What `set_high_water` does to a stored row. -/
theorem setHighWater_of_stored (topic : String) (h : store.rows.get? subscriptionId = some entry)
    {offset : Int} (hpos : 0 ≤ offset) :
    (offset < 2 ^ 31 ∧ isDbText topic = true ∧ store.setHighWater subscriptionId topic offset =
      (.ok (), store.jsonbSet subscriptionId topic offset)) ∨
    (¬ (offset < 2 ^ 31 ∧ isDbText topic = true) ∧
      ∃ e, store.setHighWater subscriptionId topic offset = (.error e, store)) := by
  have hid := isDbText_of_get? h
  unfold setHighWater
  by_cases htopic : isDbText topic = true
  · rw [if_pos (by rw [htopic, hid]; rfl)]
    cases hcast : castInteger offset with
    | error e =>
      right
      refine ⟨?_, e, rfl⟩
      rintro ⟨hlt, -⟩
      rw [(castInteger_ok_iff hpos).mpr hlt] at hcast
      cases hcast
    | ok value =>
      obtain rfl := castInteger_eq hcast
      left
      exact ⟨(castInteger_ok_iff hpos).mp hcast, htopic, rfl⟩
  · right
    rw [if_neg (by simp [htopic])]
    exact ⟨fun hboth => htopic hboth.2, _, rfl⟩

/-- A stored row takes the offsets below `2 ^ 31`, under topics without a NUL character. -/
theorem stores_position_iff_cast (h : store.rows.get? subscriptionId = some entry) {topic : String}
    {offset : Int} (hpos : 0 ≤ offset) :
    positionOps.Stores store subscriptionId topic offset ↔
      offset < 2 ^ 31 ∧ isDbText topic = true := by
  obtain ⟨hlt, htopic, hset⟩ | ⟨hnot, e, hset⟩ := setHighWater_of_stored topic h hpos
  · constructor
    · intro _
      exact ⟨hlt, htopic⟩
    · intro _
      have hid := isDbText_of_get? h
      have hread : ∀ id, ((store.jsonbSet subscriptionId topic offset).rows.get? id).getD ∅ =
          if id = subscriptionId then entry.set topic offset else (store.rows.get? id).getD ∅ := by
        intro id
        rw [rows_jsonbSet h, Dict.get?_set]
        by_cases heq : id = subscriptionId <;> simp [heq]
      have hafter : (store.jsonbSet subscriptionId topic offset).highWater subscriptionId =
          .ok (entry.set topic offset) := by
        rw [highWater, if_pos hid, hread, if_pos rfl]
      have hbefore : store.highWater subscriptionId = .ok entry := by
        rw [highWater, if_pos hid, h, Option.getD_some]
      constructor
      · show (store.setHighWater subscriptionId topic offset).1 = _
        rw [hset]
      · refine ⟨entry.set topic offset, ?_, by simp⟩
        show (store.setHighWater subscriptionId topic offset).2.highWater subscriptionId = _
        rw [hset, hafter]
      · refine ⟨entry, entry.set topic offset, hbefore, ?_, ?_⟩
        · show (store.setHighWater subscriptionId topic offset).2.highWater subscriptionId = _
          rw [hset, hafter]
        · intro other hother
          rw [Dict.get?_set, if_neg hother]
      · intro id hne
        show (store.setHighWater subscriptionId topic offset).2.highWater id = store.highWater id
        rw [hset, highWater, highWater, hread, if_neg hne]
  · constructor
    · intro hstores
      have hok := hstores.succeeds
      rw [show positionOps.set store subscriptionId topic offset = _ from hset] at hok
      cases hok
    · intro hboth
      exact absurd hboth hnot

/-! ## The table holds the positions -/

/-- The table has the positions of the store for the subscriptions that it has. -/
def KeepsPositions (pg : PostgresSubscriptionStore) (store : SubscriptionStore) : Prop :=
  ∀ id entry, pg.rows.get? id = some entry → store.highWater id = entry

/-- Below the bound, setting a position in both keeps the table in line with the store. -/
theorem KeepsPositions.setHighWater {mem : SubscriptionStore} (hkeeps : store.KeepsPositions mem)
    (h : store.rows.get? subscriptionId = some entry) {topic : String} {offset : Int} (hpos : 0 ≤ offset)
    (hlt : offset < 2 ^ 31) (htopic : isDbText topic = true) :
    (store.setHighWater subscriptionId topic offset).2.KeepsPositions
      (mem.setHighWater subscriptionId topic offset) := by
  obtain ⟨-, -, hset⟩ | ⟨hnot, -⟩ := setHighWater_of_stored topic h hpos
  · rw [hset]
    intro id entry' hentry'
    rw [rows_jsonbSet h, Dict.get?_set] at hentry'
    rw [SubscriptionStore.highWater_setHighWater]
    split at hentry'
    · rw [if_pos ‹_›, hkeeps _ _ h]
      exact Option.some.inj hentry'
    · rw [if_neg ‹_›]
      exact hkeeps id entry' hentry'
  · exact absurd ⟨hlt, htopic⟩ hnot

end PostgresSubscriptionStore

/-! ## Both stores -/

/-- Setting a position from the event log, in both stores: the in-memory store keeps every offset, a
    stored row of the Postgres store keeps it exactly if it is below `2 ^ 31` and the topic has no
    NUL character. -/
theorem stores_position_iff {pg : PostgresSubscriptionStore} {subscriptionId : String}
    {entry : Dict String Int} (h : pg.rows.get? subscriptionId = some entry) {offset : Int}
    (hpos : 0 ≤ offset) (mem : SubscriptionStore) (topic : String) :
    SubscriptionStore.positionOps.Stores mem subscriptionId topic offset ∧
      (PostgresSubscriptionStore.positionOps.Stores pg subscriptionId topic offset ↔
        offset < 2 ^ 31 ∧ isDbText topic = true) :=
  ⟨mem.stores_position subscriptionId topic offset,
    PostgresSubscriptionStore.stores_position_iff_cast h hpos⟩

/-- One subscription, with a position in one topic. -/
def positionSample : PostgresSubscriptionStore where
  rows := Dict.set ∅ "sub_1" (Dict.set ∅ "t" 7)
  ids_text := by decide

theorem stores_position_iff_sample :
    positionSample.rows.get? "sub_1" = some (Dict.set ∅ "t" 7) ∧ (0 : Int) ≤ 8 ∧
      SubscriptionStore.positionOps.Stores {} "sub_1" "t" 8 ∧
      (PostgresSubscriptionStore.positionOps.Stores positionSample "sub_1" "t" 8 ↔
        (8 : Int) < 2 ^ 31 ∧ isDbText "t" = true) :=
  ⟨rfl, by decide, stores_position_iff rfl (by decide) {} "t"⟩

/-- An event log that has issued `2 ^ 31` offsets issues the next one, and the event is stored; the
    position that it would move a subscription to is refused. -/
theorem large_offset_is_refused :
    ((({ topics := Dict.set ∅ "t" { config := { name := "t" }, nextOffset := 2 ^ 31 } } :
      PostgresEventStore).append 0 "e" "t" "x" "s" [] none).1.toOption.map EventRecord.cursor) =
        some "t:0000002147483648" ∧
    (2147483648 : Int) < 10 ^ Cursor.offsetWidth ∧
    ¬ PostgresSubscriptionStore.positionOps.Stores positionSample "sub_1" "t" 2147483648 := by
  refine ⟨by decide +kernel, by decide, ?_⟩
  intro h
  have hrefused : (positionSample.setHighWater "sub_1" "t" 2147483648).1.toBool = false := by
    decide +kernel
  have hok : (positionSample.setHighWater "sub_1" "t" 2147483648).1 = .ok () := h.succeeds
  rw [hok] at hrefused
  cases hrefused

end A2AEvents

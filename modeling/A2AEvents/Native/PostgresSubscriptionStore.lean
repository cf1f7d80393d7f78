import A2AEvents.Native.PostgresEventStore

/-!
# Dispatch positions in Postgres

`runtime/postgres/subscription_store.py`: the column `high_water` of `a2a_subscriptions`, a
JSONB object with one number for each topic, and the two statements on it. Texts with a NUL
character are refused when they are passed, so none is the id of a row.
-/

namespace A2AEvents

/-- The error of a text parameter with a NUL character. -/
def nulCharacter : PyError := .other "DataError"

/-- Whether a text can be passed to the database. -/
def isDbText (s : String) : Bool := Char.ofNat 0 ∉ s.toList

/-- The column `high_water`, by subscription id. -/
structure PostgresSubscriptionStore where
  rows : Dict String (Dict String Int) := ∅
  ids_text : ∀ id ∈ rows.keys, isDbText id = true

namespace PostgresSubscriptionStore

/-- `%s::int`: the parameter has to fit an `INTEGER`. -/
def castInteger (n : Int) : Except PyError Int :=
  if n < -(PostgresEventStore.maxInteger : Int) - 1 ∨ n > PostgresEventStore.maxInteger then
    .error PostgresEventStore.outOfRange
  else .ok n

/-- `UPDATE ... SET high_water = jsonb_set(high_water, path, value)`: a missing member is made,
    and no row is written if none has the id. -/
def jsonbSet (store : PostgresSubscriptionStore) (subscriptionId topic : String) (value : Int) :
    PostgresSubscriptionStore :=
  match h : store.rows.get? subscriptionId with
  | none => store
  | some entry =>
    { rows := store.rows.set subscriptionId (entry.set topic value)
      ids_text := by
        intro id hid
        obtain rfl | hid := Dict.mem_keys_set.mp hid
        · exact store.ids_text id (Dict.mem_keys_iff.mpr ⟨entry, h⟩)
        · exact store.ids_text id hid }

def highWater (store : PostgresSubscriptionStore) (subscriptionId : String) :
    Except PyError (Dict String Int) :=
  if isDbText subscriptionId then .ok ((store.rows.get? subscriptionId).getD ∅)
  else .error nulCharacter

def setHighWater (store : PostgresSubscriptionStore) (subscriptionId topic : String) (offset : Int) :
    Except PyError Unit × PostgresSubscriptionStore :=
  if isDbText topic && isDbText subscriptionId then
    match castInteger offset with
    | .error e => (.error e, store)
    | .ok value => (.ok (), store.jsonbSet subscriptionId topic value)
  else (.error nulCharacter, store)

end PostgresSubscriptionStore

end A2AEvents

import A2AEvents.ForStd.Confined
import A2AEvents.ForStd.Outcome
import A2AEvents.Native.JsonRpc
import A2AEvents.Spec.ListingEvaluation
import A2AEvents.Spec.Runs

/-!
# Routes about one subscription

A route that renews, replays or acks names a subscription in its path. The call behind it is confined
to the subscription it looks up, and that is the one of the path unless the body names another one.

## Key results

- `exec_confined`, `exec_agrees`: what the operations on one subscription do and see
- `dispatch_confined`: a request is confined to the subscription that its parameters name
- `httpRoute_frames_iff`: the bodies for which a route is confined to the subscription of its path
-/

namespace A2AEvents

open Async Outcome Publisher

/-! ## The state of one subscription -/

/-- Two states have the same subscription under the id, with all that belongs to it. -/
structure SameSubscription (id : String) (w v : World) : Prop where
  row : w.subs.rows.get? id = v.subs.rows.get? id
  positions : w.subs.positions.get? id = v.subs.positions.get? id
  acks : ∀ eventId, w.subs.acks.get? (id, eventId) = v.subs.acks.get? (id, eventId)
  attempts : w.subs.attempts.filter (fun a => a.subscriptionId = id) =
    v.subs.attempts.filter fun a => a.subscriptionId = id
  retries : w.queue.items.values.filter (fun item => item.subscriptionId = id) =
    v.queue.items.values.filter fun item => item.subscriptionId = id

theorem SameSubscription.refl (id : String) (w : World) : SameSubscription id w w :=
  ⟨rfl, rfl, fun _ => rfl, rfl, rfl⟩

theorem SameSubscription.trans {id : String} {w v u : World} (h : SameSubscription id w v)
    (h' : SameSubscription id v u) : SameSubscription id w u :=
  ⟨h.row.trans h'.row, h.positions.trans h'.positions, fun e => (h.acks e).trans (h'.acks e),
    h.attempts.trans h'.attempts, h.retries.trans h'.retries⟩

/-- Two states that differ, if at all, in other subscriptions, in the supply of uuids, in locks and in
    grants. -/
structure AgreesAt (id : String) (w v : World) : Prop where
  clock : w.clock = v.clock
  store : w.store = v.store
  topics : w.topics = v.topics
  backend : w.subs.backend = v.subs.backend
  same : SameSubscription id w v

/-- Every other subscription is as it was. -/
def LeavesOthers (id : String) (w w' : World) : Prop := ∀ other, other ≠ id → SameSubscription other w w'

theorem LeavesOthers.refl (id : String) (w : World) : LeavesOthers id w w := fun other _ => .refl other w

theorem LeavesOthers.trans {id : String} {w w' w'' : World} (h : LeavesOthers id w w') (h' : LeavesOthers id w' w'') :
    LeavesOthers id w w'' := fun other hne => (h other hne).trans (h' other hne)

/-- The row under the id is the row of that subscription. -/
def KeyedAt (id : String) (w : World) : Prop := ∀ row, w.subs.rows.get? id = some row → row.subscriptionId = id

/-! ## Operations on one subscription -/

/-- The exception is no error about another subscription. -/
def PyError.NamesOnly (id : String) (e : PyError) : Prop :=
  ∀ err, e = .a2a err → ∀ v, ("subscriptionId", v) ∈ err.details → v = .str id

/-- The operations on one subscription. -/
def asksAt (id : String) : Op → Prop
  | .get other | .highWater other | .setHighWater other _ _ | .recordAck other _ _ => other = id
  | .deref h | .assign h _ | .update h => h.sub.subscriptionId = id
  | .now | .read .. | .cachedTopic _ | .getTopic _ | .cacheTopic .. => True
  | _ => False

/-- Their answers: objects of that subscription, and no errors about others. -/
def answersAt (id : String) : (o : Op) → o.Res → Prop
  | .get _, r => ∀ h : Handle, r = some h → h.sub.subscriptionId = id
  | .deref _, r | .assign .., r | .update _, r => r.sub.subscriptionId = id
  | .read .., r => ∀ e, r = .error e → PyError.NamesOnly id e
  | .getTopic _, r => ∀ e, r = .error e → PyError.NamesOnly id e
  | _, _ => True

/-- The part of the world that belongs to one subscription. -/
def subscriptionPart (id : String) : Part sig where
  asks := asksAt id
  answers := answersAt id
  raises := PyError.NamesOnly id

/-! ## Errors without a subscription -/

/-- The exception names no subscription. -/
def PyError.NamesNone (e : PyError) : Prop := ∀ err, e = .a2a err → ∀ v, ("subscriptionId", v) ∉ err.details

theorem PyError.NamesNone.only {e : PyError} (h : e.NamesNone) (id : String) : e.NamesOnly id :=
  fun err he v hv => absurd hv (h err he v)

/-- Only protocol errors have details. -/
theorem namesNone_of_ne {e : PyError} (h : ∀ err, e ≠ .a2a err) : e.NamesNone := fun err he => absurd he (h err)

theorem namesNone_valueError (message : String) : (PyError.valueError message).NamesNone := namesNone_of_ne (by simp)

theorem namesNone_typeError (message : String) : (PyError.typeError message).NamesNone := namesNone_of_ne (by simp)

theorem namesNone_keyError (key : String) : (PyError.keyError key).NamesNone := namesNone_of_ne (by simp)

theorem namesNone_other (kind : String) : (PyError.other kind).NamesNone := namesNone_of_ne (by simp)

theorem settles_raise {α : Type} {code : ErrorCode} {message : String} {details : List (String × Json)}
    (h : ∀ v, ("subscriptionId", v) ∉ details) :
    Settles PyError.NamesNone (raiseA2A code message details : Except PyError α) := by
  intro err herr
  cases herr
  exact h

theorem settles_split (cursor : String) : Settles PyError.NamesNone (Cursor.split cursor) := by
  simp only [Cursor.split]
  split
  · exact settles_raise (by simp)
  · simp only [Cursor.parseInt]
    split
    · trivial
    · rename_i e h
      split at h
      · cases h
        exact namesNone_valueError _
      · split at h <;> cases h
        exact namesNone_valueError _

theorem settles_offsetFor (topic cursor : String) : Settles PyError.NamesNone (Cursor.offsetFor topic cursor) := by
  simp only [Cursor.offsetFor]
  split
  · rename_i e h
    exact (settles_split cursor).error h
  · split
    · exact settles_raise (by simp)
    · trivial

theorem settles_offsetOf (cursor : String) : Settles PyError.NamesNone (Cursor.offsetOf cursor) :=
  settles_map (settles_split cursor)

theorem settles_hasMore (offset : Nat) (toOffset : Option Nat) (live : List EventRecord) :
    Settles PyError.NamesNone (EventStore.hasMore offset toOffset live) := by
  induction live with
  | nil => trivial
  | cons record rest ih =>
    simp only [EventStore.hasMore]
    split
    · rename_i e h
      exact (settles_offsetOf record.cursor).error h
    · split
      · trivial
      · exact ih

theorem settles_collect (live : List EventRecord) (start : Int) (toOffset : Option Nat) (limit : Int)
    (out records : List EventRecord) :
    Settles PyError.NamesNone (EventStore.collect live start toOffset limit out records) := by
  induction records generalizing out with
  | nil => trivial
  | cons record rest ih =>
    simp only [EventStore.collect]
    split
    · rename_i e h
      exact (settles_offsetOf record.cursor).error h
    · rename_i offset _
      split
      · exact ih out
      · split
        · trivial
        · split
          · split
            · rename_i e h
              exact (settles_hasMore offset toOffset live).error h
            · trivial
          · exact ih _

theorem settles_startOffset (live : List EventRecord) (topic : String) (fromCursor : Option String) :
    Settles PyError.NamesNone (EventStore.startOffset live topic fromCursor) := by
  cases fromCursor with
  | none => trivial
  | some from_ =>
    simp only [EventStore.startOffset]
    split
    · trivial
    · split
      · rename_i e h
        exact (settles_offsetFor topic from_).error h
      · split
        · trivial
        · rename_i oldest _
          split
          · rename_i e h
            exact (settles_offsetOf oldest.cursor).error h
          · split
            · exact settles_raise (by simp)
            · trivial

theorem settles_endOffset (topic : String) (toCursor : Option String) :
    Settles PyError.NamesNone (EventStore.endOffset topic toCursor) := by
  cases toCursor with
  | none => trivial
  | some to_ =>
    simp only [EventStore.endOffset]
    split
    · trivial
    · exact settles_map (settles_offsetFor topic to_)

theorem settles_read (store : EventStore) (now : Time) (topic : String) (fromCursor toCursor : Option String)
    (limit : Int) : Settles PyError.NamesNone (store.read now topic fromCursor toCursor limit) := by
  simp only [EventStore.read]
  split
  · exact settles_raise (by simp)
  · rename_i log _
    split
    · trivial
    · split
      · rename_i e h
        exact (settles_startOffset (EventStore.liveLog now log) topic fromCursor).error h
      · split
        · rename_i e h
          exact (settles_endOffset topic toCursor).error h
        · exact settles_collect _ _ _ _ _ _

theorem settles_encode (topic : String) (offset : Int) : Settles PyError.NamesNone (Cursor.encode topic offset) := by
  simp only [Cursor.encode]
  split
  · exact namesNone_valueError _
  · split
    · exact namesNone_valueError _
    · trivial

theorem settles_cursorAt (topic : String) (position : Int) : Settles PyError.NamesNone (cursorAt topic position) := by
  simp only [cursorAt]
  split
  · exact settles_map (settles_encode topic position)
  · trivial

theorem settles_recordWith (offset : Nat) (records : List EventRecord) :
    Settles PyError.NamesNone (recordWith offset records) := by
  cases records with
  | nil => trivial
  | cons record rest => exact settles_map (settles_offsetOf record.cursor)

theorem settles_resolvePath (event : Json) (path : String) : Settles PyError.NamesNone (resolvePath event path) := by
  simp only [resolvePath]
  split
  · trivial
  · exact settles_raise (by simp)
  · split
    · trivial
    · exact settles_raise (by simp)
  · trivial

theorem settles_matchFields (event : Json) (fields : List (String × List Json)) :
    Settles PyError.NamesNone (matchFields event fields) := by
  induction fields with
  | nil => trivial
  | cons field rest ih =>
    simp only [matchFields]
    split
    · rename_i e h
      exact (settles_resolvePath event field.1).error h
    · split
      · exact ih
      · trivial

theorem settles_collectText (event : Json) (paths : List String) :
    Settles PyError.NamesNone (collectText event paths) := by
  induction paths with
  | nil => trivial
  | cons path rest ih =>
    simp only [collectText]
    split
    · rename_i e h
      exact (settles_resolvePath event path).error h
    · split
      · rename_i e h
        exact ih.error h
      · trivial

theorem settles_selectorMatches (lower : Char → Char) (selector : Option Selector) (event : Json)
    (defaultFields : Option (List String)) :
    Settles PyError.NamesNone (selectorMatches lower selector event defaultFields) := by
  simp only [selectorMatches]
  split
  · trivial
  · exact settles_matchFields event _
  · simp only [matchKeywordSearch]
    split
    · rename_i e h
      exact (settles_collectText event _).error h
    · trivial

theorem settles_replayEvents (cfg : PublisherConfig) (sub : Subscription) (topic : Topic) (records : List EventRecord) :
    Settles PyError.NamesNone (replayEvents cfg sub topic records) := by
  induction records with
  | nil => trivial
  | cons record rest ih =>
    simp only [replayEvents]
    split
    · rename_i e h
      exact (settles_selectorMatches _ _ _ _).error h
    · split
      · rename_i e h
        exact ih.error h
      · trivial

/-! ## What the operations do and see -/

section

variable {id : String} {w w' v : World} {o : Op} {i : Nat} {c : Choice} {r : o.Res}

/-- Another row under the id. -/
def World.setRow (w : World) (id : String) (row : Subscription) : World :=
  { w with subs := { w.subs with rows := w.subs.rows.set id row } }

theorem leavesOthers_setRow (w : World) (id : String) (row : Subscription) : LeavesOthers id w (w.setRow id row) := by
  intro other hne
  refine ⟨?_, rfl, fun _ => rfl, rfl, rfl⟩
  show _ = (w.subs.rows.set id row).get? other
  rw [Dict.get?_set, if_neg hne]

theorem keyedAt_setRow {row : Subscription} (h : row.subscriptionId = id) : KeyedAt id (w.setRow id row) := by
  intro row' hrow'
  have heq : (w.subs.rows.set id row).get? id = some row' := hrow'
  rw [Dict.get?_set, if_pos rfl] at heq
  rw [← Option.some.inj heq]
  exact h

theorem AgreesAt.setRow (h : AgreesAt id w v) (row : Subscription) : AgreesAt id (w.setRow id row) (v.setRow id row) := by
  refine ⟨h.clock, h.store, h.topics, h.backend, ⟨?_, h.same.positions, h.same.acks, h.same.attempts, h.same.retries⟩⟩
  show (w.subs.rows.set id row).get? id = (v.subs.rows.set id row).get? id
  rw [Dict.get?_set, Dict.get?_set, if_pos rfl, if_pos rfl]

/-- The operations leave other subscriptions alone, and their answers are about the one. -/
theorem exec_confined (ho : asksAt id o) (hkey : KeyedAt id w) (hex : World.exec i o c w = some (r, w')) :
    answersAt id o r ∧ KeyedAt id w' ∧ LeavesOthers id w w' := by
  cases o with
  | get other =>
    cases hex
    refine ⟨fun h hh => ?_, hkey, .refl id w⟩
    obtain ⟨row, hrow, rfl⟩ := Option.map_eq_some_iff.mp hh
    rw [show other = id from ho] at hrow
    exact hkey row hrow
  | highWater other => exact ⟨trivial, by cases hex; exact hkey, by cases hex; exact .refl id w⟩
  | now => exact ⟨trivial, by cases hex; exact hkey, by cases hex; exact .refl id w⟩
  | cachedTopic name => exact ⟨trivial, by cases hex; exact hkey, by cases hex; exact .refl id w⟩
  | read topic from_ to_ limit =>
    cases hex
    refine ⟨fun e he => ?_, hkey, .refl id w⟩
    exact ((settles_read w.store w.clock topic from_ to_ limit).error he).only id
  | getTopic name =>
    cases hex
    refine ⟨fun e he => ?_, hkey, .refl id w⟩
    simp only [EventStore.getTopic] at he
    split at he
    · exact (Settles.error (settles_raise (by simp)) he).only id
    · cases he
  | cacheTopic name topic =>
    cases hex
    exact ⟨trivial, hkey, fun other _ => ⟨rfl, rfl, fun _ => rfl, rfl, rfl⟩⟩
  | setHighWater other topic offset =>
    cases hex
    refine ⟨trivial, hkey, fun u hne => ⟨rfl, ?_, fun _ => rfl, rfl, rfl⟩⟩
    have hother : u ≠ other := by rw [show other = id from ho]; exact hne
    show _ = (w.subs.positions.set other _).get? u
    rw [Dict.get?_set, if_neg hother]
  | recordAck other eventId cursor =>
    cases hex
    refine ⟨trivial, hkey, fun u hne => ⟨rfl, rfl, fun e => ?_, rfl, rfl⟩⟩
    have hother : (u, e) ≠ (other, eventId) := by
      rw [show other = id from ho]
      intro heq
      exact hne (Prod.mk.inj heq).1
    show _ = (w.subs.acks.set (other, eventId) cursor).get? (u, e)
    rw [Dict.get?_set, if_neg hother]
  | deref h =>
    have hid : h.sub.subscriptionId = id := ho
    cases hex
    refine ⟨?_, hkey, .refl id w⟩
    show (w.subs.deref h).sub.subscriptionId = id
    simp only [SubscriptionStore.deref]
    split
    · exact hid
    · split
      · rename_i sub hrow
        rw [hid] at hrow
        exact hkey sub hrow
      · exact hid
  | assign h e =>
    have hid : h.sub.subscriptionId = id := ho
    have hsame : (e.apply h.sub).subscriptionId = id := (e.apply_alike h.sub).subscriptionId.trans hid
    cases hex
    simp only [answersAt, SubscriptionStore.assign]
    split
    · exact ⟨hsame, hkey, .refl id w⟩
    · split
      · rename_i sub hrow
        rw [hid] at hrow ⊢
        have hrowId : (e.apply sub).subscriptionId = id := (e.apply_alike sub).subscriptionId.trans (hkey sub hrow)
        exact ⟨hrowId, keyedAt_setRow hrowId, leavesOthers_setRow w id _⟩
      · exact ⟨hsame, hkey, .refl id w⟩
  | update h =>
    have hid : h.sub.subscriptionId = id := ho
    cases hex
    simp only [answersAt, SubscriptionStore.update]
    split
    · exact ⟨hid, hkey, .refl id w⟩
    · split
      · exact ⟨hid, hkey, .refl id w⟩
      · rename_i row hrow
        rw [hid] at hrow ⊢
        exact ⟨rfl, keyedAt_setRow (hkey row hrow), leavesOthers_setRow w id _⟩
  | _ => cases ho

/-- States that agree on the subscription give the operations the same answers, and agree afterwards. -/
theorem exec_agrees (ho : asksAt id o) (hag : AgreesAt id w v) (hex : World.exec i o c w = some (r, w')) :
    ∃ v', World.exec i o c v = some (r, v') ∧ AgreesAt id w' v' := by
  have hrow := hag.same.row
  cases o with
  | get other =>
    cases hex
    refine ⟨v, ?_, hag⟩
    have hother : other = id := ho
    simp only [World.exec, SubscriptionStore.get, hother, hrow]
  | highWater other =>
    cases hex
    refine ⟨v, ?_, hag⟩
    have hother : other = id := ho
    simp only [World.exec, SubscriptionStore.highWater, hother, hag.same.positions]
  | now =>
    cases hex
    exact ⟨v, by simp only [World.exec, hag.clock], hag⟩
  | cachedTopic name =>
    cases hex
    exact ⟨v, by simp only [World.exec, hag.topics], hag⟩
  | read topic from_ to_ limit =>
    cases hex
    exact ⟨v, by simp only [World.exec, hag.store, hag.clock], hag⟩
  | getTopic name =>
    cases hex
    exact ⟨v, by simp only [World.exec, hag.store], hag⟩
  | cacheTopic name topic =>
    cases hex
    refine ⟨_, rfl, ⟨hag.clock, hag.store, ?_, hag.backend, ⟨hag.same.row, hag.same.positions, hag.same.acks,
      hag.same.attempts, hag.same.retries⟩⟩⟩
    show w.topics.set name topic = v.topics.set name topic
    rw [hag.topics]
  | setHighWater other topic offset =>
    cases hex
    refine ⟨_, rfl, ⟨hag.clock, hag.store, hag.topics, hag.backend, ⟨hag.same.row, ?_, hag.same.acks,
      hag.same.attempts, hag.same.retries⟩⟩⟩
    have hother : other = id := ho
    show (w.subs.positions.set other _).get? id = (v.subs.positions.set other _).get? id
    simp only [Dict.get?_set, SubscriptionStore.highWater, hother, hag.same.positions]
  | recordAck other eventId cursor =>
    cases hex
    refine ⟨_, rfl, ⟨hag.clock, hag.store, hag.topics, hag.backend, ⟨hag.same.row, hag.same.positions, fun e => ?_,
      hag.same.attempts, hag.same.retries⟩⟩⟩
    show (w.subs.acks.set (other, eventId) cursor).get? (id, e) = (v.subs.acks.set (other, eventId) cursor).get? (id, e)
    simp only [Dict.get?_set, hag.same.acks e]
  | deref h =>
    cases hex
    refine ⟨v, ?_, hag⟩
    have hid : h.sub.subscriptionId = id := ho
    simp only [World.exec, SubscriptionStore.deref, hid, hag.backend, hrow]
  | assign h e =>
    have hid : h.sub.subscriptionId = id := ho
    cases hex
    simp only [SubscriptionStore.assign, hid]
    split
    · rename_i hb
      exact ⟨v, by simp only [World.exec, SubscriptionStore.assign, ← hag.backend, hb], hag⟩
    · rename_i hb
      split
      · rename_i sub hsub
        refine ⟨v.setRow id (e.apply sub), ?_, hag.setRow _⟩
        simp only [World.exec, SubscriptionStore.assign, hid, ← hag.backend, ← hrow, hb, hsub, World.setRow]
      · rename_i hsub
        exact ⟨v, by simp only [World.exec, SubscriptionStore.assign, hid, ← hag.backend, ← hrow, hb, hsub], hag⟩
  | update h =>
    have hid : h.sub.subscriptionId = id := ho
    cases hex
    simp only [SubscriptionStore.update, hid]
    split
    · rename_i hb
      exact ⟨v, by simp only [World.exec, SubscriptionStore.update, ← hag.backend, hb], hag⟩
    · rename_i hb
      split
      · rename_i hsub
        exact ⟨v, by simp only [World.exec, SubscriptionStore.update, hid, ← hag.backend, ← hrow, hb, hsub], hag⟩
      · rename_i row hsub
        refine ⟨v.setRow id _, ?_, hag.setRow _⟩
        simp only [World.exec, SubscriptionStore.update, hid, ← hag.backend, ← hrow, hb, hsub, World.setRow]
  | _ => cases ho

end

/-! ## Methods on one subscription -/

section

variable {id : String} {α β : Type} {Q : β → Prop}

/-- The object is that subscription. -/
def Handle.Of (id : String) (h : Handle) : Prop := h.sub.subscriptionId = id

theorem orRaise_confined {x : Except PyError α} {P : α → Prop} (hx : Settles PyError.NamesNone x)
    (hP : ∀ a, x = .ok a → P a) : (orRaise x).Confined (subscriptionPart id) P :=
  .lift hP fun _ he => (hx.error he).only id

theorem orRaise_bind_confined {x : Except PyError α} {f : α → M β} (hx : Settles PyError.NamesNone x)
    (hf : ∀ a, x = .ok a → (f a).Confined (subscriptionPart id) Q) :
    (orRaise x >>= f).Confined (subscriptionPart id) Q :=
  .lift_bind hf fun _ he => (hx.error he).only id

theorem perform_confined (o : Op) {P : o.Res → Prop} (ho : asksAt id o) (hP : ∀ r, answersAt id o r → P r) :
    (perform o).Confined (subscriptionPart id) P :=
  .call ho hP

theorem expireIfDue_confined {h : Handle} (hh : h.Of id) :
    (expireIfDue h).Confined (subscriptionPart id) fun p => p.2.Of id := by
  refine .call_bind hh fun h hh => .call_bind trivial fun now _ => ?_
  split
  · exact .call_bind hh fun h hh => .pure hh
  · exact .pure hh

theorem expireAndPersist_confined {h : Handle} (hh : h.Of id) :
    (expireAndPersist h).Confined (subscriptionPart id) (Handle.Of id) := by
  refine .bind (expireIfDue_confined hh) fun p hp => ?_
  obtain ⟨changed, h⟩ := p
  cases changed with
  | true => exact perform_confined (.update h) hp fun r hr => hr
  | false => exact .pure hp

theorem namesOnly_notFound {β : Type} {e : PyError}
    (he : (subscriptionNotFound id : Except PyError β) = .error e) : e.NamesOnly id := by
  cases he
  intro err herr v hv
  cases herr
  simpa using hv

theorem getSubscription_confined : (getSubscription id).Confined (subscriptionPart id) (Handle.Of id) := by
  refine .call_bind rfl fun found hfound => ?_
  cases found with
  | none => exact .lift (fun a ha => by cases ha) fun e he => namesOnly_notFound he
  | some h =>
    show Prog.Confined _ _ (if h.sub.status = .deleted then _ else _)
    split
    · exact .lift (fun a ha => by cases ha) fun e he => namesOnly_notFound he
    · exact expireAndPersist_confined (hfound h rfl)

theorem getActiveSubscription_confined :
    (getActiveSubscription id).Confined (subscriptionPart id) (Handle.Of id) := by
  refine .bind getSubscription_confined fun h hh => .call_bind hh fun h hh => ?_
  split
  · refine .lift (fun a ha => by cases ha) fun e he => ?_
    cases he
    intro err herr v hv
    cases herr
    simpa using hv
  · exact .pure hh

theorem renewOn_confined (delta : Except PyError Time) (hdelta : Settles PyError.NamesNone delta) {h : Handle}
    (hh : h.Of id) : (renewOn delta h).Confined (subscriptionPart id) fun sub => sub.subscriptionId = id := by
  refine .call_bind trivial fun now _ => orRaise_bind_confined hdelta fun d _ => ?_
  exact .call_bind hh fun h hh => .call_bind hh fun h hh => .call_bind hh fun h hh => .pure hh

theorem advanceCursor_confined {h : Handle} (topic cursor : String) (hh : h.Of id) :
    (advanceCursor h topic cursor).Confined (subscriptionPart id) (Handle.Of id) := by
  refine .call_bind hh fun h hh => ?_
  split
  · exact .call_bind hh fun h hh => perform_confined (.update h) hh fun r hr => hr
  · exact .pure hh

theorem raiseHighWater_confined (topic : String) (offset : Int) :
    (raiseHighWater id topic offset).Confined (subscriptionPart id) fun _ => True := by
  refine .call_bind rfl fun highWater _ => ?_
  split
  · exact perform_confined (.setHighWater id topic offset) rfl fun _ _ => trivial
  · exact .pure trivial

theorem recordAt_confined (topic cursor : String) :
    (recordAt topic cursor).Confined (subscriptionPart id) fun _ => True := by
  have hfirst : ∀ offset records, (orRaise (recordWith offset records)).Confined (subscriptionPart id) fun _ => True :=
    fun offset records => orRaise_confined (settles_recordWith offset records) fun _ _ => trivial
  refine orRaise_bind_confined (settles_offsetOf cursor) fun offset _ =>
    orRaise_bind_confined (settles_cursorAt topic _) fun from_ _ => .call_bind trivial fun answer hanswer => ?_
  split
  · exact hfirst offset _
  · split
    · exact .pure trivial
    · -- the predecessor aged out
      refine .call_bind trivial fun answer hanswer => ?_
      split
      · exact hfirst offset _
      · exact .pure trivial
      · exact .raise (hanswer _ rfl)
  · exact .raise (hanswer _ rfl)

theorem advance_confined {h : Handle} (topic cursor : String) (eventId : Option String) (hh : h.Of id) :
    (advance h topic cursor eventId).Confined (subscriptionPart id) (Handle.Of id) := by
  refine .bind (advanceCursor_confined topic cursor hh) fun h hh =>
    orRaise_bind_confined (settles_offsetOf cursor) fun offset _ => ?_
  have hid : h.sub.subscriptionId = id := hh
  refine .bind (P := fun _ => True) (by rw [hid]; exact raiseHighWater_confined topic offset) fun _ _ => ?_
  refine .bind (P := fun _ => True) ?_ fun found _ => .bind (P := fun _ => True) ?_ fun _ _ => .pure hh
  · cases eventId with
    | some e => exact .pure trivial
    | none => exact .bind (recordAt_confined topic cursor) fun r _ => .pure trivial
  · cases found with
    | some e => exact perform_confined (.recordAck h.sub.subscriptionId e cursor) hid fun _ _ => trivial
    | none => exact .pure trivial

theorem ackOn_confined (cursor : String) {h : Handle} (hh : h.Of id) :
    (ackOn cursor h).Confined (subscriptionPart id) fun sub => sub.subscriptionId = id := by
  refine orRaise_bind_confined (settles_map (settles_split cursor)) fun topic _ => ?_
  split
  · exact orRaise_confined (settles_raise (by simp)) fun a ha => by cases ha
  · exact .bind (advance_confined topic cursor none hh) fun h hh => .pure hh

theorem ackOnRaw_confined (cursor : Json) {h : Handle} (hh : h.Of id) :
    (ackOnRaw cursor h).Confined (subscriptionPart id) fun sub => sub.subscriptionId = id := by
  cases cursor with
  | str cursor => exact ackOn_confined cursor hh
  | _ => exact .raise ((namesNone_other _).only id)

theorem getTopic_confined (name : String) : (getTopic name).Confined (subscriptionPart id) fun _ => True := by
  refine .call_bind trivial fun cached _ => ?_
  cases cached with
  | some topic => exact .pure trivial
  | none =>
    refine .call_bind trivial fun answer hanswer => ?_
    cases answer with
    | error e => exact .raise (hanswer e rfl)
    | ok topic => exact .call_bind trivial fun _ _ => .pure trivial

theorem settles_replayTopicRaw (sub : Subscription) (fromCursor : Json) :
    Settles PyError.NamesNone (replayTopicRaw sub fromCursor) := by
  have htyped : ∀ fromCursor, Settles PyError.NamesNone (replayTopic sub fromCursor) := by
    intro fromCursor
    simp only [replayTopic]
    repeat' split
    all_goals first
      | trivial
      | exact namesNone_other _
      | exact settles_map (settles_split _)
  cases fromCursor with
  | str s => exact htyped (some s)
  | _ =>
    simp only [replayTopicRaw]
    split
    · exact namesNone_other _
    · exact htyped none

theorem readRaw_confined (lib : RpcLib) (topic : String) (fromCursor toCursor limit : Json) :
    (readRaw lib topic fromCursor toCursor limit).Confined (subscriptionPart id) fun _ => True := by
  simp only [readRaw]
  split
  · exact .raise ((namesNone_other _).only id)
  · refine .call_bind trivial fun answer hanswer => ?_
    exact .lift (fun _ _ => trivial) hanswer
  · refine .call_bind trivial fun answer hanswer => .lift_bind (fun page _ => ?_) hanswer
    split
    · exact .pure trivial
    · exact .raise ((namesNone_typeError _).only id)
  · refine .call_bind trivial fun answer hanswer => .lift_bind (fun page _ => ?_) hanswer
    split
    · exact .pure trivial
    · exact .raise ((namesNone_other _).only id)

theorem replayOnRaw_confined (lib : RpcLib) (cfg : PublisherConfig) (fromCursor toCursor limit : Json) (h : Handle) :
    (replayOnRaw lib cfg fromCursor toCursor limit h).Confined (subscriptionPart id) fun _ => True := by
  refine orRaise_bind_confined (settles_replayTopicRaw h.sub fromCursor) fun topic _ => ?_
  split
  · exact orRaise_confined (settles_raise (by simp)) fun _ _ => trivial
  · refine .bind (getTopic_confined topic) fun topicModel _ => ?_
    split
    · exact orRaise_confined (settles_raise (by simp)) fun _ _ => trivial
    · refine .bind (readRaw_confined lib topic fromCursor toCursor limit) fun page _ => ?_
      exact orRaise_bind_confined (settles_replayEvents cfg h.sub topicModel page.1) fun _ _ => .pure trivial

end

/-! ## Requests -/

/-- The parameters of the model raise no protocol errors. -/
structure RpcLib.RaisesNoProtocolError (lib : RpcLib) : Prop where
  lookupOther : ∀ v e, lib.lookupOther v = .error e → ∀ err, e ≠ .a2a err
  timedelta : ∀ f e, lib.timedelta f = .error e → ∀ err, e ≠ .a2a err

theorem settles_param (params : List (String × Json)) (key : String) : Settles PyError.NamesNone (param params key) := by
  simp only [param]
  split
  · trivial
  · exact namesNone_keyError _

theorem settles_checkLease (cfg : PublisherConfig) (leaseSeconds : Int) :
    Settles PyError.NamesNone (checkLease cfg leaseSeconds) := by
  simp only [checkLease]
  split
  · exact settles_raise (by simp)
  · split
    · exact settles_raise (by simp)
    · trivial

theorem settles_checkLeaseRaw (lib : RpcLib) (cfg : PublisherConfig) (lease : Json) :
    Settles PyError.NamesNone (checkLeaseRaw lib cfg lease) := by
  cases lease with
  | int i => exact settles_map (settles_checkLease cfg i)
  | bool b => exact settles_map (settles_checkLease cfg _)
  | float f =>
    simp only [checkLeaseRaw]
    split
    · exact settles_raise (by simp)
    · split
      · exact settles_raise (by simp)
      · trivial
  | _ => exact namesNone_typeError _

/-- A cursor as it stands in a request. -/
def cursorJson : Option String → Json
  | none => .null
  | some cursor => .str cursor

/-- The result is that subscription, or a page of its events. -/
def RpcResult.Concerns (id : String) : RpcResult → Prop
  | .subscription sub _ => sub.subscriptionId = id
  | .page subscriptionId _ _ => subscriptionId = .str id

/-- The response concerns that subscription, or is an error about no other one. -/
def RpcResponse.Concerns (id : String) : RpcResponse → Prop
  | .result value => value.Concerns id
  | .error err => (PyError.a2a err).NamesOnly id
  | .invalidParams _ => True

section

variable {lib : RpcLib} {cfg : PublisherConfig} {id : String}

theorem settles_delta (hlib : lib.RaisesNoProtocolError) {lease : Json} {delta : Except PyError Time}
    (h : checkLeaseRaw lib cfg lease = .ok delta) : Settles PyError.NamesNone delta := by
  have hok : ∀ {i : Int}, (checkLease cfg i).map (fun _ => (.ok (seconds i) : Except PyError Time)) = .ok delta →
      Settles PyError.NamesNone delta := by
    intro i hi
    cases hcheck : checkLease cfg i with
    | error e =>
      rw [hcheck] at hi
      cases hi
    | ok u =>
      rw [hcheck] at hi
      cases hi
      trivial
  cases lease with
  | int i => exact hok h
  | bool b => exact hok h
  | float f =>
    simp only [checkLeaseRaw] at h
    split at h
    · cases h
    · split at h
      · cases h
      · cases h
        cases hdelta : lib.timedelta f with
        | ok d => trivial
        | error e => exact namesNone_of_ne (hlib.timedelta f e hdelta)
  | _ => cases h

/-- With arguments of the declared types the dispatcher calls the methods of the publisher. -/
theorem dispatch_renew {params : List (String × Json)} {leaseSeconds : Int}
    (hid : param params "subscriptionId" = .ok (.str id))
    (hlease : param params "leaseSeconds" = .ok (.int leaseSeconds)) :
    dispatch lib cfg params .renew =
      renew cfg id leaseSeconds >>= fun sub => pure (.subscription sub (deliveryAuth cfg sub)) := by
  have hrenew : renew cfg id leaseSeconds = orRaise (checkLease cfg leaseSeconds) >>= fun _ =>
      getSubscription id >>= renewOn (.ok (seconds leaseSeconds)) := rfl
  have hraw : checkLeaseRaw lib cfg (.int leaseSeconds) =
      (checkLease cfg leaseSeconds).map fun _ => .ok (seconds leaseSeconds) := rfl
  simp only [dispatch, hid, hlease, hrenew, Prog.bind_assoc]
  show (orRaise (checkLeaseRaw lib cfg (.int leaseSeconds)) >>= _) = _
  rw [hraw]
  cases checkLease cfg leaseSeconds with
  | error e => rfl
  | ok u => rfl

theorem dispatch_ack {params : List (String × Json)} {cursor : String}
    (hid : param params "subscriptionId" = .ok (.str id)) (hcursor : param params "cursor" = .ok (.str cursor)) :
    dispatch lib cfg params .ack = ack id cursor >>= fun sub => pure (.subscription sub none) := by
  have hack : ack id cursor = getActiveSubscription id >>= ackOn cursor := rfl
  simp only [dispatch, hid, hcursor, hack, Prog.bind_assoc]
  rfl

theorem dispatch_replay {params : List (String × Json)} {fromCursor toCursor : Option String} {limit : Int}
    (hid : param params "subscriptionId" = .ok (.str id))
    (hfrom : paramD params "fromCursor" .null = cursorJson fromCursor)
    (hto : paramD params "toCursor" .null = cursorJson toCursor)
    (hlimit : paramD params "limit" (.int 100) = .int limit) :
    dispatch lib cfg params .replay =
      replay cfg id fromCursor toCursor limit >>= fun page => pure (.page (.str id) page.1 page.2) := by
  have hreplay : replay cfg id fromCursor toCursor limit = getActiveSubscription id >>=
      replayOnRaw lib cfg (cursorJson fromCursor) (cursorJson toCursor) (.int limit) := by
    cases fromCursor <;> cases toCursor <;> rfl
  simp only [dispatch, hid, hfrom, hto, hlimit, hreplay, Prog.bind_assoc]
  rfl

/-- A request is confined to the subscription that its parameters name. -/
theorem dispatch_confined (hlib : lib.RaisesNoProtocolError) {params : List (String × Json)}
    (hid : param params "subscriptionId" = .ok (.str id)) (route : Route) :
    (dispatch lib cfg params route).Confined (subscriptionPart id) (RpcResult.Concerns id) := by
  have hone : ∀ v, param params "subscriptionId" = .ok v → v = .str id := by
    intro v hv
    rw [hid] at hv
    exact (Except.ok.inj hv).symm
  cases route with
  | renew =>
    refine orRaise_bind_confined (settles_param params _) fun v hv => orRaise_bind_confined (settles_param params _) fun lease _ =>
      orRaise_bind_confined (settles_checkLeaseRaw lib cfg lease) fun delta hdelta => ?_
    rw [hone v hv]
    refine .bind getSubscription_confined fun h hh => ?_
    exact .bind (renewOn_confined delta (settles_delta hlib hdelta) hh) fun sub hsub => .pure hsub
  | replay =>
    refine orRaise_bind_confined (settles_param params _) fun v hv => ?_
    rw [hone v hv]
    refine .bind getActiveSubscription_confined fun h hh => ?_
    exact .bind (replayOnRaw_confined lib cfg _ _ _ h) fun page _ => .pure rfl
  | ack =>
    refine orRaise_bind_confined (settles_param params _) fun v hv => orRaise_bind_confined (settles_param params _) fun cursor _ => ?_
    rw [hone v hv]
    refine .bind getActiveSubscription_confined fun h hh => ?_
    exact .bind (ackOnRaw_confined cursor hh) fun sub hsub => .pure hsub

theorem handle_confined (hlib : lib.RaisesNoProtocolError) {params : List (String × Json)}
    (hid : param params "subscriptionId" = .ok (.str id)) (route : Route) :
    (handle lib cfg params route).Confined (subscriptionPart id) (RpcResponse.Concerns id) := by
  refine .bind (dispatch_confined hlib hid route).attempt fun outcome houtcome => ?_
  cases outcome with
  | ok value => exact .pure (houtcome.1 value rfl)
  | error e =>
    have he := houtcome.2 e rfl
    cases e with
    | a2a err => exact .pure he
    | keyError key => exact .pure trivial
    | typeError message => exact .pure trivial
    | valueError message => exact .pure trivial
    | other kind => exact .raise he

end

/-! ## Routes -/

/-- The request, run alone from the state. -/
def Responds (lib : RpcLib) (cfg : PublisherConfig) (fuel i : Nat) (route : Route) (id : String)
    (body : List (String × Json)) (w : World) (res : Except PyError RpcResponse) (w' : World) : Prop :=
  Eval (sem cfg fuel) i (fun _ _ _ => True) (httpRoute lib cfg route id body) w res w'

/-- The request reads and changes nothing but the subscription of its path, and the response concerns it. -/
structure Frames (lib : RpcLib) (cfg : PublisherConfig) (fuel i : Nat) (route : Route) (id : String)
    (body : List (String × Json)) (w : World) : Prop where
  changes : ∀ res w', Responds lib cfg fuel i route id body w res w' → LeavesOthers id w w'
  reads : ∀ v res v', KeyedAt id v → AgreesAt id v w → Responds lib cfg fuel i route id body v res v' →
    ∃ w', Responds lib cfg fuel i route id body w res w' ∧ AgreesAt id v' w'
  response : ∀ res w', Responds lib cfg fuel i route id body w (.ok res) w' → res.Concerns id

/-- The request is refused for its other parameters, before the subscription is looked up. -/
def Refuses (lib : RpcLib) (cfg : PublisherConfig) (body : List (String × Json)) : Route → Prop
  | .renew => ∀ lease, param body "leaseSeconds" = .ok lease → ∃ e, checkLeaseRaw lib cfg lease = .error e
  | .replay => False
  | .ack => ∃ e, param body "cursor" = .error e

/-- The id that is looked up: that of the body, if it has one. -/
def namedId (id : String) (body : List (String × Json)) : Json := paramD body "subscriptionId" (.str id)

/-- The body names the subscription of the path, if any, or none that can be looked up, or the request is
    refused before. -/
def NamesNoOther (lib : RpcLib) (cfg : PublisherConfig) (route : Route) (id : String) (body : List (String × Json)) :
    Prop :=
  namedId id body = .str id ∨ ((namedId id body).text? = none ∧ ∃ e, lib.lookupOther (namedId id body) = .error e) ∨
    Refuses lib cfg body route

theorem param_routeParams_id (id : String) (body : List (String × Json)) :
    param (routeParams id body) "subscriptionId" = .ok (namedId id body) := by
  simp only [param, routeParams, Json.member?, if_true]
  rfl

theorem param_routeParams {key : String} (id : String) (body : List (String × Json)) (h : key ≠ "subscriptionId") :
    param (routeParams id body) key = param body key := by
  have hfilter : ∀ members : List (String × Json),
      Json.member? key (members.filter fun m => m.1 ≠ "subscriptionId") = Json.member? key members := by
    intro members
    induction members with
    | nil => rfl
    | cons m rest ih =>
      obtain ⟨k, v⟩ := m
      by_cases hk : k = "subscriptionId"
      · have hne : k ≠ key := fun heq => h (heq.symm.trans hk)
        rw [List.filter_cons_of_neg (by simpa using hk), ih, Json.member?, if_neg hne]
      · rw [List.filter_cons_of_pos (by simpa using hk)]
        simp only [Json.member?, ih]
  simp only [param, routeParams, Json.member?, if_neg (Ne.symm h), hfilter]

/-- The lookup that a route makes. -/
def lookup (lib : RpcLib) : Route → Json → M Handle
  | .renew => getSubscriptionRaw lib
  | .replay | .ack => getActiveSubscriptionRaw lib

section

variable {lib : RpcLib} {cfg : PublisherConfig} {fuel i : Nat} {route : Route} {id : String}
  {body : List (String × Json)} {w : World}

theorem dispatch_refused (id : String) (h : Refuses lib cfg body route) :
    ∃ e : PyError, e.NamesNone ∧ dispatch lib cfg (routeParams id body) route = .raise e := by
  cases route with
  | replay => cases h
  | renew =>
    cases hlease : param body "leaseSeconds" with
    | error e =>
      refine ⟨e, (settles_param body "leaseSeconds").error hlease, ?_⟩
      simp only [dispatch, param_routeParams_id, param_routeParams id body (by decide : "leaseSeconds" ≠ "subscriptionId"),
        hlease]
      rfl
    | ok lease =>
      obtain ⟨e, he⟩ := h lease hlease
      refine ⟨e, (settles_checkLeaseRaw lib cfg lease).error he, ?_⟩
      simp only [dispatch, param_routeParams_id, param_routeParams id body (by decide : "leaseSeconds" ≠ "subscriptionId"),
        hlease]
      show (orRaise (checkLeaseRaw lib cfg lease) >>= _) = _
      rw [he]
      rfl
  | ack =>
    obtain ⟨e, hcursor⟩ := h
    refine ⟨e, (settles_param body "cursor").error hcursor, ?_⟩
    simp only [dispatch, param_routeParams_id, param_routeParams id body (by decide : "cursor" ≠ "subscriptionId"),
      hcursor]
    rfl

theorem dispatch_looksUp (id : String) (h : ¬Refuses lib cfg body route) :
    ∃ f : Handle → M RpcResult, dispatch lib cfg (routeParams id body) route = lookup lib route (namedId id body) >>= f := by
  cases route with
  | replay =>
    simp only [dispatch, param_routeParams_id]
    exact ⟨_, rfl⟩
  | renew =>
    simp only [Refuses, not_forall, not_exists] at h
    obtain ⟨lease, hlease, hno⟩ := h
    cases hdelta : checkLeaseRaw lib cfg lease with
    | error e => exact absurd hdelta (hno e)
    | ok delta =>
      simp only [dispatch, param_routeParams_id, param_routeParams id body (by decide : "leaseSeconds" ≠ "subscriptionId"),
        hlease]
      refine ⟨fun h => renewOn delta h >>= fun sub => pure (.subscription sub (deliveryAuth cfg sub)), ?_⟩
      show (orRaise (checkLeaseRaw lib cfg lease) >>= _) = _
      rw [hdelta]
      rfl
  | ack =>
    simp only [Refuses, not_exists] at h
    cases hcursor : param body "cursor" with
    | error e => exact absurd hcursor (h e)
    | ok cursor =>
      simp only [dispatch, param_routeParams_id, param_routeParams id body (by decide : "cursor" ≠ "subscriptionId"),
        hcursor]
      exact ⟨_, rfl⟩

/-- A request whose dispatch raises at once. -/
theorem responds_of_raise {e : PyError} (h : dispatch lib cfg (routeParams id body) route = .raise e) :
    httpRoute lib cfg route id body = orRaise (respond (.error e)) := by
  simp only [httpRoute, handle, h]
  rfl

/-- A request that is answered at once, by an error about no subscription, reads and changes nothing. -/
theorem frames_of_raise {e : PyError} (he : e.NamesNone)
    (h : dispatch lib cfg (routeParams id body) route = .raise e) : Frames lib cfg fuel i route id body w := by
  have hroute := responds_of_raise h
  have hend : ∀ {w res w'}, Responds lib cfg fuel i route id body w res w' ↔ res = respond (.error e) ∧ w' = w := by
    intro w res w'
    rw [Responds, hroute]
    exact Eval.lift_iff
  refine ⟨fun res w' hrun => ?_, fun v res v' _ hag hrun => ?_, fun res w' hrun => ?_⟩
  · rw [(hend.mp hrun).2]
    exact .refl id w
  · obtain ⟨hres, rfl⟩ := hend.mp hrun
    exact ⟨w, hend.mpr ⟨hres, rfl⟩, hag⟩
  · have hres := (hend.mp hrun).1
    cases e with
    | a2a err =>
      cases hres
      exact he.only id
    | other kind => cases hres
    | _ =>
      cases hres
      trivial

/-- A request that names the subscription of the path reads and changes that one. -/
theorem frames_of_same (hlib : lib.RaisesNoProtocolError) (hkey : KeyedAt id w) (hid : namedId id body = .str id) :
    Frames lib cfg fuel i route id body w := by
  have hparam : param (routeParams id body) "subscriptionId" = .ok (.str id) := by
    rw [param_routeParams_id, hid]
  have hconfined : (httpRoute lib cfg route id body).Confined (subscriptionPart id) (RpcResponse.Concerns id) :=
    handle_confined hlib hparam route
  have hkeeps : ∀ {res w'}, Responds lib cfg fuel i route id body w res w' →
      (KeyedAt id w' ∧ LeavesOthers id w w') ∧ (∀ value, res = .ok value → value.Concerns id) ∧
        ∀ e, res = .error e → PyError.NamesOnly id e := by
    intro res w' hrun
    have hstep : ∀ {s s₁ o c} {r : o.Res}, asksAt id o → KeyedAt id s ∧ LeavesOthers id w s →
        World.exec i o c s = some (r, s₁) → answersAt id o r ∧ KeyedAt id s₁ ∧ LeavesOthers id w s₁ := by
      intro s s₁ o c r ho hs hex
      obtain ⟨hr, hkey', hleaves⟩ := exec_confined ho hs.1 hex
      exact ⟨hr, hkey', hs.2.trans hleaves⟩
    exact Eval.confined_keeps (I := fun s => KeyedAt id s ∧ LeavesOthers id w s) hstep hconfined hrun
      ⟨hkey, .refl id w⟩
  refine ⟨fun res w' hrun => (hkeeps hrun).1.2, fun v res v' hkeyv hag hrun => ?_, fun res w' hrun => ?_⟩
  · have hstep : ∀ {s s₁ t o c} {r : o.Res}, asksAt id o → KeyedAt id s ∧ AgreesAt id s t →
        World.exec i o c s = some (r, s₁) →
        answersAt id o r ∧ ∃ t₁, World.exec i o c t = some (r, t₁) ∧ KeyedAt id s₁ ∧ AgreesAt id s₁ t₁ := by
      intro s s₁ t o c r ho hst hex
      obtain ⟨hr, hkey', -⟩ := exec_confined ho hst.1 hex
      obtain ⟨t₁, hex', hag'⟩ := exec_agrees ho hst.2 hex
      exact ⟨hr, t₁, hex', hkey', hag'⟩
    obtain ⟨w', hrun', -, hag'⟩ := Eval.confined_simulates (E := fun s t => KeyedAt id s ∧ AgreesAt id s t) hstep
      (fun _ _ => trivial) hconfined hrun ⟨hkeyv, hag⟩
    exact ⟨w', hrun', hag'⟩
  · exact (hkeeps hrun).2.1 res rfl

/-- A subscription that the store does not have is an error that names it. -/
theorem lookup_missing (cfg : PublisherConfig) (fuel i : Nat) {v : Json} (route : Route)
    (hfound : v.text? = none → lib.lookupOther v = .ok ())
    (hmissing : ∀ t, v = .str t → w.subs.rows.get? t = none) :
    ∃ err : A2AEventsError, ("subscriptionId", v) ∈ err.details ∧
      Eval (sem cfg fuel) i (fun _ _ _ => True) (lookup lib route v) w (.error (.a2a err)) w := by
  cases hv : v.text? with
  | some t =>
    obtain rfl : v = .str t := by
      cases v with
      | str s => exact congrArg Json.str (Option.some.inj hv)
      | _ => cases hv
    let err : A2AEventsError :=
      { code := .subscriptionNotFound, message := "Subscription " ++ t ++ " not found."
        details := [("subscriptionId", .str t)] }
    have hget : Eval (sem cfg fuel) i (fun _ _ _ => True) (getSubscription t) w (.error (.a2a err)) w := by
      have hex : World.exec i (.get t) {} w = some (none, w) := by
        simp only [World.exec, SubscriptionStore.get, hmissing t rfl, Option.map_none]
      have hraise : Eval (sem cfg fuel) i (fun _ _ _ => True) (orRaise (subscriptionNotFound t) : M Handle) w
          (.error (.a2a err)) w := Eval.lift_iff.mpr ⟨rfl, rfl⟩
      exact .op ({} : Choice) trivial hex hraise
    refine ⟨err, List.mem_cons_self, ?_⟩
    cases route with
    | renew => exact hget
    | replay => exact hget.bind_error _
    | ack => exact hget.bind_error _
  | none =>
    have hraise : getOther lib v = raiseA2A .subscriptionNotFound ("Subscription " ++ lib.str v ++ " not found.")
        [("subscriptionId", v)] := by
      simp only [getOther, hfound hv]
      rfl
    have hlookup : lookup lib route v = orRaise (getOther lib v) := by
      cases v with
      | str s => cases hv
      | _ => cases route <;> rfl
    rw [hlookup, hraise]
    exact ⟨_, List.mem_cons_self, Eval.lift_iff.mpr ⟨rfl, rfl⟩⟩

/-- An error of the lookup is the response. -/
theorem responds_of_lookup {err : A2AEventsError} (h : ¬Refuses lib cfg body route)
    (hlookup : Eval (sem cfg fuel) i (fun _ _ _ => True) (lookup lib route (namedId id body)) w (.error (.a2a err)) w) :
    Responds lib cfg fuel i route id body w (.ok (.error err)) w := by
  obtain ⟨f, hf⟩ := dispatch_looksUp id h
  rw [Responds, httpRoute, handle, hf]
  exact Eval.bind (Eval.attempt_iff.mpr ⟨_, rfl, hlookup.bind_error f⟩) (Eval.lift_iff.mpr ⟨rfl, rfl⟩)

/-- There is a state that differs in other subscriptions only and does not have the one that is named. -/
theorem exists_without (hkey : KeyedAt id w) {v : Json} (hne : v ≠ .str id) :
    ∃ w', KeyedAt id w' ∧ AgreesAt id w' w ∧ ∀ t, v = .str t → w'.subs.rows.get? t = none := by
  cases hv : v.text? with
  | none =>
    refine ⟨w, hkey, ⟨rfl, rfl, rfl, rfl, .refl id w⟩, fun t ht => ?_⟩
    rw [ht] at hv
    cases hv
  | some t =>
    have ht : id ≠ t := by
      rintro rfl
      cases v with
      | str s => exact hne (congrArg Json.str (Option.some.inj hv))
      | _ => cases hv
    have hrow : (w.subs.rows.erase t).get? id = w.subs.rows.get? id := by
      rw [Dict.get?_erase, if_neg ht]
    refine ⟨w.withRows (w.subs.rows.erase t), fun row h => hkey row (hrow.symm.trans h),
      ⟨rfl, rfl, rfl, rfl, hrow, rfl, fun _ => rfl, rfl, rfl⟩, fun s hs => ?_⟩
    rw [hs] at hv
    rw [World.withRows_rows, Dict.get?_erase, if_pos (Option.some.inj hv)]

/-- A route that is confined to the subscription of its path looks up no other. -/
theorem namesNoOther_of_frames (hkey : KeyedAt id w) (h : Frames lib cfg fuel i route id body w) :
    NamesNoOther lib cfg route id body := by
  by_contra hno
  simp only [NamesNoOther, not_or] at hno
  obtain ⟨hne, hraises, hrefuses⟩ := hno
  have hfound : (namedId id body).text? = none → lib.lookupOther (namedId id body) = .ok () := by
    intro hv
    cases hlookup : lib.lookupOther (namedId id body) with
    | ok u => rfl
    | error e => exact absurd ⟨hv, e, hlookup⟩ hraises
  -- without the subscription that is named the response is an error about it, so it is one here
  obtain ⟨v, hkeyv, hag, hmissing⟩ := exists_without hkey hne
  obtain ⟨err, herr, hlookup⟩ := lookup_missing cfg fuel i route hfound hmissing
  obtain ⟨w', hrun, -⟩ := h.reads v _ _ hkeyv hag (responds_of_lookup hrefuses hlookup)
  exact hne (h.response _ _ hrun err rfl _ herr)

/-- A lookup that raises ends the request, which then says nothing of a subscription. -/
theorem frames_of_other (hlib : lib.RaisesNoProtocolError) (hother : (namedId id body).text? = none) {e : PyError}
    (he : lib.lookupOther (namedId id body) = .error e) : Frames lib cfg fuel i route id body w := by
  by_cases hrefuses : Refuses lib cfg body route
  · obtain ⟨e', he', hdispatch⟩ := dispatch_refused id hrefuses
    exact frames_of_raise he' hdispatch
  · obtain ⟨f, hf⟩ := dispatch_looksUp id hrefuses
    have hraise : lookup lib route (namedId id body) = .raise e := by
      have hget : getOther lib (namedId id body) = .error e := by
        simp only [getOther, he]
        rfl
      cases hv : namedId id body with
      | str s =>
        rw [hv] at hother
        cases hother
      | _ =>
        rw [hv] at hget
        cases route <;> exact congrArg orRaise hget
    refine frames_of_raise (namesNone_of_ne (hlib.lookupOther _ e he)) ?_
    rw [hf, hraise]
    rfl

/-- A route reads and changes only the subscription of its path if and only if the body has it, or no
    subscription id, or one that cannot be looked up, or the request is refused for its other members. -/
theorem httpRoute_frames_iff (hlib : lib.RaisesNoProtocolError) (hkey : w.Keyed) :
    Frames lib cfg fuel i route id body w ↔ NamesNoOther lib cfg route id body := by
  constructor
  · exact namesNoOther_of_frames (hkey id)
  · rintro (hid | ⟨hother, e, he⟩ | hrefuses)
    · exact frames_of_same hlib (hkey id) hid
    · exact frames_of_other hlib hother he
    · obtain ⟨e, he, hdispatch⟩ := dispatch_refused id hrefuses
      exact frames_of_raise he hdispatch

end

namespace Sample

/-- Texts, whole numbers and the values of `hash`. -/
def plainRpc : RpcLib where
  str v := v.text?.getD "None"
  lookupOther := Json.hash
  floatLt f n := f.toInt?.any fun k => k < n
  floatGt f n := f.toInt?.any fun k => n < k
  timedelta f := match f.toInt? with
    | some k => .ok (seconds k)
    | none => .error (.valueError "cannot convert float NaN to integer")
  floatLimit f := f.toInt?.getD 0

theorem plainRpc_raises : plainRpc.RaisesNoProtocolError := by
  refine ⟨fun v e h err => ?_, fun f e h err => ?_⟩
  · cases v <;> cases h <;> simp
  · simp only [plainRpc] at h
    split at h <;> cases h
    simp

/-- A row of one of two subscribers. -/
def twin (subscriptionId : String) : Subscription :=
  { subscriptionId := subscriptionId, status := .active, subscriberCardUrl := "https://sub.example/card"
    topics := ["t"], selector := none
    delivery := { mode := .webhook, resolvedUrl := some "https://sub.example/events" }
    createdAt := 0, leaseUntil := 86400000000, cursors := ∅ }

def twins : World :=
  { subs := { rows := ((∅ : Dict String Subscription).set "sub_0" (twin "sub_0")).set "sub_1" (twin "sub_1") } }

theorem twins_keyed : twins.Keyed := by
  intro id row h
  simp only [twins, Dict.get?_set] at h
  split at h
  · rename_i hid
    rw [hid, ← Option.some.inj h]
    rfl
  · split at h
    · rename_i hid
      rw [hid, ← Option.some.inj h]
      rfl
    · cases h

/-- A renewal whose body names the other subscription. -/
def renewOther : List (String × Json) := [("subscriptionId", .str "sub_1"), ("leaseSeconds", .int 3600)]

/-- The response is the other subscription. -/
def renewed : Except PyError RpcResponse → Bool
  | .ok (.result (.subscription sub _)) => sub.subscriptionId = "sub_1"
  | _ => false

theorem of_renewed {res : Except PyError RpcResponse} (h : renewed res = true) :
    ∃ value, res = .ok value ∧ ¬ value.Concerns "sub_0" := by
  unfold renewed at h
  split at h
  · rename_i sub auth
    refine ⟨_, rfl, fun hid => ?_⟩
    exact absurd ((of_decide_eq_true h).symm.trans hid) (by decide)
  · cases h

end Sample

/-- A body without a subscription id. -/
theorem httpRoute_frames_sample :
    Frames Sample.plainRpc Sample.config 5 0 .renew "sub_0" [("leaseSeconds", .int 3600)] Sample.twins :=
  (httpRoute_frames_iff Sample.plainRpc_raises Sample.twins_keyed).mpr (.inl rfl)

/-- A renewal through the path of one subscription sets the lease of the other one, and responds with it. -/
theorem renew_changes_other : ∃ res w', Responds Sample.plainRpc Sample.config 5 0 .renew "sub_0" Sample.renewOther
    Sample.twins (.ok res) w' ∧ ¬ LeavesOthers "sub_0" Sample.twins w' ∧ ¬ res.Concerns "sub_0" := by
  have hrun : (Eval.run? (sem Sample.config 5) 0 {}
      (httpRoute Sample.plainRpc Sample.config .renew "sub_0" Sample.renewOther) Sample.twins).any
      (fun p => Sample.renewed p.1 && (p.2.subs.rows.get? "sub_1").map Subscription.leaseUntil = some 3600000000) =
      true := by
    decide +kernel
  obtain ⟨⟨answer, w'⟩, hanswer, hp⟩ := (Option.any_eq_true _ _).mp hrun
  rw [Bool.and_eq_true] at hp
  obtain ⟨res, rfl, hres⟩ := Sample.of_renewed hp.1
  refine ⟨res, w', (Eval.of_run? hanswer).weaken fun _ => trivial, fun h => ?_, hres⟩
  have hlease := congrArg (Option.map Subscription.leaseUntil) (h "sub_1" (by decide)).row
  rw [of_decide_eq_true hp.2] at hlease
  exact absurd hlease (by decide)

end A2AEvents

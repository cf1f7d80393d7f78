import A2AEvents.ForStd.Protocol
import A2AEvents.Native.Publisher

/-!
# Programs that add no subscription and revive none

Most of what the publisher does leaves the status of its subscriptions alone. The exceptions are few:
leases expire where a subscription is looked up, renewals make one active, and `subscribe` adds one.
What is left, program by program, is here; the others are put together from it.

## Key results

- `Neutral.catchUpAll`, `Neutral.retryDelivery`: deliveries leave the status alone
- `Neutral.delete`: a deletion gives no other status than its own
-/

namespace A2AEvents

open Async Publisher

/-- The assignment leaves a deleted subscription deleted. -/
def Edit.LeavesDeleted : Edit → Prop
  | .status st => st = .deleted
  | _ => True

/-- Calls that neither add a subscription nor give one a status, unless they delete it. -/
def neutralProtocol : Protocol sig where
  asks := fun o => match o with
    | .add .. => False
    | .assign _ e => e.LeavesDeleted
    | _ => True
  answers := fun _ _ => True
  jobs := fun _ => True

/-- The program adds no subscription and gives none a status, unless it deletes it. -/
abbrev Neutral {α : Type} (p : M α) : Prop := p.Upholds neutralProtocol fun _ => True

namespace Neutral

variable {α β : Type} {cfg : PublisherConfig}

theorem pure (a : α) : Neutral (.pure a) := Prog.Upholds.pure trivial

theorem bind {p : M α} {f : α → M β} (hp : Neutral p) (hf : ∀ a, Neutral (f a)) : Neutral (p >>= f) :=
  Prog.Upholds.bind hp fun a _ => hf a

theorem call {o : Op} (ho : neutralProtocol.asks o) : Neutral (perform o) :=
  Prog.Upholds.call ho fun _ _ => trivial

theorem next {o : Op} {f : o.Res → M α} (ho : neutralProtocol.asks o) (hf : ∀ r, Neutral (f r)) : Neutral (perform o >>= f) :=
  Prog.Upholds.call_bind ho fun r _ => hf r

theorem raises (x : Except PyError α) : Neutral (orRaise x) := Prog.Upholds.lift fun _ _ => trivial

theorem attempt {p : M α} (hp : Neutral p) : Neutral p.attempt := (Prog.Upholds.attempt hp).weaken fun _ _ => trivial

theorem getTopic (name : String) : Neutral (getTopic name) := by
  refine .next trivial fun r => ?_
  cases r with
  | some topic => exact .pure topic
  | none => exact .next trivial fun r => .bind (.raises r) fun topic => .next trivial fun _ => .pure topic

theorem recordAt (topic cursor : String) : Neutral (recordAt topic cursor) := by
  refine .bind (.raises _) fun offset => .bind (.raises _) fun from_ => .next trivial fun page => ?_
  split
  · exact .raises _
  · split
    · exact .pure none
    · refine .next trivial fun page => ?_
      split
      · exact .raises _
      · exact .pure none
      · exact .raises _
  · exact .raises _

theorem headOffset (topic : String) : Neutral (headOffset topic) := by
  refine .next trivial fun n => ?_
  split
  · exact .pure _
  · exact .next trivial fun r => .bind (.raises r) fun _ => .bind (.raises _) fun _ => .pure _

theorem startOffset (topic fromCursor : String) : Neutral (startOffset topic fromCursor) := by
  unfold Publisher.startOffset
  split
  · exact .pure _
  split
  · exact .headOffset topic
  refine .bind (.raises _) fun cursorTopic => ?_
  split
  · exact .next trivial fun page => .bind (.raises page) fun _ => .bind (.raises _) fun _ => .pure _
  · exact .headOffset topic

theorem startOffsets (fromCursor : String) (topics : List Topic) :
    ∀ acc, Neutral (startOffsets fromCursor acc topics) := by
  induction topics with
  | nil => exact fun acc => .pure acc
  | cons topic rest ih => exact fun acc => .bind (.startOffset _ _) fun _ => ih _

theorem getTopics (names : List String) : Neutral (getTopics names) := by
  induction names with
  | nil => exact .pure []
  | cons name rest ih => exact .bind (.getTopic name) fun _ => .bind ih fun _ => .pure _

theorem attemptSend (h : Handle) (record : EventRecord) (n : Nat) : Neutral (attemptSend cfg h record n) :=
  .bind (.getTopic _) fun _ => .bind (.raises _) fun _ => .next trivial fun _ => .next trivial fun r => .raises r

theorem recordAttempt (h : Handle) (record : EventRecord) (n : Nat) (status : AttemptStatus) (result : DeliveryResult) :
    Neutral (recordAttempt h record n status result) :=
  .next trivial fun _ => .call trivial

theorem raiseHighWater (id topic : String) (offset : Int) : Neutral (raiseHighWater id topic offset) := by
  refine .next trivial fun d => ?_
  split
  · exact .call trivial
  · exact .pure ()

theorem advance (h : Handle) (topic cursor : String) (eventId : Option String) :
    Neutral (advance h topic cursor eventId) := by
  have hcursor : Neutral (advanceCursor h topic cursor) := by
    refine .next trivial fun h' => ?_
    split
    · exact .next trivial fun _ => .call trivial
    · exact .pure h'
  refine .bind hcursor fun h' => .bind (.raises _) fun offset => .bind (.raiseHighWater _ _ _) fun _ =>
    .bind ?_ fun eventId => .bind ?_ fun _ => .pure h'
  · cases eventId with
    | some e => exact .pure _
    | none => exact .bind (.recordAt _ _) fun _ => .pure _
  · cases eventId with
    | some e => exact .call trivial
    | none => exact .pure ()

theorem onDelivered (h : Handle) (record : EventRecord) (n : Nat) (result : DeliveryResult) :
    Neutral (onDelivered h record n result) :=
  .bind (.recordAttempt _ _ _ _ _) fun _ => .advance _ _ _ _

theorem onTerminal (h : Handle) (record : EventRecord) (n : Nat) (result : DeliveryResult) :
    Neutral (onTerminal h record n result) :=
  .bind (.recordAttempt _ _ _ _ _) fun _ => .bind (.raises _) fun _ => .call trivial

theorem deliverQueued (h : Handle) (record : EventRecord) : Neutral (deliverQueued cfg h record) := by
  refine .bind (.attemptSend _ _ _) fun result => ?_
  split
  · exact .onDelivered _ _ _ _
  split
  · exact .bind (.onTerminal _ _ _ _) fun _ => .pure h
  · exact .bind (.recordAttempt _ _ _ _ _) fun _ => .next trivial fun _ => .next trivial fun _ =>
      .bind (.raises _) fun _ => .next trivial fun _ => .bind (.raises _) fun _ => .next trivial fun _ => .pure h

theorem deliverInline (h : Handle) (record : EventRecord) (remaining : Nat) :
    ∀ n, Neutral (deliverInline cfg h record n remaining) := by
  induction remaining with
  | zero => exact fun _ => .pure h
  | succ remaining ih =>
    intro n
    refine .bind (.attemptSend _ _ _) fun result => ?_
    split
    · exact .onDelivered _ _ _ _
    split
    · exact .bind (.onTerminal _ _ _ _) fun _ => .pure h
    · exact .bind (.recordAttempt _ _ _ _ _) fun _ => .bind (.raises _) fun _ => .next trivial fun _ => ih _

theorem deliverOne (h : Handle) (record : EventRecord) : Neutral (deliverOne cfg h record) := by
  unfold Publisher.deliverOne
  split
  · exact .deliverQueued h record
  · exact .deliverInline h record _ _

theorem scanPage (topicModel : Topic) (records : List EventRecord) :
    ∀ scan processed h, Neutral (scanPage cfg topicModel scan processed h records) := by
  induction records with
  | nil => exact fun _ _ _ => .pure _
  | cons record rest ih =>
    intro scan processed h
    refine .bind (.raises _) fun offset => ?_
    split
    · exact ih _ _ _
    · refine .bind (.raises _) fun matched => .bind ?_ fun h' => ih _ _ _
      split
      · exact .deliverOne h record
      · exact .pure h

theorem catchUp (fuel : Nat) (h : Handle) (topic : String) : Neutral (catchUp cfg fuel h topic) := by
  have hpage : ∀ from_, Neutral (readPage cfg topic from_) := by
    intro from_
    refine .next trivial fun page => ?_
    split
    · exact .pure _
    · split
      · exact .next trivial fun page => .bind (.raises page) fun _ => .pure _
      · exact .raises _
  refine .bind (.getTopic topic) fun topicModel => ?_
  suffices hpages : ∀ fuel processed h, Neutral (catchUpPages cfg topicModel topic processed h fuel) from hpages _ _ _
  intro fuel
  induction fuel with
  | zero => exact fun _ _ => Prog.Upholds.diverge
  | succ fuel ih =>
    intro processed h
    refine .next trivial fun d => .bind (.raises _) fun from_ => .bind (hpage from_) fun records => ?_
    split
    · exact .pure _
    · exact .bind (.scanPage _ _ _ _ _) fun _ => .bind (.raiseHighWater _ _ _) fun _ => ih _ _

theorem catchUpAll (fuel : Nat) (topics : List String) : ∀ processed h, Neutral (catchUpAll cfg fuel processed h topics) := by
  induction topics with
  | nil => exact fun processed _ => .pure processed
  | cons topic rest ih => exact fun _ _ => .bind (.catchUp _ _ _) fun _ => ih _ _

theorem gatherDispatch (hs : List Handle) (topics : Option (List String)) : Neutral (gatherDispatch hs topics) :=
  Prog.Upholds.fork (fun _ _ => trivial) fun _ => .join fun r => Neutral.raises r

theorem publish (topic type : String) (data : List (String × Json)) (subject : Option String) :
    Neutral (publish cfg topic type data subject) := by
  refine .next trivial fun r => .bind (.raises r) fun record => .bind ?_ fun _ => .pure record
  split
  · exact .next trivial fun hs => .bind (.gatherDispatch _ _) fun _ => .pure ()
  · exact .pure ()

theorem dispatchPending : Neutral dispatchPending :=
  .next trivial fun _ => .bind (.gatherDispatch _ _) fun _ => .pure _

theorem delete (id : String) : Neutral (delete id) := by
  refine .next trivial fun found => ?_
  cases found with
  | none => exact .pure none
  | some h => exact .next rfl fun _ => .next trivial fun _ => .pure _

theorem retryDelivery (item : RetryItem) : Neutral (retryDelivery cfg item) := by
  refine .next trivial fun found => ?_
  cases found with
  | none => exact .call trivial
  | some h =>
    show Neutral (if h.sub.status ≠ .active then _ else _)
    split
    · exact .call trivial
    refine .bind (.recordAt _ _) fun found => ?_
    cases found with
    | none => exact .call trivial
    | some record =>
      refine .bind (.attemptSend _ _ _) fun result => ?_
      split
      · exact .bind (.onDelivered _ _ _ _) fun _ => .call trivial
      split
      · exact .bind (.onTerminal _ _ _ _) fun _ => .call trivial
      · exact .bind (.recordAttempt _ _ _ _ _) fun _ => .next trivial fun _ => .bind (.raises _) fun _ => .call trivial

theorem runOnce (now : Time) (batch lease : Int) : Neutral (runOnce cfg now batch lease) := by
  have hall : ∀ items, Neutral (retryAll cfg items) := by
    intro items
    induction items with
    | nil => exact .pure ()
    | cons item rest ih => exact .bind (.retryDelivery item) fun _ => ih
  exact .next trivial fun items => .bind (hall items) fun _ => .pure _

end Neutral

end A2AEvents

import A2AEvents.Spec.PostgresQueueCorrect

/-!
# Claims of retries

A claim scans, locks what it can and leases it in one call, and what it returns is what it leased. While a lease
runs nobody else gets the retry, unless it was rescheduled or completed: the times at which others look need not
agree, it is the due time in the table that keeps them away.

## Key results

- `Leased.apply`: a lease holds until the retry is released
- `claims_exclusive`: two claims that return the same retry are a lease apart
- `claims_earliest`: a claim passes over a row only if it is locked or has changed
-/

namespace A2AEvents

namespace QueueSession

open Async Transactions

/-! ## Leases in the table -/

/-- The retry is there and not due before the deadline. -/
def Leased (table : RetryTable) (id : String) (deadline : Time) : Prop :=
  ∃ row, table.rows.get? id = some row ∧ deadline ≤ row.item.nextRetryAt

/-- The call takes the retry from whoever holds it. -/
def RowCall.Releases (id : String) : RowCall → Prop
  | .complete retryId => retryId = id
  | .reschedule retryId .. => retryId = id
  | _ => False

section Leases

variable {table : RetryTable} {id : String} {deadline : Time}

theorem keyed_apply (h : table.Keyed) (call : RowCall) : (call.apply table).Keyed := by
  cases call with
  | enqueue item => exact h.insert item
  | lease now leases => exact keyed_leases h leases
  | complete retryId => exact h.delete retryId
  | reschedule retryId nextRetryAt attempt lastError => exact h.modify retryId fun _ => rfl

theorem keyed_tableAfter (calls : List RowCall) : (tableAfter calls).Keyed := by
  induction calls using List.reverseRecOn with
  | nil => exact RetryTable.keyed_empty
  | append_singleton calls call ih =>
    rw [tableAfter, List.foldl_append]
    exact keyed_apply ih call

/-- Leases that end later. -/
theorem Leased.leases (h : Leased table id deadline) {leases : List Lease}
    (hlater : ∀ lease ∈ leases, lease.retryId = id → deadline ≤ lease.deadline) :
    Leased (leases.foldl Lease.apply table) id deadline := by
  induction leases generalizing table with
  | nil => exact h
  | cons lease rest ih =>
    apply ih _ fun lease' hlease' => hlater lease' (.tail _ hlease')
    obtain ⟨row, hrow, hdue⟩ := h
    rw [Leased, Lease.apply, RetryTable.get?_modify]
    by_cases hid : id = lease.retryId
    · rw [if_pos hid, hrow]
      exact ⟨_, rfl, hlater lease (.head _) hid.symm⟩
    · rw [if_neg hid]
      exact ⟨row, hrow, hdue⟩

/-- A lease holds until the retry is released. -/
theorem Leased.apply (h : Leased table id deadline) {call : RowCall} (hkept : ¬ call.Releases id)
    (hlater : ∀ now leases, call = .lease now leases → ∀ lease ∈ leases, lease.retryId = id → deadline ≤ lease.deadline) :
    Leased (call.apply table) id deadline := by
  obtain ⟨row, hrow, hdue⟩ := h
  cases call with
  | enqueue item =>
    -- the retry is there already
    refine ⟨row, ?_, hdue⟩
    rw [RowCall.apply, RetryTable.get?_insert, hrow]
    simp
  | lease now leases => exact Leased.leases ⟨row, hrow, hdue⟩ (hlater now leases rfl)
  | complete retryId =>
    refine ⟨row, ?_, hdue⟩
    rw [RowCall.apply, RetryTable.get?_delete, if_neg (Ne.symm hkept), hrow]
  | reschedule retryId nextRetryAt attempt lastError =>
    refine ⟨row, ?_, hdue⟩
    rw [RowCall.apply, RetryTable.get?_modify, if_neg (Ne.symm hkept), hrow]

/-- What has just been leased. -/
theorem leased_of_mem {leases : List Lease} (hids : (leases.map Lease.retryId).Nodup) {lease : Lease} (hlease : lease ∈ leases)
    {row : RetryRow} (hrow : table.rows.get? lease.retryId = some row) :
    Leased (leases.foldl Lease.apply table) lease.retryId lease.deadline := by
  induction leases generalizing table row with
  | nil => cases hlease
  | cons first rest ih =>
    rw [List.map_cons, List.nodup_cons] at hids
    rw [List.foldl_cons]
    rcases List.mem_cons.mp hlease with rfl | hrest
    · -- the others do not change it
      have hother : ∀ lease' ∈ rest, lease'.retryId = lease.retryId → lease.deadline ≤ lease'.deadline :=
        fun lease' hlease' heq => absurd (heq ▸ List.mem_map_of_mem hlease') hids.1
      apply Leased.leases _ hother
      rw [Leased, Lease.apply, RetryTable.get?_modify, if_pos rfl, hrow]
      exact ⟨_, rfl, le_refl _⟩
    · have hne : lease.retryId ≠ first.retryId := fun heq => hids.1 (heq ▸ List.mem_map_of_mem hrest)
      have hsame : (Lease.apply table first).rows.get? lease.retryId = some row := by
        rw [Lease.apply, RetryTable.get?_modify, if_neg hne, hrow]
      exact ih hids.2 hrest hsame

end Leases

/-! ## Two claims -/

/-- The sessions claim for some time at least. -/
def Patient (c : Config sem.traced) : Prop :=
  ∀ (i : Nat) t now limit leaseSeconds, c.tasks[i]? = some t → t.job = .claimDue now limit leaseSeconds → 0 ≤ leaseSeconds

namespace Told

variable {c : Config sem.traced} {ds : List (Deed sem)} {i : Nat}

/-- What a claim leases was due when it did, by the time of the claim. -/
theorem leases_due (h : Told c ds) {before after : List Entry} {e : Entry} (htrace : c.state.trace = before ++ e :: after)
    {now : Time} {leases : List Lease} (hcall : e.call? = some (.lease now leases)) :
    ∀ lease ∈ leases, ∃ row, (tableAfter (calls before)).rows.get? lease.retryId = some row ∧ row.item.nextRetryAt ≤ now := by
  have hmem : e ∈ c.state.trace := by
    rw [htrace]
    exact List.mem_append_right _ (.head _)
  have hfound : e.before.committed = tableAfter (calls before) := h.inv.explained.found before e after htrace
  have hknown := h.inv.known e hmem
  obtain ⟨i, o, r, db⟩ := e
  cases r with
  | error err =>
    rw [call?_error] at hcall
    cases hcall
  | ok a =>
    cases o with
    | commit =>
      obtain ⟨t, hclaims⟩ := hknown
      obtain ⟨deadline, items, -, -, hwrites⟩ := hclaims.answered
      rw [Entry.call?, hclaims.txn] at hcall
      cases hcall
      intro lease hlease
      rw [hwrites] at hlease
      obtain ⟨id, hid, rfl⟩ := List.mem_map.mp hlease
      rw [← hfound]
      exact hclaims.tidy.held i t hclaims.txn id hid
    | _ => cases hcall

/-- No lease is shortened by another claim. -/
theorem leases_later (h : Told c ds) (hpatient : Patient c) {before after : List Entry} {e : Entry}
    (htrace : c.state.trace = before ++ e :: after) {now : Time} {leases : List Lease}
    (hcall : e.call? = some (.lease now leases)) {id : String} {deadline : Time}
    (hleased : Leased (tableAfter (calls before)) id deadline) :
    ∀ lease ∈ leases, lease.retryId = id → deadline ≤ lease.deadline := by
  intro lease hlease hid
  obtain ⟨row, hrow, hdue⟩ := h.leases_due htrace hcall lease hlease
  obtain ⟨row', hrow', hlater⟩ := hleased
  rw [hid, hrow'] at hrow
  cases hrow
  have hmem : e ∈ c.state.trace := by
    rw [htrace]
    exact List.mem_append_right _ (.head _)
  obtain ⟨t, ht, hmakes⟩ := h.made hmem hcall
  obtain ⟨job, prog⟩ := t
  cases job with
  | claimDue now' limit leaseSeconds =>
    obtain ⟨rfl, hdeadline⟩ := hmakes
    have hlong := hpatient e.task _ now limit leaseSeconds ht rfl
    have hseconds : 0 ≤ seconds leaseSeconds := Int.mul_nonneg hlong (by decide)
    calc deadline ≤ row.item.nextRetryAt := hlater
      _ ≤ now := hdue
      _ ≤ now + seconds leaseSeconds := le_add_of_nonneg_right hseconds
      _ = lease.deadline := (hdeadline lease hlease).symm
  | _ => exact False.elim hmakes

/-- A lease holds as long as nobody releases the retry. -/
theorem leased_through (h : Told c ds) (hpatient : Patient c) {before : List Entry} {id : String} {deadline : Time}
    (hleased : Leased (tableAfter (calls before)) id deadline) (mid : List Entry) :
    ∀ after, c.state.trace = before ++ (mid ++ after) → (∀ call ∈ calls mid, ¬ call.Releases id) →
      Leased (tableAfter (calls (before ++ mid))) id deadline := by
  induction mid using List.reverseRecOn with
  | nil =>
    intro after _ _
    rw [List.append_nil]
    exact hleased
  | append_singleton mid e ih =>
    intro after htrace hkept
    have htrace' : c.state.trace = (before ++ mid) ++ e :: after := by
      rw [htrace]
      simp
    have hbefore := ih (e :: after) (by rw [htrace', List.append_assoc]) fun call hcall =>
      hkept call (by rw [calls, List.filterMap_append]; exact List.mem_append_left _ hcall)
    rw [← List.append_assoc, calls, List.filterMap_append, ← calls, tableAfter, List.foldl_append, ← tableAfter]
    cases hcall : e.call? with
    | none => simpa [hcall] using hbefore
    | some call =>
      rw [List.filterMap_cons_some hcall, List.filterMap_nil, List.foldl_cons, List.foldl_nil]
      refine hbefore.apply (hkept call ?_) fun now leases heq => ?_
      · rw [calls, List.filterMap_append, List.filterMap_cons_some hcall]
        exact List.mem_append_right _ (.head _)
      · exact h.leases_later hpatient htrace' (heq ▸ hcall) hbefore

end Told

/-- Session `i'` found the retry after session `i` had it leased: when the lease was over, or the retry had been
    released. -/
def Succeeds (trace : List Entry) (id : String) (i : Nat) (deadline : Time) (i' : Nat) (now : Time) : Prop :=
  ∃ before e mid e' after, trace = before ++ e :: (mid ++ e' :: after) ∧
    e.task = i ∧ (Entry.call? e).isSome = true ∧ e'.task = i' ∧ (Entry.call? e').isSome = true ∧
      (deadline ≤ now ∨ ∃ call ∈ calls mid, call.Releases id)

namespace Told

variable {c : Config sem.traced} {ds : List (Deed sem)} {i i' : Nat} {id : String}

/-- Of two leases of a retry the second one began after the first one had ended, or somebody released the retry. -/
theorem succeeds (h : Told c ds) (hpatient : Patient c) {before mid after : List Entry} {e e' : Entry}
    (htrace : c.state.trace = before ++ e :: (mid ++ e' :: after)) {now now' : Time} {leases leases' : List Lease}
    (hcall : e.call? = some (.lease now leases)) (hcall' : e'.call? = some (.lease now' leases'))
    (hids : (leases.map Lease.retryId).Nodup) {lease lease' : Lease} (hlease : lease ∈ leases) (hlease' : lease' ∈ leases')
    (hid : lease'.retryId = lease.retryId) :
    lease.deadline ≤ now' ∨ ∃ call ∈ calls mid, call.Releases lease.retryId := by
  by_cases hreleased : ∃ call ∈ calls mid, call.Releases lease.retryId
  · exact .inr hreleased
  · left
    obtain ⟨row, hrow, -⟩ := h.leases_due htrace hcall lease hlease
    -- from the first lease on
    have hfirst : Leased (tableAfter (calls (before ++ [e]))) lease.retryId lease.deadline := by
      rw [calls, List.filterMap_append, List.filterMap_cons_some hcall, List.filterMap_nil, ← calls, tableAfter,
        List.foldl_append, ← tableAfter]
      exact leased_of_mem hids hlease hrow
    have htrace' : c.state.trace = (before ++ [e]) ++ (mid ++ e' :: after) := by
      rw [htrace]
      simp
    obtain ⟨row', hrow', hlater⟩ := h.leased_through hpatient hfirst mid (e' :: after) htrace' fun call hmem hcall =>
      hreleased ⟨call, hmem, hcall⟩
    -- up to the second one
    rw [← List.append_assoc] at htrace'
    obtain ⟨row'', hrow'', hdue⟩ := h.leases_due htrace' hcall' lease' hlease'
    rw [hid, hrow'] at hrow''
    cases hrow''
    exact hlater.trans hdue

end Told

/-- A claim leased each retry that it returned. -/
theorem Grants.lease {now : Time} {limit leaseSeconds : Int} {items : List RetryItem} {table : RetryTable} {call : RowCall}
    (h : Grants now limit leaseSeconds items table call) (hkeyed : table.Keyed) :
    ∃ leases, call = .lease now leases ∧ (leases.map Lease.retryId).Nodup ∧
      ∀ item ∈ items, ⟨item.retryId, now + seconds leaseSeconds⟩ ∈ leases := by
  obtain ⟨ids, rfl, hnodup, -, -, hitems⟩ := h
  refine ⟨_, rfl, ?_, fun item hitem => ?_⟩
  · rw [List.map_map]
    exact (List.map_id ids).symm ▸ hnodup
  · obtain ⟨id, hid, hleased⟩ := List.mem_filterMap.mp (hitems.mem_iff.mp hitem)
    obtain ⟨row, hrow, rfl⟩ := Option.map_eq_some_iff.mp hleased
    refine List.mem_map.mpr ⟨id, hid, ?_⟩
    rw [← hkeyed id row hrow]

/-- Claims that have returned hold what they returned, one at a time. -/
structure Leasing (c : Config sem.traced) : Prop where
  granted : ∀ (i : Nat) now limit leaseSeconds items,
    c.tasks[i]? = some ⟨.claimDue now limit leaseSeconds, .pure (.items items)⟩ →
      ∃ before call, Grants now limit leaseSeconds items (tableAfter (calls before)) call ∧
        linearization.MadeOnce c.state.trace before i call
  exclusive : ∀ (i i' : Nat) now now' limit limit' leaseSeconds leaseSeconds' items items' item item', i ≠ i' →
    c.tasks[i]? = some ⟨.claimDue now limit leaseSeconds, .pure (.items items)⟩ →
    c.tasks[i']? = some ⟨.claimDue now' limit' leaseSeconds', .pure (.items items')⟩ →
    item ∈ items → item' ∈ items' → item'.retryId = item.retryId →
      Succeeds c.state.trace item.retryId i (now + seconds leaseSeconds) i' now' ∨
        Succeeds c.state.trace item.retryId i' (now' + seconds leaseSeconds') i now

/-- However the statements of the sessions interleave and whatever fails, a claim that returned has leased in one call
    exactly the rows that it returned, which were due. Two claims that return the same retry are a lease apart, by the
    times at which they looked, unless somebody rescheduled or completed it in between. -/
theorem claims_exclusive {c : Config sem.traced} (hrun : AnyRun initial c) (hpatient : Patient c) : Leasing c := by
  obtain ⟨ds, h⟩ := told_run hrun
  refine ⟨fun i now limit leaseSeconds items ht => h.returned_claim ht, ?_⟩
  intro i i' now now' limit limit' leaseSeconds leaseSeconds' items items' item item' hne ht ht' hitem hitem' hid
  obtain ⟨before, call, hgrants, e, after, htrace, rfl, hcall, -⟩ := h.returned_claim ht
  obtain ⟨before', call', hgrants', e', after', htrace', rfl, hcall', -⟩ := h.returned_claim ht'
  obtain ⟨leases, rfl, hnodup, hleases⟩ := hgrants.lease (keyed_tableAfter _)
  obtain ⟨leases', rfl, hnodup', hleases'⟩ := hgrants'.lease (keyed_tableAfter _)
  have hsome : (Entry.call? e).isSome = true := Option.isSome_of_eq_some hcall
  have hsome' : (Entry.call? e').isSome = true := Option.isSome_of_eq_some hcall'
  rcases split_cases (htrace.symm.trans htrace') (fun heq => hne (congrArg Sem.Entry.task heq)) with
    ⟨mid, hbefore, hafter⟩ | ⟨mid, hbefore, hafter⟩
  · rw [hafter] at htrace
    refine .inl ⟨before, e, mid, e', after', htrace, rfl, hsome, rfl, hsome', ?_⟩
    exact h.succeeds hpatient htrace hcall hcall' hnodup (hleases item hitem) (hleases' item' hitem') hid
  · rw [hafter] at htrace'
    refine .inr ⟨before', e', mid, e, after, htrace', rfl, hsome', rfl, hsome, ?_⟩
    rw [← hid]
    exact h.succeeds hpatient htrace' hcall' hcall hnodup' (hleases' item' hitem') (hleases item hitem) hid.symm

/-! ## What a claim passes over -/

/-- The claim passed over the row when it came to it: another claim had locked it, or it was gone, replaced or not due
    any more. -/
def PassedOver (trace : List Entry) (i : Nat) (now : Time) (row : RetryRow) : Prop :=
  ∃ before e after, trace = before ++ e :: after ∧ e.task = i ∧ e.op = .lockRow row ∧
    ((∃ k t, k ≠ i ∧ e.before.txns.get? k = some t ∧ row.item.retryId ∈ t.locks) ∨
      ∀ current, (tableAfter (calls before)).rows.get? row.item.retryId = some current → current.tuple = row.tuple →
        now < current.item.nextRetryAt)

/-- The claim was full, and what it took was due no later than the row. -/
def Later (limit : Int) (items : List RetryItem) (due : List RetryRow) (row : RetryRow) : Prop :=
  items.length = limit.toNat ∧ ∀ item ∈ items, ∃ row' ∈ due, row'.item.retryId = item.retryId ∧
    row'.item.nextRetryAt ≤ row.item.nextRetryAt

/-- A row that was not locked. -/
theorem lockRow_false {i : Nat} {db db' : Database} {t : Txn Time String Lease} {row : RetryRow}
    (h : Database.lockRow i db t row = (false, db')) : Database.locked db row.item.retryId = true ∨
      ∀ current, db.committed.rows.get? row.item.retryId = some current → current.tuple = row.tuple →
        t.begun < current.item.nextRetryAt := by
  unfold Database.lockRow at h
  split at h
  · rename_i hlocked
    exact .inl hlocked
  · right
    split at h
    · rename_i hnone
      intro current hcurrent
      rw [hnone] at hcurrent
      cases hcurrent
    · rename_i row' hrow'
      split at h
      · cases h
      · rename_i hnot
        intro current hcurrent htuple
        rw [hrow'] at hcurrent
        cases hcurrent
        exact not_le.mp fun hdue => hnot ⟨htuple, hdue⟩

namespace Told

variable {c : Config sem.traced} {ds : List (Deed sem)} {i : Nat} {now : Time} {limit : Int}

/-- Why a row was passed over. -/
theorem passedOver (h : Told c ds) {row : RetryRow} (hrow : .op (.lockRow row) (.ok false) ∈ movesOf i ds)
    (honly : ∀ now' limit' due, .op (.scanDue now' limit') (.ok due) ∈ movesOf i ds → now' = now) :
    PassedOver c.state.trace i now row := by
  obtain ⟨db, hmem⟩ := h.deeds.entry hrow
  obtain ⟨before, after, htrace⟩ := List.append_of_mem hmem
  refine ⟨before, _, after, htrace, rfl, rfl, ?_⟩
  have hfound : db.committed = tableAfter (calls before) := h.inv.explained.found before _ after htrace
  obtain ⟨t, limit', due, htxn, hnew, w, hscanned⟩ := h.inv.known _ hmem
  have hbegun : t.begun = now := honly _ _ _ (h.deeds.moves _ hscanned)
  obtain ⟨ch, db', hex⟩ := h.performed _ hmem
  simp only [Database.exec, htxn] at hex
  rcases reach_cases hex with ⟨hlost, -⟩ | heq
  · cases hlost
  · have hfalse : Database.lockRow i db t row = (false, db') := by
      obtain ⟨hanswer, hstate⟩ := Prod.mk.inj heq
      exact Prod.ext (Except.ok.inj hanswer) hstate
    rcases lockRow_false hfalse with hlocked | hgone
    · left
      obtain ⟨⟨k, t'⟩, hentry, hin⟩ := List.any_eq_true.mp hlocked
      have hk : db.txns.get? k = some t' := Dict.mem_entries_iff.mp hentry
      refine ⟨k, t', ?_, hk, of_decide_eq_true hin⟩
      -- its own locks are on other rows
      rintro rfl
      rw [htxn] at hk
      cases hk
      exact hnew (of_decide_eq_true hin)
    · right
      rw [← hfound, ← hbegun]
      exact hgone

end Told

/-- The scan of a claim finds the rows that are due, the earliest first. -/
theorem scanned_of_performed {i : Nat} {now : Time} {limit : Int} {due : List RetryRow} {db : Database}
    (h : Performed ⟨i, .scanDue now limit, .ok due, db⟩) : due.Perm (db.committed.due now) ∧
      due.Pairwise fun a b => a.item.nextRetryAt ≤ b.item.nextRetryAt := by
  obtain ⟨ch, db', hex⟩ := h
  simp only [Database.exec] at hex
  split at hex
  · rcases reach_cases hex with ⟨hlost, -⟩ | heq
    · cases hlost
    · cases heq
  · split at hex
    · rename_i horder
      rcases reach_cases hex with ⟨hlost, -⟩ | heq
      · cases hlost
      · cases heq
        obtain ⟨hperm, hsorted⟩ := Bool.and_eq_true_iff.mp horder
        exact ⟨List.isPerm_iff.mp hperm, of_decide_eq_true hsorted⟩
    · cases hex

/-- The rows that are leased are the locked ones. -/
theorem leased_ids {i : Nat} {db : Database} (h : Tidy db) {t : Txn Time String Lease} (ht : db.txns.get? i = some t)
    (deadline : Time) : (Database.leased db t.locks deadline).map RetryItem.retryId = t.locks := by
  have hheld := h.held i t ht
  rw [Database.leased]
  generalize t.locks = locks at hheld
  induction locks with
  | nil => rfl
  | cons id rest ih =>
    obtain ⟨row, hrow, -⟩ := hheld id (.head _)
    rw [List.filterMap_cons_some hrow, List.map_cons, List.map_cons, ih fun id hid => hheld id (.tail _ hid)]
    exact congrArg (· :: rest) (h.keyed id row hrow)

/-- A claim that returned took the earliest of the rows that were due at its scan: one that it did not take it passed
    over, or it was full. -/
theorem claims_earliest {c : Config sem.traced} (hrun : AnyRun initial c) {i : Nat} {now : Time} {limit leaseSeconds : Int}
    {items : List RetryItem} (ht : c.tasks[i]? = some ⟨.claimDue now limit leaseSeconds, .pure (.items items)⟩) :
    ∃ before e after, c.state.trace = before ++ e :: after ∧ e.task = i ∧
      ∀ row ∈ (tableAfter (calls before)).due now, row.item.retryId ∈ items.map RetryItem.retryId ∨
        PassedOver c.state.trace i now row ∨ Later limit items ((tableAfter (calls before)).due now) row := by
  obtain ⟨ds, h⟩ := told_run hrun
  obtain ⟨l, items', l', hmoves, hbody, hpure⟩ := Prog.returns_bind.mp (h.deeds.returned ht)
  obtain ⟨rfl, hval⟩ := Prog.returns_pure.mp hpure
  cases hval
  rw [List.append_nil] at hmoves
  obtain ⟨due, visits, rest, hdue, -, hend, rfl⟩ := claimDue_returns hbody
  -- what was scanned
  have hscan := hmoves
  rw [claimMoves, List.cons_append, ← List.nil_append (_ :: _)] at hscan
  obtain ⟨before, db, after, htrace, -⟩ := entries_around hscan
  rw [h.deeds.trace] at htrace
  have hfound : db.committed = tableAfter (calls before) := h.inv.explained.found before _ after htrace
  obtain ⟨hperm, hsorted⟩ := scanned_of_performed (h.performed ⟨i, .scanDue now limit, .ok due, db⟩ (by
    rw [htrace]
    exact List.mem_append_right _ (.head _)))
  rw [hfound] at hperm
  -- what was returned
  obtain ⟨db', hcommit⟩ := h.deeds.entry (o := .commit) (r := .ok ()) (by rw [hmoves]; simp)
  obtain ⟨t, hclaims, -, hids, -, hitems⟩ := h.claimed hmoves hcommit
  have hreturned : (items.map RetryItem.retryId).Perm (lockedIds visits) := by
    have hleased := hitems.map RetryItem.retryId
    rwa [← hids, leased_ids hclaims.tidy hclaims.txn, hids] at hleased
  refine ⟨before, _, after, htrace, rfl, fun row hrow => ?_⟩
  have hrow' := hperm.mem_iff.mpr hrow
  rw [hdue] at hrow' hsorted
  rcases List.mem_append.mp hrow' with hvisited | hleft
  · obtain ⟨⟨row', taken⟩, hvisit, rfl⟩ := List.mem_map.mp hvisited
    cases taken with
    | true =>
      left
      rw [hreturned.mem_iff]
      exact List.mem_map.mpr ⟨(row', true), List.mem_filter.mpr ⟨hvisit, rfl⟩, rfl⟩
    | false =>
      refine .inr (.inl (h.passedOver ?_ fun now' limit' due' hmem => ?_))
      · rw [hmoves, claimMoves]
        simp only [List.mem_append, List.mem_cons, List.mem_map]
        exact .inl (.inr (.inl ⟨(row', false), hvisit, rfl⟩))
      · rw [hmoves, claimMoves] at hmem
        have heq : (now' = now ∧ limit' = limit) ∧ due' = due := by simpa [visit] using hmem
        exact heq.1.1
  · -- the claim stopped before it came to the row
    right; right
    have hfull : (lockedIds visits).length = limit.toNat := by
      rcases hend with hnil | hfull
      · rw [hnil] at hleft
        cases hleft
      · exact hfull
    refine ⟨?_, fun item hitem => ?_⟩
    · rw [← List.length_map RetryItem.retryId, hreturned.length_eq, hfull]
    · obtain ⟨v, hv, hid⟩ := List.mem_map.mp (hreturned.mem_iff.mp (List.mem_map_of_mem hitem))
      have hvisited : v.1 ∈ visits.map Prod.fst := List.mem_map_of_mem (List.mem_filter.mp hv).1
      refine ⟨v.1, ?_, hid, (List.pairwise_append.mp hsorted).2.2 v.1 hvisited row hleft⟩
      rw [← hperm.mem_iff, hdue]
      exact List.mem_append_left _ hvisited

namespace Sample

def move (i : Nat) : Action sem.traced := .task i {}

/-- Two claims come at the same time, and a third one when their leases are over. The second one passes over the row
    that the first one has locked. -/
def schedule : List (Action sem.traced) :=
  let order (at_ : Time) : List RetryRow := [⟨item "a" at_, 0⟩, ⟨item "b" at_, 1⟩]
  let deadline : Time := 10 + seconds 60
  let update (i : Nat) (items : List RetryItem) : List (Action sem.traced) := [.task i { returning := items }, move i, move i]
  [.start (.enqueue (item "a" 0)), move 0, move 0, .start (.enqueue (item "b" 0)), move 1, move 1,
    .start (.claimDue 10 1 60), .start (.claimDue 10 2 60), .task 2 { order := order 0 }, move 2,
    .task 3 { order := order 0 }, move 3, move 3] ++ update 3 [item "b" deadline] ++ update 2 [item "a" deadline] ++
    [.start (.claimDue deadline 5 60), .task 4 { order := order deadline }, move 4, move 4] ++
    update 4 [item "a" (deadline + seconds 60), item "b" (deadline + seconds 60)]

/-- What a claim has returned. -/
def claimed (c : Config sem.traced) (i : Nat) : Option ((Time × Int × Int) × List RetryItem) :=
  c.tasks[i]?.bind fun t =>
    match t with
    | ⟨.claimDue now limit leaseSeconds, .pure (.items items)⟩ => some ((now, limit, leaseSeconds), items)
    | _ => none

theorem task_of_claimed {c : Config sem.traced} {i : Nat} {now : Time} {limit leaseSeconds : Int} {items : List RetryItem}
    (h : claimed c i = some ((now, limit, leaseSeconds), items)) :
    c.tasks[i]? = some ⟨.claimDue now limit leaseSeconds, .pure (.items items)⟩ := by
  obtain ⟨t, ht, hpage⟩ := Option.bind_eq_some_iff.mp h
  rw [ht]
  split at hpage
  · cases hpage
    rfl
  · cases hpage

/-- Nobody claims for a negative time. -/
def patient (c : Config sem.traced) : Bool :=
  c.tasks.all fun t =>
    match t.job with
    | .claimDue _ _ leaseSeconds => decide (0 ≤ leaseSeconds)
    | _ => true

theorem patient_iff {c : Config sem.traced} (h : patient c = true) : Patient c := by
  intro i t now limit leaseSeconds ht hjob
  have hall := List.all_eq_true.mp h t (List.mem_of_getElem? ht)
  simp only [hjob] at hall
  exact of_decide_eq_true hall

def firstLease : Time := 10 + seconds 60

theorem claims : ∃ c, AnyRun initial c ∧ Patient c ∧
    claimed c 2 = some ((10, 1, 60), [item "a" firstLease]) ∧ claimed c 3 = some ((10, 2, 60), [item "b" firstLease]) ∧
      claimed c 4 = some ((firstLease, 5, 60), [item "a" (firstLease + seconds 60), item "b" (firstLease + seconds 60)]) := by
  have hrun : (initial.runsWith (fun _ _ => true) schedule).any (fun c => patient c &&
      (decide (claimed c 2 = some ((10, 1, 60), [item "a" firstLease])) &&
        (decide (claimed c 3 = some ((10, 2, 60), [item "b" firstLease])) && decide (claimed c 4 =
          some ((firstLease, 5, 60), [item "a" (firstLease + seconds 60), item "b" (firstLease + seconds 60)]))))) = true := by
    decide +kernel
  obtain ⟨c, hc, hp⟩ := Config.Run.of_any hrun
  simp only [Bool.and_eq_true, decide_eq_true_eq] at hp
  exact ⟨c, hc.mono fun _ _ _ => trivial, patient_iff hp.1, hp.2⟩

end Sample

theorem claims_exclusive_sample : ∃ (c : Config sem.traced) (items items' : List RetryItem), AnyRun initial c ∧
    c.tasks[2]? = some ⟨.claimDue 10 1 60, .pure (.items items)⟩ ∧
    c.tasks[4]? = some ⟨.claimDue Sample.firstLease 5 60, .pure (.items items')⟩ ∧
    (∃ item ∈ items, ∃ item' ∈ items', item'.retryId = item.retryId) ∧ Leasing c := by
  obtain ⟨c, hrun, hpatient, hfirst, -, hthird⟩ := Sample.claims
  refine ⟨c, _, _, hrun, Sample.task_of_claimed hfirst, Sample.task_of_claimed hthird, ?_, claims_exclusive hrun hpatient⟩
  exact ⟨_, .head _, _, .head _, rfl⟩

theorem claims_earliest_sample : ∃ (c : Config sem.traced) (items : List RetryItem), AnyRun initial c ∧
    c.tasks[3]? = some ⟨.claimDue 10 2 60, .pure (.items items)⟩ ∧ items.length = 1 ∧
    ∃ before e after, c.state.trace = before ++ e :: after ∧ e.task = 3 ∧
      ∀ row ∈ (tableAfter (calls before)).due 10, row.item.retryId ∈ items.map RetryItem.retryId ∨
        PassedOver c.state.trace 3 10 row ∨ Later 2 items ((tableAfter (calls before)).due 10) row := by
  obtain ⟨c, hrun, -, -, hsecond, -⟩ := Sample.claims
  have ht := Sample.task_of_claimed hsecond
  exact ⟨c, _, hrun, ht, rfl, claims_earliest hrun ht⟩

end QueueSession

end A2AEvents

import A2AEvents.Spec.PostgresQueueInvariant

/-!
# Sessions keep the table of retries in order

Statement by statement, and from the statements the methods. What a claim has locked nobody else changes, so
what it found there is what it leases.

## Key results

- `Written.claims`: what is known of a claim that is about to commit
- `code_yields`: the methods keep the invariant whatever happens beside them
- `contract_sound`: the promises of the sessions fit together
-/

namespace A2AEvents

namespace QueueSession

open Async Transactions

variable {s : Snapshot} {i : Nat} {o : Statement} {r : Except PyError o.Ans} {db db' : Database} {j : Job}

/-! ## Answers -/

section Answers

variable {α : Type} {c : Choice} {x : Except PyError α × Database} {a : Except PyError α}

theorem reach_cases (h : Database.reach i c db x = some (a, db')) :
    (a = .error connectionLost ∧ db' = db.rollback i) ∨ x = (a, db') := by
  unfold Database.reach at h
  split at h
  · cases h
    exact .inl ⟨rfl, rfl⟩
  · exact .inr (Option.some.inj h)

theorem await_cases {retryId : String} (h : Database.await i c db retryId x = some (a, db')) :
    (a = .error connectionLost ∧ db' = db.rollback i) ∨ Database.locked db retryId = false ∧ x = (a, db') := by
  unfold Database.await at h
  split at h
  · cases h
  · rename_i hfree
    cases hfails : c.fails with
    | true =>
      rw [Database.reach, if_pos hfails] at h
      cases h
      exact .inl ⟨rfl, rfl⟩
    | false =>
      simp only [hfails, Bool.not_false, Bool.true_and, Bool.not_eq_true] at hfree
      rcases reach_cases h with hlost | heq
      · exact .inl hlost
      · exact .inr ⟨hfree, heq⟩

end Answers

/-! ## Single statements -/

section Statements

variable {A : Snapshot → Prop}

/-- The session executes a statement, and goes on if it was answered. -/
theorem execute_yields {P : o.Ans → Snapshot → Prop} (hA : A s) (hrely : ∀ s s', Leaves i s s' → A s → A s')
    (h : ∀ {s : Snapshot} {c r db}, A s → Inv s → Database.exec i o c s.state = some (r, db) →
      Moves s i o r db ∧ ∀ a, r = .ok a → P a (next s i o r db)) : Yields contract j i (execute o) P s := by
  refine Yields.bind (P := fun r s' => ∀ a, r = .ok a → P a s') ?_ fun r s' hr => Yields.lift hr
  refine Yields.call hA hrely fun {s' c r s''} hA' hs' _ hex => ?_
  obtain ⟨⟨r', db'⟩, hcall, heq⟩ := Option.map_eq_some_iff.mp hex
  cases heq
  obtain ⟨hmoves, hP⟩ := h hA' hs' hcall
  exact ⟨hmoves.1, hmoves.2, hP⟩

/-- Nothing need be known, and nothing is. -/
theorem execute_keeps (h : ∀ {s : Snapshot} {c r db}, Inv s → Database.exec i o c s.state = some (r, db) → Moves s i o r db) :
    Yields contract j i (execute o) (fun _ _ => True) s :=
  execute_yields (A := fun _ => True) trivial (fun _ _ _ _ => trivial) fun _ hs hex => ⟨h hs hex, fun _ _ => trivial⟩

theorem acknowledged_yields : Yields contract j i (execute .acknowledged) (fun _ _ => True) s := by
  refine execute_keeps fun {s c r db} hs hex => ?_
  rcases reach_cases hex with ⟨rfl, rfl⟩ | heq
  · exact .lost hs
  · cases heq
    exact .quiet hs hs.tidy rfl (fun _ _ => rfl) rfl trivial

/-- A statement and its answer. -/
theorem answered_yields (h : Yields contract j i (execute o) (fun _ _ => True) s) :
    Yields contract j i (answered o) (fun _ _ => True) s :=
  Yields.bind h fun _ _ _ => Yields.bind acknowledged_yields fun _ _ _ => Yields.pure trivial

theorem insert_yields (item : RetryItem) : Yields contract j i (execute (.insert item)) (fun _ _ => True) s := by
  refine execute_keeps fun {s c r db} hs hex => ?_
  rcases reach_cases hex with ⟨rfl, rfl⟩ | heq
  · exact .lost hs
  · split at heq
    · cases heq
      exact .refused hs
    · cases heq
      refine .row hs rfl trivial rfl (hs.tidy.keyed.insert item) fun k t ht id hid => ?_
      -- what is locked is there already
      obtain ⟨row, hrow, -⟩ := hs.tidy.held k t ht id hid
      rw [RetryTable.get?_insert]
      split
      · rw [hrow, Option.getD_some]
      · rfl

theorem delete_yields (retryId : String) : Yields contract j i (execute (.delete retryId)) (fun _ _ => True) s := by
  refine execute_keeps fun {s c r db} hs hex => ?_
  rcases await_cases hex with ⟨rfl, rfl⟩ | ⟨hfree, heq⟩
  · exact .lost hs
  · cases heq
    refine .row hs rfl trivial rfl (hs.tidy.keyed.delete retryId) fun k t ht id hid => ?_
    rw [RetryTable.get?_delete, if_neg]
    rintro rfl
    exact notMem_of_locked hfree ht hid

theorem update_yields (retryId : String) (nextRetryAt : Time) (attempt : Nat) (lastError : Option String) :
    Yields contract j i (execute (.update retryId nextRetryAt attempt lastError)) (fun _ _ => True) s := by
  refine execute_keeps fun {s c r db} hs hex => ?_
  rcases await_cases hex with ⟨rfl, rfl⟩ | ⟨hfree, heq⟩
  · exact .lost hs
  · split at heq
    · cases heq
      exact .refused hs
    · cases heq
      refine .row hs rfl trivial rfl (hs.tidy.keyed.modify retryId fun _ => rfl) fun k t ht id hid => ?_
      rw [RetryTable.get?_modify, if_neg]
      rintro rfl
      exact notMem_of_locked hfree ht hid

theorem selectPending_yields : Yields contract j i (execute .selectPending) (fun _ _ => True) s := by
  refine execute_keeps fun {s c r db} hs hex => ?_
  simp only [Database.exec] at hex
  split at hex
  · rcases reach_cases hex with ⟨rfl, rfl⟩ | heq
    · exact .lost hs
    · cases heq
      exact .quiet hs hs.tidy rfl (fun _ _ => rfl) rfl trivial
  · cases hex

end Statements

/-! ## A claim -/

/-- What a claim knows while it locks rows: which ones it has locked. -/
structure Claiming (i : Nat) (now : Time) (ids : List String) (s : Snapshot) : Prop where
  scanned : ∃ limit due, s.received i (.scanDue now limit) (.ok due)
  txn : ∀ t, s.state.txns.get? i = some t → t = { begun := now, locks := ids }

/-- What it knows when it has written: nobody changes what it has locked. -/
structure Written (i : Nat) (now : Time) (ids : List String) (deadline : Time) (items : List RetryItem) (s : Snapshot) :
    Prop where
  scanned : ∃ limit due, s.received i (.scanDue now limit) (.ok due)
  updated : s.received i (.updateLocked ids deadline) (.ok items)
  txn : ∀ t, s.state.txns.get? i = some t → t = { begun := now, locks := ids, writes := ids.map fun id => ⟨id, deadline⟩ }
  items : ∀ t, s.state.txns.get? i = some t → items.Perm (Database.leased s.state ids deadline)

section Claim

variable {now deadline : Time} {limit : Int} {n : Nat} {ids : List String} {items : List RetryItem} {s' : Snapshot}

theorem Claiming.leaves (hx : Leaves i s s') (h : Claiming i now ids s) : Claiming i now ids s' where
  scanned := by
    obtain ⟨limit, due, hreceived⟩ := h.scanned
    exact ⟨limit, due, hx.received hreceived⟩
  txn := fun t ht => h.txn t (hx.open_before ht)

/-- The rows are leased as they are found. -/
theorem leased_congr {db db' : Database} (h : ∀ id ∈ ids, db'.committed.rows.get? id = db.committed.rows.get? id) :
    Database.leased db' ids deadline = Database.leased db ids deadline := by
  rw [Database.leased, Database.leased, List.filterMap_congr h]

theorem Written.leaves (hx : Leaves i s s') (h : Written i now ids deadline items s) :
    Written i now ids deadline items s' where
  scanned := by
    obtain ⟨limit, due, hreceived⟩ := h.scanned
    exact ⟨limit, due, hx.received hreceived⟩
  updated := hx.received h.updated
  txn := fun t ht => h.txn t (hx.open_before ht)
  items := by
    intro t ht
    have hbefore := hx.open_before ht
    -- the rows are locked, so they are as they were
    have hlocks : t.locks = ids := by rw [h.txn t hbefore]
    rw [leased_congr fun id hid => hx.rows t id ht (hlocks ▸ hid)]
    exact h.items t hbefore

/-- The ids in the table. -/
theorem Tidy.values_ids (h : Tidy db) : db.committed.rows.values.map (fun row => row.item.retryId) = db.committed.rows.keys := by
  rw [Dict.values, Dict.keys, List.map_map]
  refine List.map_congr_left fun e he => ?_
  exact h.keyed e.1 e.2 (Dict.mem_entries_iff.mp he)

/-- The rows of a scan are different ones. -/
theorem Tidy.nodup_due (h : Tidy db) {order : List RetryRow} (horder : isOrdering order (db.committed.due now) = true) :
    (order.map fun row => row.item.retryId).Nodup := by
  have hperm := List.isPerm_iff.mp (Bool.and_eq_true_iff.mp horder).1
  rw [(hperm.map fun row => row.item.retryId).nodup_iff]
  have hall : (db.committed.rows.values.map fun row => row.item.retryId).Nodup := by
    rw [h.values_ids]
    exact db.committed.rows.nodup
  exact hall.sublist (List.Sublist.map _ List.filter_sublist)

theorem scanDue_yields : Yields contract j i (execute (.scanDue now limit)) (fun due s' =>
    (due.map fun row => row.item.retryId).Nodup ∧ Claiming i now [] s') s := by
  refine execute_yields (A := fun _ => True) trivial (fun _ _ _ _ => trivial) fun {s c r db} _ hs hex => ?_
  simp only [Database.exec] at hex
  split at hex
  · rcases reach_cases hex with ⟨rfl, rfl⟩ | heq
    · exact ⟨.lost hs, fun _ h => by cases h⟩
    · cases heq
      exact ⟨.refused hs, fun _ h => by cases h⟩
  · split at hex
    · rename_i horder
      rcases reach_cases hex with ⟨rfl, rfl⟩ | heq
      · exact ⟨.lost hs, fun _ h => by cases h⟩
      · cases heq
        refine ⟨.quiet hs (hs.tidy.openTxn now) rfl (fun k hk => ?_) rfl trivial, fun due hdue => ?_⟩
        · exact (Server.txns_openTxn ..).trans (if_neg hk)
        · cases hdue
          refine ⟨hs.tidy.nodup_due horder, ⟨limit, c.order, received_next s _⟩, fun t ht => ?_⟩
          -- the transaction is a new one
          rw [Server.txns_openTxn, if_pos rfl] at ht
          exact (Option.some.inj ht).symm
    · cases hex

/-- A row is locked, or it is passed over. -/
theorem lockRow_yields (row : RetryRow) (hnew : row.item.retryId ∉ ids) (h : Claiming i now ids s) :
    Yields contract j i (execute (.lockRow row)) (fun taken s' =>
      Claiming i now (if taken = true then ids ++ [row.item.retryId] else ids) s') s := by
  refine execute_yields h (fun _ _ => Claiming.leaves) fun {s c r db} hA hs hex => ?_
  simp only [Database.exec] at hex
  split at hex
  · cases hex
    exact ⟨.refused hs, fun _ h => by cases h⟩
  · rename_i t ht
    obtain rfl := hA.txn t ht
    rcases reach_cases hex with ⟨rfl, rfl⟩ | heq
    · exact ⟨.lost hs, fun _ h => by cases h⟩
    · have hpassed : Moves s i (.lockRow row) (.ok false) s.state ∧
          ∀ taken, (.ok false : Except PyError Bool) = .ok taken →
            Claiming i now (if taken = true then ids ++ [row.item.retryId] else ids)
              (next s i (.lockRow row) (.ok false) s.state) := by
        obtain ⟨limit, due, hscanned⟩ := hA.scanned
        refine ⟨.quiet hs hs.tidy rfl (fun _ _ => rfl) rfl ⟨_, limit, due, ht, hnew, hscanned⟩, fun taken htaken => ?_⟩
        cases htaken
        exact hA.leaves (leaves_trace rfl fun _ _ _ _ => rfl)
      unfold Database.lockRow at heq
      split at heq
      · cases heq
        exact hpassed
      · rename_i hfree
        split at heq
        · cases heq
          exact hpassed
        · rename_i current hcurrent
          split at heq
          · -- the row is locked
            rename_i hdue
            cases heq
            have htidy := hs.tidy.hold ht (by simpa using hfree) hcurrent hdue.2
            refine ⟨.quiet hs htidy (Server.committed_amend _) (fun k hk => Server.txns_amend_ne _ hk) rfl trivial,
              fun taken htaken => ?_⟩
            cases htaken
            obtain ⟨limit, due, before, hmem⟩ := hA.scanned
            refine ⟨⟨limit, due, before, List.mem_append_left _ hmem⟩, fun t' ht' => ?_⟩
            rw [Server.hold, Server.txns_amend, if_pos rfl, ht] at ht'
            rw [if_pos rfl]
            exact (Option.some.inj ht').symm
          · cases heq
            exact hpassed

theorem lockRows_yields (rows : List RetryRow) : ∀ (n : Nat) (ids : List String) (s : Snapshot),
    (ids ++ rows.map fun row => row.item.retryId).Nodup → Claiming i now ids s →
      Yields contract j i (lockRows n rows) (fun locked s' => Claiming i now (ids ++ locked) s') s := by
  induction rows with
  | nil =>
    intro n ids s _ h
    rw [← List.append_nil ids] at h
    cases n with
    | zero => exact Yields.pure h
    | succ n => exact Yields.pure h
  | cons row rest ih =>
    intro n ids s hnodup h
    cases n with
    | zero =>
      rw [← List.append_nil ids] at h
      exact Yields.pure h
    | succ n =>
      rw [List.map_cons] at hnodup
      have hnew : row.item.retryId ∉ ids := fun hmem => (List.nodup_append.mp hnodup).2.2 _ hmem _ (.head _) rfl
      refine Yields.bind (lockRow_yields row hnew h) fun taken s' h' => ?_
      cases taken with
      | true =>
        rw [← List.singleton_append, ← List.append_assoc] at hnodup
        refine Yields.bind (ih n (ids ++ [row.item.retryId]) s' hnodup h') fun others s'' h'' => Yields.pure ?_
        rw [List.append_assoc, List.singleton_append] at h''
        exact h''
      | false => exact ih (n + 1) ids s' (hnodup.sublist (List.Sublist.append_left (List.sublist_cons_self ..) _)) h'

theorem updateLocked_yields (h : Claiming i now ids s) : Yields contract j i (execute (.updateLocked ids deadline))
    (fun items s' => Written i now ids deadline items s') s := by
  refine execute_yields h (fun _ _ => Claiming.leaves) fun {s c r db} hA hs hex => ?_
  simp only [Database.exec] at hex
  split at hex
  · cases hex
    exact ⟨.refused hs, fun _ h => by cases h⟩
  · rename_i t ht
    obtain rfl := hA.txn t ht
    split at hex
    · rename_i hperm
      rcases reach_cases hex with ⟨rfl, rfl⟩ | heq
      · exact ⟨.lost hs, fun _ h => by cases h⟩
      · cases heq
        have htidy : Tidy (s.state.amend i fun t => { t with writes := t.writes ++ ids.map fun id => ⟨id, deadline⟩ }) := by
          refine hs.tidy.write fun t' ht' lease hlease => ?_
          obtain ⟨id, hid, rfl⟩ := List.mem_map.mp hlease
          rw [hA.txn t' ht']
          exact hid
        refine ⟨.quiet hs htidy (Server.committed_amend _) (fun k hk => Server.txns_amend_ne _ hk) rfl trivial,
          fun items hitems => ?_⟩
        cases hitems
        obtain ⟨limit, due, before, hmem⟩ := hA.scanned
        refine ⟨⟨limit, due, before, List.mem_append_left _ hmem⟩, received_next s _, fun t' ht' => ?_, fun t' _ => ?_⟩
        · rw [Server.txns_amend, if_pos rfl, ht] at ht'
          exact (Option.some.inj ht').symm
        · have hsame : ∀ f, Database.leased (s.state.amend i f) ids deadline = Database.leased s.state ids deadline :=
            fun f => leased_congr fun id _ => by rw [Server.committed_amend]
          show List.Perm c.returning _
          rw [hsame]
          exact List.isPerm_iff.mp hperm
    · cases hex

/-- What is known of a claim that is about to commit. -/
theorem Written.claims (hs : Inv s) (h : Written i now ids deadline items s) {t : Txn Time String Lease}
    (ht : s.state.txns.get? i = some t) : Claims s i s.state t := by
  have hitems := h.items t ht
  have hupdated := h.updated
  have hscanned := h.scanned
  obtain rfl := h.txn t ht
  exact ⟨ht, hs.tidy, hscanned, deadline, items, hupdated, hitems, rfl⟩

theorem commit_yields (h : Written i now ids deadline items s) :
    Yields contract j i (execute .commit) (fun _ _ => True) s := by
  refine execute_yields h (fun _ _ => Written.leaves) fun {s c r db} hA hs hex => ?_
  simp only [Database.exec] at hex
  split at hex
  · cases hex
    exact ⟨.refused hs, fun _ h => by cases h⟩
  · rename_i t ht
    rcases reach_cases hex with ⟨rfl, rfl⟩ | heq
    · exact ⟨.lost hs, fun _ h => by cases h⟩
    · cases heq
      refine ⟨⟨hs.next (hs.tidy.commit ht) ?_ ⟨t, hA.claims hs ht⟩, fun k hk => leaves_trace ?_ fun u id hu hid => ?_⟩,
        fun _ _ => trivial⟩
      · simp only [Entry.call?, ht, Option.map_some, Option.toList_some, List.foldl_cons, List.foldl_nil, RowCall.apply]
        rw [Server.commit_eq Lease.apply ht]
      · exact (Server.txns_commit Lease.apply k).trans (if_neg hk)
      · exact hs.tidy.commit_rows hk hu hid

end Claim

/-! ## The methods -/

theorem claimDue_yields (now : Time) (limit leaseSeconds : Int) :
    Yields contract j i (claimDue now limit leaseSeconds) (fun _ _ => True) s := by
  refine Yields.bind scanDue_yields fun due s₁ h₁ => ?_
  refine Yields.bind (lockRows_yields due limit.toNat [] s₁ h₁.1 h₁.2) fun ids s₂ h₂ => ?_
  refine Yields.bind (updateLocked_yields h₂) fun items s₃ h₃ => Yields.bind (commit_yields h₃) fun _ s₄ _ => ?_
  exact Yields.bind acknowledged_yields fun _ _ _ => Yields.pure trivial

/-- The methods keep the invariant whatever happens beside them. -/
theorem code_yields (j : Job) (s : Snapshot) : Yields contract j i (code j) (fun _ _ => True) s := by
  cases j with
  | enqueue item => exact Yields.bind (answered_yields (insert_yields item)) fun _ _ _ => Yields.pure trivial
  | claimDue now limit leaseSeconds =>
    exact Yields.bind (claimDue_yields now limit leaseSeconds) fun _ _ _ => Yields.pure trivial
  | complete retryId => exact Yields.bind (answered_yields (delete_yields retryId)) fun _ _ _ => Yields.pure trivial
  | reschedule retryId nextRetryAt attempt lastError =>
    exact Yields.bind (answered_yields (update_yields retryId nextRetryAt attempt lastError)) fun _ _ _ => Yields.pure trivial
  | pending => exact Yields.bind (answered_yields selectPending_yields) fun _ _ _ => Yields.pure trivial

/-! ## The promises -/

/-- The server gives up transactions. -/
theorem Inv.give_up (hs : Inv s) (htidy : Tidy db) (htable : db.committed = s.state.committed) : Inv ⟨db, s.trace⟩ where
  tidy := htidy
  explained := hs.explained.unseen htable
  known := by
    have htrace : ∀ e ∈ s.trace, e ∈ (⟨db, s.trace⟩ : Snapshot).trace := fun _ h => h
    exact fun e he => (hs.known e he).mono htrace

theorem contract_sound : contract.Sound where
  rely_refl _ k s := Leaves.refl k s
  rely_trans h h' := Leaves.trans h h'
  env_rely := by
    intro e s s' henv hs
    change (Database.env e s.state).map (fun db => (⟨db, s.trace⟩ : Snapshot)) = some s' at henv
    obtain ⟨db, hdb, rfl⟩ := Option.map_eq_some_iff.mp henv
    cases e with
    | terminate i =>
      cases hdb
      refine ⟨hs.give_up hs.tidy.rollback rfl, fun _ k => ⟨?_, fun _ _ _ _ => rfl, fun _ h => h⟩⟩
      show (s.state.rollback i).txns.get? k = _ ∨ (s.state.rollback i).txns.get? k = none
      rw [Server.txns_rollback]
      split
      · exact .inr rfl
      · exact .inl rfl
  peer_rely _ hne _ _ hguar := hguar _ (Ne.symm hne)
  pre_stable h _ _ := h
  code_safe j _ s _ _ := Safe.weaken (code_yields j s) fun _ _ _ => trivial

end QueueSession

end A2AEvents

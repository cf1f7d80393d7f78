import A2AEvents.ForStd.Dict

/-!
# Transactions over shared tables

Sessions work on tables that they share. What a session writes in a transaction is its own until it
commits; the locks that it takes in between are held to the end of the transaction, and nobody gets a lock
that another session holds. Nothing is said here about what the tables are: a write is anything that can be
applied to them.

## Key results

- `Exclusive.hold`, `Exclusive.openTxn`: locks stay exclusive
- `Server.commit_eq`: what a commit leaves for the other sessions
- `Covered.part`: the part of the tables that a lock guards is changed by the holder of the lock only
-/

namespace Transactions

/-- An open transaction: what was noted when it began, its locks, and what it has written so far. -/
structure Txn (ι κ δ : Type) where
  begun : ι
  locks : List κ := []
  writes : List δ := []

/-- The tables as they are committed, and the transactions that sessions have open. -/
structure Server (σ ι κ δ : Type) where
  committed : σ
  txns : Dict Nat (Txn ι κ δ) := ∅

variable {σ ι κ δ : Type}

namespace Server

/-- Another session holds one of the locks. -/
def busy [DecidableEq κ] (s : Server σ ι κ δ) (i : Nat) (ks : List κ) : Bool :=
  s.txns.entries.any fun e => decide (e.1 ≠ i) && e.2.locks.any fun k => decide (k ∈ ks)

/-- The tables as a session sees them, with its own writes. -/
def view (apply : σ → δ → σ) (s : Server σ ι κ δ) (i : Nat) : σ :=
  match s.txns.get? i with
  | none => s.committed
  | some t => t.writes.foldl apply s.committed

/-- A transaction begins. -/
def openTxn (s : Server σ ι κ δ) (i : Nat) (note : ι) : Server σ ι κ δ :=
  { s with txns := s.txns.set i { begun := note } }

/-- The session changes its transaction. -/
def amend (s : Server σ ι κ δ) (i : Nat) (f : Txn ι κ δ → Txn ι κ δ) : Server σ ι κ δ :=
  match s.txns.get? i with
  | none => s
  | some t => { s with txns := s.txns.set i (f t) }

/-- The session takes locks. -/
def hold (s : Server σ ι κ δ) (i : Nat) (ks : List κ) : Server σ ι κ δ :=
  s.amend i fun t => { t with locks := t.locks ++ ks }

/-- The session writes. -/
def write (s : Server σ ι κ δ) (i : Nat) (d : δ) : Server σ ι κ δ :=
  s.amend i fun t => { t with writes := t.writes ++ [d] }

/-- The transaction ends and nothing of it remains. -/
def rollback (s : Server σ ι κ δ) (i : Nat) : Server σ ι κ δ :=
  { s with txns := s.txns.erase i }

/-- The transaction ends and its writes are there for everyone. -/
def commit (apply : σ → δ → σ) (s : Server σ ι κ δ) (i : Nat) : Server σ ι κ δ :=
  { committed := s.view apply i, txns := s.txns.erase i }

section Lookup

variable {s : Server σ ι κ δ} {i j : Nat}

theorem busy_eq_false [DecidableEq κ] {ks : List κ} (h : s.busy i ks = false) {u : Txn ι κ δ}
    (hu : s.txns.get? j = some u) (hne : i ≠ j) {k : κ} (hk : k ∈ ks) : k ∉ u.locks := by
  intro hmem
  have hentry := List.any_eq_false.mp h (j, u) (Dict.mem_entries_iff.mpr hu)
  simp only [ne_eq, Ne.symm hne, not_false_eq_true, decide_true, Bool.true_and, Bool.not_eq_true,
    List.any_eq_false, decide_eq_true_eq] at hentry
  exact hentry k hmem hk

@[simp] theorem txns_openTxn (note : ι) (k : Nat) :
    (s.openTxn i note).txns.get? k = if k = i then some { begun := note } else s.txns.get? k :=
  Dict.get?_set ..

@[simp] theorem committed_amend (f : Txn ι κ δ → Txn ι κ δ) : (s.amend i f).committed = s.committed := by
  unfold amend
  split <;> rfl

theorem txns_amend (f : Txn ι κ δ → Txn ι κ δ) (k : Nat) :
    (s.amend i f).txns.get? k = if k = i then (s.txns.get? i).map f else s.txns.get? k := by
  unfold amend
  split
  · rename_i hnone
    split
    · rename_i hk
      rw [hk, hnone, Option.map_none]
    · rfl
  · rename_i t ht
    rw [Dict.get?_set, ht, Option.map_some]

theorem txns_amend_ne (f : Txn ι κ δ → Txn ι κ δ) {k : Nat} (hk : k ≠ i) :
    (s.amend i f).txns.get? k = s.txns.get? k := by
  rw [txns_amend, if_neg hk]

@[simp] theorem txns_rollback (k : Nat) :
    (s.rollback i).txns.get? k = if k = i then none else s.txns.get? k :=
  Dict.get?_erase ..

/-- What a commit leaves. -/
theorem commit_eq (apply : σ → δ → σ) {t : Txn ι κ δ} (ht : s.txns.get? i = some t) :
    s.commit apply i = { committed := t.writes.foldl apply s.committed, txns := s.txns.erase i } := by
  rw [commit, view, ht]

theorem txns_commit (apply : σ → δ → σ) (k : Nat) :
    (s.commit apply i).txns.get? k = if k = i then none else s.txns.get? k :=
  Dict.get?_erase ..

end Lookup

end Server

/-! ## Exclusive locks -/

/-- No lock is held twice. -/
def Exclusive (s : Server σ ι κ δ) : Prop :=
  ∀ i j t u k, i ≠ j → s.txns.get? i = some t → s.txns.get? j = some u → k ∈ t.locks → k ∉ u.locks

namespace Exclusive

variable {s s' : Server σ ι κ δ} {i : Nat}

theorem empty (tables : σ) : Exclusive ({ committed := tables } : Server σ ι κ δ) :=
  fun _ _ _ _ _ _ h => by cases h

/-- Sessions that hold no more than before. -/
theorem mono (h : Exclusive s) (hle : ∀ j u, s'.txns.get? j = some u →
    ∃ t, s.txns.get? j = some t ∧ ∀ k ∈ u.locks, k ∈ t.locks) : Exclusive s' := by
  intro i j t u k hne ht hu hk hk'
  obtain ⟨t', ht', hsub⟩ := hle i t ht
  obtain ⟨u', hu', hsub'⟩ := hle j u hu
  exact h i j t' u' k hne ht' hu' (hsub k hk) (hsub' k hk')

theorem rollback (h : Exclusive s) : Exclusive (s.rollback i) := by
  refine h.mono fun j u hu => ?_
  rw [Server.txns_rollback] at hu
  split at hu
  · cases hu
  · exact ⟨u, hu, fun _ hk => hk⟩

theorem commit (h : Exclusive s) (apply : σ → δ → σ) : Exclusive (s.commit apply i) :=
  h.rollback (s := s) (i := i)

/-- A session that holds what it held, or what is free. -/
theorem grow (h : Exclusive s) {f : Txn ι κ δ → Txn ι κ δ} (ks : List κ)
    (hlocks : ∀ t, ∀ k ∈ (f t).locks, k ∈ t.locks ∨ k ∈ ks)
    (hfree : ∀ j u, i ≠ j → s.txns.get? j = some u → ∀ k ∈ ks, k ∉ u.locks) : Exclusive (s.amend i f) := by
  -- the session against another one; the other way round is the same
  have hone : ∀ j t u k, i ≠ j → s.txns.get? i = some t → s.txns.get? j = some u → k ∈ (f t).locks → k ∉ u.locks := by
    intro j t u k hne ht hu hk
    rcases hlocks t k hk with hk | hk
    · exact h i j t u k hne ht hu hk
    · exact hfree j u hne hu k hk
  intro a b t u k hne ht hu hk hk'
  rw [Server.txns_amend] at ht hu
  by_cases ha : a = i
  · subst ha
    rw [if_pos rfl] at ht
    rw [if_neg (Ne.symm hne)] at hu
    obtain ⟨t₀, ht₀, rfl⟩ := Option.map_eq_some_iff.mp ht
    exact hone b t₀ u k hne ht₀ hu hk hk'
  · rw [if_neg ha] at ht
    by_cases hb : b = i
    · subst hb
      rw [if_pos rfl] at hu
      obtain ⟨u₀, hu₀, rfl⟩ := Option.map_eq_some_iff.mp hu
      exact hone a u₀ t k (Ne.symm ha) hu₀ ht hk' hk
    · rw [if_neg hb] at hu
      exact h a b t u k hne ht hu hk hk'

theorem hold [DecidableEq κ] (h : Exclusive s) {ks : List κ} (hfree : s.busy i ks = false) :
    Exclusive (s.hold i ks) :=
  h.grow ks (fun _ _ hk => List.mem_append.mp hk) fun _ _ hne hu _ hk => Server.busy_eq_false hfree hu hne hk

theorem write (h : Exclusive s) (d : δ) : Exclusive (s.write i d) :=
  h.grow [] (fun _ _ hk => .inl hk) fun _ _ _ _ _ hk => by cases hk

theorem openTxn (h : Exclusive s) (note : ι) : Exclusive (s.openTxn i note) := by
  intro a b t u k hne ht hu hk hk'
  rw [Server.txns_openTxn] at ht hu
  split at ht
  · cases ht
    cases hk
  · split at hu
    · cases hu
      cases hk'
    · exact h a b t u k hne ht hu hk hk'

end Exclusive

/-! ## Guarded parts -/

/-- Whoever has written something holds the locks that guard it. -/
def Covered (guards : δ → List κ) (s : Server σ ι κ δ) : Prop :=
  ∀ i t, s.txns.get? i = some t → ∀ d ∈ t.writes, ∀ k ∈ guards d, k ∈ t.locks

namespace Covered

variable {guards : δ → List κ} {s : Server σ ι κ δ} {i j : Nat}

theorem empty (tables : σ) : Covered guards ({ committed := tables } : Server σ ι κ δ) :=
  fun _ _ h => by cases h

theorem openTxn (h : Covered guards s) (note : ι) : Covered guards (s.openTxn i note) := by
  intro j t ht d hd
  rw [Server.txns_openTxn] at ht
  split at ht
  · cases ht
    cases hd
  · exact h j t ht d hd

theorem rollback (h : Covered guards s) : Covered guards (s.rollback i) := by
  intro j t ht
  rw [Server.txns_rollback] at ht
  split at ht
  · cases ht
  · exact h j t ht

theorem commit (h : Covered guards s) (apply : σ → δ → σ) : Covered guards (s.commit apply i) :=
  h.rollback (s := s) (i := i)

theorem hold (h : Covered guards s) (ks : List κ) : Covered guards (s.hold i ks) := by
  intro j t ht d hd k hk
  rw [Server.hold, Server.txns_amend] at ht
  split at ht
  · obtain ⟨t₀, ht₀, rfl⟩ := Option.map_eq_some_iff.mp ht
    exact List.mem_append_left _ (h i t₀ ht₀ d hd k hk)
  · exact h j t ht d hd k hk

theorem write (h : Covered guards s) {d : δ}
    (hd : ∀ t, s.txns.get? i = some t → ∀ k ∈ guards d, k ∈ t.locks) : Covered guards (s.write i d) := by
  intro j t ht d' hd' k hk
  rw [Server.write, Server.txns_amend] at ht
  split at ht
  · obtain ⟨t₀, ht₀, rfl⟩ := Option.map_eq_some_iff.mp ht
    rcases List.mem_append.mp hd' with hold | hnew
    · exact h i t₀ ht₀ d' hold k hk
    · rw [List.mem_singleton.mp hnew] at hk
      exact hd t₀ ht₀ k hk
  · exact h j t ht d' hd' k hk

/-- Writes that a lock does not guard leave its part alone. -/
theorem part_foldl {ρ : Type} {π : σ → ρ} {apply : σ → δ → σ} {k : κ}
    (hπ : ∀ tables d, k ∉ guards d → π (apply tables d) = π tables) {writes : List δ}
    (hnone : ∀ d ∈ writes, k ∉ guards d) (tables : σ) : π (writes.foldl apply tables) = π tables := by
  induction writes generalizing tables with
  | nil => rfl
  | cons d rest ih =>
    rw [List.foldl_cons, ih (fun d hd => hnone d (.tail _ hd)), hπ _ _ (hnone d (.head _))]

/-- While a session holds a lock, a commit of another one leaves the part alone that the lock guards. -/
theorem part {ρ : Type} {π : σ → ρ} {apply : σ → δ → σ} {k : κ} (h : Covered guards s) (hex : Exclusive s)
    (hπ : ∀ tables d, k ∉ guards d → π (apply tables d) = π tables) (hne : i ≠ j) {u : Txn ι κ δ}
    (hu : s.txns.get? j = some u) (hk : k ∈ u.locks) : π (s.commit apply i).committed = π s.committed := by
  cases ht : s.txns.get? i with
  | none => rw [Server.commit, Server.view, ht]
  | some t =>
    rw [Server.commit_eq apply ht]
    exact part_foldl hπ (fun d hd hguard => hex i j t u k hne ht hu (h i t ht d hd k hguard) hk) s.committed

end Covered

end Transactions

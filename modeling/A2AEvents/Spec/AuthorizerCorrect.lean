import Mathlib.Data.Set.Insert
import A2AEvents.Native.SubscriptionStore

/-!
# What grants and revocations allow

A grant table is a set of topics for every subject: a grant is a union, a revocation a difference,
and `"*"` in a set stands for all topics. The difference treats `"*"` as one more name, so a topic
that is withdrawn from a subject with `"*"` remains allowed.

## Key results

- `held_grant`, `held_revoke`: the table as sets
- `revoke_lasts_iff`: when a revocation holds until the next grant to the subject
-/

namespace A2AEvents

namespace AllowlistAuthorizer

variable {auth : AllowlistAuthorizer} {subject : String}

/-! ## The table as sets -/

/-- The topics granted to a subject, as they stand in the table. -/
def held (auth : AllowlistAuthorizer) (subject : String) : Set String :=
  {t | t ∈ auth.grants.getD subject []}

/-- The topics that a revocation names; without topics it names them all. -/
def withdrawn : Option (List String) → Set String
  | none => Set.univ
  | some ts => {t | t ∈ ts}

theorem held_grant (auth : AllowlistAuthorizer) (subject s : String) (ts : List String) :
    (auth.grant subject ts).held s = if s = subject then auth.held s ∪ {t | t ∈ ts} else auth.held s := by
  simp only [held, grant, Dict.getD, Dict.get?_set]
  split
  · rename_i h
    subst h
    ext t
    rw [Set.mem_union]
    show t ∈ auth.grants.getD s [] ++ ts.filter (· ∉ auth.grants.getD s []) ↔ _
    rw [List.mem_append, List.mem_filter, decide_eq_true_eq]
    show _ ↔ t ∈ auth.grants.getD s [] ∨ t ∈ ts
    tauto
  · rfl

theorem held_revoke (auth : AllowlistAuthorizer) (subject s : String) (topics : Option (List String)) :
    (auth.revoke subject topics).held s = if s = subject then auth.held s \ withdrawn topics else auth.held s := by
  cases topics with
  | none =>
    simp only [held, revoke, withdrawn, Dict.getD, Dict.get?_erase]
    split <;> simp
  | some ts =>
    simp only [held, revoke, withdrawn, Dict.getD]
    cases h : auth.grants.get? subject with
    | none =>
      show {t | t ∈ (auth.grants.get? s).getD []} = _
      split
      · rename_i hs
        subst hs
        simp [h]
      · rfl
    | some topics =>
      simp only [Dict.get?_set]
      split
      · rename_i hs
        subst hs
        ext t
        simp [h]
      · rfl

@[simp] theorem publicTopics_grant (auth : AllowlistAuthorizer) (subject : String) (ts : List String) :
    (auth.grant subject ts).publicTopics = auth.publicTopics := rfl

@[simp] theorem publicTopics_revoke (auth : AllowlistAuthorizer) (subject : String) (topics : Option (List String)) :
    (auth.revoke subject topics).publicTopics = auth.publicTopics := by
  simp only [revoke]
  split
  · rfl
  · split <;> rfl

/-- A caller with a subject is asked for the topic itself or for `"*"`. -/
theorem allowed_iff (auth : AllowlistAuthorizer) (subject topic : String) :
    auth.allowed (some subject) topic = true ↔
      topic ∈ auth.publicTopics ∨ "*" ∈ auth.held subject ∨ topic ∈ auth.held subject := by
  simp only [allowed, held, Set.mem_ofPred_eq]
  split
  · rename_i h
    simp [h]
  · rename_i h
    simp [h]

/-! ## The two questions asked of it -/

/-- One topic that is not allowed is enough to refuse a subscription. -/
theorem authorizeSubscribe_raises {identity : AuthIdentity} {topics : List String} {t : String} (ht : t ∈ topics)
    (hna : auth.allowed (some identity.subject) t = false) :
    ∃ e, auth.authorizeSubscribe (some identity) topics = .error e := by
  have hmem : t ∈ topics.filter fun t => !auth.allowed (some identity.subject) t := by
    rw [List.mem_filter]
    exact ⟨ht, by rw [hna]; rfl⟩
  simp only [authorizeSubscribe, Option.map_some]
  split
  · rename_i h
    rw [List.isEmpty_iff] at h
    rw [h] at hmem
    simp at hmem
  · exact ⟨_, rfl⟩

/-- Topics that are all allowed can be subscribed to. -/
theorem authorizeSubscribe_ok {identity : AuthIdentity} {topics : List String}
    (h : ∀ t ∈ topics, auth.allowed (some identity.subject) t = true) :
    auth.authorizeSubscribe (some identity) topics = .ok () := by
  have hnil : (topics.filter fun t => !auth.allowed (some identity.subject) t) = [] := by
    rw [List.filter_eq_nil_iff]
    intro t ht
    rw [h t ht]
    decide
  simp only [authorizeSubscribe, Option.map_some, hnil, List.isEmpty_nil, if_true]

/-- And one is enough to stop the deliveries to a subscription. -/
theorem authorizeDelivery_false {sub : Subscription} {t : String} (ht : t ∈ sub.topics)
    (hna : auth.allowed (some sub.subscriberCardUrl) t = false) : auth.authorizeDelivery sub = false := by
  rw [authorizeDelivery, List.all_eq_false]
  exact ⟨t, ht, by rw [hna]; decide⟩

/-! ## Histories -/

/-- One change of the grant table. -/
inductive Change where
  | grant (subject : String) (topics : List String)
  | revoke (subject : String) (topics : Option (List String))

/-- Whether a change grants the subject anything. -/
def Change.GrantsTo (subject : String) : Change → Prop
  | .grant s _ => s = subject
  | .revoke .. => False

/-- The table after a change. -/
def apply (auth : AllowlistAuthorizer) : Change → AllowlistAuthorizer
  | .grant subject topics => auth.grant subject topics
  | .revoke subject topics => auth.revoke subject topics

/-- The table after some changes. -/
def run (auth : AllowlistAuthorizer) (changes : List Change) : AllowlistAuthorizer :=
  changes.foldl apply auth

theorem publicTopics_apply (auth : AllowlistAuthorizer) (c : Change) :
    (auth.apply c).publicTopics = auth.publicTopics := by
  cases c with
  | grant s ts => exact publicTopics_grant auth s ts
  | revoke s topics => exact publicTopics_revoke auth s topics

@[simp] theorem publicTopics_run (auth : AllowlistAuthorizer) (changes : List Change) :
    (auth.run changes).publicTopics = auth.publicTopics := by
  induction changes generalizing auth with
  | nil => rfl
  | cons c changes ih => exact (ih (auth.apply c)).trans (publicTopics_apply auth c)

/-- A subject's topics grow by grants to it only. -/
theorem held_apply_subset {c : Change} (h : ¬c.GrantsTo subject) : (auth.apply c).held subject ⊆ auth.held subject := by
  cases c with
  | grant s ts =>
    have hs : subject ≠ s := fun he => h he.symm
    rw [apply, held_grant, if_neg hs]
  | revoke s topics =>
    rw [apply, held_revoke]
    split
    · exact Set.sdiff_subset
    · exact subset_rfl

theorem held_run_subset {changes : List Change} (h : ∀ c ∈ changes, ¬c.GrantsTo subject) :
    (auth.run changes).held subject ⊆ auth.held subject := by
  induction changes generalizing auth with
  | nil => exact subset_rfl
  | cons c changes ih =>
    have hc : ¬c.GrantsTo subject := h c (List.mem_cons_self ..)
    have hrest : ((auth.apply c).run changes).held subject ⊆ (auth.apply c).held subject :=
      ih fun c' hc' => h c' (List.mem_cons_of_mem c hc')
    exact hrest.trans (held_apply_subset hc)

/-! ## Revocation -/

/-- The subject is shut out of the topics that are not public: no subscription of it that holds one
    is delivered to, and it cannot subscribe to one. -/
def ShutOut (auth : AllowlistAuthorizer) (subject : String) (topics : Set String) : Prop :=
  ∀ t ∈ topics, t ∉ auth.publicTopics →
    (∀ sub : Subscription, sub.subscriberCardUrl = subject → t ∈ sub.topics → auth.authorizeDelivery sub = false) ∧
    ∀ (identity : AuthIdentity) (asked : List String), identity.subject = subject → t ∈ asked →
      ∃ e, auth.authorizeSubscribe (some identity) asked = .error e

theorem shutOut_iff (auth : AllowlistAuthorizer) (subject : String) (topics : Set String) :
    auth.ShutOut subject topics ↔
      ∀ t ∈ topics, t ∉ auth.publicTopics → "*" ∉ auth.held subject ∧ t ∉ auth.held subject := by
  constructor
  · intro h t ht hpub
    by_contra hheld
    -- a subject that is allowed the topic can subscribe to it alone
    have hallowed : auth.allowed (some subject) t = true := by
      rw [allowed_iff]
      tauto
    obtain ⟨e, he⟩ := (h t ht hpub).2 ⟨subject⟩ [t] rfl (List.mem_singleton_self t)
    rw [authorizeSubscribe_ok (by simpa using hallowed)] at he
    cases he
  · intro h t ht hpub
    obtain ⟨hstar, hheld⟩ := h t ht hpub
    have hna : auth.allowed (some subject) t = false := by
      rw [Bool.eq_false_iff, ne_eq, allowed_iff]
      tauto
    constructor
    · intro sub hsub htopic
      exact authorizeDelivery_false htopic (by rw [hsub]; exact hna)
    · intro identity asked hid htopic
      exact authorizeSubscribe_raises htopic (by rw [hid]; exact hna)

/-- A revocation shuts its subject out, from then on and until the next grant to it, exactly if
    it leaves the subject without `"*"`, or all topics that it names are public. -/
theorem revoke_lasts_iff (auth : AllowlistAuthorizer) (changes : List Change) (subject : String)
    (topics : Option (List String)) :
    (∀ later : List Change, (∀ c ∈ later, ¬c.GrantsTo subject) →
      (((auth.run changes).revoke subject topics).run later).ShutOut subject (withdrawn topics)) ↔
    "*" ∉ (auth.run changes).held subject ∨ "*" ∈ withdrawn topics ∨
      ∀ t ∈ withdrawn topics, t ∈ auth.publicTopics := by
  have hheld : ((auth.run changes).revoke subject topics).held subject =
      (auth.run changes).held subject \ withdrawn topics := by
    rw [held_revoke, if_pos rfl]
  constructor
  · intro h
    by_contra hcond
    simp only [not_or, not_forall, not_not] at hcond
    obtain ⟨hstar, hkept, t, ht, hpub⟩ := hcond
    -- already right after the revocation, `"*"` is still there
    have hnow := (shutOut_iff _ _ _).mp (h [] (by simp)) t ht
      (by rw [publicTopics_run, publicTopics_revoke, publicTopics_run]; exact hpub)
    apply hnow.1
    show "*" ∈ ((auth.run changes).revoke subject topics).held subject
    rw [hheld]
    exact ⟨hstar, hkept⟩
  · intro hcond later hlater
    rw [shutOut_iff]
    intro t ht hpub
    have hsub : (((auth.run changes).revoke subject topics).run later).held subject ⊆
        ((auth.run changes).revoke subject topics).held subject := held_run_subset hlater
    rw [hheld] at hsub
    rw [publicTopics_run, publicTopics_revoke, publicTopics_run] at hpub
    constructor
    · intro hstar
      have hfound := hsub hstar
      rcases hcond with h | h | h
      · exact h hfound.1
      · exact hfound.2 h
      · exact hpub (h t ht)
    · intro hin
      exact (hsub hin).2 ht

/-- A subject that was granted everything keeps a topic that is withdrawn from it. -/
theorem star_outlasts_revoke :
    ¬((({} : AllowlistAuthorizer).run
      [.grant "https://sub.example/card.json" ["*"], .revoke "https://sub.example/card.json" (some ["orders.created"])])
      ).ShutOut "https://sub.example/card.json" (withdrawn (some ["orders.created"])) := by
  intro h
  obtain ⟨e, he⟩ := (h "orders.created" (List.mem_singleton_self _) (by decide)).2
    ⟨"https://sub.example/card.json"⟩ ["orders.created"] rfl (List.mem_singleton_self _)
  rw [authorizeSubscribe_ok (by decide)] at he
  cases he

end AllowlistAuthorizer

end A2AEvents

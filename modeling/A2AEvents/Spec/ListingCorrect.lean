import A2AEvents.Spec.ListingEvaluation
import A2AEvents.Spec.PaginationCorrect
import A2AEvents.Spec.Runs

/-!
# Walks through the subscriptions

A client fetches the subscriptions page by page while other calls go on. Rows never leave the store
and never change their place in it, so the fetches find lists that agree in their order: no
subscription comes twice, and one that is there all the time is missed only behind a lost place.

## Key results

- `rowsGrow_exec`: every call keeps the rows of the store in place
- `listing_stable`: no subscription comes twice, and none is missed unless a fetch loses its place
-/

namespace A2AEvents

open Async Publisher

variable {cfg : PublisherConfig} {fuel : Nat}

/-! ## Rows stay in place -/

/-- The rows of one world are among those of another: new ones come at the end, and what identifies
    a row stays. -/
structure World.RowsGrow (w w' : World) : Prop where
  backend : w'.subs.backend = w.subs.backend
  keyed : w'.Keyed
  keys : w.subs.rows.keys <+: w'.subs.rows.keys
  rows : ∀ id row, w.subs.rows.get? id = some row → ∃ row', w'.subs.rows.get? id = some row' ∧ row'.Alike row

section

variable {w w' w'' : World}

theorem World.Keyed.rowsGrow_refl (hk : w.Keyed) : w.RowsGrow w :=
  ⟨rfl, hk, List.prefix_rfl, fun _ row h => ⟨row, h, .refl row⟩⟩

theorem World.RowsGrow.trans (h : w.RowsGrow w') (h' : w'.RowsGrow w'') : w.RowsGrow w'' := by
  refine ⟨h'.backend.trans h.backend, h'.keyed, h.keys.trans h'.keys, fun id row hrow => ?_⟩
  obtain ⟨row', hrow', halike⟩ := h.rows id row hrow
  obtain ⟨row'', hrow'', halike'⟩ := h'.rows id row' hrow'
  exact ⟨row'', hrow'', halike'.trans halike⟩

theorem World.Keyed.rowsGrow_of_eq (hk : w.Keyed) (hrows : w'.subs.rows = w.subs.rows)
    (hbackend : w'.subs.backend = w.subs.backend) : w.RowsGrow w' := by
  have hkeys : w'.subs.rows.keys = w.subs.rows.keys := congrArg Dict.keys hrows
  refine ⟨hbackend, ?_, hkeys ▸ List.prefix_rfl, ?_⟩
  · intro id row h
    rw [hrows] at h
    exact hk id row h
  · rw [hrows]
    exact hk.rowsGrow_refl.rows

/-- The subscription has a row. -/
def World.Has (w : World) (id : String) : Prop := ∃ row, w.subs.rows.get? id = some row

theorem World.RowsGrow.has (h : w.RowsGrow w') {id : String} (hid : w.Has id) : w'.Has id := by
  obtain ⟨row, hrow⟩ := hid
  obtain ⟨row', hrow', -⟩ := h.rows id row hrow
  exact ⟨row', hrow'⟩

/-- A row is written: a new one, or one that stands for the same subscription. -/
theorem World.Keyed.rowsGrow_set (hk : w.Keyed) (row : Subscription)
    (hrow : ∀ old, w.subs.rows.get? row.subscriptionId = some old → row.Alike old)
    (hrows : w'.subs.rows = w.subs.rows.set row.subscriptionId row)
    (hbackend : w'.subs.backend = w.subs.backend) : w.RowsGrow w' := by
  refine ⟨hbackend, fun id r h => ?_, ?_, fun id r h => ?_⟩
  · rw [hrows, Dict.get?_set] at h
    split at h
    · rename_i hid
      cases h
      exact hid.symm
    · exact hk id r h
  · rw [hrows, Dict.keys_set]
    split
    · exact List.prefix_rfl
    · exact List.prefix_append _ _
  · rw [hrows, Dict.get?_set]
    split
    · rename_i hid
      subst hid
      exact ⟨row, rfl, hrow r h⟩
    · exact ⟨r, h, .refl r⟩

/-- Every call keeps the rows of the store in place. -/
theorem rowsGrow_exec {i : Nat} {o : Op} {c : Choice} {r : o.Res} (hk : w.Keyed)
    (hex : World.exec i o c w = some (r, w')) : w.RowsGrow w' := by
  cases o with
  | add sub highWater =>
    obtain ⟨hnone, rfl, rfl⟩ := World.add_of_exec hex
    refine hk.rowsGrow_set sub (fun old hold => ?_) rfl rfl
    rw [hnone] at hold
    cases hold
  | update h =>
    cases hex
    show w.RowsGrow { w with subs := (w.subs.update h).2 }
    unfold SubscriptionStore.update
    split
    · exact hk.rowsGrow_refl
    · split
      · exact hk.rowsGrow_refl
      · rename_i row hrow
        -- the mutable columns of the row are overwritten
        have hid : row.subscriptionId = h.sub.subscriptionId := hk _ row hrow
        refine hk.rowsGrow_set { row with
          status := h.sub.status, leaseUntil := h.sub.leaseUntil, cursors := h.sub.cursors } (fun old hold => ?_)
          (by rw [← hid]) rfl
        rw [show w.subs.rows.get? row.subscriptionId = some row by rw [hid]; exact hrow] at hold
        cases hold
        exact ⟨rfl, rfl, rfl, rfl, rfl, rfl⟩
  | assign h e =>
    cases hex
    show w.RowsGrow { w with subs := (w.subs.assign h e).2 }
    unfold SubscriptionStore.assign
    split
    · exact hk.rowsGrow_refl
    · split
      · rename_i row hrow
        -- the object is the row
        have halike := e.apply_alike row
        have hid : (e.apply row).subscriptionId = h.sub.subscriptionId := halike.subscriptionId.trans (hk _ row hrow)
        refine hk.rowsGrow_set (e.apply row) (fun old hold => ?_) (by rw [hid]) rfl
        rw [hid, hrow] at hold
        cases hold
        exact halike
      · exact hk.rowsGrow_refl
  | enqueue item =>
    obtain ⟨-, rfl⟩ := World.enqueue_of_exec hex
    exact hk.rowsGrow_of_eq rfl rfl
  | acquire id =>
    obtain ⟨-, rfl⟩ := World.acquire_of_exec hex
    exact hk.rowsGrow_of_eq rfl rfl
  | _ =>
    cases hex
    exact hk.rowsGrow_of_eq rfl rfl

/-- Runs and evaluations keep the rows of the store in place. -/
theorem rowsGrow_includes : Config.Includes (sem cfg fuel).traced fun s s' => s.state.Keyed → s.state.RowsGrow s'.state where
  refl s hk := hk.rowsGrow_refl
  trans h h' hk := (h hk).trans (h' (h hk).keyed)
  exec := by
    intro i o c s r s' hex hk
    obtain ⟨p, hp, heq⟩ := Option.map_eq_some_iff.mp hex
    cases heq
    exact rowsGrow_exec hk hp
  env := by
    intro e s s' henv hk
    obtain ⟨w, hw, rfl⟩ := Option.map_eq_some_iff.mp henv
    obtain ⟨clock, authorizer, -, rfl⟩ := World.env_cases hw
    exact hk.rowsGrow_of_eq rfl rfl
  restart s hk := hk.rowsGrow_of_eq rfl rfl

theorem Evals.rowsGrow {α : Type} {reply : Nat → Choice} {i : Nat} {p : M α} {res : Except PyError α}
    {s s' : Snapshot cfg fuel} (h : Evals reply i p s res s') (hk : s.state.Keyed) : s.state.RowsGrow s'.state :=
  Eval.invariant (P := fun s' : Snapshot cfg fuel => s.state.RowsGrow s'.state)
    (fun hs _ hex => hs.trans (rowsGrow_includes.exec hex hs.keyed)) h hk.rowsGrow_refl

/-! ## The order of a listing -/

namespace World

/-- The subscription is there and not deleted. -/
def Lists (w : World) (id : String) : Prop :=
  ∃ row, w.subs.rows.get? id = some row ∧ row.status ≠ .deleted

/-- The ids that a listing returns. -/
def ids (w : World) : List String := w.listed.map fun h => h.sub.subscriptionId

/-- When a subscription was created. -/
def created (w : World) (id : String) : Time :=
  match w.subs.rows.get? id with
  | some row => row.createdAt
  | none => 0

/-- The listing order of the store. -/
def Before (w : World) (a b : String) : Prop :=
  match w.subs.backend with
  | .live => w.subs.rows.keys.idxOf a < w.subs.rows.keys.idxOf b
  | .copies => w.created a < w.created b ∨ (w.created a = w.created b ∧ a < b)

instance (w : World) : IsStrictOrder String w.Before where
  irrefl a := by
    unfold Before
    cases w.subs.backend with
    | live => exact Nat.lt_irrefl _
    | copies =>
      rintro (h | ⟨-, h⟩)
      · exact Int.lt_irrefl _ h
      · exact lt_irrefl _ h
  trans a b c := by
    unfold Before
    cases w.subs.backend with
    | live => exact Nat.lt_trans
    | copies =>
      rintro (hab | ⟨hab, hab'⟩) (hbc | ⟨hbc, hbc'⟩)
      · exact .inl (Int.lt_trans hab hbc)
      · exact .inl (hbc ▸ hab)
      · exact .inl (hab ▸ hbc)
      · exact .inr ⟨hab.trans hbc, lt_trans hab' hbc'⟩

end World

instance : Std.Total SubscriptionStore.rowLe where
  total a b := by
    unfold SubscriptionStore.rowLe
    rcases Int.lt_trichotomy a.createdAt b.createdAt with h | h | h
    · exact .inl (.inl h)
    · rcases le_total a.subscriptionId b.subscriptionId with h' | h'
      · exact .inl (.inr ⟨h, h'⟩)
      · exact .inr (.inr ⟨h.symm, h'⟩)
    · exact .inr (.inl h)

instance : IsTrans Subscription SubscriptionStore.rowLe where
  trans a b c := by
    unfold SubscriptionStore.rowLe
    rintro (hab | ⟨hab, hab'⟩) (hbc | ⟨hbc, hbc'⟩)
    · exact .inl (Int.lt_trans hab hbc)
    · exact .inl (hbc ▸ hab)
    · exact .inl (hab ▸ hbc)
    · exact .inr ⟨hab.trans hbc, le_trans hab' hbc'⟩

private theorem pairwise_idxOf {l : List String} (h : l.Nodup) :
    l.Pairwise fun a b => l.idxOf a < l.idxOf b := by
  rw [List.pairwise_iff_getElem]
  intro i j hi hj hlt
  rwa [h.idxOf_getElem i hi, h.idxOf_getElem j hj]

variable {w wf : World} {id : String}

theorem World.RowsGrow.created (h : w.RowsGrow wf) {row : Subscription} (hrow : w.subs.rows.get? id = some row) :
    wf.created id = row.createdAt := by
  obtain ⟨row', hrow', halike⟩ := h.rows id row hrow
  rw [World.created, hrow']
  exact halike.createdAt

/-- All rows in listing order, whatever rows were added since. -/
theorem World.RowsGrow.listAll_sorted (h : w.RowsGrow wf) (hk : w.Keyed) :
    (w.subs.listAll.map fun h => h.sub.subscriptionId).Pairwise wf.Before := by
  have hids := hk.listAll_ids
  unfold World.Before
  rw [h.backend]
  cases hb : w.subs.backend with
  | live =>
    have hkeys : (w.subs.listAll.map fun h => h.sub.subscriptionId) = w.subs.rows.keys := by
      simp only [SubscriptionStore.listAll, hb, List.map_map, Dict.values, Dict.keys]
      refine List.map_congr_left fun e he => ?_
      exact hk e.1 e.2 (Dict.mem_entries_iff.mp he)
    rw [hkeys]
    exact (pairwise_idxOf wf.subs.rows.nodup).sublist h.keys.sublist
  | copies =>
    have hnodup := hids.nodup_iff.mpr w.subs.rows.nodup
    simp only [SubscriptionStore.listAll, hb, List.map_map] at hnodup ⊢
    rw [List.pairwise_map]
    have hsorted := List.pairwise_insertionSort SubscriptionStore.rowLe w.subs.rows.values
    refine (hsorted.and (List.pairwise_map.mp hnodup)).imp_of_mem ?_
    rintro a b ha hb ⟨hle, hne⟩
    have hrow : ∀ {r}, r ∈ w.subs.rows.values.insertionSort SubscriptionStore.rowLe →
        wf.created r.subscriptionId = r.createdAt := by
      intro r hr
      obtain ⟨id, hid⟩ := Dict.mem_values_iff.mp ((List.perm_insertionSort _ _).mem_iff.mp hr)
      rw [hk id r hid]
      exact h.created hid
    show wf.created a.subscriptionId < wf.created b.subscriptionId ∨
      (wf.created a.subscriptionId = wf.created b.subscriptionId ∧ a.subscriptionId < b.subscriptionId)
    rw [hrow ha, hrow hb]
    exact hle.imp_right fun hle => ⟨hle.1, lt_of_le_of_ne hle.2 hne⟩

private theorem World.ids_sublist (w : World) :
    w.ids.Sublist (w.subs.listAll.map fun h => h.sub.subscriptionId) := by
  have hsub := (List.filter_sublist (p := fun h : Handle => h.sub.status ≠ .deleted)
    (l := w.subs.listAll.map fun h => ⟨h.sub.lookedAt w.clock, h.sub.lookedAt w.clock⟩)).map
      fun h : Handle => h.sub.subscriptionId
  rwa [List.map_map, show ((fun h : Handle => h.sub.subscriptionId) ∘ fun h : Handle =>
    (⟨h.sub.lookedAt w.clock, h.sub.lookedAt w.clock⟩ : Handle)) = fun h => h.sub.subscriptionId from
      funext fun h => h.sub.lookedAt_subscriptionId w.clock] at hsub

theorem World.RowsGrow.ids_sorted (h : w.RowsGrow wf) (hk : w.Keyed) : w.ids.Pairwise wf.Before :=
  (h.listAll_sorted hk).sublist w.ids_sublist

/-- A listing returns what is there and not deleted. -/
theorem World.Keyed.mem_ids (hk : w.Keyed) : id ∈ w.ids ↔ w.Lists id := by
  simp only [World.ids, World.listed, List.mem_map, List.mem_filter, decide_eq_true_eq]
  constructor
  · rintro ⟨h, ⟨⟨h', hmem, rfl⟩, hstatus⟩, rfl⟩
    refine ⟨h'.sub, ?_, fun hdeleted => hstatus ((h'.sub.lookedAt_status_eq_deleted w.clock).mpr hdeleted)⟩
    rw [Subscription.lookedAt_subscriptionId]
    exact (hk.listAll_held hmem).row
  · rintro ⟨row, hrow, hstatus⟩
    have hvalue := w.subs.listAll_perm.mem_iff.mpr (Dict.mem_values_iff.mpr ⟨id, hrow⟩)
    obtain ⟨h, hmem, rfl⟩ := List.mem_map.mp hvalue
    refine ⟨_, ⟨⟨h, hmem, rfl⟩, fun hdeleted => ?_⟩, ?_⟩
    · exact hstatus ((h.sub.lookedAt_status_eq_deleted w.clock).mp hdeleted)
    · rw [Subscription.lookedAt_subscriptionId]
      exact hk id h.sub hrow

end

/-! ## Walks -/

/-- What happens between two fetches: some calls run for a while, as tasks of a pool, and `P` holds
    all along. -/
def Between (P : World → Prop) (s s' : Snapshot cfg fuel) : Prop :=
  ∃ c c' : Run.Config cfg fuel, c.state = s ∧ c'.state = s' ∧
    Config.Run (fun (d : Run.Config cfg fuel) _ => P d.state.state) c c' ∧ P s'.state

/-- A page with the world that its fetch found. -/
structure Fetch where
  found : World
  page : List Subscription

/-- Fetches that follow the tokens they are given to the end, with other calls between them. `P` holds
    from before the first until after the last. -/
inductive ListingWalk (cfg : PublisherConfig) {fuel : Nat} (limit : Option Int) (P : World → Prop) :
    Option String → Snapshot cfg fuel → List Fetch → Prop where
  | last {reply : Nat → Choice} {i : Nat} {token : Option String} {s s' : Snapshot cfg fuel}
    {page : List Subscription} (hbefore : P s.state)
    (hfetch : Evals reply i (paginateSubscriptions cfg token limit) s (.ok (page, none)) s') (hafter : P s'.state) :
    ListingWalk cfg limit P token s [⟨s.state, page⟩]
  | more {reply : Nat → Choice} {i : Nat} {token : Option String} {s s' s'' : Snapshot cfg fuel}
    {page : List Subscription} {next : String} {fetches : List Fetch} (hbefore : P s.state)
    (hfetch : Evals reply i (paginateSubscriptions cfg token limit) s (.ok (page, some next)) s')
    (hbetween : Between P s' s'') (hrest : ListingWalk cfg limit P (some next) s'' fetches) :
    ListingWalk cfg limit P token s (⟨s.state, page⟩ :: fetches)

/-- The ids of a page. -/
def Fetch.ids (f : Fetch) : List String := f.page.map Subscription.subscriptionId

/-- The subscription that ends a page is still there when the next page is fetched. -/
def KeepsPlace : List Fetch → Prop
  | a :: b :: rest => (∀ id, a.ids.getLast? = some id → b.found.Lists id) ∧ KeepsPlace (b :: rest)
  | _ => True

section

variable {reply : Nat → Choice} {i n : Nat} {s s' : Snapshot cfg fuel} {limit : Option Int} {P : World → Prop}

/-- A fetch returns a page of the ids that a listing returns. -/
theorem paginateSubscriptions_keyset (hk : s.state.Keyed) (hn : pageLimit cfg limit = n) (hpos : 0 < n)
    (after : Option String) {page : List Subscription} {next : Option String}
    (hfetch : Evals reply i (paginateSubscriptions cfg (after.map encodePageToken) limit) s (.ok (page, next)) s') :
    page.map Subscription.subscriptionId = Keyset.page n after s.state.ids ∧
      next = (Keyset.next n after s.state.ids).map encodePageToken := by
  obtain ⟨s₁, rows, hlist, -⟩ := listSubscriptions_eval reply i hk
  obtain ⟨hs, s₂, hlist', hpaginate⟩ := Eval.bind_ok.mp hfetch
  obtain ⟨hlisted, rfl⟩ := Evals.det hlist hlist'
  cases hlisted
  obtain ⟨hresult, -⟩ := Eval.lift_iff.mp hpaginate
  obtain ⟨page', hpage, hids, -⟩ := paginate_keyset Subscription.subscriptionId (s.state.listed.map Handle.sub) after hpos
  rw [hn, hpage] at hresult
  cases hresult
  rw [List.map_map] at hids
  refine ⟨hids, ?_⟩
  rw [List.map_map]
  rfl

/-- A walk through the subscriptions is a keyset walk through their ids. -/
theorem ListingWalk.keyset {token : Option String} {fetches : List Fetch}
    (hw : ListingWalk cfg limit P token s fetches) (hn : pageLimit cfg limit = n) (hpos : 0 < n) :
    ∀ {after : Option String}, token = after.map encodePageToken → s.state.Keyed →
      Keyset.Walk n after (fetches.map fun f => f.found.ids) ∧
      fetches.map Fetch.ids = Keyset.pages n after (fetches.map fun f => f.found.ids) ∧
      (∃ wf : World, s.state.RowsGrow wf ∧ ∀ f ∈ fetches, f.found.Keyed ∧ f.found.RowsGrow wf) ∧
      (KeepsPlace fetches → (∀ a, after = some a → s.state.Lists a) →
        Keyset.KeepsPlace n after (fetches.map fun f => f.found.ids)) ∧
      ∀ f ∈ fetches, P f.found := by
  induction hw with
  | @last reply i token s s' page hbefore hfetch hafter =>
    rintro after rfl hk
    obtain ⟨hids, hnext⟩ := paginateSubscriptions_keyset hk hn hpos after hfetch
    refine ⟨.last (Option.map_eq_none_iff.mp hnext.symm), ?_, ⟨s.state, hk.rowsGrow_refl, ?_⟩, ?_, ?_⟩
    · simpa [Keyset.pages, Fetch.ids] using hids
    · simpa using ⟨hk, hk.rowsGrow_refl⟩
    · exact fun _ hplace => ⟨fun a ha => hk.mem_ids.mpr (hplace a ha), trivial⟩
    · simpa using hbefore
  | @more reply i token s s' s'' page next fetches hbefore hfetch hbetween hrest ih =>
    rintro after rfl hk
    obtain ⟨hids, hnext⟩ := paginateSubscriptions_keyset hk hn hpos after hfetch
    obtain ⟨a, ha, rfl⟩ := Option.map_eq_some_iff.mp hnext.symm
    have hfetched := hfetch.rowsGrow hk
    obtain ⟨c, c', rfl, rfl, hrun, -⟩ := hbetween
    have hgrow := hfetched.trans (rowsGrow_includes.run hrun hfetched.keyed)
    obtain ⟨hwalk, hpages, ⟨wf, hwf, hfound⟩, hkeeps, hP⟩ := ih (show _ = Option.map encodePageToken (some a) from rfl) hgrow.keyed
    refine ⟨.more ha hwalk, ?_, ⟨wf, hgrow.trans hwf, ?_⟩, ?_, ?_⟩
    · rw [List.map_cons, List.map_cons, Keyset.pages, ha, hpages]
      exact congrArg (· :: _) hids
    · intro f hf
      rcases List.mem_cons.mp hf with rfl | hf
      · exact ⟨hk, hgrow.trans hwf⟩
      · exact hfound f hf
    · intro hplace hafter
      refine ⟨fun b hb => hk.mem_ids.mpr (hafter b hb), ?_⟩
      rw [ha]
      -- the next fetch finds the state that the calls between left
      have hfirst : ∃ f rest, fetches = f :: rest ∧ f.found = c'.state.state := by
        cases hrest with
        | last => exact ⟨_, _, rfl, rfl⟩
        | more => exact ⟨_, _, rfl, rfl⟩
      obtain ⟨f, rest, rfl, hf⟩ := hfirst
      refine hkeeps hplace.2 fun b hb => ?_
      cases hb
      rw [← hf]
      refine hplace.1 a ?_
      obtain ⟨before, hpage⟩ := Keyset.page_of_next ha
      rw [Fetch.ids, hids, hpage, List.getLast?_concat]
    · intro f hf
      rcases List.mem_cons.mp hf with rfl | hf
      · exact hbefore
      · exact hP f hf

end

/-- The ids of all pages of a walk. -/
def walkedIds (fetches : List Fetch) : List String := fetches.flatMap Fetch.ids

/-- No subscription is on two pages, and one that is there all the time is on a page unless the
    subscription that ends a page is gone when the next page is fetched. -/
theorem listing_stable {backend : Backend} {clock : Time} {authorizer : Option AllowlistAuthorizer} {limit : Option Int}
    {P : World → Prop} {s : Snapshot cfg fuel} {fetches : List Fetch} (hsize : 1 ≤ pageLimit cfg limit)
    (hreached : Between (fun _ => True) (initial cfg fuel backend clock authorizer).state s)
    (hwalk : ListingWalk cfg limit P none s fetches) :
    (walkedIds fetches).Nodup ∧
      (KeepsPlace fetches → ∀ id, (∀ w, P w → w.Lists id) → id ∈ walkedIds fetches) := by
  obtain ⟨n, hn⟩ : ∃ n : Nat, pageLimit cfg limit = n := ⟨_, (Int.toNat_of_nonneg (by omega)).symm⟩
  obtain ⟨c, c', hc, rfl, hrun, -⟩ := hreached
  have hempty : c.state.state.Keyed := by
    rw [hc]
    intro id row h
    cases h
  have hk : c'.state.state.Keyed := (rowsGrow_includes.run hrun hempty).keyed
  have hpos : 0 < n := by omega
  obtain ⟨hkeyset, hpages, ⟨wf, -, hfound⟩, hkeeps, hP⟩ := hwalk.keyset hn hpos (show _ = Option.map encodePageToken none from rfl) hk
  have hsorted : ∀ items ∈ fetches.map (fun f => f.found.ids), items.Pairwise wf.Before := by
    intro items hitems
    obtain ⟨f, hf, rfl⟩ := List.mem_map.mp hitems
    exact (hfound f hf).2.ids_sorted (hfound f hf).1
  rw [walkedIds, List.flatMap_def, hpages]
  refine ⟨hkeyset.nodup hsorted, fun hplace id hid => ?_⟩
  refine hkeyset.mem_pages hpos hsorted (hkeeps hplace fun a ha => by cases ha) (fun items hitems => ?_) fun a ha => by cases ha
  obtain ⟨f, hf, rfl⟩ := List.mem_map.mp hitems
  exact (hfound f hf).1.mem_ids.mpr (hid _ (hP f hf))

/-! ## Walks that are computed -/

/-- A walk whose calls between the fetches follow schedules. -/
def walk? (cfg : PublisherConfig) {fuel : Nat} (limit : Option Int) (test : World → Bool) :
    Option String → Snapshot cfg fuel → List (List (Action (sem cfg fuel).traced)) → Option (List Fetch)
  | token, s, [] =>
    match Eval.run? (sem cfg fuel).traced 0 {} (paginateSubscriptions cfg token limit) s with
    | some (.ok (page, none), s') => if test s.state && test s'.state then some [⟨s.state, page⟩] else none
    | _ => none
  | token, s, acts :: rest =>
    match Eval.run? (sem cfg fuel).traced 0 {} (paginateSubscriptions cfg token limit) s with
    | some (.ok (page, some next), s') =>
      match Config.runsWith (fun (d : Run.Config cfg fuel) _ => test d.state.state) ⟨s', [], []⟩ acts with
      | some c =>
        if test s.state && test c.state.state then
          (walk? cfg limit test (some next) c.state rest).map (⟨s.state, page⟩ :: ·)
        else none
      | none => none
    | _ => none

theorem ListingWalk.of_walk? {limit : Option Int} {test : World → Bool}
    {schedules : List (List (Action (sem cfg fuel).traced))} :
    ∀ {token : Option String} {s : Snapshot cfg fuel} {fetches : List Fetch},
      walk? cfg limit test token s schedules = some fetches →
        ListingWalk cfg limit (fun w => test w = true) token s fetches := by
  have hevals : ∀ {token : Option String} {s s' : Snapshot cfg fuel} {res},
      Eval.run? (sem cfg fuel).traced 0 {} (paginateSubscriptions cfg token limit) s = some (res, s') →
        Evals (fun _ => {}) 0 (paginateSubscriptions cfg token limit) s res s' := Eval.of_run?
  induction schedules with
  | nil =>
    intro token s fetches h
    unfold walk? at h
    split at h
    · rename_i page s' hfetch
      split at h
      · rename_i htest
        obtain ⟨hbefore, hafter⟩ := Bool.and_eq_true_iff.mp htest
        cases h
        exact .last hbefore (hevals hfetch) hafter
      · cases h
    · cases h
  | cons acts rest ih =>
    intro token s fetches h
    unfold walk? at h
    split at h
    · rename_i page next s' hfetch
      split at h
      · rename_i c hrun
        split at h
        · rename_i htest
          obtain ⟨hbefore, hafter⟩ := Bool.and_eq_true_iff.mp htest
          obtain ⟨fetches', hrest, rfl⟩ := Option.map_eq_some_iff.mp h
          have hbetween : Between (fun w => test w = true) s' c.state :=
            ⟨⟨s', [], []⟩, c, rfl, rfl, .of_runsWith (fun _ _ h => h) hrun, hafter⟩
          exact .more hbefore (hevals hfetch) hbetween (ih hrest)
        · cases h
      · cases h
    · cases h

/-- A walk after some calls, one subscription being there all the time. -/
theorem ListingWalk.of_schedules {limit : Option Int} {acts : List (Action (sem cfg fuel).traced)}
    {schedules : List (List (Action (sem cfg fuel).traced))} {test : World → Bool} {check : List Fetch → Bool}
    (h : ((initial cfg fuel .live 0 none).runsWith (fun _ _ => true) acts).any (fun c =>
      (walk? cfg limit test none c.state schedules).any check) = true) :
    ∃ (s : Snapshot cfg fuel) (fetches : List Fetch),
      Between (fun _ => True) (initial cfg fuel .live 0 none).state s ∧
        ListingWalk cfg limit (fun w => test w = true) none s fetches ∧ check fetches = true := by
  obtain ⟨c, hrun, hwalk⟩ := Config.Run.of_any h
  obtain ⟨fetches, hfetches, hcheck⟩ := Option.any_eq_true _ _ |>.mp hwalk
  exact ⟨c.state, fetches, ⟨_, c, rfl, rfl, hrun.mono fun _ _ _ => trivial, trivial⟩, .of_walk? hfetches, hcheck⟩

/-- Whether a subscription is there and not deleted. -/
def World.lists (id : String) (w : World) : Bool :=
  match w.subs.rows.get? id with
  | some row => row.status ≠ .deleted
  | none => false

theorem World.lists_iff {id : String} {w : World} : w.lists id = true ↔ w.Lists id := by
  unfold World.lists World.Lists
  cases w.subs.rows.get? id with
  | none => simp
  | some row => simp

namespace Sample

/-- Two subscriptions, `sub_0` and `sub_1`. -/
def subscribedTwice {cfg : PublisherConfig} {fuel : Nat} : List (Action (sem cfg fuel).traced) :=
  subscribed ++ call 2 (.subscribe subscription) 6

end Sample

/-- Pages of one subscription each, the second of which ends its lease on time. -/
theorem listing_stable_sample : ∃ fetches : List Fetch, fetches.map Fetch.ids = [["sub_0"], ["sub_1"]] ∧
    (walkedIds fetches).Nodup ∧
      (KeepsPlace fetches → ∀ id, (∀ w : World, w.lists "sub_1" = true → w.Lists id) → id ∈ walkedIds fetches) := by
  have hsteps : ((initial Sample.config 2 .live 0 none).runsWith (fun _ _ => true) Sample.subscribedTwice).any (fun c =>
      (walk? Sample.config (some 1) (World.lists "sub_1") none c.state
        [.env (.tick 1) :: Sample.call 0 (.renew "sub_1" 3600) 2]).any fun fetches =>
          fetches.map Fetch.ids = [["sub_0"], ["sub_1"]]) = true := by
    decide +kernel
  obtain ⟨s, fetches, hreached, hwalk, hids⟩ := ListingWalk.of_schedules hsteps
  exact ⟨fetches, of_decide_eq_true hids, listing_stable (by decide) hreached hwalk⟩

/-- The subscription that ends the first page is deleted before the second is fetched: the second is empty,
    and the subscription behind it is on no page. -/
theorem deleted_place_hides_subscription : ∃ (s : Snapshot Sample.config 2) (fetches : List Fetch),
    Between (fun _ => True) (initial Sample.config 2 .live 0 none).state s ∧
      ListingWalk Sample.config (some 1) (fun w => w.Lists "sub_1") none s fetches ∧
        "sub_1" ∉ walkedIds fetches := by
  have hsteps : ((initial Sample.config 2 .live 0 none).runsWith (fun _ _ => true) Sample.subscribedTwice).any (fun c =>
      (walk? Sample.config (some 1) (World.lists "sub_1") none c.state [Sample.call 0 (.delete "sub_0") 2]).any
        fun fetches => "sub_1" ∉ walkedIds fetches) = true := by
    decide +kernel
  obtain ⟨s, fetches, hreached, hwalk, hmissing⟩ := ListingWalk.of_schedules hsteps
  have htest : (fun w => World.lists "sub_1" w = true) = fun w : World => w.Lists "sub_1" :=
    funext fun w => propext World.lists_iff
  rw [htest] at hwalk
  exact ⟨s, fetches, hreached, hwalk, of_decide_eq_true hmissing⟩

end A2AEvents

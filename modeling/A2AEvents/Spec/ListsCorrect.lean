import A2AEvents.ForStd.PageWalk
import A2AEvents.Spec.ListingEvaluation
import A2AEvents.Spec.PaginationCorrect
import A2AEvents.Spec.Runs

/-!
# Walks through a list

A client fetches an unchanged list page by page. The size of the pages is the client's, and it is not
checked. With a positive size the pages are the list, cut into pieces. With a negative one a page
ends that many items before the end of the list, so the walk never gets to the last items.

## Key results

- `paginateSubscriptions_eval`, `listDeliveryAttempts_eval`: what the two endpoints page through
- `walks_iff`: the pages put together are the list exactly if it is empty or the size is positive
-/

namespace A2AEvents

open Async Publisher

/-! ## The lists -/

section

variable {cfg : PublisherConfig} {fuel : Nat} {s s' : Snapshot cfg fuel}

/-- `ListSubscriptions` pages through what is not deleted. -/
theorem paginateSubscriptions_eval (reply : Nat → Choice) (i : Nat) (hk : s.state.Keyed)
    (pageToken : Option String) (limit : Option Int) :
    ∃ s', Evals reply i (paginateSubscriptions cfg pageToken limit) s
      (paginate (s.state.listed.map Handle.sub) Subscription.subscriptionId pageToken (pageLimit cfg limit)) s' := by
  obtain ⟨s', -, hlist, -⟩ := listSubscriptions_eval reply i hk
  exact ⟨s', hlist.bind (Eval.lift_iff.mpr ⟨rfl, rfl⟩)⟩

/-- `ListDeliveryAttempts` pages through the attempts of a subscription that is there. -/
theorem listDeliveryAttempts_eval {reply : Nat → Choice} {i : Nat} {subscriptionId : String} {h : Handle}
    (hsub : Evals reply i (getSubscription subscriptionId) s (.ok h) s') (store : SubscriptionStore)
    (pageToken : Option String) (limit : Option Int) :
    Evals reply i (listDeliveryAttempts cfg store subscriptionId pageToken limit) s
      (paginate (store.deliveryAttempts subscriptionId) DeliveryAttempt.deliveryAttemptId pageToken
        (pageLimit cfg limit)) s' :=
  hsub.bind (Eval.lift_iff.mpr ⟨rfl, rfl⟩)

end

/-- Following the tokens from the first page ends, and the pages put together are `items`. -/
def Walks {α : Type} (items : List α) (fetch : Option String → Except PyError (List α × Option String)) : Prop :=
  ∃ pages, PageWalk fetch none pages ∧ pages.flatten = items

/-- The page of this token begins at `start`. -/
def Begins {α : Type} (items : List α) (key : α → String) (token : Option String) (start : Nat) : Prop :=
  ∃ after, decodePageToken token = .ok after ∧ startAfter items key after = start

section

variable {α : Type} {items : List α} {key : α → String} {token : Option String} {start : Nat} {size : Int}

/-! ## Slices -/

theorem pySlice_of_nonneg (items : List α) (start n : Nat) :
    pySlice items start (start + (n : Int)) = (items.drop start).take n := by
  rw [pySlice, if_neg (by omega)]
  show (items.drop start).take (((start : Int) + n).toNat - start) = _
  rw [show ((start : Int) + n).toNat - start = n by omega]

/-- A page of a size that is not positive ends before the last item. -/
theorem pySlice_length_lt (hstart : start < items.length) (hsize : size ≤ 0) :
    start + (pySlice items start (start + size)).length < items.length := by
  rw [pySlice, List.length_take, List.length_drop]
  split <;> omega

/-- The last item of a slice, by its position. -/
theorem getLast?_pySlice {stop : Int} {last : α} (h : (pySlice items start stop).getLast? = some last) :
    items[start + (pySlice items start stop).length - 1]? = some last := by
  have hpos : 0 < (pySlice items start stop).length := by
    apply List.length_pos_iff.mpr
    intro hnil
    rw [hnil] at h
    cases h
  rw [List.getLast?_eq_getElem?, pySlice, List.getElem?_take_of_lt, List.getElem?_drop] at h
  · rw [← h, pySlice, Nat.add_sub_assoc]
    exact hpos
  · have hle := List.length_take_le (((if stop < 0 then (items.length + stop).toNat else stop.toNat)) - start)
      (items.drop start)
    rw [pySlice] at hpos
    omega

/-! ## Tokens -/

theorem begins_none (items : List α) (key : α → String) : Begins items key none 0 := ⟨none, rfl, rfl⟩

/-- The token of an item is read back as the place behind it. -/
theorem begins_token (hids : (items.map key).Nodup) {i : Nat} {item : α} (h : items[i]? = some item) :
    Begins items key (some (encodePageToken (key item))) (i + 1) := by
  refine ⟨_, decodePageToken_encodePageToken _, ?_⟩
  obtain ⟨hi, hitem⟩ := List.getElem?_eq_some_iff.mp h
  have hfind : (items.findIdx? fun x => JsonText.codePoints (key x) = JsonText.codePoints (key item)) = some i := by
    rw [List.findIdx?_eq_some_iff_getElem]
    refine ⟨hi, by rw [hitem]; exact decide_eq_true rfl, ?_⟩
    -- an earlier item has another id
    intro j hj hsame
    have hkey : key items[j] = key items[i] := by
      rw [hitem]
      exact codePoints_inj (of_decide_eq_true hsame)
    have hi' : i < (items.map key).length := by rwa [List.length_map]
    have hj' : j < (items.map key).length := Nat.lt_trans hj hi'
    have hsame' : (items.map key)[j] = (items.map key)[i] := by
      rw [List.getElem_map, List.getElem_map]
      exact hkey
    rw [hids.getElem_inj_iff] at hsame'
    omega
  rw [startAfter, hfind]

/-- The last page: it is empty, or the size covers what is left. -/
theorem paginate_last (h : Begins items key token start)
    (hend : pySlice items start (start + size) = [] ∨ items.length ≤ start + size) :
    paginate items key token size = .ok (pySlice items start (start + size), none) := by
  obtain ⟨after, hdecode, hstart⟩ := h
  simp only [paginate, hdecode, hstart]
  cases hlast : (pySlice items start (start + size)).getLast? with
  | none => rfl
  | some last =>
    have hle : items.length ≤ start + size := by
      rcases hend with hnil | hle
      · rw [hnil] at hlast
        cases hlast
      · exact hle
    have hno : ¬(start + size < items.length) := by omega
    simp only [if_neg hno]

/-- Any other page hands out the token of the place behind it. -/
theorem paginate_more (hids : (items.map key).Nodup) (h : Begins items key token start)
    (hne : pySlice items start (start + size) ≠ []) (hlt : start + size < items.length) :
    ∃ next, paginate items key token size = .ok (pySlice items start (start + size), some next) ∧
      Begins items key (some next) (start + (pySlice items start (start + size)).length) := by
  obtain ⟨after, hdecode, hstart⟩ := h
  have hlast := List.getLast?_eq_some_getLast hne
  have hpos := List.length_pos_iff.mpr hne
  have hbegins := begins_token hids (getLast?_pySlice hlast)
  rw [Nat.sub_add_cancel (by omega)] at hbegins
  refine ⟨_, ?_, hbegins⟩
  simp only [paginate, hdecode, hstart, hlast, if_pos hlt]

/-! ## Walks -/

/-- A walk with a size that is not positive does not get to the last item. -/
theorem walk_short (hids : (items.map key).Nodup) (hsize : size ≤ 0) {pages : List (List α)}
    (hwalk : PageWalk (fun token => paginate items key token size) token pages)
    (h : Begins items key token start) (hstart : start < items.length) :
    start + pages.flatten.length < items.length := by
  have hlt : start + size < items.length := by omega
  have hshort := pySlice_length_lt hstart hsize
  -- induction on the walk: every page ends before the last item, and so do those that follow
  induction hwalk generalizing start with
  | last hfetch =>
    by_cases hnil : pySlice items start (start + size) = []
    · rw [paginate_last h (.inl hnil)] at hfetch
      cases hfetch
      rw [List.flatten_singleton]
      exact hshort
    · obtain ⟨next, hpage, -⟩ := paginate_more hids h hnil hlt
      rw [hpage] at hfetch
      cases hfetch
  | more hfetch _ ih =>
    by_cases hnil : pySlice items start (start + size) = []
    · rw [paginate_last h (.inl hnil)] at hfetch
      cases hfetch
    · obtain ⟨next, hpage, hnext⟩ := paginate_more hids h hnil hlt
      rw [hpage] at hfetch
      cases hfetch
      have hrest := ih hnext hshort (by omega) (pySlice_length_lt hshort hsize)
      rw [List.flatten_cons, List.length_append]
      omega

/-- A walk with a positive size sees every item. -/
theorem walks_of_pos (hids : (items.map key).Nodup) (hsize : 0 < size) :
    Walks items fun token => paginate items key token size := by
  obtain ⟨n, rfl⟩ := Int.eq_ofNat_of_zero_le (Int.le_of_lt hsize)
  have hn : 0 < n := by omega
  let Ahead := fun (t : Option String) (rest : List α) => ∃ s, Begins items key t s ∧ rest = items.drop s
  have hlast : ∀ t rest, Ahead t rest → rest.length ≤ n → paginate items key t n = .ok (rest, none) := by
    rintro t rest ⟨s, hs, rfl⟩ hle
    rw [List.length_drop] at hle
    rw [paginate_last hs (.inr (by omega)), pySlice_of_nonneg, List.take_of_length_le]
    rw [List.length_drop]
    exact hle
  have hmore : ∀ t rest, Ahead t rest → n < rest.length →
      ∃ next, paginate items key t n = .ok (rest.take n, some next) ∧ Ahead (some next) (rest.drop n) := by
    rintro t rest ⟨s, hs, rfl⟩ hlt
    rw [List.length_drop] at hlt
    have hlen : ((items.drop s).take n).length = n := by
      rw [List.length_take, List.length_drop]
      omega
    have hne : pySlice items s (s + (n : Int)) ≠ [] := by
      rw [pySlice_of_nonneg]
      exact List.length_pos_iff.mp (by omega)
    obtain ⟨next, hpage, hnext⟩ := paginate_more hids hs hne (by omega)
    rw [pySlice_of_nonneg] at hpage hnext
    rw [hlen] at hnext
    exact ⟨next, hpage, s + n, hnext, List.drop_drop⟩
  obtain ⟨pages, hwalk, hflat, -⟩ := PageWalk.exists_of_ahead hn hlast hmore ⟨0, begins_none items key, rfl⟩
  exact ⟨pages, hwalk, hflat⟩

/-- The walk through a list of distinct ids sees every item once and in order, exactly if there is
    nothing to see or the size of the request, or the configured one, is positive. -/
theorem walks_iff (hids : (items.map key).Nodup) (cfg : PublisherConfig) (limit : Option Int) :
    (Walks items fun token => paginate items key token (pageLimit cfg limit)) ↔
      items = [] ∨ 0 < pageLimit cfg limit := by
  constructor
  · rintro ⟨pages, hwalk, hflat⟩
    by_contra hnot
    rw [not_or] at hnot
    have hpos := List.length_pos_iff.mpr hnot.1
    have hshort := walk_short hids (by omega) hwalk (begins_none items key) hpos
    rw [hflat] at hshort
    omega
  · rintro (rfl | hsize)
    · have hnil : ∀ stop, pySlice ([] : List α) 0 stop = [] := by simp [pySlice]
      have hpage := paginate_last (begins_none [] key) (.inl (hnil ((0 : Nat) + pageLimit cfg limit)))
      rw [hnil] at hpage
      exact ⟨[[]], .last hpage, rfl⟩
    · exact walks_of_pos hids hsize

end

theorem walks_iff_sample :
    (Walks ["a", "b", "c"] fun token => paginate ["a", "b", "c"] id token (pageLimit Sample.config (some 2))) ↔
      ["a", "b", "c"] = [] ∨ 0 < pageLimit Sample.config (some 2) :=
  walks_iff (by decide) Sample.config (some 2)

/-- With pages of size `-1`, the client is told after two of three items that there are no more. -/
theorem negative_page_size_loses_items :
    (PageWalk (fun token => paginate ["a", "b", "c"] id token (pageLimit Sample.config (some (-1)))) none
      [["a", "b"], []]) ∧
    ¬ Walks ["a", "b", "c"] fun token => paginate ["a", "b", "c"] id token (pageLimit Sample.config (some (-1))) := by
  have hsize : pageLimit Sample.config (some (-1)) = -1 := rfl
  rw [hsize]
  have hfirst : paginate ["a", "b", "c"] id none (-1) = .ok (["a", "b"], some (encodePageToken "b")) := rfl
  have hsecond : paginate ["a", "b", "c"] id (some (encodePageToken "b")) (-1) = .ok ([], none) := by
    rw [paginate, decodePageToken_encodePageToken]
    rfl
  have hwalk : PageWalk (fun token => paginate ["a", "b", "c"] id token (-1)) none [["a", "b"], []] :=
    .more hfirst (.last hsecond)
  refine ⟨hwalk, ?_⟩
  rintro ⟨pages, hpages, hflat⟩
  rw [hpages.unique hwalk] at hflat
  exact absurd hflat (by decide)

end A2AEvents

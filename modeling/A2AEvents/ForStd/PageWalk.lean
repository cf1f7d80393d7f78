import Mathlib.Data.List.Basic

/-!
# Following the tokens of pages

A listing returns a page and the token of the page after it, or no token with the last one. A
client follows the tokens. If every fetch takes the first `k` of what lies ahead of its token,
the walk ends, and its pages put together are what lay ahead of the first one.

## Key results

- `PageWalk.unique`: there is one walk only
- `PageWalk.exists_of_ahead`: the walk of a listing that takes what lies ahead
-/

variable {ε τ α : Type}

/-- The pages of a client who follows the tokens to the end. -/
inductive PageWalk (fetch : Option τ → Except ε (List α × Option τ)) : Option τ → List (List α) → Prop where
  | last {token : Option τ} {page : List α} (h : fetch token = .ok (page, none)) :
    PageWalk fetch token [page]
  | more {token : Option τ} {page : List α} {next : τ} {pages : List (List α)}
    (h : fetch token = .ok (page, some next)) (hrest : PageWalk fetch (some next) pages) :
    PageWalk fetch token (page :: pages)

namespace PageWalk

variable {fetch : Option τ → Except ε (List α × Option τ)} {token : Option τ}

/-- The listing decides every step of the walk. -/
theorem unique {pages pages' : List (List α)} (h : PageWalk fetch token pages)
    (h' : PageWalk fetch token pages') : pages = pages' := by
  induction h generalizing pages' with
  | last hlast =>
    cases h' with
    | last hlast' =>
      rw [hlast] at hlast'
      cases hlast'
      rfl
    | more hmore' _ =>
      rw [hlast] at hmore'
      cases hmore'
  | more hmore _ ih =>
    cases h' with
    | last hlast' =>
      rw [hmore] at hlast'
      cases hlast'
    | more hmore' hrest' =>
      rw [hmore] at hmore'
      cases hmore'
      rw [ih hrest']

/-- If every fetch takes the first `k` of what lies ahead of its token, and hands out a token exactly
    if that leaves something, the walk ends and has seen everything. -/
theorem exists_of_ahead {k : Nat} (hk : 0 < k) {Ahead : Option τ → List α → Prop}
    (hlast : ∀ t rest, Ahead t rest → rest.length ≤ k → fetch t = .ok (rest, none))
    (hmore : ∀ t rest, Ahead t rest → k < rest.length →
      ∃ next, fetch t = .ok (rest.take k, some next) ∧ Ahead (some next) (rest.drop k))
    {rest : List α} (h : Ahead token rest) :
    ∃ pages, PageWalk fetch token pages ∧ pages.flatten = rest ∧ ∀ page ∈ pages, page.length ≤ k := by
  generalize hn : rest.length = n
  -- every page but the last takes `k` items of those that remain
  induction n using Nat.strongRecOn generalizing token rest with
  | ind n ih =>
    by_cases hlen : rest.length ≤ k
    · refine ⟨[rest], .last (hlast token rest h hlen), by simp, ?_⟩
      intro page hpage
      rw [List.mem_singleton.mp hpage]
      exact hlen
    · obtain ⟨next, hfetch, hahead⟩ := hmore token rest h (Nat.not_le.mp hlen)
      have hshort : (rest.drop k).length < n := by
        rw [List.length_drop]
        omega
      obtain ⟨pages, hwalk, hflat, hpages⟩ := ih _ hshort hahead rfl
      refine ⟨rest.take k :: pages, .more hfetch hwalk, ?_, ?_⟩
      · rw [List.flatten_cons, hflat, List.take_append_drop]
      · intro page hpage
        rcases List.mem_cons.mp hpage with rfl | hpage
        · exact List.length_take_le _ _
        · exact hpages page hpage

end PageWalk

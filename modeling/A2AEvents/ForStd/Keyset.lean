import Mathlib.Data.List.Nodup
import Mathlib.Data.List.TakeWhile
import Mathlib.Order.Defs.Unbundled

/-!
# Keyset paging

A list is fetched in pages. Each fetch names the last item of the page before and starts behind it,
in the list as it is then. Items may come and go between fetches, as long as all lists are sorted
by one strict order.

## Key results

- `Walk.nodup`: no item comes twice
- `Walk.mem_pages`: an item that is always there comes once, if no fetch loses its place
-/

namespace Keyset

variable {ι : Type} [DecidableEq ι]

/-- What comes after an item; behind an item that is gone there is nothing. -/
def behind (after : Option ι) (items : List ι) : List ι :=
  match after with
  | none => items
  | some a => (items.dropWhile (· ≠ a)).drop 1

/-- The page of a fetch. -/
def page (n : Nat) (after : Option ι) (items : List ι) : List ι := (behind after items).take n

/-- The item that the next fetch names. -/
def next (n : Nat) (after : Option ι) (items : List ι) : Option ι :=
  if n < (behind after items).length then (page n after items).getLast? else none

/-- The lists that the fetches of a whole walk find. -/
inductive Walk (n : Nat) : Option ι → List (List ι) → Prop where
  | last {after : Option ι} {items : List ι} : next n after items = none → Walk n after [items]
  | more {after : Option ι} {items : List ι} {a : ι} {lists : List (List ι)} :
    next n after items = some a → Walk n (some a) lists → Walk n after (items :: lists)

/-- The pages of a walk. -/
def pages (n : Nat) : Option ι → List (List ι) → List (List ι)
  | _, [] => []
  | after, items :: lists => page n after items :: pages n (next n after items) lists

/-- No fetch loses its place: the item it names is still there. -/
def KeepsPlace (n : Nat) : Option ι → List (List ι) → Prop
  | _, [] => True
  | after, items :: lists => (∀ a, after = some a → a ∈ items) ∧ KeepsPlace n (next n after items) lists

section

variable {lt : ι → ι → Prop} {n : Nat} {after : Option ι} {items : List ι} {lists : List (List ι)} {x : ι}

theorem behind_sublist (after : Option ι) (items : List ι) : (behind after items).Sublist items := by
  cases after with
  | none => exact .refl _
  | some a => exact (List.drop_sublist _ _).trans (List.dropWhile_sublist _)

/-- An item splits a list that has it. -/
theorem behind_append {a : ι} {before rest : List ι} (h : a ∉ before) :
    behind (some a) (before ++ a :: rest) = rest := by
  rw [behind]
  have hbefore : ∀ b ∈ before, decide (b ≠ a) = true := fun b hb =>
    decide_eq_true fun heq => h (heq ▸ hb)
  rw [List.dropWhile_append_of_pos hbefore, List.dropWhile_cons_of_neg (by simp)]
  rfl

theorem behind_of_notMem {a : ι} (h : a ∉ items) : behind (some a) items = [] := by
  have hother : ∀ b ∈ items, decide (b ≠ a) = true := fun b hb =>
    decide_eq_true fun heq => h (heq ▸ hb)
  rw [behind, List.dropWhile_eq_nil_iff.mpr hother]
  rfl

/-- What comes after an item is greater. -/
theorem lt_of_mem_behind (hsorted : items.Pairwise lt) {a : ι} (h : x ∈ behind (some a) items) : lt a x := by
  by_cases ha : a ∈ items
  · obtain ⟨before, rest, rfl, hnotin⟩ := List.eq_append_cons_of_mem ha
    rw [behind_append hnotin] at h
    exact (List.pairwise_cons.mp (List.pairwise_append.mp hsorted).2.1).1 x h
  · rw [behind_of_notMem ha] at h
    cases h

/-- What is greater than an item comes after it. -/
theorem mem_behind [IsStrictOrder ι lt] (hsorted : items.Pairwise lt) {a : ι} (ha : a ∈ items)
    (hx : x ∈ items) (hlt : lt a x) : x ∈ behind (some a) items := by
  obtain ⟨before, rest, rfl, hnotin⟩ := List.eq_append_cons_of_mem ha
  rw [behind_append hnotin]
  rcases List.mem_append.mp hx with hx | hx
  · -- what stands before it is smaller
    have hxa := (List.pairwise_append.mp hsorted).2.2 x hx a List.mem_cons_self
    exact absurd (trans_of lt hlt hxa) (irrefl_of lt a)
  · rcases List.mem_cons.mp hx with rfl | hx
    · exact absurd hlt (irrefl_of lt x)
    · exact hx

/-- The next fetch names the last item of the page. -/
theorem page_of_next {a : ι} (h : next n after items = some a) :
    ∃ before, page n after items = before ++ [a] := by
  unfold next at h
  split at h
  · exact List.getLast?_eq_some_iff.mp h
  · cases h

/-- Where no fetch follows, the page has everything that is left. -/
theorem page_of_last (hn : 0 < n) (h : next n after items = none) : page n after items = behind after items := by
  refine List.take_of_length_le (Nat.not_lt.mp fun hlt => ?_)
  rw [next, if_pos hlt, List.getLast?_eq_none_iff, page, List.take_eq_nil_iff] at h
  rcases h with h | h
  · omega
  · rw [h] at hlt
    exact absurd hlt (Nat.not_lt_zero n)

/-- Everything on the pages behind an item is greater. -/
theorem lt_of_mem_pages [IsStrictOrder ι lt] (hw : Walk n after lists) :
    ∀ {a : ι}, after = some a → (∀ items ∈ lists, items.Pairwise lt) → x ∈ (pages n after lists).flatten →
      lt a x := by
  induction hw with
  | @last after items hnext =>
    rintro a rfl hsorted hx
    have hpage : x ∈ page n (some a) items := by simpa [pages] using hx
    exact lt_of_mem_behind (hsorted items List.mem_cons_self) (List.mem_of_mem_take hpage)
  | @more after items b lists hnext hrest ih =>
    rintro a rfl hsorted hx
    have hitems := hsorted items List.mem_cons_self
    rw [pages, hnext, List.flatten_cons, List.mem_append] at hx
    rcases hx with hx | hx
    · exact lt_of_mem_behind hitems (List.mem_of_mem_take hx)
    · -- the named item lies between
      obtain ⟨before, hpage⟩ := page_of_next hnext
      have hb : b ∈ page n (some a) items := by simp [hpage]
      exact trans_of lt (lt_of_mem_behind hitems (List.mem_of_mem_take hb))
        (ih rfl (fun items hmem => hsorted items (List.mem_cons_of_mem _ hmem)) hx)

/-- The pages of a walk are in order. -/
theorem Walk.pairwise [IsStrictOrder ι lt] (hw : Walk n after lists) (hsorted : ∀ items ∈ lists, items.Pairwise lt) :
    (pages n after lists).flatten.Pairwise lt := by
  have hpage : ∀ {after : Option ι} {items : List ι}, items.Pairwise lt → (page n after items).Pairwise lt :=
    fun h => h.sublist ((List.take_sublist _ _).trans (behind_sublist _ _))
  induction hw with
  | @last after items hnext =>
    rw [show (pages n after [items]).flatten = page n after items by simp [pages]]
    exact hpage (hsorted items List.mem_cons_self)
  | @more after items b lists hnext hrest ih =>
    have hitems : (page n after items).Pairwise lt := hpage (hsorted items List.mem_cons_self)
    have hlists : ∀ items ∈ lists, items.Pairwise lt := fun items hmem => hsorted items (List.mem_cons_of_mem _ hmem)
    rw [pages, hnext, List.flatten_cons]
    refine List.pairwise_append.mpr ⟨hitems, ih hlists, fun x hx y hy => ?_⟩
    have hby : lt b y := lt_of_mem_pages hrest rfl hlists hy
    obtain ⟨before, heq⟩ := page_of_next hnext
    rw [heq] at hx hitems
    rcases List.mem_append.mp hx with hx | hx
    · exact trans_of lt ((List.pairwise_append.mp hitems).2.2 x hx b List.mem_cons_self) hby
    · rwa [List.mem_singleton.mp hx]

/-- No item comes twice. -/
theorem Walk.nodup [IsStrictOrder ι lt] (hw : Walk n after lists) (hsorted : ∀ items ∈ lists, items.Pairwise lt) :
    (pages n after lists).flatten.Nodup := by
  refine (hw.pairwise hsorted).imp fun {a b} hlt => ?_
  rintro rfl
  exact irrefl_of lt a hlt

/-- An item that all fetches find is on a page. -/
theorem Walk.mem_pages [IsStrictOrder ι lt] (hn : 0 < n) (hw : Walk n after lists)
    (hsorted : ∀ items ∈ lists, items.Pairwise lt) (hplace : KeepsPlace n after lists)
    (hx : ∀ items ∈ lists, x ∈ items) (hafter : ∀ a, after = some a → lt a x) :
    x ∈ (pages n after lists).flatten := by
  have hbehind : ∀ {after : Option ι} {items : List ι}, items.Pairwise lt → x ∈ items →
      (∀ a, after = some a → a ∈ items) → (∀ a, after = some a → lt a x) → x ∈ behind after items := by
    intro after items hitems hx hplace hafter
    cases after with
    | none => exact hx
    | some a => exact mem_behind hitems (hplace a rfl) hx (hafter a rfl)
  induction hw with
  | @last after items hnext =>
    have hmem := hbehind (hsorted items List.mem_cons_self) (hx items List.mem_cons_self) hplace.1 hafter
    rw [← page_of_last hn hnext] at hmem
    simpa [pages] using hmem
  | @more after items b lists hnext hrest ih =>
    have hitems := hsorted items List.mem_cons_self
    have hmem := hbehind hitems (hx items List.mem_cons_self) hplace.1 hafter
    rw [pages, hnext, List.flatten_cons, List.mem_append]
    have hsplit : page n after items ++ (behind after items).drop n = behind after items := List.take_append_drop _ _
    rw [← hsplit, List.mem_append] at hmem
    rcases hmem with hmem | hmem
    · exact .inl hmem
    · -- what the page leaves out is greater than its last item
      obtain ⟨before, hpage⟩ := page_of_next hnext
      have hordered := hitems.sublist (behind_sublist after items)
      rw [← hsplit, hpage] at hordered
      have hbx : lt b x := (List.pairwise_append.mp hordered).2.2 b (by simp) x hmem
      have hkeeps := hplace.2
      rw [hnext] at hkeeps
      refine .inr (ih (fun items hmem => hsorted items (List.mem_cons_of_mem _ hmem)) hkeeps
        (fun items hmem => hx items (List.mem_cons_of_mem _ hmem)) fun a ha => ?_)
      cases ha
      exact hbx

end

end Keyset

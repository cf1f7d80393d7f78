import Mathlib.Data.List.Infix

/-!
# Searching joined texts

Texts that are joined with a separator have more substrings than the texts themselves: those that
overlap a separator.

## Key results

- `infix_append_iff`: where an occurrence can lie around one separator
- `infix_intercalate_iff`: an occurrence lies within a text or overlaps a separator
-/

namespace JoinedText

variable {α : Type} {sep k : List α}

/-- An occurrence that overlaps the separator between two texts. -/
def Overlaps (sep k before after : List α) : Prop :=
  ∃ p q, before ++ sep ++ after = p ++ k ++ q ∧ p.length < before.length + sep.length ∧
    before.length < p.length + k.length

/-- An occurrence in the joined texts that overlaps a separator. -/
def Spans (sep k : List α) (texts : List (List α)) : Prop :=
  ∃ before after, before ≠ [] ∧ after ≠ [] ∧ texts = before ++ after ∧
    Overlaps sep k (sep.intercalate before) (sep.intercalate after)

theorem Overlaps.isInfix {before after : List α} (h : Overlaps sep k before after) :
    k <:+: before ++ sep ++ after := by
  obtain ⟨p, q, heq, -, -⟩ := h
  exact ⟨p, q, heq.symm⟩

/-- An occurrence around one separator: before it, behind it, or overlapping it. -/
theorem infix_append_iff {before after : List α} :
    k <:+: before ++ sep ++ after ↔ k <:+: before ∨ k <:+: after ∨ Overlaps sep k before after := by
  constructor
  · rintro ⟨p, q, heq⟩
    by_cases hbefore : p.length + k.length ≤ before.length
    · -- the occurrence ends before the separator
      left
      have hfirst : before <+: p ++ k ++ q := ⟨sep ++ after, by rw [heq, List.append_assoc]⟩
      have hprefix : p ++ k <+: before := by
        apply List.prefix_of_prefix_length_le (List.prefix_append _ q) hfirst
        rw [List.length_append]
        omega
      have hk : k <:+: p ++ k := List.infix_append_right
      exact hk.trans hprefix.isInfix
    · by_cases hafter : before.length + sep.length ≤ p.length
      · -- it starts behind the separator
        right; left
        have hlast : k ++ q <:+ before ++ sep ++ after := ⟨p, by rw [← heq, List.append_assoc]⟩
        have hsuffix : k ++ q <:+ after := by
          apply List.suffix_of_suffix_length_le hlast (List.suffix_append _ after)
          have hlen := congrArg List.length heq
          simp only [List.length_append] at hlen ⊢
          omega
        have hk : k <:+: k ++ q := List.infix_append_left
        exact hk.trans hsuffix.isInfix
      · right; right
        exact ⟨p, q, heq.symm, by omega, by omega⟩
  · rintro (h | h | h)
    · exact h.trans ⟨[], sep ++ after, by simp⟩
    · exact h.trans ⟨before ++ sep, [], by simp⟩
    · exact h.isInfix

theorem intercalate_append {before after : List (List α)} (hbefore : before ≠ []) (hafter : after ≠ []) :
    sep.intercalate (before ++ after) = sep.intercalate before ++ sep ++ sep.intercalate after := by
  induction before with
  | nil => exact absurd rfl hbefore
  | cons t before ih =>
    rw [List.cons_append, List.intercalate_cons_of_ne_nil (by simp [hafter])]
    cases before with
    | nil => simp [List.intercalate]
    | cons u before =>
      rw [ih (by simp), List.intercalate_cons_of_ne_nil (l := t) (by simp)]
      simp only [List.append_assoc]

/-- An occurrence in later texts is one in all of them. -/
theorem Spans.cons {t : List α} {texts : List (List α)} (h : Spans sep k texts) : Spans sep k (t :: texts) := by
  obtain ⟨before, after, hbefore, hafter, rfl, p, q, heq, hstart, hend⟩ := h
  refine ⟨t :: before, after, by simp, hafter, rfl, t ++ sep ++ p, q, ?_, ?_, ?_⟩
  · rw [List.intercalate_cons_of_ne_nil hbefore]
    simp only [List.append_assoc] at heq ⊢
    rw [heq]
  · rw [List.intercalate_cons_of_ne_nil hbefore]
    simp only [List.length_append]
    omega
  · rw [List.intercalate_cons_of_ne_nil hbefore]
    simp only [List.length_append]
    omega

/-- An occurrence in joined texts lies within one of them or overlaps a separator. -/
theorem infix_intercalate_iff {texts : List (List α)} :
    k <:+: sep.intercalate texts ↔
      (∃ t ∈ texts, k <:+: t) ∨ Spans sep k texts ∨ (texts = [] ∧ k = []) := by
  constructor
  · intro h
    induction texts with
    | nil => exact .inr (.inr ⟨rfl, by simpa [List.intercalate] using h⟩)
    | cons t rest ih =>
      by_cases hrest : rest = []
      · subst hrest
        exact .inl ⟨t, by simp, by simpa [List.intercalate] using h⟩
      · rw [List.intercalate_cons_of_ne_nil hrest] at h
        rcases infix_append_iff.mp h with h | h | h
        · exact .inl ⟨t, List.mem_cons_self, h⟩
        · rcases ih h with ⟨u, hu, hk⟩ | hspans | ⟨hnil, -⟩
          · exact .inl ⟨u, List.mem_cons_of_mem _ hu, hk⟩
          · exact .inr (.inl hspans.cons)
          · exact absurd hnil hrest
        · -- it overlaps the first separator
          refine .inr (.inl ⟨[t], rest, by simp, hrest, rfl, ?_⟩)
          rwa [show sep.intercalate [t] = t by simp [List.intercalate]]
  · rintro (⟨t, ht, hk⟩ | ⟨before, after, hbefore, hafter, rfl, hoverlaps⟩ | ⟨rfl, rfl⟩)
    · -- a text is a substring of the joined texts
      apply hk.trans
      obtain ⟨before, after, rfl⟩ := List.append_of_mem ht
      have htail : t <:+: sep.intercalate (t :: after) := by
        by_cases hafter : after = []
        · simp [hafter, List.intercalate]
        · rw [List.intercalate_cons_of_ne_nil hafter, List.append_assoc]
          exact List.infix_append_left
      by_cases hbefore : before = []
      · rwa [hbefore]
      · rw [intercalate_append hbefore (by simp)]
        exact htail.trans List.infix_append_right
    · rw [intercalate_append hbefore hafter]
      exact hoverlaps.isInfix
    · exact List.nil_infix

end JoinedText

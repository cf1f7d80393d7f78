import A2AEvents.ForStd.JoinedText
import A2AEvents.Spec.SelectorsCorrect

/-!
# What searches find

A keyword search joins the texts it finds and looks for the keywords in the result. The separator is
to keep the texts apart, but it consists of characters that a keyword may contain as well.

## Key results

- `isSubstring_iff`, `joinTexts_eq`: the tests of the search in terms of lists
- `keywordSearch_iff`: when a search finds its keywords in single texts
-/

namespace A2AEvents

open Publisher

/-! ## Texts -/

/-- The substring test is the infix relation. -/
theorem isSubstring_iff {needle haystack : List Char} : isSubstring needle haystack = true ↔ needle <:+: haystack := by
  induction haystack with
  | nil => simp [isSubstring]
  | cons c rest ih =>
    rw [isSubstring, Bool.or_eq_true, ih, List.isPrefixOf_iff_prefix, List.infix_cons_iff]

theorem joinTexts_eq (sep : List Char) (texts : List (List Char)) : joinTexts sep texts = sep.intercalate texts := by
  induction texts with
  | nil => rfl
  | cons t rest ih =>
    cases rest with
    | nil => simp [joinTexts]
    | cons u rest =>
      rw [joinTexts, ih, List.intercalate_cons_cons]
      simp

/-- Case mapping goes through the join. -/
theorem intercalate_map (f : Char → Char) (sep : List Char) (texts : List (List Char)) :
    (sep.intercalate texts).map f = (sep.map f).intercalate (texts.map (List.map f)) := by
  induction texts with
  | nil => rfl
  | cons t rest ih =>
    cases rest with
    | nil => simp
    | cons u rest =>
      rw [List.intercalate_cons_cons, List.map_append, ih, List.map_append]
      simp only [List.map_cons, List.intercalate_cons_cons]

/-- A text that a path of a search leads to: a text, or a member of an array. -/
def FoundAt (event : Json) (path text : String) : Prop :=
  ∃ v, resolvePath event path = .ok (some v) ∧ (v = .str text ∨ ∃ xs, v = .arr xs ∧ Json.str text ∈ xs)

/-- The collected texts are those that the paths lead to. -/
theorem mem_collectText {event : Json} {paths texts : List String} (h : collectText event paths = .ok texts)
    {text : String} : text ∈ texts ↔ ∃ path ∈ paths, FoundAt event path text := by
  induction paths generalizing texts with
  | nil =>
    cases h
    simp
  | cons path rest ih =>
    rw [collectText] at h
    cases hv : resolvePath event path with
    | error e =>
      rw [hv] at h
      cases h
    | ok v =>
      rw [hv] at h
      cases hrest : collectText event rest with
      | error e =>
        rw [hrest] at h
        cases h
      | ok texts' =>
        rw [hrest] at h
        cases h
        rw [List.mem_append, ih hrest, List.exists_mem_cons_iff]
        apply or_congr_left
        -- what this path leads to
        unfold FoundAt
        rw [hv]
        cases v with
        | none => simp
        | some v =>
          cases v with
          | str s => simp [eq_comm]
          | arr xs =>
            simp only [List.mem_filterMap, Except.ok.injEq, Option.some.injEq, exists_eq_left']
            constructor
            · rintro ⟨x, hx, htext⟩
              cases x <;> simp at htext
              subst htext
              exact .inr ⟨xs, rfl, hx⟩
            · rintro (h | ⟨ys, h, hx⟩)
              · cases h
              · cases h
                exact ⟨_, hx, rfl⟩
          | _ => simp

/-! ## Keywords -/

section

variable (lower : Char → Char)

/-- A keyword occurs, ignoring case, in a single text at one of the paths. -/
def Occurs (event : Json) (paths : List String) (keyword : String) : Prop :=
  ∃ path ∈ paths, ∃ text, FoundAt event path text ∧ keyword.toList.map lower <:+: text.toList.map lower

/-- The separator of the joined texts, as it is searched. -/
def separator : List Char := [' ', '\n', ' '].map lower

/-- A keyword that is found outside single texts: where it overlaps a separator, or an empty keyword
    where no text was found. -/
def Strays (texts : List String) (keyword : String) : Prop :=
  let texts := texts.map fun t => t.toList.map lower
  let keyword := keyword.toList.map lower
  (∀ t ∈ texts, ¬ keyword <:+: t) ∧
    (JoinedText.Spans (separator lower) keyword texts ∨ (texts = [] ∧ keyword = []))

/-- Whether a search finds what it should: all keywords, or some. -/
def Wanted (mode : KeywordMatch) (keywords : List String) (found : String → Prop) : Prop :=
  match mode with
  | .all => ∀ keyword ∈ keywords, found keyword
  | .any => ∃ keyword ∈ keywords, found keyword

/-- A search is right about an event: it matches if and only if its keywords occur in single texts. -/
def SearchesRight (event : Json) (keywords : List String) (mode : KeywordMatch) (fields searched : Option (List String)) :
    Prop :=
  ∃ matched, selectorMatches lower (some (.keywordSearch keywords mode fields)) event searched = .ok matched ∧
    (matched = true ↔ Wanted mode keywords (Occurs lower event (fields.getD (searched.getD []))))

/-- Finding more than what is there makes no difference. -/
def NoDifference (mode : KeywordMatch) (keywords : List String) (there more : String → Prop) : Prop :=
  (∀ keyword ∈ keywords, ¬ more keyword) ∨
    match mode with
    | .all => ∃ keyword ∈ keywords, ¬ there keyword ∧ ¬ more keyword
    | .any => ∃ keyword ∈ keywords, there keyword

theorem wanted_or_iff {mode : KeywordMatch} {keywords : List String} {there more : String → Prop}
    (hmore : ∀ keyword, more keyword → ¬ there keyword) :
    (Wanted mode keywords (fun keyword => there keyword ∨ more keyword) ↔ Wanted mode keywords there) ↔
      NoDifference mode keywords there more := by
  cases mode with
  | all =>
    constructor
    · -- all keywords are found, or one of them nowhere
      intro hiff
      by_cases hall : ∀ keyword ∈ keywords, there keyword ∨ more keyword
      · exact .inl fun keyword hk hm => hmore keyword hm (hiff.mp hall keyword hk)
      · push Not at hall
        exact .inr hall
    · rintro (hnone | ⟨keyword, hk, hnot, hm⟩)
      · constructor
        · exact fun hall keyword hk => (hall keyword hk).resolve_right (hnone keyword hk)
        · exact fun hall keyword hk => .inl (hall keyword hk)
      · constructor
        · exact fun hall => absurd (hall keyword hk) (not_or.mpr ⟨hnot, hm⟩)
        · exact fun hall => absurd (hall keyword hk) hnot
  | any =>
    constructor
    · intro hiff
      by_cases hsome : ∃ keyword ∈ keywords, more keyword
      · obtain ⟨keyword, hk, hm⟩ := hsome
        exact .inr (hiff.mp ⟨keyword, hk, .inr hm⟩)
      · exact .inl fun keyword hk hm => hsome ⟨keyword, hk, hm⟩
    · rintro (hnone | ⟨keyword, hk, hin⟩)
      · constructor
        · rintro ⟨keyword, hk, hin | hm⟩
          · exact ⟨keyword, hk, hin⟩
          · exact absurd hm (hnone keyword hk)
        · rintro ⟨keyword, hk, hin⟩
          exact ⟨keyword, hk, .inl hin⟩
      · exact ⟨fun _ => ⟨keyword, hk, hin⟩, fun _ => ⟨keyword, hk, .inl hin⟩⟩

/-- A keyword occurs, ignoring case, in a single text. -/
def OccursIn (texts : List String) (keyword : String) : Prop :=
  ∃ t ∈ texts, keyword.toList.map lower <:+: t.toList.map lower

variable {lower} {event : Json} {texts : List String}

/-- A keyword is found in the joined texts if it occurs in one of them or strays. -/
theorem hit_iff {keyword : String} :
    isSubstring (keyword.toList.map lower) ((joinTexts [' ', '\n', ' '] (texts.map String.toList)).map lower) = true ↔
      OccursIn lower texts keyword ∨ Strays lower texts keyword := by
  rw [isSubstring_iff, joinTexts_eq, intercalate_map, List.map_map]
  rw [JoinedText.infix_intercalate_iff]
  have htexts : ∀ k : List Char, (∃ t ∈ texts.map (List.map lower ∘ String.toList), k <:+: t) ↔
      ∃ t ∈ texts, k <:+: t.toList.map lower := by
    intro k
    simp
  rw [htexts]
  by_cases hin : OccursIn lower texts keyword
  · exact ⟨fun _ => .inl hin, fun _ => .inl hin⟩
  · have hnone : ∀ t ∈ texts.map fun t => t.toList.map lower, ¬ keyword.toList.map lower <:+: t := by
      intro t ht hk
      obtain ⟨text, htext, rfl⟩ := List.mem_map.mp ht
      exact hin ⟨text, htext, hk⟩
    constructor
    · rintro (h | h)
      · exact .inl h
      · exact .inr ⟨hnone, h⟩
    · rintro (h | ⟨-, h⟩)
      · exact .inl h
      · exact .inr h

/-- A search whose paths can be read is right about an event exactly if the keywords that stray make no
    difference. -/
theorem keywordSearch_iff (keywords : List String) (mode : KeywordMatch) (fields searched : Option (List String))
    (htexts : collectText event (fields.getD (searched.getD [])) = .ok texts) :
    SearchesRight lower event keywords mode fields searched ↔
      NoDifference mode keywords (OccursIn lower texts) (Strays lower texts) := by
  have hoccurs : Occurs lower event (fields.getD (searched.getD [])) = OccursIn lower texts := by
    funext keyword
    apply propext
    constructor
    · rintro ⟨path, hpath, text, hfound, hk⟩
      exact ⟨text, (mem_collectText htexts).mpr ⟨path, hpath, hfound⟩, hk⟩
    · rintro ⟨text, htext, hk⟩
      obtain ⟨path, hpath, hfound⟩ := (mem_collectText htexts).mp htext
      exact ⟨path, hpath, text, hfound, hk⟩
  have hstrays : ∀ keyword, Strays lower texts keyword → ¬ OccursIn lower texts keyword := by
    rintro keyword ⟨hnone, -⟩ ⟨t, ht, hk⟩
    exact hnone _ (List.mem_map_of_mem ht) hk
  -- what the search returns
  have hmatched : ∃ matched, selectorMatches lower (some (.keywordSearch keywords mode fields)) event searched =
      .ok matched ∧ (matched = true ↔ Wanted mode keywords fun keyword =>
        OccursIn lower texts keyword ∨ Strays lower texts keyword) := by
    simp only [selectorMatches, matchKeywordSearch, htexts]
    refine ⟨_, rfl, ?_⟩
    cases mode with
    | all => simp only [List.all_eq_true, hit_iff, Wanted]
    | any => simp only [List.any_eq_true, hit_iff, Wanted]
  obtain ⟨matched, hreturns, hmatched⟩ := hmatched
  rw [← wanted_or_iff hstrays, ← hmatched, SearchesRight, hoccurs]
  constructor
  · rintro ⟨matched', h, hiff⟩
    rw [hreturns] at h
    cases h
    exact hiff
  · exact fun h => ⟨matched, hreturns, h⟩

end

namespace Sample

/-- An event whose data have two tags. -/
def tagged : EventRecord :=
  { eventId := "evt_0", topic := "t", cursor := "t:0000000000000000", eventType := "x", source := "s",
    data := [("tags", .arr [.str "Coding", .str "search"])], subject := none, createdAt := 0 }

end Sample

/-- Keywords without blanks are found in single texts only. -/
theorem keywordSearch_iff_sample : NoDifference .all ["cod", "SEARCH"] (OccursIn Char.toLower ["Coding", "search"])
    (Strays Char.toLower ["Coding", "search"]) := by
  have hread : collectText (rawEventDict Sample.tagged) ((some ["data.tags"]).getD ((none : Option (List String)).getD [])) =
      .ok ["Coding", "search"] := rfl
  refine (keywordSearch_iff ["cod", "SEARCH"] .all (some ["data.tags"]) none hread).mp ?_
  have hmatches : selectorMatches Char.toLower (some (.keywordSearch ["cod", "SEARCH"] .all (some ["data.tags"])))
      (rawEventDict Sample.tagged) none = .ok true := rfl
  refine ⟨true, hmatches, fun _ => ?_, fun _ => rfl⟩
  rintro keyword hk
  have hfound : ∀ text, Json.str text ∈ [Json.str "Coding", Json.str "search"] →
      FoundAt (rawEventDict Sample.tagged) "data.tags" text := by
    intro text htext
    exact ⟨_, rfl, .inr ⟨_, rfl, htext⟩⟩
  rcases List.mem_cons.mp hk with rfl | hk
  · exact ⟨"data.tags", by simp, "Coding", hfound _ (by simp), by decide⟩
  · obtain rfl := List.mem_singleton.mp hk
    exact ⟨"data.tags", by simp, "search", hfound _ (by simp), by decide⟩

/-- A blank is found between the two tags, though neither of them has one. -/
theorem separator_is_found :
    ¬ SearchesRight Char.toLower (rawEventDict Sample.tagged) [" "] .all (some ["data.tags"]) none := by
  rintro ⟨matched, hmatches, hiff⟩
  have htrue : selectorMatches Char.toLower (some (.keywordSearch [" "] .all (some ["data.tags"])))
      (rawEventDict Sample.tagged) none = .ok true := rfl
  rw [htrue] at hmatches
  cases hmatches
  obtain ⟨path, hpath, text, hfound, hk⟩ := hiff.mp rfl " " (by simp)
  have hread : collectText (rawEventDict Sample.tagged) ["data.tags"] = .ok ["Coding", "search"] := rfl
  have hmem : text ∈ ["Coding", "search"] := (mem_collectText hread).mpr ⟨path, hpath, hfound⟩
  have hnone : ∀ text ∈ ["Coding", "search"], ¬ " ".toList.map Char.toLower <:+: text.toList.map Char.toLower := by
    decide
  exact hnone text hmem hk

end A2AEvents

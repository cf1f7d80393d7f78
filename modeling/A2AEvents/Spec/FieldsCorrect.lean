import A2AEvents.Spec.SelectorsCorrect

/-!
# What selectors can see

A topic may declare which fields of its events can be filtered on. Validation holds the fields of a
filter to the declared ones, but not the fields that a keyword search names.

## Key results

- `checkFilterable_ok_iff`: the fields of an accepted filter are declared
- `collectText_congr`: searches see what their paths lead to
- `confined_iff`: which selectors see declared fields only
-/

namespace A2AEvents

/-! ## Paths -/

/-- The segments of a path. -/
def segments (path : String) : List (List Char) := splitOn '.' path.toList

theorem splitOn_ne_nil (sep : Char) (text : List Char) : splitOn sep text ≠ [] := by
  induction text with
  | nil => simp [splitOn]
  | cons c rest ih =>
    rw [splitOn]
    split
    · simp
    · split <;> simp

/-- A text is its segments, joined again. -/
theorem intercalate_splitOn (sep : Char) (text : List Char) : [sep].intercalate (splitOn sep text) = text := by
  induction text with
  | nil => rfl
  | cons c rest ih =>
    rw [splitOn]
    split
    · rename_i hc
      rw [List.intercalate_cons_of_ne_nil (splitOn_ne_nil sep rest), ih, hc]
      rfl
    · cases hrest : splitOn sep rest with
      | nil => exact absurd hrest (splitOn_ne_nil sep rest)
      | cons seg segs =>
        rw [hrest] at ih
        simp [ih]

theorem segments_inj {p q : String} (h : segments p = segments q) : p = q := by
  apply String.toList_inj.mp
  rw [← intercalate_splitOn '.' p.toList, ← intercalate_splitOn '.' q.toList]
  exact congrArg _ h

/-- A path goes on from the end of another. -/
def Extends (q p : String) : Prop := ∃ rest, rest ≠ [] ∧ segments p = segments q ++ rest

theorem descend_append (v : Json) (a b : List (List Char)) :
    descend v (a ++ b) = (descend v a).bind fun w => descend w b := by
  induction a generalizing v with
  | nil => rfl
  | cons segment a ih =>
    rw [List.cons_append, descend.eq_def, descend.eq_def v]
    cases v with
    | obj members =>
      simp only
      cases Json.member? (String.ofList segment) members with
      | none => rfl
      | some w => exact ih w
    | _ => rfl

/-- Behind a value that can be compared there is nothing. -/
theorem absent_of_extends {event : Json} {q p : String} {v : Option Json} (hq : resolvePath event q = .ok v)
    (h : Extends q p) : resolvePath event p = .ok none := by
  obtain ⟨rest, hrest, hsegments⟩ := h
  obtain ⟨segment, rest, rfl⟩ := List.exists_cons_of_ne_nil hrest
  have hreadable := readable_of_ok hq
  have hnone : descend event (splitOn '.' p.toList) = none := by
    rw [show splitOn '.' p.toList = splitOn '.' q.toList ++ segment :: rest from hsegments, descend_append]
    cases hd : descend event (splitOn '.' q.toList) with
    | none => rfl
    | some w =>
      cases w with
      | obj members => exact absurd ⟨_, hd, rfl⟩ hreadable
      | _ => rfl
  rw [resolvePath, hnone]

/-! ## Events that differ at one path -/

/-- Objects within objects along the segments of a path, and a value at its end. -/
def nest : List (List Char) → Json → Json
  | [], v => v
  | segment :: rest, v => .obj [(String.ofList segment, nest rest v)]

/-- Only the first segment leads on. -/
theorem descend_nest_cons (segment : List Char) (path : List (List Char)) (v : Json) (s : List Char)
    (segs : List (List Char)) :
    descend (nest (segment :: path) v) (s :: segs) = if segment = s then descend (nest path v) segs else none := by
  by_cases hs : segment = s
  · subst hs
    simp [nest, descend, Json.member?]
  · have hne : String.ofList segment ≠ String.ofList s := fun h => hs (by simpa using congrArg String.toList h)
    simp [nest, descend, Json.member?, hne, hs]

/-- Elsewhere than at the end of the path, nested values look the same: there is nothing, or an object on the
    way to the end. -/
theorem descend_nest {v w : Json} (hv : ∀ members, v ≠ .obj members) (hw : ∀ members, w ≠ .obj members)
    {path : List (List Char)} : ∀ {segs : List (List Char)}, segs ≠ path →
      (descend (nest path v) segs = none ∧ descend (nest path w) segs = none) ∨
        (∃ rest, rest ≠ [] ∧ path = segs ++ rest) ∧
          ∃ m m', descend (nest path v) segs = some (.obj m) ∧ descend (nest path w) segs = some (.obj m') := by
  have hleaf : ∀ {u : Json}, (∀ members, u ≠ .obj members) → ∀ s rest, descend u (s :: rest) = none := by
    intro u hu s rest
    cases u with
    | obj members => exact absurd rfl (hu members)
    | _ => rfl
  induction path with
  | nil =>
    intro segs hne
    obtain ⟨s, rest, rfl⟩ := List.exists_cons_of_ne_nil hne
    exact .inl ⟨hleaf hv s rest, hleaf hw s rest⟩
  | cons segment path ih =>
    intro segs hne
    cases segs with
    | nil => exact .inr ⟨⟨segment :: path, by simp, rfl⟩, _, _, rfl, rfl⟩
    | cons s segs =>
      rw [descend_nest_cons, descend_nest_cons]
      by_cases hs : segment = s
      · subst hs
        rw [if_pos rfl, if_pos rfl]
        have hne' : segs ≠ path := fun h => hne (by rw [h])
        rcases ih hne' with h | ⟨⟨rest, hrest, hpath⟩, h⟩
        · exact .inl h
        · exact .inr ⟨⟨rest, hrest, by rw [hpath]; rfl⟩, h⟩
      · rw [if_neg hs, if_neg hs]
        exact .inl ⟨rfl, rfl⟩

theorem descend_nest_self (path : List (List Char)) (v : Json) : descend (nest path v) path = some v := by
  induction path with
  | nil => rfl
  | cons segment path ih =>
    rw [descend_nest_cons, if_pos rfl]
    exact ih

/-! ## Selectors -/

/-- Two events look the same at a list of paths. -/
def Agree (paths : List String) (a b : Json) : Prop := ∀ path ∈ paths, resolvePath a path = resolvePath b path

/-- A selector sees no more of an event than the declared fields. -/
def Confined (lower : Char → Char) (declared : List String) (selector : Option Selector) : Prop :=
  ∀ a b : List (String × Json), Agree declared (.obj a) (.obj b) →
    selectorMatches lower selector (.obj a) (some declared) = selectorMatches lower selector (.obj b) (some declared)

/-- Every field that a search names is declared, or goes on from one that is named before it. -/
def Sheltered (declared fields : List String) : Prop :=
  ∀ before path after, fields = before ++ path :: after → path ∈ declared ∨ ∃ q ∈ before, Extends q path

/-- A search that names its own fields names sheltered ones. -/
def StaysWithin (declared : List String) (selector : Option Selector) : Prop :=
  ∀ keywords mode fields, selector = some (.keywordSearch keywords mode (some fields)) → Sheltered declared fields

theorem checkFilterable_ok_iff {topic : Topic} {declared fields : List String} :
    checkFilterable topic declared fields = .ok () ↔ ∀ field ∈ fields, field ∈ declared := by
  induction fields with
  | nil => simp [checkFilterable]
  | cons field rest ih =>
    rw [checkFilterable]
    split
    · rename_i hnot
      constructor
      · intro h
        cases h
      · exact fun h => absurd (h field List.mem_cons_self) hnot
    · rename_i hin
      rw [ih, List.forall_mem_cons]
      exact ⟨fun h => ⟨not_not.mp hin, h⟩, fun h => h.2⟩

/-- Events that look the same at the fields of a filter are matched alike. -/
theorem matchFields_congr {a b : Json} {fields : List (String × List Json)}
    (h : ∀ field ∈ fields, resolvePath a field.1 = resolvePath b field.1) : matchFields a fields = matchFields b fields := by
  induction fields with
  | nil => rfl
  | cons field rest ih =>
    obtain ⟨path, values⟩ := field
    rw [List.forall_mem_cons] at h
    simp only [matchFields, h.1, ih h.2]

/-- Events that look the same at declared paths look the same to a search of sheltered ones. -/
theorem collectText_congr {declared : List String} {a b : Json} (hagree : Agree declared a b) {rest : List String} :
    ∀ {before : List String}, (∀ q ∈ before, ∃ v, resolvePath a q = .ok v ∧ resolvePath b q = .ok v) →
      Sheltered declared (before ++ rest) → collectText a rest = collectText b rest := by
  induction rest with
  | nil => exact fun _ _ => rfl
  | cons path rest ih =>
    intro before hread hsheltered
    have hsame : resolvePath a path = resolvePath b path := by
      rcases hsheltered before path rest rfl with hdeclared | ⟨q, hq, hextends⟩
      · exact hagree path hdeclared
      · -- behind a path that can be read there is nothing
        obtain ⟨v, ha, hb⟩ := hread q hq
        rw [absent_of_extends ha hextends, absent_of_extends hb hextends]
    simp only [collectText, hsame]
    cases hv : resolvePath b path with
    | error e => rfl
    | ok v =>
      have hnext : ∀ q ∈ before ++ [path], ∃ v, resolvePath a q = .ok v ∧ resolvePath b q = .ok v := by
        intro q hq
        rcases List.mem_append.mp hq with hq | hq
        · exact hread q hq
        · obtain rfl := List.mem_singleton.mp hq
          exact ⟨v, hsame.trans hv, hv⟩
      simp only [ih hnext (by simpa using hsheltered)]

/-- What a search collects before it comes to a path. -/
theorem collectText_append {event : Json} {before : List String}
    (h : ∀ q ∈ before, resolvePath event q = .ok none) (rest : List String) :
    collectText event (before ++ rest) = collectText event rest := by
  induction before with
  | nil => rfl
  | cons q before ih =>
    rw [List.forall_mem_cons] at h
    simp only [List.cons_append, collectText, h.1, ih h.2]
    cases collectText event rest with
    | error e => rfl
    | ok texts => rfl

/-- Two events that look the same but at one path: there the first has nothing to read, the second an array
    that cannot be compared. -/
theorem exists_differing (path : String) : ∃ a b : List (String × Json),
    resolvePath (.obj a) path = .ok (some .null) ∧ Unreadable (.obj b) path ∧
      (∀ q, q ≠ path → resolvePath (.obj a) q = resolvePath (.obj b) q) ∧
      ∀ q, q ≠ path → ¬ Extends q path → resolvePath (.obj a) q = .ok none := by
  obtain ⟨segment, rest, hsegments⟩ := List.exists_cons_of_ne_nil (splitOn_ne_nil '.' path.toList)
  let leaf : Json := .arr [.arr []]
  have ha := descend_nest_self (segments path) .null
  have hb := descend_nest_self (segments path) leaf
  have hother : ∀ q, q ≠ path →
      (descend (nest (segments path) .null) (segments q) = none ∧ descend (nest (segments path) leaf) (segments q) = none) ∨
        Extends q path ∧ ∃ m m', descend (nest (segments path) .null) (segments q) = some (.obj m) ∧
          descend (nest (segments path) leaf) (segments q) = some (.obj m') := by
    intro q hq
    have hnull : ∀ members, Json.null ≠ .obj members := fun _ h => by cases h
    have hleaf : ∀ members, Json.arr [.arr []] ≠ .obj members := fun _ h => by cases h
    exact descend_nest hnull hleaf fun h => hq (segments_inj h)
  have hnest : ∀ v, nest (segments path) v = .obj [(String.ofList segment, nest rest v)] := by
    intro v
    rw [segments, hsegments]
    rfl
  rw [hnest] at ha hb
  rw [hnest, hnest] at hother
  refine ⟨[(String.ofList segment, nest rest .null)], [(String.ofList segment, nest rest leaf)], ?_,
    ⟨leaf, hb, by decide⟩, fun q hq => ?_, fun q hq hextends => ?_⟩
  · rw [resolvePath, show splitOn '.' path.toList = segments path from rfl, ha]
  · rw [resolvePath, resolvePath, show splitOn '.' q.toList = segments q from rfl]
    rcases hother q hq with ⟨h₁, h₂⟩ | ⟨-, m, m', h₁, h₂⟩
    · rw [h₁, h₂]
    · rw [h₁, h₂]
  · rw [resolvePath, show splitOn '.' q.toList = segments q from rfl]
    rcases hother q hq with ⟨h₁, -⟩ | ⟨h, -⟩
    · rw [h₁]
    · exact absurd h hextends

/-- An accepted selector sees declared fields only, if and only if it is no search that names another field
    on its own. -/
theorem confined_iff (lower : Char → Char) {topic : Topic} {declared : List String} {selector : Option Selector}
    (hdeclared : topic.filterableFields = some declared) (haccepted : validateSelector selector topic = .ok ()) :
    Confined lower declared selector ↔ StaysWithin declared selector := by
  constructor
  · rintro hconfined keywords mode fields rfl before path after rfl
    by_contra hopen
    obtain ⟨hundeclared, hnone⟩ := not_or.mp hopen
    -- the first time that the search comes to the path
    have hpath : path ∈ before ++ path :: after := by simp
    obtain ⟨first, last, hsplit, hnotin⟩ := List.eq_append_cons_of_mem hpath
    have hfirst : ∀ q ∈ first, q ∈ before := by
      intro q hq
      rcases List.append_eq_append_iff.mp hsplit with ⟨mid, hmid, htail⟩ | ⟨mid, hmid, htail⟩
      · cases mid with
        | nil =>
          rw [hmid, List.append_nil] at hq
          exact hq
        | cons x mid =>
          cases htail
          exact absurd (by rw [hmid]; simp) hnotin
      · rw [hmid]
        exact List.mem_append_left _ hq
    obtain ⟨a, b, ha, hb, hsame, habsent⟩ := exists_differing path
    have hskip : ∀ q ∈ first, resolvePath (.obj a) q = .ok none ∧ resolvePath (.obj b) q = .ok none := by
      intro q hq
      have hne : q ≠ path := fun h => hnotin (h ▸ hq)
      have hnothing := habsent q hne fun h => hnone ⟨q, hfirst q hq, h⟩
      exact ⟨hnothing, (hsame q hne).symm.trans hnothing⟩
    have hmatch := hconfined a b fun q hq => hsame q fun h => hundeclared (h ▸ hq)
    -- the second event makes the search name the path, the first does not
    obtain ⟨e, he, hrej⟩ := error_of_unreadable hb
    have hbtext : collectText (.obj b) (before ++ path :: after) = .error e := by
      rw [hsplit, collectText_append (fun q hq => (hskip q hq).2)]
      simp only [collectText, he]
    have hamatch : ∃ texts, collectText (.obj a) (before ++ path :: after) = .ok texts ∨
        ∃ p e', p ≠ path ∧ Rejects p e' ∧ collectText (.obj a) (before ++ path :: after) = .error e' := by
      rcases collectText_cases (.obj a) (before ++ path :: after) with ⟨-, texts, h⟩ | ⟨p, -, e', hun, hrej', h⟩
      · exact ⟨texts, .inl h⟩
      · refine ⟨[], .inr ⟨p, e', ?_, hrej', h⟩⟩
        rintro rfl
        exact readable_of_ok ha hun
    simp only [selectorMatches, matchKeywordSearch, Option.getD_some, hbtext] at hmatch
    obtain ⟨texts, h | ⟨p, e', hne, ⟨message', rfl⟩, h⟩⟩ := hamatch
    · rw [h] at hmatch
      cases hmatch
    · rw [h] at hmatch
      obtain ⟨message, rfl⟩ := hrej
      cases hmatch
      exact hne rfl
  · intro hwithin a b hagree
    cases selector with
    | none => rfl
    | some sel =>
      cases sel with
      | fieldFilter where_ =>
        -- validation has held the fields to the declared ones
        have hkeys : ∀ field ∈ where_.keys, field ∈ declared := by
          simp only [validateSelector, hdeclared] at haccepted
          split at haccepted
          · cases haccepted
          · split at haccepted
            · cases haccepted
            · exact checkFilterable_ok_iff.mp haccepted
        apply matchFields_congr
        exact fun field hfield => hagree field.1 (hkeys field.1 (List.mem_map_of_mem hfield))
      | keywordSearch keywords mode fields =>
        have hsheltered : Sheltered declared (fields.getD declared) := by
          cases fields with
          | none =>
            rintro before path after (rfl : declared = _)
            exact .inl (by simp)
          | some fields => exact hwithin keywords mode fields rfl
        have hnothing : ∀ q ∈ ([] : List String), ∃ v, resolvePath (.obj a) q = .ok v ∧ resolvePath (.obj b) q = .ok v :=
          fun q hq => by cases hq
        have htexts : collectText (.obj a) (fields.getD declared) = collectText (.obj b) (fields.getD declared) :=
          collectText_congr hagree hnothing hsheltered
        simp only [selectorMatches, matchKeywordSearch, Option.getD_some, htexts]

namespace Sample

/-- A topic that declares one field. -/
def tiered : Topic := { name := "t", filterableFields := some ["data.tier"] }

/-- A search of the fields it names. -/
def searching (fields : List String) : Option Selector := some (.keywordSearch ["x"] .all (some fields))

end Sample

/-- A search of the declared field. -/
theorem confined_iff_sample : Confined Char.toLower ["data.tier"] (Sample.searching ["data.tier"]) := by
  have hdeclared : Sample.tiered.filterableFields = some ["data.tier"] := rfl
  have haccepted : validateSelector (Sample.searching ["data.tier"]) Sample.tiered = .ok () := rfl
  apply (confined_iff Char.toLower hdeclared haccepted).mpr
  intro keywords mode fields hsearch before path after hsplit
  cases hsearch
  have hpath : path ∈ ["data.tier"] := by
    rw [hsplit]
    simp
  exact .inl hpath

/-- A search may name a field that the topic does not declare, and tells its values apart. -/
theorem undeclared_field_is_seen :
    validateSelector (Sample.searching ["data.secret"]) Sample.tiered = .ok () ∧
      ¬ Confined Char.toLower ["data.tier"] (Sample.searching ["data.secret"]) := by
  refine ⟨rfl, fun hconfined => ?_⟩
  have hagree : Agree ["data.tier"] (.obj [("data", .obj [("secret", .str "x")])])
      (.obj [("data", .obj [("secret", .str "y")])]) := by
    intro path hpath
    obtain rfl := List.mem_singleton.mp hpath
    rfl
  have hsame := hconfined _ _ hagree
  have hx : selectorMatches Char.toLower (Sample.searching ["data.secret"]) (.obj [("data", .obj [("secret", .str "x")])])
      (some ["data.tier"]) = .ok true := rfl
  have hy : selectorMatches Char.toLower (Sample.searching ["data.secret"]) (.obj [("data", .obj [("secret", .str "y")])])
      (some ["data.tier"]) = .ok false := rfl
  rw [hx, hy] at hsame
  cases hsame

end A2AEvents

import Mathlib.Data.List.Perm.Basic
import A2AEvents.Native.Signing

/-!
# The signing input is unambiguous

The signing input joins the timestamp and the canonical event with a dot, which both of
them may contain. It has one reading all the same: a dot of a canonical text stands within
one of its strings, and the text after such a dot has its quotes the wrong way round to be
canonical itself. Canonical texts in turn determine their values up to the order of the
members of objects.

## Key results

- `canon_separates`: a canonical text determines its value and where it ends
- `not_closed_both`: no text is read to its end from outside and from inside of a string
- `signingInput_inj`: the signing input determines the timestamp and the event
-/

namespace A2AEvents

/-! ## Values -/

mutual

/-- The values without floats: integers, texts, truth values, null, arrays and objects. -/
def Json.exact : Json → Bool
  | .null | .bool _ | .int _ | .str _ => true
  | .float _ | .other _ => false
  | .arr xs => Json.exactList xs
  | .obj members => Json.exactMembers members

def Json.exactList : List Json → Bool
  | [] => true
  | x :: xs => Json.exact x && Json.exactList xs

def Json.exactMembers : List (String × Json) → Bool
  | [] => true
  | (_, v) :: rest => Json.exact v && Json.exactMembers rest

end

mutual

/-- Equality up to the order of members at every level. -/
inductive Json.Same : Json → Json → Prop where
  | null : Json.Same .null .null
  | bool (b : Bool) : Json.Same (.bool b) (.bool b)
  | int (i : Int) : Json.Same (.int i) (.int i)
  | str (s : String) : Json.Same (.str s) (.str s)
  | arr {xs ys : List Json} (h : Json.SameItems xs ys) : Json.Same (.arr xs) (.arr ys)
  | obj {members ordered members' : List (String × Json)} (h : Json.SameMembers members ordered)
      (hperm : ordered.Perm members') : Json.Same (.obj members) (.obj members')

inductive Json.SameItems : List Json → List Json → Prop where
  | nil : Json.SameItems [] []
  | cons {x y : Json} {xs ys : List Json} (h : Json.Same x y) (hrest : Json.SameItems xs ys) :
      Json.SameItems (x :: xs) (y :: ys)

inductive Json.SameMembers : List (String × Json) → List (String × Json) → Prop where
  | nil : Json.SameMembers [] []
  | cons {key : String} {v w : Json} {members members' : List (String × Json)} (h : Json.Same v w)
      (hrest : Json.SameMembers members members') :
      Json.SameMembers ((key, v) :: members) ((key, w) :: members')

end

/-- Induction over a value: an array is reached from its items, an object from its members. -/
theorem Json.recOnValues {motive : Json → Prop} (null : motive .null) (bool : ∀ b, motive (.bool b))
    (int : ∀ i, motive (.int i)) (float : ∀ f, motive (.float f)) (str : ∀ s, motive (.str s))
    (arr : ∀ xs, (∀ x ∈ xs, motive x) → motive (.arr xs))
    (obj : ∀ members, (∀ m ∈ members, motive m.2) → motive (.obj members))
    (other : ∀ name, motive (.other name)) (v : Json) : motive v := by
  refine @Json.rec motive (fun xs => ∀ x ∈ xs, motive x) (fun members => ∀ m ∈ members, motive m.2)
    (fun m => motive m.2) null bool int float str arr obj other ?_ ?_ ?_ ?_ ?_ v
  · exact fun x hx => (by cases hx)
  · exact fun _ _ hhead htail => List.forall_mem_cons.mpr ⟨hhead, htail⟩
  · exact fun m hm => (by cases hm)
  · exact fun _ _ hhead htail => List.forall_mem_cons.mpr ⟨hhead, htail⟩
  · exact fun _ _ hv => hv

theorem Json.exactList_iff {xs : List Json} : Json.exactList xs = true ↔ ∀ x ∈ xs, x.exact = true := by
  induction xs with
  | nil => simp [Json.exactList]
  | cons x xs ih => simp [Json.exactList, ih]

theorem Json.exactMembers_iff {members : List (String × Json)} :
    Json.exactMembers members = true ↔ ∀ m ∈ members, m.2.exact = true := by
  induction members with
  | nil => simp [Json.exactMembers]
  | cons m rest ih =>
    obtain ⟨k, v⟩ := m
    simp [Json.exactMembers, ih]

/-! ## Texts that end where they end -/

/-- The rest of a text that no digit begins. -/
def Stops (rest : List Char) : Prop := ∀ c ∈ rest.head?, c.isDigit = false

/-- Of two texts that begin the same text, neither goes on where the other ends. -/
def Separates (s t : List Char) : Prop :=
  ∀ r r', Stops r → Stops r' → s ++ r = t ++ r' → s = t ∧ r = r'

/-- Digits end where something else begins. -/
theorem digits_separate {s t : List Char} (hs : ∀ c ∈ s, c.isDigit = true)
    (ht : ∀ c ∈ t, c.isDigit = true) : Separates s t := by
  intro r r' hr hr' h
  induction s generalizing t with
  | nil =>
    cases t with
    | nil => exact ⟨rfl, h⟩
    | cons c t =>
      have hc := hr c (by rw [show r = c :: (t ++ r') from h]; rfl)
      rw [ht c List.mem_cons_self] at hc
      cases hc
  | cons c s ih =>
    cases t with
    | nil =>
      have hc := hr' c (by rw [← show c :: (s ++ r) = r' from h]; rfl)
      rw [hs c List.mem_cons_self] at hc
      cases hc
    | cons d t =>
      simp only [List.cons_append, List.cons.injEq] at h
      obtain ⟨hst, hrest⟩ := ih (fun x hx => hs x (List.mem_cons_of_mem _ hx))
        (fun x hx => ht x (List.mem_cons_of_mem _ hx)) h.2
      exact ⟨by rw [h.1, hst], hrest⟩

/-- What stands after the first of some members. -/
private theorem commaJoin_cons (t : List Char) (ts : List (List Char)) (close : Char) (r : List Char) :
    commaJoin (t :: ts) ++ close :: r =
      t ++ if ts = [] then close :: r else ',' :: (commaJoin ts ++ close :: r) := by
  cases ts with
  | nil => simp [commaJoin]
  | cons u us => simp [commaJoin]

/-- Members that separate from each other determine the list of them. -/
theorem commaJoin_inj {close : Char} (hdigit : close.isDigit = false) (hcomma : close ≠ ',')
    {ss ts : List (List Char)} (hs : ∀ s ∈ ss, s ≠ [] ∧ s.head? ≠ some close)
    (ht : ∀ t ∈ ts, t ≠ [] ∧ t.head? ≠ some close) (hsep : ∀ s ∈ ss, ∀ t ∈ ts, Separates s t)
    {r r' : List Char} (h : commaJoin ss ++ close :: r = commaJoin ts ++ close :: r') :
    ss = ts ∧ r = r' := by
  -- an empty list and a first member differ in their first character
  have hfirst : ∀ {t : List Char} {ts : List (List Char)} {r r' : List Char},
      t ≠ [] ∧ t.head? ≠ some close → close :: r ≠ commaJoin (t :: ts) ++ close :: r' := by
    rintro t ts r r' ⟨hnil, hhead⟩ heq
    rw [commaJoin_cons] at heq
    cases t with
    | nil => exact hnil rfl
    | cons c t =>
      simp only [List.cons_append, List.cons.injEq] at heq
      exact hhead (by rw [List.head?_cons, heq.1])
  have hstops : ∀ (us : List (List Char)) (x : List Char),
      Stops (if us = [] then close :: x else ',' :: (commaJoin us ++ close :: x)) := by
    intro us x c hc
    split at hc
    · simp only [List.head?_cons, Option.mem_def, Option.some.injEq] at hc
      rwa [← hc]
    · simp only [List.head?_cons, Option.mem_def, Option.some.injEq] at hc
      rw [← hc]
      rfl
  induction ss generalizing ts with
  | nil =>
    cases ts with
    | nil => exact ⟨rfl, by simpa [commaJoin] using h⟩
    | cons t ts => exact absurd h (hfirst (ht t List.mem_cons_self))
  | cons s ss ih =>
    cases ts with
    | nil => exact absurd h.symm (hfirst (hs s List.mem_cons_self))
    | cons t ts =>
      rw [commaJoin_cons, commaJoin_cons] at h
      obtain ⟨rfl, hrest⟩ := hsep s List.mem_cons_self t List.mem_cons_self _ _ (hstops ss r) (hstops ts r') h
      by_cases hss : ss = []
      · by_cases hts : ts = []
        · subst hss hts
          exact ⟨rfl, by simpa using hrest⟩
        · rw [if_pos hss, if_neg hts, List.cons.injEq] at hrest
          exact absurd hrest.1 hcomma
      · by_cases hts : ts = []
        · rw [if_neg hss, if_pos hts, List.cons.injEq] at hrest
          exact absurd hrest.1.symm hcomma
        · rw [if_neg hss, if_neg hts, List.cons.injEq] at hrest
          obtain ⟨rfl, hr⟩ := ih (fun x hx => hs x (List.mem_cons_of_mem _ hx))
            (fun x hx => ht x (List.mem_cons_of_mem _ hx))
            (fun x hx y hy => hsep x (List.mem_cons_of_mem _ hx) y (List.mem_cons_of_mem _ hy)) hrest.2
          exact ⟨rfl, hr⟩

/-! ## Texts of strings and numbers -/

private def quoteChar : Char := Char.ofNat 34

private def backslashChar : Char := Char.ofNat 92

/-- The character that a short escape stands for. -/
private def shortEscape (k : Char) : Char :=
  if k = 'b' then Char.ofNat 8
  else if k = 'f' then Char.ofNat 12
  else if k = 'n' then Char.ofNat 10
  else if k = 'r' then Char.ofNat 13
  else if k = 't' then Char.ofNat 9
  else k

private def hexValue (c : Char) : Nat := if c.isDigit then c.toNat - 48 else c.toNat - 87

/-- The first character of a string that goes on, and what follows it. -/
private def readChar : List Char → Option (Char × List Char)
  | c :: k :: rest =>
    if c = quoteChar then none
    else if c = backslashChar then
      if k = 'u' then some (Char.ofNat (16 * hexValue (rest.getD 2 '0') + hexValue (rest.getD 3 '0')), rest.drop 4)
      else some (shortEscape k, rest)
    else some (c, k :: rest)
  | _ => none

private theorem eq_ofNat {c : Char} {n : Nat} (h : c.toNat = n) : c = Char.ofNat n := by
  rw [← h, Char.ofNat_toNat]

private theorem hexValue_digitChar : ∀ d < 16, hexValue (Nat.digitChar d) = d := by decide

/-- Escapes are read back. -/
private theorem readChar_escapeChar (c k : Char) (r : List Char) :
    readChar (escapeChar c ++ k :: r) = some (c, k :: r) := by
  simp only [escapeChar]
  split
  · rename_i h
    rcases h with h | h
    · rw [eq_ofNat h]
      rfl
    · rw [eq_ofNat h]
      rfl
  rename_i hplain
  split
  · rename_i h
    rw [eq_ofNat h]
    rfl
  split
  · rename_i h
    rw [eq_ofNat h]
    rfl
  split
  · rename_i h
    rw [eq_ofNat h]
    rfl
  split
  · rename_i h
    rw [eq_ofNat h]
    rfl
  split
  · rename_i h
    rw [eq_ofNat h]
    rfl
  split
  · -- a control character in hexadecimal
    rename_i h
    have hvalue : 16 * (c.toNat / 16) + c.toNat % 16 = c.toNat := Nat.div_add_mod _ _
    show some (Char.ofNat (16 * hexValue (Nat.digitChar (c.toNat / 16)) +
      hexValue (Nat.digitChar (c.toNat % 16))), k :: r) = _
    rw [hexValue_digitChar _ (by omega), hexValue_digitChar _ (Nat.mod_lt _ (by decide)), hvalue,
      Char.ofNat_toNat]
  · have hquote : c ≠ quoteChar := fun h => hplain (.inl (by rw [h]; rfl))
    have hback : c ≠ backslashChar := fun h => hplain (.inr (by rw [h]; rfl))
    show readChar (c :: k :: r) = _
    rw [readChar, if_neg hquote, if_neg hback]

/-- Strings end at their closing quote. -/
private theorem escaped_inj {l l' r r' : List Char}
    (h : l.flatMap escapeChar ++ quoteChar :: r = l'.flatMap escapeChar ++ quoteChar :: r') :
    l = l' ∧ r = r' := by
  -- what is read next: a character, or nothing at the closing quote
  have hread : ∀ (c : Char) (m x : List Char), readChar ((c :: m).flatMap escapeChar ++ quoteChar :: x) =
      some (c, m.flatMap escapeChar ++ quoteChar :: x) := by
    intro c m x
    obtain ⟨k, y, hy⟩ : ∃ k y, m.flatMap escapeChar ++ quoteChar :: x = k :: y :=
      List.exists_cons_of_ne_nil (by simp)
    rw [List.flatMap_cons, List.append_assoc, hy, readChar_escapeChar]
  have hend : ∀ x : List Char, readChar (quoteChar :: x) = none := by
    intro x
    cases x <;> simp [readChar]
  induction l generalizing l' with
  | nil =>
    cases l' with
    | nil => exact ⟨rfl, by simpa using h⟩
    | cons d m' =>
      have hd := hread d m' r'
      rw [← h] at hd
      cases ((hend r).symm.trans hd)
  | cons c m ih =>
    have hc := hread c m r
    rw [h] at hc
    cases l' with
    | nil => cases ((hend r').symm.trans hc)
    | cons d m' =>
      rw [hread d m' r'] at hc
      simp only [Option.some.injEq, Prod.mk.injEq] at hc
      obtain ⟨hm, hr⟩ := ih hc.2.symm
      exact ⟨by rw [← hc.1, hm], hr⟩

/-- The text of a string determines the string and where it ends. -/
theorem jsonString_append_inj {s t : String} {r r' : List Char}
    (h : jsonString s ++ r = jsonString t ++ r') : s = t ∧ r = r' := by
  simp only [jsonString, List.cons_append, List.append_assoc, List.nil_append, List.cons.injEq,
    true_and] at h
  obtain ⟨hl, hr⟩ := escaped_inj h
  exact ⟨String.toList_inj.mp hl, hr⟩

private theorem decimalText_isDigit (n : Nat) : ∀ c ∈ decimalText n, c.isDigit = true :=
  fun _ hc => Nat.isDigit_of_mem_toDigits (by decide) (by decide) hc

private theorem decimalText_inj {m n : Nat} (h : decimalText m = decimalText n) : m = n := by
  have hvalue := congrArg (fun l => Nat.ofDigitChars 10 l 0) h
  simpa [decimalText] using hvalue

/-- The text of an integer. -/
private theorem intText_cases {i : Int} {s : List Char} (h : intText i = .ok s) :
    (i < 0 ∧ s = '-' :: decimalText i.natAbs) ∨ (0 ≤ i ∧ s = decimalText i.natAbs) := by
  simp only [intText] at h
  split at h
  · cases h
  · split at h
    · exact .inl ⟨by assumption, (Except.ok.inj h).symm⟩
    · exact .inr ⟨by omega, (Except.ok.inj h).symm⟩

/-- The text of an integer determines the integer and where it ends. -/
theorem intText_separates {i j : Int} {s t : List Char} (hs : intText i = .ok s) (ht : intText j = .ok t) :
    Separates s t ∧ (s = t → i = j) := by
  have hsep := digits_separate (decimalText_isDigit i.natAbs) (decimalText_isDigit j.natAbs)
  -- a sign is no digit
  have hsign : ∀ (n : Nat) (r r' : List Char), '-' :: r ≠ decimalText n ++ r' := by
    intro n r r' heq
    cases hdigits : decimalText n with
    | nil => exact absurd hdigits Nat.toDigits_ne_nil
    | cons d rest =>
      have hd := decimalText_isDigit n d (by rw [hdigits]; exact List.mem_cons_self)
      rw [hdigits, List.cons_append, List.cons.injEq] at heq
      rw [← heq.1] at hd
      cases hd
  rcases intText_cases hs with ⟨hi, rfl⟩ | ⟨hi, rfl⟩ <;> rcases intText_cases ht with ⟨hj, rfl⟩ | ⟨hj, rfl⟩
  · refine ⟨fun r r' hr hr' h => ?_, fun h => ?_⟩
    · simp only [List.cons_append, List.cons.injEq, true_and] at h
      obtain ⟨heq, hrest⟩ := hsep r r' hr hr' h
      exact ⟨by rw [heq], hrest⟩
    · simp only [List.cons.injEq, true_and] at h
      have hnat := decimalText_inj h
      omega
  · exact ⟨fun r r' _ _ h => absurd h (hsign _ _ _), fun h => absurd (by simpa using h) (hsign j.natAbs _ [])⟩
  · refine ⟨fun r r' _ _ h => absurd h.symm (hsign _ _ _), fun h => ?_⟩
    exact absurd (by simpa using h.symm) (hsign i.natAbs (decimalText j.natAbs) [])
  · refine ⟨hsep, fun h => ?_⟩
    have hnat := decimalText_inj h
    omega

/-! ## Canonical texts -/

/-- The values are those that are there if no item raises. -/
theorem sequence_eq_ok {α : Type} {l : List (Except PyError α)} {as : List α}
    (h : sequence l = .ok as) : l = as.map .ok := by
  induction l generalizing as with
  | nil =>
    cases h
    rfl
  | cons x l ih =>
    cases x with
    | error e => cases h
    | ok a =>
      simp only [sequence] at h
      cases hrest : sequence l with
      | error e =>
        rw [hrest] at h
        cases h
      | ok rest =>
        rw [hrest] at h
        cases h
        rw [ih hrest, List.map_cons]

theorem canonList_eq (xs : List Json) : canonList xs = xs.map canon := by
  induction xs with
  | nil => rfl
  | cons x xs ih => rw [canonList, ih, List.map_cons]

theorem canonMembers_eq (members : List (String × Json)) :
    canonMembers members = members.map fun m => (m.1, canon m.2) := by
  induction members with
  | nil => rfl
  | cons m rest ih => rw [canonMembers, ih, List.map_cons]

theorem canon_arr_eq_ok {xs : List Json} {s : List Char} (h : canon (.arr xs) = .ok s) :
    ∃ ts, xs.map canon = ts.map .ok ∧ s = '[' :: commaJoin ts ++ [']'] := by
  simp only [canon] at h
  cases hts : sequence (canonList xs) with
  | error e =>
    rw [hts] at h
    cases h
  | ok ts =>
    rw [hts] at h
    exact ⟨ts, by rw [← canonList_eq, sequence_eq_ok hts], (Except.ok.inj h).symm⟩

/-- The members of an object in the order of their encoding, and their texts. -/
theorem canon_obj_eq_ok {members : List (String × Json)} {s : List Char}
    (h : canon (.obj members) = .ok s) :
    ∃ (ordered : List (String × List Char)),
      (members.map fun m => (m.1, canon m.2)).Perm (ordered.map fun m => (m.1, Except.ok m.2)) ∧
      s = Char.ofNat 123 :: commaJoin (ordered.map fun m => jsonString m.1 ++ ':' :: m.2) ++
        [Char.ofNat 125] := by
  simp only [canon] at h
  cases hts : sequence (((canonMembers members).insertionSort memberLe).map memberText) with
  | error e =>
    rw [hts] at h
    cases h
  | ok ts =>
    rw [hts] at h
    have hmap := sequence_eq_ok hts
    -- every member has a text
    have hall : ∀ (l : List (String × Except PyError (List Char))) (us : List (List Char)),
        l.map memberText = us.map .ok → ∃ ordered : List (String × List Char),
          l = ordered.map (fun m => (m.1, Except.ok m.2)) ∧
            us = ordered.map fun m => jsonString m.1 ++ ':' :: m.2 := by
      intro l
      induction l with
      | nil =>
        intro us hus
        exact ⟨[], rfl, by simpa using hus.symm⟩
      | cons m l ih =>
        intro us hus
        obtain ⟨k, v⟩ := m
        cases us with
        | nil => cases hus
        | cons u us =>
          rw [List.map_cons, List.map_cons, List.cons.injEq] at hus
          obtain ⟨ordered, rfl, rfl⟩ := ih us hus.2
          cases v with
          | error e => cases hus.1
          | ok text => exact ⟨(k, text) :: ordered, rfl, by rw [← Except.ok.inj hus.1]; rfl⟩
    obtain ⟨ordered, hordered, rfl⟩ := hall _ _ hmap
    refine ⟨ordered, ?_, (Except.ok.inj h).symm⟩
    rw [← hordered, ← canonMembers_eq]
    exact (List.perm_insertionSort memberLe _).symm

/-- The kind of a value, which the first character of its text tells. -/
private def Json.kind : Json → Nat
  | .null => 0
  | .bool true => 1
  | .bool false => 2
  | .int _ => 3
  | .str _ => 4
  | .arr _ => 5
  | .obj _ => 6
  | .float _ | .other _ => 7

private def charKind (c : Char) : Nat :=
  if c = 'n' then 0
  else if c = 't' then 1
  else if c = 'f' then 2
  else if c = quoteChar then 4
  else if c = '[' then 5
  else if c = Char.ofNat 123 then 6
  else if c = '-' ∨ c.isDigit = true then 3
  else 7

private theorem charKind_of_isDigit {c : Char} (h : c.isDigit = true) : charKind c = 3 := by
  have hne : ∀ d : Char, d.isDigit = false → c ≠ d := by
    rintro d hd rfl
    rw [hd] at h
    cases h
  unfold charKind
  rw [if_neg (hne _ rfl), if_neg (hne _ rfl), if_neg (hne _ rfl), if_neg (hne _ rfl), if_neg (hne _ rfl),
    if_neg (hne _ rfl), if_pos (.inr h)]

private theorem canon_head {v : Json} (hv : v.exact = true) {s : List Char} (h : canon v = .ok s) :
    ∃ c rest, s = c :: rest ∧ charKind c = v.kind := by
  cases v with
  | null => exact ⟨_, _, (Except.ok.inj h).symm, rfl⟩
  | bool b =>
    cases b with
    | true => exact ⟨_, _, (Except.ok.inj h).symm, rfl⟩
    | false => exact ⟨_, _, (Except.ok.inj h).symm, rfl⟩
  | int i =>
    rcases intText_cases h with ⟨-, rfl⟩ | ⟨-, rfl⟩
    · exact ⟨_, _, rfl, rfl⟩
    · obtain ⟨c, rest, hdigits⟩ := List.exists_cons_of_ne_nil (Nat.toDigits_ne_nil (n := i.natAbs) (b := 10))
      have hc := decimalText_isDigit i.natAbs c (by rw [decimalText, hdigits]; exact List.mem_cons_self)
      exact ⟨c, rest, hdigits, charKind_of_isDigit hc⟩
  | float f => cases hv
  | str s => exact ⟨_, _, (Except.ok.inj h).symm, rfl⟩
  | arr xs =>
    obtain ⟨ts, -, rfl⟩ := canon_arr_eq_ok h
    exact ⟨_, _, rfl, rfl⟩
  | obj members =>
    obtain ⟨ordered, -, rfl⟩ := canon_obj_eq_ok h
    exact ⟨_, _, rfl, rfl⟩
  | other name => cases hv

/-- No canonical text begins with a closing bracket. -/
private theorem canon_head_ne {v : Json} (hv : v.exact = true) {s : List Char} (h : canon v = .ok s) :
    s ≠ [] ∧ s.head? ≠ some ']' := by
  obtain ⟨c, rest, rfl, hc⟩ := canon_head hv h
  refine ⟨List.cons_ne_nil _ _, fun hhead => ?_⟩
  obtain rfl : c = ']' := by simpa using hhead
  have hkind : v.kind = 7 := hc.symm
  cases v with
  | bool b => cases b <;> cases hkind
  | float f => cases hv
  | other name => cases hv
  | _ => cases hkind

/-- What is shown of two canonical texts: they separate, and when they are equal so are the values. -/
private def Determined (v w : Json) (s t : List Char) : Prop :=
  Separates s t ∧ (s = t → Json.Same v w)

/-- Texts of values of two kinds differ in their first character. -/
private theorem determined_of_kind {v w : Json} {s t : List Char} (hv : v.exact = true)
    (hw : w.exact = true) (hs : canon v = .ok s) (ht : canon w = .ok t) (hkind : v.kind ≠ w.kind) :
    Determined v w s t := by
  obtain ⟨c, r, rfl, hc⟩ := canon_head hv hs
  obtain ⟨d, r', rfl, hd⟩ := canon_head hw ht
  have hne : c ≠ d := by
    rintro rfl
    exact hkind (hc.symm.trans hd)
  refine ⟨fun _ _ _ _ h => ?_, fun h => ?_⟩
  · exact absurd (List.cons.inj h).1 hne
  · exact absurd (List.cons.inj h).1 hne

private theorem determined_refl (v : Json) (hsame : Json.Same v v) (s : List Char) : Determined v v s s :=
  ⟨fun _ _ _ _ h => ⟨rfl, List.append_cancel_left h⟩, fun _ => hsame⟩

private theorem sameItems {xs ys : List Json}
    (hsame : ∀ x ∈ xs, ∀ y ∈ ys, canon x = canon y → Json.Same x y) (h : xs.map canon = ys.map canon) :
    Json.SameItems xs ys := by
  induction xs generalizing ys with
  | nil =>
    rw [List.map_nil, eq_comm, List.map_eq_nil_iff] at h
    rw [h]
    exact .nil
  | cons x xs ih =>
    cases ys with
    | nil => cases h
    | cons y ys =>
      rw [List.map_cons, List.map_cons, List.cons.injEq] at h
      exact .cons (hsame x List.mem_cons_self y List.mem_cons_self h.1)
        (ih (fun a ha b hb => hsame a (List.mem_cons_of_mem _ ha) b (List.mem_cons_of_mem _ hb)) h.2)

private theorem sameMembers {members members' : List (String × Json)}
    (hsame : ∀ m ∈ members, ∀ m' ∈ members', canon m.2 = canon m'.2 → Json.Same m.2 m'.2)
    (h : List.Forall₂ (fun a m => a = (m.1, canon m.2)) (members.map fun m => (m.1, canon m.2)) members') :
    Json.SameMembers members members' := by
  induction members generalizing members' with
  | nil =>
    cases h
    exact .nil
  | cons m rest ih =>
    cases h with
    | @cons _ m' _ rest' hm hrest =>
      have hval := hsame m List.mem_cons_self m' List.mem_cons_self (Prod.mk.inj hm).2
      obtain ⟨k, v⟩ := m
      obtain ⟨k', v'⟩ := m'
      obtain rfl : k = k' := (Prod.mk.inj hm).1
      exact .cons hval
        (ih (fun a ha b hb => hsame a (List.mem_cons_of_mem _ ha) b (List.mem_cons_of_mem _ hb)) hrest)

/-- Arrays are determined when their items are. -/
private theorem determined_arr {xs ys : List Json} {s t : List Char}
    (hitems : ∀ x ∈ xs, ∀ y ∈ ys, ∀ u u', canon x = .ok u → canon y = .ok u' → Determined x y u u')
    (hheads : ∀ x ∈ xs ++ ys, ∀ u, canon x = .ok u → u ≠ [] ∧ u.head? ≠ some ']')
    (hs : canon (.arr xs) = .ok s) (ht : canon (.arr ys) = .ok t) : Determined (.arr xs) (.arr ys) s t := by
  obtain ⟨us, hus, rfl⟩ := canon_arr_eq_ok hs
  obtain ⟨us', hus', rfl⟩ := canon_arr_eq_ok ht
  -- every text is that of an item
  have hitem : ∀ {zs : List Json} {ws : List (List Char)}, zs.map canon = ws.map .ok →
      ∀ w ∈ ws, ∃ z ∈ zs, canon z = .ok w := by
    intro zs ws hzs w hw
    have hmem : Except.ok w ∈ zs.map canon := by
      rw [hzs]
      exact List.mem_map_of_mem hw
    exact List.mem_map.mp hmem
  have hinj : ∀ r r', commaJoin us ++ ']' :: r = commaJoin us' ++ ']' :: r' → us = us' ∧ r = r' := by
    intro r r'
    refine commaJoin_inj rfl (by decide) (fun u hu => ?_) (fun u hu => ?_) (fun u hu u' hu' => ?_)
    · obtain ⟨x, hx, hux⟩ := hitem hus u hu
      exact hheads x (List.mem_append_left _ hx) u hux
    · obtain ⟨y, hy, huy⟩ := hitem hus' u hu
      exact hheads y (List.mem_append_right _ hy) u huy
    · obtain ⟨x, hx, hux⟩ := hitem hus u hu
      obtain ⟨y, hy, huy⟩ := hitem hus' u' hu'
      exact (hitems x hx y hy u u' hux huy).1
  refine ⟨fun r r' _ _ h => ?_, fun h => ?_⟩
  · simp only [List.cons_append, List.append_assoc, List.nil_append, List.cons.injEq, true_and] at h
    obtain ⟨rfl, hr⟩ := hinj r r' h
    exact ⟨rfl, hr⟩
  · rw [List.cons_append, List.cons_append, List.cons.injEq] at h
    obtain ⟨rfl, -⟩ := hinj [] [] h.2
    refine .arr (sameItems (fun x hx y hy hxy => ?_) (hus.trans hus'.symm))
    have hmem : canon x ∈ us.map Except.ok := hus ▸ List.mem_map_of_mem hx
    obtain ⟨u, -, hu⟩ := List.mem_map.mp hmem
    exact (hitems x hx y hy u u hu.symm (hxy ▸ hu.symm)).2 rfl

/-- Objects are determined when the values of their members are. -/
private theorem determined_obj {members members' : List (String × Json)} {s t : List Char}
    (hvalues : ∀ m ∈ members, ∀ m' ∈ members', ∀ u u', canon m.2 = .ok u → canon m'.2 = .ok u' →
      Determined m.2 m'.2 u u')
    (hs : canon (.obj members) = .ok s) (ht : canon (.obj members') = .ok t) :
    Determined (.obj members) (.obj members') s t := by
  obtain ⟨ordered, hperm, rfl⟩ := canon_obj_eq_ok hs
  obtain ⟨ordered', hperm', rfl⟩ := canon_obj_eq_ok ht
  have hvalue : ∀ {ms : List (String × Json)} {os : List (String × List Char)},
      (ms.map fun m => (m.1, canon m.2)).Perm (os.map fun m => (m.1, Except.ok m.2)) →
      ∀ o ∈ os, ∃ m ∈ ms, canon m.2 = .ok o.2 := by
    intro ms os hp o ho
    have hmem : (o.1, Except.ok o.2) ∈ ms.map fun m => (m.1, canon m.2) :=
      hp.mem_iff.mpr (List.mem_map_of_mem ho)
    obtain ⟨m, hm, heq⟩ := List.mem_map.mp hmem
    exact ⟨m, hm, (Prod.mk.inj heq).2⟩
  have hquote : ∀ (os : List (String × List Char)),
      ∀ u ∈ os.map (fun m => jsonString m.1 ++ ':' :: m.2), u ≠ [] ∧ u.head? ≠ some (Char.ofNat 125) := by
    intro os u hu
    obtain ⟨o, -, rfl⟩ := List.mem_map.mp hu
    exact ⟨List.cons_ne_nil _ _, by simp [jsonString]⟩
  have hinj : ∀ r r', commaJoin (ordered.map fun m => jsonString m.1 ++ ':' :: m.2) ++ Char.ofNat 125 :: r =
      commaJoin (ordered'.map fun m => jsonString m.1 ++ ':' :: m.2) ++ Char.ofNat 125 :: r' →
      ordered.map (fun m => jsonString m.1 ++ ':' :: m.2) =
        ordered'.map (fun m => jsonString m.1 ++ ':' :: m.2) ∧ r = r' := by
    intro r r'
    refine commaJoin_inj rfl (by decide) (hquote ordered) (hquote ordered') (fun u hu u' hu' => ?_)
    obtain ⟨o, ho, rfl⟩ := List.mem_map.mp hu
    obtain ⟨o', ho', rfl⟩ := List.mem_map.mp hu'
    obtain ⟨m, hm, hom⟩ := hvalue hperm o ho
    obtain ⟨m', hm', hom'⟩ := hvalue hperm' o' ho'
    intro x x' hx hx' h
    simp only [List.append_assoc, List.cons_append] at h
    obtain ⟨hkey, hrest⟩ := jsonString_append_inj h
    rw [List.cons.injEq] at hrest
    obtain ⟨hval, hxx⟩ := (hvalues m hm m' hm' o.2 o'.2 hom hom').1 x x' hx hx' hrest.2
    exact ⟨by rw [hkey, hval], hxx⟩
  refine ⟨fun r r' _ _ h => ?_, fun h => ?_⟩
  · simp only [List.cons_append, List.append_assoc, List.nil_append, List.cons.injEq, true_and] at h
    obtain ⟨heq, hr⟩ := hinj r r' h
    exact ⟨by rw [heq], hr⟩
  · rw [List.cons_append, List.cons_append, List.cons.injEq] at h
    obtain ⟨heq, -⟩ := hinj [] [] h.2
    -- the member texts determine the names and the texts of the values
    have hordered : ordered = ordered' := by
      refine List.map_injective_iff.mpr ?_ heq
      intro o o' ho
      obtain ⟨hkey, hrest⟩ := jsonString_append_inj ho
      rw [List.cons.injEq] at hrest
      exact Prod.ext hkey hrest.2
    subst hordered
    obtain ⟨listed, hlisted, hto⟩ := List.perm_comp_forall₂ (hperm.trans hperm'.symm)
      (List.forall₂_map_left_iff.mpr (List.forall₂_same.mpr fun m _ => rfl) :
        List.Forall₂ (fun a m => a = (m.1, canon m.2)) (members'.map fun m => (m.1, canon m.2)) members')
    refine .obj (sameMembers (fun m hm m' hm' hmm => ?_) hlisted) hto
    have hmem := hperm.mem_iff.mp (List.mem_map_of_mem (f := fun m => (m.1, canon m.2)) hm)
    obtain ⟨o, -, ho⟩ := List.mem_map.mp hmem
    have hom := (Prod.mk.inj ho).2.symm
    exact (hvalues m hm m' (hto.mem_iff.mp hm') o.2 o.2 hom (hmm ▸ hom)).2 rfl

/-- A canonical text determines its value up to the order of members, and where it ends. -/
theorem canon_separates {v w : Json} (hv : v.exact = true) (hw : w.exact = true) {s t : List Char}
    (hs : canon v = .ok s) (ht : canon w = .ok t) : Separates s t ∧ (s = t → Json.Same v w) := by
  suffices h : Determined v w s t from h
  by_cases hkind : v.kind ≠ w.kind
  · exact determined_of_kind hv hw hs ht hkind
  rw [not_not] at hkind
  induction v using Json.recOnValues generalizing w s t with
  | null =>
    cases w with
    | null =>
      rw [hs] at ht
      cases ht
      exact determined_refl _ .null s
    | bool b => cases b <;> cases hkind
    | _ => cases hkind
  | bool b =>
    cases w with
    | bool b' =>
      obtain rfl : b = b' := by cases b <;> cases b' <;> first | rfl | cases hkind
      rw [hs] at ht
      cases ht
      exact determined_refl _ (.bool b) s
    | _ => cases b <;> cases hkind
  | int i =>
    cases w with
    | int j =>
      obtain ⟨hsep, heq⟩ := intText_separates hs ht
      exact ⟨hsep, fun h => heq h ▸ .int i⟩
    | bool b => cases b <;> cases hkind
    | _ => cases hkind
  | str a =>
    cases w with
    | str b =>
      cases hs
      cases ht
      refine ⟨fun r r' _ _ h => ?_, fun h => ?_⟩
      · obtain ⟨rfl, hr⟩ := jsonString_append_inj h
        exact ⟨rfl, hr⟩
      · obtain ⟨rfl, -⟩ := jsonString_append_inj (r := []) (congrArg (· ++ []) h)
        exact .str a
    | bool b => cases b <;> cases hkind
    | _ => cases hkind
  | float f => cases hv
  | arr xs ih =>
    cases w with
    | arr ys =>
      have hxs := Json.exactList_iff.mp hv
      have hys := Json.exactList_iff.mp hw
      refine determined_arr (fun x hx y hy u u' hu hu' => ?_) (fun x hx u hu => ?_) hs ht
      · by_cases hxy : x.kind = y.kind
        · exact ih x hx (hxs x hx) (hys y hy) hu hu' hxy
        · exact determined_of_kind (hxs x hx) (hys y hy) hu hu' hxy
      · rcases List.mem_append.mp hx with hx | hx
        · exact canon_head_ne (hxs x hx) hu
        · exact canon_head_ne (hys x hx) hu
    | bool b => cases b <;> cases hkind
    | _ => cases hkind
  | obj members ih =>
    cases w with
    | obj members' =>
      have hms := Json.exactMembers_iff.mp hv
      have hms' := Json.exactMembers_iff.mp hw
      refine determined_obj (fun m hm m' hm' u u' hu hu' => ?_) hs ht
      by_cases hmm : m.2.kind = m'.2.kind
      · exact ih m hm (hms m hm) (hms' m' hm') hu hu' hmm
      · exact determined_of_kind (hms m hm) (hms' m' hm') hu hu' hmm
    | bool b => cases b <;> cases hkind
    | _ => cases hkind
  | other name => cases hv

/-! ## Inside and outside of strings -/

/-- Where a reader of canonical text stands. -/
inductive Place where
  | outside
  | inside
  | escaped
  deriving DecidableEq

/-- The next place; outside of strings there is neither a backslash nor a dot. -/
def Place.next (p : Place) (c : Char) : Option Place :=
  match p with
  | .outside =>
    if c = quoteChar then some .inside
    else if c = backslashChar ∨ c = '.' then none
    else some .outside
  | .inside =>
    if c = quoteChar then some .outside
    else if c = backslashChar then some .escaped
    else some .inside
  | .escaped => some .inside

/-- Where the reader stands after a text. -/
def scan (p : Place) : List Char → Option Place
  | [] => some p
  | c :: rest => (p.next c).bind fun q => scan q rest

theorem scan_append (p : Place) (s t : List Char) : scan p (s ++ t) = (scan p s).bind fun q => scan q t := by
  induction s generalizing p with
  | nil => rfl
  | cons c s ih =>
    simp only [List.cons_append, scan]
    cases p.next c with
    | none => rfl
    | some q => exact ih q

/-- A text that begins and ends outside of strings. -/
def Closed (s : List Char) : Prop := scan .outside s = some .outside

theorem Closed.append {s t : List Char} (hs : Closed s) (ht : Closed t) : Closed (s ++ t) := by
  rw [Closed, scan_append, hs]
  exact ht

theorem closed_nil : Closed [] := rfl

theorem Closed.cons {c : Char} {t : List Char} (hc : Closed [c]) (ht : Closed t) : Closed (c :: t) :=
  Closed.append hc ht

/-- Reading from outside and from inside, one is inside when the other is outside. -/
theorem not_closed_both {s : List Char} (hout : Closed s) (hin : scan .inside s = some .outside) :
    False := by
  induction s with
  | nil => cases hin
  | cons c s ih =>
    simp only [Closed, scan, Place.next] at hout hin
    by_cases hquote : c = quoteChar
    · -- the readers change places
      rw [if_pos hquote] at hout hin
      exact ih hin hout
    · rw [if_neg hquote] at hout hin
      by_cases hback : c = backslashChar
      · rw [if_pos (.inl hback)] at hout
        cases hout
      · rw [if_neg hback] at hin
        split at hout
        · cases hout
        · exact ih hout hin

private theorem scan_escapeChar (c : Char) : scan .inside (escapeChar c) = some .inside := by
  have hdigit : ∀ d < 16, Nat.digitChar d ≠ quoteChar ∧ Nat.digitChar d ≠ backslashChar := by decide
  simp only [escapeChar]
  split
  · rename_i h
    rcases h with h | h
    · rw [eq_ofNat h]
      rfl
    · rw [eq_ofNat h]
      rfl
  rename_i hplain
  iterate 5
    split
    · rfl
  split
  · obtain ⟨hq, hb⟩ := hdigit (c.toNat / 16) (by omega)
    obtain ⟨hq', hb'⟩ := hdigit (c.toNat % 16) (Nat.mod_lt _ (by decide))
    show scan .inside [Nat.digitChar (c.toNat / 16), Nat.digitChar (c.toNat % 16)] = some .inside
    simp only [scan, Place.next, if_neg hq, if_neg hb, if_neg hq', if_neg hb', Option.bind_some]
  · have hquote : c ≠ quoteChar := fun h => hplain (.inl (by rw [h]; rfl))
    have hback : c ≠ backslashChar := fun h => hplain (.inr (by rw [h]; rfl))
    simp only [scan, Place.next, if_neg hquote, if_neg hback, Option.bind_some]

theorem closed_jsonString (s : String) : Closed (jsonString s) := by
  have hinside : ∀ l : List Char, scan .inside (l.flatMap escapeChar) = some .inside := by
    intro l
    induction l with
    | nil => rfl
    | cons c l ih =>
      rw [List.flatMap_cons, scan_append, scan_escapeChar]
      exact ih
  show scan .inside (s.toList.flatMap escapeChar ++ [quoteChar]) = some .outside
  rw [scan_append, hinside]
  rfl

private theorem closed_digits {l : List Char} (h : ∀ c ∈ l, c.isDigit = true) : Closed l := by
  induction l with
  | nil => exact closed_nil
  | cons c l ih =>
    have hne : ∀ d : Char, d.isDigit = false → c ≠ d := by
      rintro d hd rfl
      rw [h _ List.mem_cons_self] at hd
      cases hd
    refine Closed.cons ?_ (ih fun d hd => h d (List.mem_cons_of_mem _ hd))
    simp only [Closed, scan, Place.next]
    rw [if_neg (hne _ rfl), if_neg (not_or.mpr ⟨hne _ rfl, hne _ rfl⟩)]
    rfl

private theorem closed_commaJoin {ts : List (List Char)} (h : ∀ t ∈ ts, Closed t) :
    Closed (commaJoin ts) := by
  induction ts with
  | nil => exact closed_nil
  | cons t ts ih =>
    have hrest := ih fun u hu => h u (List.mem_cons_of_mem _ hu)
    cases ts with
    | nil => exact h t List.mem_cons_self
    | cons u us => exact (h t List.mem_cons_self).append (Closed.cons rfl hrest)

/-- Canonical texts begin and end outside of strings, and have their dots within them. -/
theorem closed_canon {v : Json} (hv : v.exact = true) {s : List Char} (hs : canon v = .ok s) :
    Closed s := by
  induction v using Json.recOnValues generalizing s with
  | null =>
    cases hs
    rfl
  | bool b =>
    cases b <;> cases hs <;> rfl
  | int i =>
    rcases intText_cases hs with ⟨-, rfl⟩ | ⟨-, rfl⟩
    · exact Closed.cons rfl (closed_digits (decimalText_isDigit _))
    · exact closed_digits (decimalText_isDigit _)
  | float f => cases hv
  | str a =>
    cases hs
    exact closed_jsonString a
  | arr xs ih =>
    obtain ⟨ts, hts, rfl⟩ := canon_arr_eq_ok hs
    refine Closed.cons rfl (Closed.append (closed_commaJoin fun t ht => ?_) rfl)
    have hmem : Except.ok t ∈ xs.map canon := by
      rw [hts]
      exact List.mem_map_of_mem ht
    obtain ⟨x, hx, hxt⟩ := List.mem_map.mp hmem
    exact ih x hx (Json.exactList_iff.mp hv x hx) hxt
  | obj members ih =>
    obtain ⟨ordered, hperm, rfl⟩ := canon_obj_eq_ok hs
    refine Closed.cons rfl (Closed.append (closed_commaJoin fun t ht => ?_) rfl)
    obtain ⟨o, ho, rfl⟩ := List.mem_map.mp ht
    have hmem : (o.1, Except.ok o.2) ∈ members.map fun m => (m.1, canon m.2) :=
      hperm.mem_iff.mpr (List.mem_map_of_mem ho)
    obtain ⟨m, hm, heq⟩ := List.mem_map.mp hmem
    exact (closed_jsonString _).append (Closed.cons rfl
      (ih m hm (Json.exactMembers_iff.mp hv m hm) (Prod.mk.inj heq).2))
  | other name => cases hv

/-! ## The dot between timestamp and event -/

/-- No dot within a canonical text is followed by a canonical text. -/
theorem closed_dot {s t x : List Char} (hs : Closed s) (ht : Closed t)
    (h : '.' :: s = x ++ '.' :: t) : x = [] := by
  cases x with
  | nil => rfl
  | cons c y =>
    rw [List.cons_append, List.cons.injEq] at h
    rw [Closed, h.2, scan_append] at hs
    cases hplace : scan .outside y with
    | none =>
      rw [hplace] at hs
      cases hs
    | some p =>
      rw [hplace] at hs
      -- the dot stands within a string, so the rest is read from inside
      have hin : scan .inside t = some .outside := by
        cases p with
        | outside => cases hs
        | inside => exact hs
        | escaped => exact hs
      exact (not_closed_both ht hin).elim

theorem dot_inj {a b s t : List Char} (hs : Closed s) (ht : Closed t)
    (h : a ++ '.' :: s = b ++ '.' :: t) : a = b ∧ s = t := by
  rcases List.append_eq_append_iff.mp h with ⟨x, rfl, hx⟩ | ⟨x, rfl, hx⟩
  · obtain rfl := closed_dot hs ht hx
    exact ⟨(List.append_nil a).symm, (List.cons.inj hx).2⟩
  · obtain rfl := closed_dot ht hs hx
    exact ⟨List.append_nil b, (List.cons.inj hx).2.symm⟩

private theorem encodeUtf8_append (s t : String) : encodeUtf8 (s ++ t) = encodeUtf8 s ++ encodeUtf8 t := by
  simp [encodeUtf8, String.toByteArray_append, ByteArray.data_append]

theorem encodeUtf8_inj {s t : String} (h : encodeUtf8 s = encodeUtf8 t) : s = t := by
  refine String.toByteArray_inj.mp (ByteArray.ext ?_)
  exact Array.toList_inj.mp h

/-- The signing input of an event. -/
private theorem signingInput_eq_ok {timestamp : String} {event : Json} {input : Bytes}
    (h : signingInput timestamp event = .ok input) :
    ∃ text, canon event = .ok text ∧ input = encodeUtf8 (timestamp ++ "." ++ String.ofList text) := by
  cases hc : canon event with
  | error e => simp [signingInput, canonicalize, hc, Except.map] at h
  | ok text =>
    simp only [signingInput, canonicalize, hc, Except.map, Except.ok.injEq] at h
    exact ⟨text, rfl, by rw [← h, encodeUtf8_append, encodeUtf8_append]⟩

/-- The signing input determines the timestamp and, up to the order of members, the event. -/
theorem signingInput_inj {t₁ t₂ : String} {e₁ e₂ : List (String × Json)}
    (h₁ : (Json.obj e₁).exact = true) (h₂ : (Json.obj e₂).exact = true) {input : Bytes}
    (hin₁ : signingInput t₁ (.obj e₁) = .ok input) (hin₂ : signingInput t₂ (.obj e₂) = .ok input) :
    t₁ = t₂ ∧ Json.Same (.obj e₁) (.obj e₂) := by
  obtain ⟨s₁, hs₁, rfl⟩ := signingInput_eq_ok hin₁
  obtain ⟨s₂, hs₂, heq⟩ := signingInput_eq_ok hin₂
  have htexts := congrArg String.toList (encodeUtf8_inj heq)
  simp only [String.toList_append, String.toList_ofList, List.append_assoc] at htexts
  obtain ⟨ht, hs⟩ := dot_inj (closed_canon h₁ hs₁) (closed_canon h₂ hs₂) htexts
  exact ⟨String.toList_inj.mp ht, (canon_separates h₁ h₂ hs₁ hs₂).2 hs⟩

/-- An event whose members are written in another order. -/
theorem signingInput_inj_sample :
    let e₁ := [("data", Json.arr [.int (-4), .null]), ("note.", .str ".")]
    let e₂ := [("note.", Json.str "."), ("data", .arr [.int (-4), .null])]
    "a.b." = "a.b." ∧ Json.Same (.obj e₁) (.obj e₂) := by
  intro e₁ e₂
  have h : signingInput "a.b." (.obj e₁) =
      .ok (encodeUtf8 "a.b..\x7b\"data\":[-4,null],\"note.\":\".\"\x7d") := rfl
  exact signingInput_inj rfl rfl h rfl

end A2AEvents

import A2AEvents.Spec.SigningInput

/-!
# The canonical encoding is canonical

Two values have the same canonical encoding exactly if they are equal up to the order of
members at every level. One half is that a canonical text determines its value
(`canon_separates`). The other half is that the order of the members of a value does not
matter: they are sorted by the UTF-16 code units of their names, which determine the names,
so that there is one sorted order only.

Integers of more than 4300 digits have no encoding: the interpreter does not print them.

## Key results

- `utf16Key_inj`: the UTF-16 code units of a name determine it
- `canon_congr`: the order of members does not show in the encoding
- `canonicalize_ok_iff`: which values have an encoding
- `canonicalize_eq_iff`: equal encodings are equality up to the order of members
-/

namespace A2AEvents

/-! ## Values -/

mutual

/-- The names of the members of every object of a value are distinct. -/
def Json.distinct : Json → Bool
  | .null | .bool _ | .int _ | .float _ | .str _ | .other _ => true
  | .arr xs => Json.distinctList xs
  | .obj members => decide (members.map Prod.fst).Nodup && Json.distinctMembers members

def Json.distinctList : List Json → Bool
  | [] => true
  | x :: xs => Json.distinct x && Json.distinctList xs

def Json.distinctMembers : List (String × Json) → Bool
  | [] => true
  | (_, v) :: rest => Json.distinct v && Json.distinctMembers rest

end

mutual

/-- Every integer of a value has at most the 4300 digits that the interpreter prints. -/
def Json.printable : Json → Bool
  | .int i => (decimalText i.natAbs).length ≤ 4300
  | .null | .bool _ | .float _ | .str _ | .other _ => true
  | .arr xs => Json.printableList xs
  | .obj members => Json.printableMembers members

def Json.printableList : List Json → Bool
  | [] => true
  | x :: xs => Json.printable x && Json.printableList xs

def Json.printableMembers : List (String × Json) → Bool
  | [] => true
  | (_, v) :: rest => Json.printable v && Json.printableMembers rest

end

mutual

/-- Every number of a value can be printed, and nothing in it is of a type without an encoding. -/
def Json.encodable : Json → Bool
  | .int i => (decimalText i.natAbs).length ≤ 4300
  | .float .nan | .float (.inf _) | .other _ => false
  | .null | .bool _ | .float (.zero _) | .float (.finite _) | .str _ => true
  | .arr xs => Json.encodableList xs
  | .obj members => Json.encodableMembers members

def Json.encodableList : List Json → Bool
  | [] => true
  | x :: xs => Json.encodable x && Json.encodableList xs

def Json.encodableMembers : List (String × Json) → Bool
  | [] => true
  | (_, v) :: rest => Json.encodable v && Json.encodableMembers rest

end

theorem Json.distinctList_iff {xs : List Json} :
    Json.distinctList xs = true ↔ ∀ x ∈ xs, x.distinct = true := by
  induction xs with
  | nil => simp [Json.distinctList]
  | cons x xs ih => simp [Json.distinctList, ih]

theorem Json.distinctMembers_iff {members : List (String × Json)} :
    Json.distinctMembers members = true ↔ ∀ m ∈ members, m.2.distinct = true := by
  induction members with
  | nil => simp [Json.distinctMembers]
  | cons m rest ih =>
    obtain ⟨k, v⟩ := m
    simp [Json.distinctMembers, ih]

theorem Json.distinct_obj {members : List (String × Json)} (h : (Json.obj members).distinct = true) :
    (members.map Prod.fst).Nodup ∧ ∀ m ∈ members, m.2.distinct = true := by
  simp only [Json.distinct, Bool.and_eq_true, decide_eq_true_eq] at h
  exact ⟨h.1, Json.distinctMembers_iff.mp h.2⟩

theorem Json.printableList_iff {xs : List Json} :
    Json.printableList xs = true ↔ ∀ x ∈ xs, x.printable = true := by
  induction xs with
  | nil => simp [Json.printableList]
  | cons x xs ih => simp [Json.printableList, ih]

theorem Json.printableMembers_iff {members : List (String × Json)} :
    Json.printableMembers members = true ↔ ∀ m ∈ members, m.2.printable = true := by
  induction members with
  | nil => simp [Json.printableMembers]
  | cons m rest ih =>
    obtain ⟨k, v⟩ := m
    simp [Json.printableMembers, ih]

theorem Json.encodableList_iff {xs : List Json} :
    Json.encodableList xs = true ↔ ∀ x ∈ xs, x.encodable = true := by
  induction xs with
  | nil => simp [Json.encodableList]
  | cons x xs ih => simp [Json.encodableList, ih]

theorem Json.encodableMembers_iff {members : List (String × Json)} :
    Json.encodableMembers members = true ↔ ∀ m ∈ members, m.2.encodable = true := by
  induction members with
  | nil => simp [Json.encodableMembers]
  | cons m rest ih =>
    obtain ⟨k, v⟩ := m
    simp [Json.encodableMembers, ih]

/-- Without floats and foreign types, only the integers matter. -/
theorem Json.encodable_eq_printable {v : Json} (hv : v.exact = true) : v.encodable = v.printable := by
  induction v using Json.recOnValues with
  | null | bool _ | int _ | str _ => rfl
  | float _ | other _ => cases hv
  | arr xs ih =>
    have hxs := Json.exactList_iff.mp hv
    rw [Bool.eq_iff_iff, Json.encodable, Json.printable, Json.encodableList_iff, Json.printableList_iff]
    exact forall₂_congr fun x hx => by rw [ih x hx (hxs x hx)]
  | obj members ih =>
    have hms := Json.exactMembers_iff.mp hv
    rw [Bool.eq_iff_iff, Json.encodable, Json.printable, Json.encodableMembers_iff,
      Json.printableMembers_iff]
    exact forall₂_congr fun m hm => by rw [ih m hm (hms m hm)]

/-! ## Names -/

/-- A character is no surrogate. -/
private theorem toNat_range (c : Char) :
    c.toNat < 0xd800 ∨ 0xdfff < c.toNat ∧ c.toNat < 0x110000 := by
  have h := c.valid
  simp only [UInt32.isValidChar, Nat.isValidChar] at h
  exact h

/-- The code units of the first character of two equal texts agree, and so do the rests. -/
private theorem utf16Units_append {c d : Char} {r r' : List Nat}
    (h : utf16Units c ++ r = utf16Units d ++ r') : c = d ∧ r = r' := by
  have hc := toNat_range c
  have hd := toNat_range d
  have hinj : c.toNat = d.toNat → c = d := fun h => Char.toNat_inj.mp h
  unfold utf16Units at h
  by_cases hlow : c.toNat < 0x10000
  · by_cases hlow' : d.toNat < 0x10000
    · simp only [if_pos hlow, if_pos hlow', List.cons_append, List.nil_append, List.cons.injEq] at h
      exact ⟨hinj h.1, h.2⟩
    · -- a high surrogate is no character
      simp only [if_pos hlow, if_neg hlow', List.cons_append, List.nil_append, List.cons.injEq] at h
      omega
  · by_cases hlow' : d.toNat < 0x10000
    · simp only [if_neg hlow, if_pos hlow', List.cons_append, List.nil_append, List.cons.injEq] at h
      omega
    · simp only [if_neg hlow, if_neg hlow', List.cons_append, List.nil_append, List.cons.injEq] at h
      obtain ⟨hhigh, hlow, hrest⟩ := h
      refine ⟨hinj ?_, hrest⟩
      omega

/-- The UTF-16 code units of a name determine it. -/
theorem utf16Key_inj {s t : String} (h : utf16Key s = utf16Key t) : s = t := by
  suffices hlist : ∀ l l' : List Char, l.flatMap utf16Units = l'.flatMap utf16Units → l = l' from
    String.toList_inj.mp (hlist _ _ h)
  have hne : ∀ c : Char, utf16Units c ≠ [] := by
    intro c
    simp only [utf16Units]
    split <;> exact List.cons_ne_nil _ _
  intro l
  induction l with
  | nil =>
    intro l' h'
    cases l' with
    | nil => rfl
    | cons d l' =>
      rw [List.flatMap_nil, List.flatMap_cons, eq_comm, List.append_eq_nil_iff] at h'
      exact absurd h'.1 (hne d)
  | cons c l ih =>
    intro l' h'
    cases l' with
    | nil =>
      rw [List.flatMap_nil, List.flatMap_cons, List.append_eq_nil_iff] at h'
      exact absurd h'.1 (hne c)
    | cons d l' =>
      rw [List.flatMap_cons, List.flatMap_cons] at h'
      obtain ⟨rfl, hrest⟩ := utf16Units_append h'
      rw [ih l' hrest]

instance : Std.Total memberLe where
  total a b := by
    show ¬ utf16Key b.1 < utf16Key a.1 ∨ ¬ utf16Key a.1 < utf16Key b.1
    rw [not_lt, not_lt]
    exact le_total _ _

instance : IsTrans _ memberLe where
  trans a b c hab hbc := by
    show ¬ utf16Key c.1 < utf16Key a.1
    have hab' : utf16Key a.1 ≤ utf16Key b.1 := not_lt.mp hab
    have hbc' : utf16Key b.1 ≤ utf16Key c.1 := not_lt.mp hbc
    exact not_lt.mpr (hab'.trans hbc')

/-- Members with distinct names have one sorted order. -/
theorem sort_congr {l l' : List (String × Except PyError (List Char))} (hn : (l.map Prod.fst).Nodup)
    (h : l.Perm l') : l.insertionSort memberLe = l'.insertionSort memberLe := by
  have hsorted := List.pairwise_insertionSort memberLe l
  have hsorted' := List.pairwise_insertionSort memberLe l'
  have hl := List.perm_insertionSort memberLe l
  have hl' := List.perm_insertionSort memberLe l'
  refine List.Perm.eq_of_pairwise (fun a b ha hb hab hba => ?_) hsorted hsorted' (hl.trans (h.trans hl'.symm))
  have hkey : utf16Key a.1 = utf16Key b.1 := le_antisymm (not_lt.mp hab) (not_lt.mp hba)
  exact List.inj_on_of_nodup_map hn (hl.mem_iff.mp ha) (h.mem_iff.mpr (hl'.mem_iff.mp hb)) (utf16Key_inj hkey)

/-! ## The order of members -/

/-- The texts of the members follow the values. -/
private theorem canon_sameMembers {members ordered : List (String × Json)} (h : Json.SameMembers members ordered)
    (hvalues : ∀ m ∈ members, ∀ w, Json.Same m.2 w → w.distinct = true → canon m.2 = canon w)
    (hdistinct : ∀ m ∈ ordered, m.2.distinct = true) :
    (members.map fun m => (m.1, canon m.2)) = ordered.map fun m => (m.1, canon m.2) := by
  induction members generalizing ordered with
  | nil =>
    cases h
    rfl
  | cons m rest ih =>
    cases h with
    | cons hval hrest =>
      obtain ⟨hd, hds⟩ := List.forall_mem_cons.mp hdistinct
      rw [List.map_cons, List.map_cons, hvalues _ List.mem_cons_self _ hval hd]
      congr 1
      exact ih hrest (fun a ha => hvalues a (List.mem_cons_of_mem _ ha)) hds

private theorem canon_sameItems {xs ys : List Json} (h : Json.SameItems xs ys)
    (hvalues : ∀ x ∈ xs, ∀ w, Json.Same x w → w.distinct = true → canon x = canon w)
    (hdistinct : ∀ y ∈ ys, y.distinct = true) : xs.map canon = ys.map canon := by
  induction xs generalizing ys with
  | nil =>
    cases h
    rfl
  | cons x rest ih =>
    cases h with
    | cons hval hrest =>
      obtain ⟨hd, hds⟩ := List.forall_mem_cons.mp hdistinct
      rw [List.map_cons, List.map_cons, hvalues _ List.mem_cons_self _ hval hd,
        ih hrest (fun a ha => hvalues a (List.mem_cons_of_mem _ ha)) hds]

/-- The order of members does not show in the encoding, nor in the exception that there is none. -/
theorem canon_congr {v w : Json} (h : Json.Same v w) (hw : w.distinct = true) : canon v = canon w := by
  induction v using Json.recOnValues generalizing w with
  | null | bool _ | int _ | str _ =>
    cases h
    rfl
  | float _ | other _ => cases h
  | arr xs ih =>
    cases h with
    | arr hitems =>
      rw [Json.distinct, Json.distinctList_iff] at hw
      simp only [canon, canonList_eq]
      rw [canon_sameItems hitems (fun x hx _ hxw hd => ih x hx hxw hd) hw]
  | obj members ih =>
    cases h with
    | @obj _ ordered members' hmembers hperm =>
      obtain ⟨hnames, hdistinct⟩ := Json.distinct_obj hw
      have hmaps := canon_sameMembers hmembers (fun m hm _ hmw hd => ih m hm hmw hd)
        (fun m hm => hdistinct m (hperm.mem_iff.mp hm))
      -- written in another order, the members are sorted into the same one
      have hsort : ((canonMembers members).insertionSort memberLe) =
          (canonMembers members').insertionSort memberLe := by
        rw [canonMembers_eq, canonMembers_eq, hmaps]
        refine (sort_congr ?_ (hperm.map _).symm).symm
        rw [List.map_map]
        exact hnames
      simp only [canon]
      rw [hsort]

/-! ## Values that have an encoding -/

private theorem exists_texts {α : Type} {f : α → Except PyError (List Char)} {l : List α}
    (h : ∀ a ∈ l, ∃ t, f a = .ok t) : ∃ ts : List (List Char), l.map f = ts.map .ok := by
  induction l with
  | nil => exact ⟨[], rfl⟩
  | cons a l ih =>
    obtain ⟨t, ht⟩ := h a List.mem_cons_self
    obtain ⟨ts, hts⟩ := ih fun b hb => h b (List.mem_cons_of_mem _ hb)
    exact ⟨t :: ts, by rw [List.map_cons, ht, hts, List.map_cons]⟩

private theorem sequence_map_ok {α : Type} (l : List α) : sequence (l.map (Except.ok (ε := PyError))) = .ok l := by
  induction l with
  | nil => rfl
  | cons a l ih =>
    rw [List.map_cons, sequence, ih]
    rfl

/-- The exception of a sequence is one of its own. -/
theorem mem_of_sequence_error {α : Type} {l : List (Except PyError α)} {e : PyError}
    (h : sequence l = .error e) : .error e ∈ l := by
  induction l with
  | nil => cases h
  | cons a l ih =>
    cases a with
    | error e' =>
      cases h
      exact List.mem_cons_self
    | ok a =>
      cases hrest : sequence l with
      | ok as =>
        rw [sequence, hrest] at h
        cases h
      | error e' =>
        rw [sequence, hrest] at h
        cases h
        exact List.mem_cons_of_mem _ (ih hrest)

private theorem error_of_map_error {α β : Type} {x : Except PyError α} {f : α → β} {e : PyError}
    (h : x.map f = .error e) : x = .error e := by
  cases x with
  | error e' =>
    cases h
    rfl
  | ok a => cases h

/-- The only exception at a value that a JSON text can spell is `ValueError`. -/
theorem canon_error {v : Json} (hv : v.IsJson) {e : PyError} (h : canon v = .error e) :
    ∃ message, e = .valueError message := by
  induction hv generalizing e with
  | null | str _ => cases h
  | bool b => cases b <;> cases h
  | int i =>
    simp only [canon, intText] at h
    split at h
    · cases h
      exact ⟨_, rfl⟩
    · cases h
  | float f =>
    cases f with
    | nan | inf _ =>
      cases h
      exact ⟨_, rfl⟩
    | zero _ | finite _ => cases h
  | arr hxs ih =>
    simp only [canon, canonList_eq] at h
    obtain ⟨x, hx, hcanon⟩ := List.mem_map.mp (mem_of_sequence_error (error_of_map_error h))
    exact ih x hx hcanon
  | obj hmembers ih =>
    simp only [canon] at h
    obtain ⟨m, hm, htext⟩ := List.mem_map.mp (mem_of_sequence_error (error_of_map_error h))
    rw [List.mem_insertionSort, canonMembers_eq] at hm
    obtain ⟨m', hm', rfl⟩ := List.mem_map.mp hm
    exact ih m' hm' (error_of_map_error htext)

theorem canonicalize_error {v : Json} (hv : v.IsJson) {e : PyError} (h : canonicalize v = .error e) :
    ∃ message, e = .valueError message := by
  cases hcanon : canon v with
  | ok text =>
    rw [canonicalize, hcanon] at h
    cases h
  | error e' =>
    rw [canonicalize, hcanon] at h
    cases h
    exact canon_error hv hcanon

/-- A value has an encoding exactly if every part of it has one. -/
theorem canon_ok_iff {v : Json} : (∃ s, canon v = .ok s) ↔ v.encodable = true := by
  induction v using Json.recOnValues with
  | null | str _ => exact ⟨fun _ => rfl, fun _ => ⟨_, rfl⟩⟩
  | bool b => cases b <;> exact ⟨fun _ => rfl, fun _ => ⟨_, rfl⟩⟩
  | int i =>
    simp only [canon, intText, Json.encodable, decide_eq_true_eq]
    constructor
    · rintro ⟨s, h⟩
      by_contra hlong
      rw [if_pos (by omega)] at h
      cases h
    · intro h
      rw [if_neg (by omega)]
      exact ⟨_, rfl⟩
  | float f => cases f <;> simp [canon, esNumber, Json.encodable]
  | other _ => simp [canon, Json.encodable]
  | arr xs ih =>
    rw [Json.encodable, Json.encodableList_iff]
    constructor
    · rintro ⟨s, h⟩ x hx
      obtain ⟨ts, hts, -⟩ := canon_arr_eq_ok h
      have hmem : canon x ∈ ts.map Except.ok := hts ▸ List.mem_map_of_mem hx
      obtain ⟨t, -, ht⟩ := List.mem_map.mp hmem
      exact (ih x hx).mp ⟨t, ht.symm⟩
    · intro h
      have htexts : ∃ ts : List (List Char), xs.map canon = ts.map .ok := by
        apply exists_texts
        intro x hx
        exact (ih x hx).mpr (h x hx)
      obtain ⟨ts, hts⟩ := htexts
      refine ⟨'[' :: commaJoin ts ++ [']'], ?_⟩
      rw [canon, canonList_eq, hts, sequence_map_ok]
      rfl
  | obj members ih =>
    rw [Json.encodable, Json.encodableMembers_iff]
    constructor
    · rintro ⟨s, h⟩ m hm
      obtain ⟨ordered, hperm, -⟩ := canon_obj_eq_ok h
      have hmem := hperm.mem_iff.mp (List.mem_map_of_mem (f := fun m => (m.1, canon m.2)) hm)
      obtain ⟨o, -, ho⟩ := List.mem_map.mp hmem
      exact (ih m hm).mp ⟨o.2, (Prod.mk.inj ho).2.symm⟩
    · intro h
      have htexts : ∃ ts : List (List Char),
          ((canonMembers members).insertionSort memberLe).map memberText = ts.map .ok := by
        apply exists_texts
        intro m hm
        have hmem := (List.perm_insertionSort memberLe _).mem_iff.mp hm
        rw [canonMembers_eq] at hmem
        obtain ⟨n, hn, rfl⟩ := List.mem_map.mp hmem
        obtain ⟨t, ht⟩ := (ih n hn).mpr (h n hn)
        simp only [memberText, ht]
        exact ⟨_, rfl⟩
      obtain ⟨ts, hts⟩ := htexts
      refine ⟨Char.ofNat 123 :: commaJoin ts ++ [Char.ofNat 125], ?_⟩
      rw [canon, hts, sequence_map_ok]
      rfl

/-! ## Equal encodings -/

private theorem canonicalize_eq_ok {v : Json} {bytes : Bytes} :
    canonicalize v = .ok bytes ↔ ∃ s, canon v = .ok s ∧ bytes = encodeUtf8 (String.ofList s) := by
  unfold canonicalize
  cases canon v with
  | error e => simp [Except.map]
  | ok s => simp [Except.map, eq_comm]

theorem canonicalize_ok_iff {v : Json} :
    (∃ bytes, canonicalize v = .ok bytes) ↔ v.encodable = true := by
  rw [← canon_ok_iff]
  constructor
  · rintro ⟨bytes, h⟩
    obtain ⟨s, hs, -⟩ := canonicalize_eq_ok.mp h
    exact ⟨s, hs⟩
  · rintro ⟨s, hs⟩
    exact ⟨_, canonicalize_eq_ok.mpr ⟨s, hs, rfl⟩⟩

/-- Two values without floats have one encoding exactly if they are equal up to the order of members
    at every level and their integers can be printed. -/
theorem canonicalize_eq_iff {a b : Json} (ha : a.exact = true) (hb : b.exact = true)
    (hdistinct : b.distinct = true) :
    (∃ bytes, canonicalize a = .ok bytes ∧ canonicalize b = .ok bytes) ↔
      Json.Same a b ∧ a.printable = true := by
  constructor
  · rintro ⟨bytes, hbytes, hbytes'⟩
    obtain ⟨s, hs, rfl⟩ := canonicalize_eq_ok.mp hbytes
    obtain ⟨t, ht, heq⟩ := canonicalize_eq_ok.mp hbytes'
    have htext : s = t := String.ofList_injective (encodeUtf8_inj heq)
    exact ⟨(canon_separates ha hb hs ht).2 htext, (Json.encodable_eq_printable ha) ▸ canon_ok_iff.mp ⟨s, hs⟩⟩
  · rintro ⟨hsame, hprintable⟩
    obtain ⟨s, hs⟩ := canon_ok_iff.mpr ((Json.encodable_eq_printable ha).trans hprintable)
    refine ⟨encodeUtf8 (String.ofList s), canonicalize_eq_ok.mpr ⟨s, hs, rfl⟩, ?_⟩
    rw [canon_congr hsame hdistinct] at hs
    exact canonicalize_eq_ok.mpr ⟨s, hs, rfl⟩

/-- Members whose names sort differently by code points than by code units. -/
theorem canonicalize_eq_iff_sample :
    let a := Json.obj [("\uff61", .arr [.int (-4), .null]), ("𐀀", .str "\"\n")]
    let b := Json.obj [("𐀀", .str "\"\n"), ("\uff61", .arr [.int (-4), .null])]
    (∃ bytes, canonicalize a = .ok bytes ∧ canonicalize b = .ok bytes) ↔ Json.Same a b ∧ a.printable = true := by
  intro a b
  exact canonicalize_eq_iff rfl rfl (by decide +kernel)

private theorem lt_length_decimalText {k n : Nat} (hk : 0 < k) (hn : 10 ^ k ≤ n) : k < (decimalText n).length := by
  rw [decimalText, ← not_le, Nat.length_toDigits_le_iff (by decide) hk]
  exact not_lt.mpr hn

private theorem canonicalize_raises {n : Nat} (hn : 10 ^ 4300 ≤ n) : canonicalize (.int n) =
    .error (.valueError "Exceeds the limit (4300 digits) for integer string conversion") := by
  have hlong : 4300 < (decimalText n).length := lt_length_decimalText (by decide) hn
  simp only [canonicalize, canon, intText, Int.natAbs_natCast]
  rw [if_pos hlong]
  rfl

private theorem Json.Same.int_inj {i j : Int} (h : Json.Same (.int i) (.int j)) : i = j := by
  cases h
  rfl

/-- Integers of more than 4300 digits: equal values have no encoding, and different ones raise the same
    exception. -/
theorem canonicalize_long_integers :
    ∃ a b : Json, a.exact = true ∧ b.exact = true ∧ a.distinct = true ∧ b.distinct = true ∧
      (Json.Same a a ∧ ¬ ∃ bytes, canonicalize a = .ok bytes) ∧
      (canonicalize a = canonicalize b ∧ ¬ Json.Same a b) := by
  -- the smallest number that is not printed, and the next one
  generalize hn : 10 ^ 4300 = n
  have ha := canonicalize_raises hn.le
  have hb := canonicalize_raises (n := n + 1) (hn.le.trans (Nat.le_succ n))
  refine ⟨.int n, .int (n + 1 : Nat), rfl, rfl, rfl, rfl, ⟨.int n, ?_⟩, ha.trans hb.symm, ?_⟩
  · rw [ha]
    rintro ⟨bytes, h⟩
    cases h
  · intro h
    have := h.int_inj
    omega

end A2AEvents

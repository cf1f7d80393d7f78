import A2AEvents.Native.Publisher

/-!
# Events can be signed

A payload that the event store accepted has a canonical encoding, and so has the
CloudEvent built around it. The signature of an event is therefore always made, and a
public key that accepts genuine signatures verifies it.

## Key results

- `canon_obj`: an object is encoded when its members are
- `canonicalize_buildEvent`: the CloudEvent of a stored record has an encoding
-/

namespace A2AEvents

open Publisher

/-! ## Canonical encodings -/

/-- All values are there if no item raises. -/
private theorem sequence_ok {α : Type} {l : List (Except PyError α)}
    (h : ∀ x ∈ l, ∃ a, x = .ok a) : ∃ as, sequence l = .ok as := by
  induction l with
  | nil => exact ⟨[], rfl⟩
  | cons x l ih =>
    obtain ⟨a, rfl⟩ := h x (by simp)
    obtain ⟨as, has⟩ := ih fun y hy => h y (by simp [hy])
    exact ⟨a :: as, by simp [sequence, has, Except.map]⟩

private theorem mem_canonMembers {members : List (String × Json)}
    {m : String × Except PyError (List Char)} (h : m ∈ canonMembers members) :
    ∃ v, (m.1, v) ∈ members ∧ m.2 = canon v := by
  induction members with
  | nil => simp [canonMembers] at h
  | cons e rest ih =>
    obtain ⟨k, v⟩ := e
    simp only [canonMembers, List.mem_cons] at h
    rcases h with rfl | h
    · exact ⟨v, by simp, rfl⟩
    · obtain ⟨v', hv', heq⟩ := ih h
      exact ⟨v', by simp [hv'], heq⟩

/-- An object is encoded when its members are. -/
theorem canon_obj {members : List (String × Json)}
    (h : ∀ k v, (k, v) ∈ members → ∃ text, canon v = .ok text) :
    ∃ text, canon (.obj members) = .ok text := by
  have hall : ∀ x ∈ ((canonMembers members).insertionSort memberLe).map memberText,
      ∃ t, x = .ok t := by
    intro x hx
    obtain ⟨m, hm, rfl⟩ := List.mem_map.mp hx
    obtain ⟨v, hv, heq⟩ := mem_canonMembers ((List.mem_insertionSort memberLe).mp hm)
    obtain ⟨t, ht⟩ := h m.1 v hv
    simp [memberText, heq, ht, Except.map]
  obtain ⟨ts, hts⟩ := sequence_ok hall
  simp [canon, hts, Except.map]

/-- Numbers that the interpreter prints. -/
theorem canon_nat {n : Nat} (h : n < 10 ^ Cursor.maxStrDigits) : ∃ text, canon (.int n) = .ok text := by
  have hlen : (Nat.toDigits 10 n).length ≤ Cursor.maxStrDigits :=
    (Nat.length_toDigits_le_iff (by decide) (by decide)).mpr h
  have hlen' : ¬ 4300 < (Nat.toDigits 10 n).length := Nat.not_lt.mpr hlen
  simp [canon, intText, decimalText, hlen']

theorem canonicalize_ok {v : Json} {text : List Char} (h : canon v = .ok text) :
    canonicalize v = .ok (encodeUtf8 (String.ofList text)) := by
  simp [canonicalize, h, Except.map]

theorem canon_of_canonicalize {v : Json} {bytes : Bytes} (h : canonicalize v = .ok bytes) :
    ∃ text, canon v = .ok text := by
  cases hc : canon v with
  | error e => simp [canonicalize, hc, Except.map] at h
  | ok text => exact ⟨text, rfl⟩

/-! ## Events -/

private theorem canon_optional {key k : String} {value : Option String} {v : Json}
    (h : (k, v) ∈ (match value with
      | some t => [(key, Json.str t)]
      | none => [])) : ∃ text, canon v = .ok text := by
  cases value with
  | none => simp at h
  | some t =>
    simp only [List.mem_singleton, Prod.mk.injEq] at h
    rw [h.2]
    exact ⟨_, rfl⟩

/-- The CloudEvent of a stored record has an encoding. -/
theorem canonicalize_buildEvent (cfg : PublisherConfig) (sub : Subscription) {record : EventRecord}
    {bytes : Bytes} {attempt : Nat} (schemaUrl : Option String)
    (hdata : canonicalize (.obj record.data) = .ok bytes) (hattempt : attempt < 10 ^ Cursor.maxStrDigits) :
    ∃ bytes, canonicalize (buildEvent cfg sub record attempt schemaUrl) = .ok bytes := by
  have hstr : ∀ t, ∃ text, canon (.str t) = .ok text := fun t => ⟨_, rfl⟩
  obtain ⟨text, htext⟩ : ∃ text, canon (buildEvent cfg sub record attempt schemaUrl) = .ok text := by
    refine canon_obj ?_
    intro k v hmem
    simp only [List.mem_append] at hmem
    rcases hmem with (((h | h) | h) | h) | h
    · simp only [List.mem_cons, Prod.mk.injEq, List.not_mem_nil, or_false] at h
      obtain ⟨-, rfl⟩ | ⟨-, rfl⟩ | ⟨-, rfl⟩ | ⟨-, rfl⟩ := h <;> exact hstr _
    · exact canon_optional h
    · simp only [List.mem_cons, Prod.mk.injEq, List.not_mem_nil, or_false] at h
      obtain ⟨-, rfl⟩ | ⟨-, rfl⟩ | ⟨-, rfl⟩ | ⟨-, rfl⟩ | ⟨-, rfl⟩ | ⟨-, rfl⟩ | ⟨-, rfl⟩ := h
      · exact hstr _
      · exact hstr _
      · exact canon_of_canonicalize hdata
      · exact hstr _
      · exact hstr _
      · exact hstr _
      · exact hstr _
    · exact canon_optional h
    · simp only [List.mem_cons, Prod.mk.injEq, List.not_mem_nil, or_false] at h
      obtain ⟨-, rfl⟩ | ⟨-, rfl⟩ | ⟨-, rfl⟩ := h
      · exact hstr _
      · exact canon_nat hattempt
      · exact hstr _
  exact ⟨_, canonicalize_ok htext⟩

/-- Signing an event that has an encoding never raises. -/
theorem SigningKey.sign_ok (key : SigningKey) (timestamp : String) {event : Json} {bytes : Bytes}
    (h : canonicalize event = .ok bytes) : ∃ signature, key.sign timestamp event = .ok signature := by
  simp [SigningKey.sign, signingInput, h, Except.map]

end A2AEvents

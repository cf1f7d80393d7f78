import Mathlib.Data.String.Basic

/-!
# JSON texts

Texts are written with every character outside printable ASCII as an escape, and read back as
lists of code points, among which there may be surrogates without a partner. Of the values of a JSON
text, `loads` keeps the texts and the objects; all others are told apart from these only.

The writer takes texts of either kind: Unicode texts, and lists of code points.

## Key results

- `joinUnits_units`: reading combines the surrogates that stand side by side
- `loads_dumpsMember`, `loads_dumps`: an object with one text member, as it is read back
- `joinUnits_eq_self_iff`: the lists of code points that are read as they were written
-/

namespace JsonText

def quote : Char := Char.ofNat 34

def backslash : Char := Char.ofNat 92

def openBrace : Char := Char.ofNat 123

def closeBrace : Char := Char.ofNat 125

/-! ## Writing -/

/-- The escape of a UTF-16 code unit. -/
def unitEscape (n : Nat) : List Char :=
  [backslash, 'u', Nat.digitChar (n / 4096), Nat.digitChar (n / 256 % 16), Nat.digitChar (n / 16 % 16),
    Nat.digitChar (n % 16)]

/-- The UTF-16 code units of a character. -/
def units (c : Char) : List Nat :=
  let n := c.toNat
  if n < 0x10000 then [n] else [0xd800 + (n - 0x10000) / 0x400, 0xdc00 + (n - 0x10000) % 0x400]

/-- One character of a text. -/
def escapeChar (c : Char) : List Char :=
  let n := c.toNat
  if n = 34 ∨ n = 92 then [backslash, c]
  else if n = 10 then [backslash, 'n']
  else if n = 13 then [backslash, 'r']
  else if n = 9 then [backslash, 't']
  else if n = 12 then [backslash, 'f']
  else if n = 8 then [backslash, 'b']
  else if 32 ≤ n ∧ n ≤ 126 then [c]
  else (units c).flatMap unitEscape

/-- A text in quotes. -/
def dumpsText (s : String) : List Char := quote :: s.toList.flatMap escapeChar ++ [quote]

/-- An object with one text member, without blanks. -/
def dumps (key value : String) : List Char :=
  openBrace :: dumpsText key ++ ':' :: dumpsText value ++ [closeBrace]

/-! ### Code points -/

/-- The UTF-16 code units of a code point. -/
def pointUnits (n : Nat) : List Nat :=
  if n < 0x10000 then [n] else [0xd800 + (n - 0x10000) / 0x400, 0xdc00 + (n - 0x10000) % 0x400]

/-- One code point of a text. A surrogate is a code unit of its own. -/
def escapePoint (n : Nat) : List Char :=
  if n = 34 ∨ n = 92 then [backslash, Char.ofNat n]
  else if n = 10 then [backslash, 'n']
  else if n = 13 then [backslash, 'r']
  else if n = 9 then [backslash, 't']
  else if n = 12 then [backslash, 'f']
  else if n = 8 then [backslash, 'b']
  else if 32 ≤ n ∧ n ≤ 126 then [Char.ofNat n]
  else (pointUnits n).flatMap unitEscape

/-- A list of code points in quotes. -/
def dumpsPoints (s : List Nat) : List Char := quote :: s.flatMap escapePoint ++ [quote]

/-- An object with one text member, from code points. -/
def dumpsMember (key value : List Nat) : List Char :=
  openBrace :: dumpsPoints key ++ ':' :: dumpsPoints value ++ [closeBrace]

/-! ## Reading -/

/-- A value that was read. -/
inductive Value where
  | text (s : List Nat)
  | dict (members : List (List Nat × Value))
  | other

/-- The value of a hexadecimal digit. -/
def hexValue (c : Char) : Option Nat :=
  let n := c.toNat
  if 48 ≤ n ∧ n ≤ 57 then some (n - 48)
  else if 97 ≤ n ∧ n ≤ 102 then some (n - 87)
  else if 65 ≤ n ∧ n ≤ 70 then some (n - 55)
  else none

/-- The value of four hexadecimal digits. -/
def hex4 (a b c d : Char) : Option Nat :=
  match hexValue a, hexValue b, hexValue c, hexValue d with
  | some a, some b, some c, some d => some (((a * 16 + b) * 16 + c) * 16 + d)
  | _, _, _, _ => none

/-- The character that a one-letter escape stands for. -/
def simpleEscape (c : Char) : Option Nat :=
  if c = quote ∨ c = backslash ∨ c = '/' then some c.toNat
  else if c = 'n' then some 10
  else if c = 'r' then some 13
  else if c = 't' then some 9
  else if c = 'f' then some 12
  else if c = 'b' then some 8
  else none

/-- Put a code unit in front of what was read. -/
def push (n : Nat) (p : List Nat × List Char) : List Nat × List Char := (n :: p.1, p.2)

/-- Read up to the closing quote: characters, and escapes unit by unit. -/
def readUnits : List Char → Option (List Nat × List Char)
  | [] => none
  | c :: rest =>
    if c = quote then some ([], rest)
    else if c = backslash then
      match rest with
      | [] => none
      | 'u' :: a :: b :: d :: e :: rest =>
        match hex4 a b d e with
        | some n => (readUnits rest).map (push n)
        | none => none
      | e :: rest =>
        match simpleEscape e with
        | some n => (readUnits rest).map (push n)
        | none => none
    else if c.toNat < 32 then none
    else (readUnits rest).map (push c.toNat)

/-- Whether two units are a surrogate pair. -/
def IsPair (hi lo : Nat) : Prop := 0xd800 ≤ hi ∧ hi ≤ 0xdbff ∧ 0xdc00 ≤ lo ∧ lo ≤ 0xdfff

instance (hi lo : Nat) : Decidable (IsPair hi lo) := inferInstanceAs (Decidable (_ ∧ _))

/-- Combine surrogate pairs. -/
def joinUnits : List Nat → List Nat
  | [] => []
  | [n] => [n]
  | hi :: lo :: rest =>
    if IsPair hi lo then (0x10000 + (hi - 0xd800) * 0x400 + (lo - 0xdc00)) :: joinUnits rest
    else hi :: joinUnits (lo :: rest)

/-- The code points of a text. -/
def codePoints (s : String) : List Nat := s.toList.map Char.toNat

def isSpace (c : Char) : Bool := c = ' ' || c = '\t' || c = '\n' || c = '\r'

def skipSpace (text : List Char) : List Char := text.dropWhile isSpace

def isDigit (c : Char) : Bool := 48 ≤ c.toNat && c.toNat ≤ 57

/-- What follows a fraction, if there is one. -/
def skipFraction : List Char → List Char
  | '.' :: d :: rest => if isDigit d then rest.dropWhile isDigit else '.' :: d :: rest
  | text => text

/-- What follows an exponent, if there is one. -/
def skipExponent (text : List Char) : List Char :=
  match text with
  | e :: rest =>
    if e = 'e' ∨ e = 'E' then
      let digits := match rest with
        | sign :: digits => if sign = '+' ∨ sign = '-' then digits else rest
        | [] => rest
      match digits with
      | d :: rest => if isDigit d then rest.dropWhile isDigit else text
      | [] => text
    else text
  | [] => text

/-- What follows a number. Integers beyond the interpreter's limit are refused. -/
def skipNumber (maxDigits : Nat) (text : List Char) : Option (List Char) :=
  let unsigned := match text with
    | '-' :: rest => rest
    | _ => text
  match unsigned with
  | [] => none
  | c :: rest =>
    if isDigit c then
      let digits := if c = '0' then [] else rest.takeWhile isDigit
      let after := if c = '0' then rest else rest.dropWhile isDigit
      let final := skipExponent (skipFraction after)
      if digits.length + 1 > maxDigits ∧ final = after then none else some final
    else none

/-- What follows a value that is no text, object or array. -/
def skipAtom (maxDigits : Nat) (text : List Char) : Option (List Char) :=
  match ["null", "true", "false", "NaN", "Infinity", "-Infinity"].find? fun word =>
      word.toList.isPrefixOf text with
  | some word => some (text.drop word.length)
  | none => skipNumber maxDigits text

mutual

/-- Read a value; `fuel` bounds the nesting and the number of members. -/
def readValue (maxDigits : Nat) : Nat → List Char → Option (Value × List Char)
  | 0, _ => none
  | _ + 1, [] => none
  | fuel + 1, c :: rest =>
    if c = quote then (readUnits rest).map fun p => (.text (joinUnits p.1), p.2)
    else if c = openBrace then
      match skipSpace rest with
      | [] => none
      | d :: after =>
        if d = closeBrace then some (.dict [], after)
        else (readMembers maxDigits fuel (d :: after)).map fun p => (.dict p.1, p.2)
    else if c = '[' then
      match skipSpace rest with
      | [] => none
      | d :: after =>
        if d = ']' then some (.other, after)
        else (skipItems maxDigits fuel (d :: after)).map fun after => (.other, after)
    else (skipAtom maxDigits (c :: rest)).map fun after => (.other, after)

/-- Read the members of an object up to its closing brace. -/
def readMembers (maxDigits : Nat) : Nat → List Char → Option (List (List Nat × Value) × List Char)
  | 0, _ => none
  | _ + 1, [] => none
  | fuel + 1, c :: rest =>
    if c = quote then
      match readUnits rest with
      | none => none
      | some (key, rest) =>
        match skipSpace rest with
        | ':' :: rest =>
          match readValue maxDigits fuel (skipSpace rest) with
          | none => none
          | some (value, rest) =>
            match skipSpace rest with
            | [] => none
            | d :: rest =>
              if d = closeBrace then some ([(joinUnits key, value)], rest)
              else if d = ',' then
                (readMembers maxDigits fuel (skipSpace rest)).map fun p => ((joinUnits key, value) :: p.1, p.2)
              else none
        | _ => none
    else none

/-- Pass over the items of an array up to its closing bracket. -/
def skipItems (maxDigits : Nat) : Nat → List Char → Option (List Char)
  | 0, _ => none
  | fuel + 1, text =>
    match readValue maxDigits fuel text with
    | none => none
    | some (_, rest) =>
      match skipSpace rest with
      | [] => none
      | d :: rest =>
        if d = ']' then some rest
        else if d = ',' then skipItems maxDigits fuel (skipSpace rest)
        else none

end

/-- Read a whole text. -/
def loads (maxDigits : Nat) (text : List Char) : Option Value :=
  match readValue maxDigits (text.length + 1) (skipSpace text) with
  | none => none
  | some (value, rest) => if skipSpace rest = [] then some value else none

/-- The last member with a key. -/
def Value.member? (key : List Nat) : Value → Option Value
  | .dict members => (members.reverse.find? fun m => m.1 = key).map Prod.snd
  | _ => none

/-! ## Round trip -/

private theorem hexValue_digitChar {n : Nat} (h : n < 16) : hexValue (Nat.digitChar n) = some n := by
  have hall : ∀ n : Fin 16, hexValue (Nat.digitChar n.val) = some n.val := by decide
  exact hall ⟨n, h⟩

/-- A code unit is read as it was written. -/
private theorem readUnits_unitEscape {n : Nat} (h : n < 0x10000) (rest : List Char) :
    readUnits (unitEscape n ++ rest) = (readUnits rest).map (push n) := by
  have hvalue : hex4 (Nat.digitChar (n / 4096)) (Nat.digitChar (n / 256 % 16)) (Nat.digitChar (n / 16 % 16))
      (Nat.digitChar (n % 16)) = some n := by
    rw [hex4, hexValue_digitChar (by omega), hexValue_digitChar (by omega), hexValue_digitChar (by omega),
      hexValue_digitChar (by omega)]
    simp only [Option.some.injEq]
    omega
  have hquote : backslash ≠ quote := by decide
  show readUnits (backslash :: 'u' :: _ :: _ :: _ :: _ :: rest) = _
  rw [readUnits, if_neg hquote, if_pos rfl]
  simp only [hvalue]

private theorem readUnits_simple {c : Char} {n : Nat} (hc : c ≠ 'u') (h : simpleEscape c = some n) (rest : List Char) :
    readUnits (backslash :: c :: rest) = (readUnits rest).map (push n) := by
  have hquote : backslash ≠ quote := by decide
  have hunit : ∀ a b d e rest', c = 'u' → rest = a :: b :: d :: e :: rest' → False := fun _ _ _ _ _ h _ => hc h
  rw [readUnits, if_neg hquote, if_pos rfl]
  · simp only [h]
  · exact hunit

private theorem readUnits_char {c : Char} (hquote : c ≠ quote) (hbackslash : c ≠ backslash) (hprint : 32 ≤ c.toNat)
    (rest : List Char) : readUnits (c :: rest) = (readUnits rest).map (push c.toNat) := by
  rw [readUnits.eq_def]
  simp only [if_neg hquote, if_neg hbackslash, if_neg (Nat.not_lt.mpr hprint)]

private theorem readUnits_quote (rest : List Char) : readUnits (quote :: rest) = some ([], rest) := by
  rw [readUnits.eq_def]
  simp only [if_pos]

/-- A code point is read as its code units. -/
private theorem readUnits_escapePoint {n : Nat} (hn : n < 0x110000) (rest : List Char) :
    readUnits (escapePoint n ++ rest) = (readUnits rest).map fun p => (pointUnits n ++ p.1, p.2) := by
  have hsimple : ∀ {d : Char}, n < 0x10000 → d ≠ 'u' → simpleEscape d = some n →
      readUnits ([backslash, d] ++ rest) = (readUnits rest).map fun p => (pointUnits n ++ p.1, p.2) := by
    intro d hlt hd hsimple
    show readUnits (backslash :: d :: rest) = _
    rw [readUnits_simple hd hsimple, pointUnits, if_pos hlt]
    rfl
  unfold escapePoint
  split
  · rename_i h
    obtain rfl | rfl := h
    · exact hsimple (by decide) (by decide) (by decide)
    · exact hsimple (by decide) (by decide) (by decide)
  split
  · rename_i h
    subst h
    exact hsimple (by decide) (by decide) (by decide)
  split
  · rename_i h
    subst h
    exact hsimple (by decide) (by decide) (by decide)
  split
  · rename_i h
    subst h
    exact hsimple (by decide) (by decide) (by decide)
  split
  · rename_i h
    subst h
    exact hsimple (by decide) (by decide) (by decide)
  split
  · rename_i h
    subst h
    exact hsimple (by decide) (by decide) (by decide)
  split
  · -- a printable character stands for itself
    rename_i hspecial _ _ _ _ _ hprint
    have hascii : ∀ m : Fin 127, (Char.ofNat m.val).toNat = m.val := by decide
    have hvalue : (Char.ofNat n).toNat = n := hascii ⟨n, by omega⟩
    have hquote : Char.ofNat n ≠ quote := by
      intro heq
      have hvalue' := congrArg Char.toNat heq
      rw [hvalue] at hvalue'
      exact hspecial (.inl hvalue')
    have hbackslash : Char.ofNat n ≠ backslash := by
      intro heq
      have hvalue' := congrArg Char.toNat heq
      rw [hvalue] at hvalue'
      exact hspecial (.inr hvalue')
    rw [List.singleton_append, readUnits_char hquote hbackslash (by omega), hvalue, pointUnits, if_pos (by omega)]
    rfl
  · unfold pointUnits
    split
    · rename_i hlt
      rw [List.flatMap_singleton, readUnits_unitEscape hlt]
      rfl
    · -- a surrogate pair
      rw [List.flatMap_cons, List.flatMap_singleton, List.append_assoc, readUnits_unitEscape (by omega),
        readUnits_unitEscape (by omega), Option.map_map]
      rfl

/-- A text is read up to its closing quote. -/
theorem readUnits_points {s : List Nat} (hs : ∀ n ∈ s, n < 0x110000) (rest : List Char) :
    readUnits (s.flatMap escapePoint ++ quote :: rest) = some (s.flatMap pointUnits, rest) := by
  induction s with
  | nil => exact readUnits_quote rest
  | cons n s ih =>
    rw [List.forall_mem_cons] at hs
    rw [List.flatMap_cons, List.append_assoc, readUnits_escapePoint hs.1, ih hs.2, List.flatMap_cons]
    rfl

private theorem joinUnits_cons {n m : Nat} (h : ¬IsPair n m) (l : List Nat) :
    joinUnits (n :: m :: l) = n :: joinUnits (m :: l) := by
  rw [joinUnits, if_neg h]

/-- Beyond the first plane, a code point is its two code units. -/
private theorem joinUnits_pair {n : Nat} (hn : n < 0x110000) (hge : ¬n < 0x10000) (l : List Nat) :
    joinUnits (pointUnits n ++ l) = n :: joinUnits l := by
  have hpair : IsPair (0xd800 + (n - 0x10000) / 0x400) (0xdc00 + (n - 0x10000) % 0x400) := by
    unfold IsPair
    omega
  have hvalue : 0x10000 + (0xd800 + (n - 0x10000) / 0x400 - 0xd800) * 0x400 +
      (0xdc00 + (n - 0x10000) % 0x400 - 0xdc00) = n := by omega
  rw [pointUnits, if_neg hge, List.cons_append, List.singleton_append, joinUnits, if_pos hpair, hvalue]

/-- Reading does not see whether a surrogate pair was written as one code point or as two. -/
theorem joinUnits_units (s : List Nat) (hs : ∀ n ∈ s, n < 0x110000) : joinUnits (s.flatMap pointUnits) = joinUnits s := by
  induction s using joinUnits.induct with
  | case1 => rfl
  | case2 n =>
    by_cases hlt : n < 0x10000
    · rw [List.flatMap_singleton, pointUnits, if_pos hlt]
    · have hjoin := joinUnits_pair (hs n (List.mem_singleton_self n)) hlt []
      rw [List.append_nil] at hjoin
      rw [List.flatMap_singleton, hjoin]
      rfl
  | case3 hi lo rest hpair ih =>
    -- both are code units already
    have hlow : hi < 0x10000 ∧ lo < 0x10000 := by
      unfold IsPair at hpair
      omega
    have hrest : ∀ n ∈ rest, n < 0x110000 := fun n hn => hs n (by simp [hn])
    rw [List.flatMap_cons, List.flatMap_cons, pointUnits, if_pos hlow.1, pointUnits, if_pos hlow.2]
    show joinUnits (hi :: lo :: rest.flatMap pointUnits) = _
    rw [joinUnits, if_pos hpair, ih hrest, joinUnits, if_pos hpair]
  | case4 hi lo rest hpair ih =>
    have hrest : ∀ n ∈ lo :: rest, n < 0x110000 := fun n hn => hs n (List.mem_cons_of_mem hi hn)
    have hih := ih hrest
    rw [joinUnits_cons hpair, ← hih, List.flatMap_cons]
    by_cases hlt : hi < 0x10000
    · rw [pointUnits, if_pos hlt, List.singleton_append, List.flatMap_cons]
      by_cases hlo : lo < 0x10000
      · rw [pointUnits, if_pos hlo, List.singleton_append, joinUnits_cons hpair]
      · -- what follows begins with a high surrogate
        rw [pointUnits, if_neg hlo, List.cons_append, joinUnits_cons]
        have hbound := hrest lo (List.mem_cons_self ..)
        unfold IsPair
        omega
    · exact joinUnits_pair (hs hi (List.mem_cons_self ..)) hlt _

/-- An object with one text member is read with its surrogates combined. -/
theorem loads_dumpsMember (maxDigits : Nat) {key value : List Nat} (hkey : ∀ n ∈ key, n < 0x110000)
    (hvalue : ∀ n ∈ value, n < 0x110000) :
    loads maxDigits (dumpsMember key value) = some (.dict [(joinUnits key, .text (joinUnits value))]) := by
  have hspace : ∀ {c : Char}, isSpace c = false → ∀ rest, skipSpace (c :: rest) = c :: rest := by
    intro c hc rest
    rw [skipSpace, List.dropWhile_cons_of_neg (by simp [hc])]
  have hbrace : openBrace ≠ quote := by decide
  have hne : quote ≠ closeBrace := by decide
  have hread : ∀ fuel rest, readValue maxDigits (fuel + 1) (dumpsPoints value ++ rest) =
      some (.text (joinUnits value), rest) := by
    intro fuel rest
    rw [dumpsPoints, List.cons_append, List.cons_append, List.append_assoc, readValue, if_pos rfl,
      List.singleton_append, readUnits_points hvalue]
    simp only [Option.map_some, joinUnits_units value hvalue]
  have hmembers : ∀ fuel, readMembers maxDigits (fuel + 2) (dumpsPoints key ++ ':' :: (dumpsPoints value ++ [closeBrace])) =
      some ([(joinUnits key, .text (joinUnits value))], []) := by
    intro fuel
    rw [dumpsPoints, List.cons_append, List.cons_append, List.append_assoc, readMembers, if_pos rfl,
      List.singleton_append, readUnits_points hkey]
    simp only [hspace (c := ':') (by decide)]
    have hquote : skipSpace (dumpsPoints value ++ [closeBrace]) = dumpsPoints value ++ [closeBrace] :=
      hspace (by decide) _
    simp only [hquote, hread, hspace (c := closeBrace) (by decide), if_pos, joinUnits_units key hkey]
  have hlength : ∃ fuel, (dumpsMember key value).length + 1 = fuel + 3 := ⟨(dumpsMember key value).length - 2, by
    have : 2 ≤ (dumpsMember key value).length := by
      simp [dumpsMember, dumpsPoints]
    omega⟩
  obtain ⟨fuel, hfuel⟩ := hlength
  have htext : dumpsMember key value = openBrace :: (dumpsPoints key ++ ':' :: (dumpsPoints value ++ [closeBrace])) := by
    simp [dumpsMember]
  rw [loads, hfuel, htext, hspace (by decide), readValue, if_neg hbrace, if_pos rfl]
  have hquote : skipSpace (dumpsPoints key ++ ':' :: (dumpsPoints value ++ [closeBrace])) =
      dumpsPoints key ++ ':' :: (dumpsPoints value ++ [closeBrace]) := hspace (by decide) _
  have hm := hmembers fuel
  rw [hquote]
  rw [dumpsPoints, List.cons_append, List.cons_append] at hm ⊢
  simp only [if_neg hne, hm]
  rfl

/-! ## Which texts are read as they were written -/

/-- A high surrogate stands right before a low one. -/
def HasPair (s : List Nat) : Prop := ∃ front hi lo back, s = front ++ hi :: lo :: back ∧ IsPair hi lo

theorem hasPair_cons_iff (n m : Nat) (s : List Nat) : HasPair (n :: m :: s) ↔ IsPair n m ∨ HasPair (m :: s) := by
  constructor
  · rintro ⟨front, hi, lo, back, heq, hpair⟩
    cases front with
    | nil =>
      simp only [List.nil_append, List.cons.injEq] at heq
      obtain ⟨rfl, rfl, -⟩ := heq
      exact .inl hpair
    | cons k front =>
      simp only [List.cons_append, List.cons.injEq] at heq
      exact .inr ⟨front, hi, lo, back, heq.2, hpair⟩
  · rintro (hpair | ⟨front, hi, lo, back, heq, hpair⟩)
    · exact ⟨[], n, m, s, rfl, hpair⟩
    · exact ⟨n :: front, hi, lo, back, by rw [heq]; rfl, hpair⟩

theorem not_hasPair_of_length {s : List Nat} (h : s.length < 2) : ¬HasPair s := by
  rintro ⟨front, hi, lo, back, rfl, -⟩
  simp at h
  omega

theorem joinUnits_length_le (s : List Nat) : (joinUnits s).length ≤ s.length := by
  induction s using joinUnits.induct with
  | case1 => simp [joinUnits]
  | case2 n => simp [joinUnits]
  | case3 hi lo rest hpair ih =>
    rw [joinUnits, if_pos hpair]
    simp only [List.length_cons]
    omega
  | case4 hi lo rest hpair ih =>
    rw [joinUnits, if_neg hpair]
    simp only [List.length_cons] at ih ⊢
    omega

/-- A text is read as it was written exactly if it has no surrogates to combine. -/
theorem joinUnits_eq_self_iff (s : List Nat) : joinUnits s = s ↔ ¬HasPair s := by
  induction s using joinUnits.induct with
  | case1 => exact iff_of_true rfl (not_hasPair_of_length (by decide))
  | case2 n => exact iff_of_true rfl (not_hasPair_of_length (by simp))
  | case3 hi lo rest hpair ih =>
    -- the result is shorter than the text
    have hle := joinUnits_length_le rest
    rw [joinUnits, if_pos hpair, hasPair_cons_iff]
    refine iff_of_false (fun heq => ?_) (not_not_intro (.inl hpair))
    have hlength := congrArg List.length heq
    simp only [List.length_cons] at hlength
    omega
  | case4 hi lo rest hpair ih =>
    rw [joinUnits, if_neg hpair, hasPair_cons_iff, List.cons.injEq, ih]
    simp [hpair]

/-! ## Unicode texts -/

/-- Characters are code points, and no surrogates. -/
private theorem toNat_bound (c : Char) : c.toNat < 0xd800 ∨ 0xdfff < c.toNat ∧ c.toNat < 0x110000 := c.valid

theorem codePoints_lt (s : String) : ∀ n ∈ codePoints s, n < 0x110000 := by
  intro n hn
  obtain ⟨c, -, rfl⟩ := List.mem_map.mp hn
  have hbound := toNat_bound c
  omega

theorem not_hasPair_codePoints (s : String) : ¬HasPair (codePoints s) := by
  rintro ⟨front, hi, lo, back, heq, hpair⟩
  have hmem : hi ∈ codePoints s := by
    rw [heq]
    simp
  obtain ⟨c, -, hc⟩ := List.mem_map.mp hmem
  have hbound := toNat_bound c
  unfold IsPair at hpair
  omega

theorem escapeChar_eq (c : Char) : escapeChar c = escapePoint c.toNat := by
  simp only [escapeChar, escapePoint, Char.ofNat_toNat]
  rfl

theorem dumpsText_eq (s : String) : dumpsText s = dumpsPoints (codePoints s) := by
  have hescape : escapeChar = fun c => escapePoint c.toNat := funext escapeChar_eq
  rw [dumpsText, dumpsPoints, codePoints, List.flatMap_map, hescape]

theorem dumps_eq (key value : String) : dumps key value = dumpsMember (codePoints key) (codePoints value) := by
  rw [dumps, dumpsMember, dumpsText_eq, dumpsText_eq]

/-- An object with one text member is read as it was written. -/
theorem loads_dumps (maxDigits : Nat) (key value : String) :
    loads maxDigits (dumps key value) = some (.dict [(codePoints key, .text (codePoints value))]) := by
  have hread := loads_dumpsMember maxDigits (codePoints_lt key) (codePoints_lt value)
  rw [(joinUnits_eq_self_iff _).mpr (not_hasPair_codePoints key),
    (joinUnits_eq_self_iff _).mpr (not_hasPair_codePoints value)] at hread
  rw [dumps_eq, hread]

end JsonText

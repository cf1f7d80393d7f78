import A2AEvents.ForStd.Keyset
import A2AEvents.Native.Pagination

/-!
# Page tokens name items

A token that was handed out is read back as the id it was made from, and the pages of a list are
keyset pages of its ids.

## Key results

- `pageToken_roundTrip_iff`, `decodePageToken_encodePageToken`: tokens round-trip
- `paginate_keyset`: a page and its token, in terms of ids
-/

namespace A2AEvents

/-! ## Tokens -/

private theorem toChar_ascii {n : Nat} (h : n < 64) : (Base64.toChar n).toNat < 128 := by
  have key : ∀ m : Fin 64, (Base64.toChar m.val).toNat < 128 := by decide
  exact key ⟨n, h⟩

/-- Encodings are ASCII texts. -/
theorem encode_ascii (raw : Bytes) : ∀ c ∈ Base64.encode raw, c.toNat < 128 := by
  intro c hc
  obtain rfl | ⟨n, hn, rfl⟩ := Base64.mem_encode hc
  · decide
  · exact toChar_ascii hn

theorem b64urlDecode_b64url (raw : Bytes) : b64urlDecode (b64url raw) = .ok raw := by
  have hascii : (Base64.strip (Base64.encode raw)).all (fun c => c.toNat < 128) = true := by
    rw [List.all_eq_true]
    intro c hc
    exact decide_eq_true (encode_ascii raw c (Base64.mem_of_mem_strip hc))
  simp only [b64urlDecode, b64url, String.toList_ofList, hascii, if_true, Base64.decode_strip_encode]

theorem fromUTF8?_encodeUtf8 (s : String) : String.fromUTF8? ⟨(encodeUtf8 s).toArray⟩ = some s := by
  unfold String.fromUTF8?
  split
  · rfl
  · rename_i hinvalid
    exact absurd s.isValidUTF8 hinvalid

/-- Tokens are not empty: the text inside begins with a brace. -/
theorem encodePageTokenPoints_ne_empty (after : PyText) : encodePageTokenPoints after ≠ "" := by
  intro hempty
  have hraw := b64urlDecode_b64url (encodeUtf8 (String.ofList (JsonText.dumpsMember (JsonText.codePoints "after")
    after.points)))
  have htext := fromUTF8?_encodeUtf8 (String.ofList (JsonText.dumpsMember (JsonText.codePoints "after") after.points))
  rw [encodePageTokenPoints] at hempty
  rw [hempty] at hraw
  have hnil : b64urlDecode "" = .ok [] := rfl
  rw [hnil] at hraw
  have hbytes := Except.ok.inj hraw
  have hnone : String.fromUTF8? ⟨([] : Bytes).toArray⟩ = some "" := fromUTF8?_encodeUtf8 ""
  rw [← hbytes, hnone] at htext
  have hlist := congrArg String.toList (Option.some.inj htext)
  simp only [String.toList_ofList] at hlist
  exact List.cons_ne_nil _ _ hlist.symm

/-- A token is read with the surrogates of its text combined. -/
theorem decodePageToken_encodePageTokenPoints (after : PyText) :
    decodePageToken (some (encodePageTokenPoints after)) = .ok (some (JsonText.joinUnits after.points)) := by
  have hraw := b64urlDecode_b64url (encodeUtf8 (String.ofList (JsonText.dumpsMember (JsonText.codePoints "after")
    after.points)))
  have htext := fromUTF8?_encodeUtf8 (String.ofList (JsonText.dumpsMember (JsonText.codePoints "after") after.points))
  -- the text starts with a brace: there is no byte order mark
  have hdumps : ∃ rest, JsonText.dumpsMember (JsonText.codePoints "after") after.points = JsonText.openBrace :: rest :=
    ⟨_, rfl⟩
  simp only [decodePageToken, if_neg (encodePageTokenPoints_ne_empty after)]
  rw [encodePageTokenPoints, hraw]
  simp only [htext, String.toList_ofList]
  obtain ⟨rest, hrest⟩ := hdumps
  have hloads := JsonText.loads_dumpsMember Cursor.maxStrDigits (JsonText.codePoints_lt "after") after.bound
  rw [hrest] at hloads ⊢
  have hbrace : JsonText.openBrace.toNat ≠ 0xfeff := by decide
  have hkey : JsonText.joinUnits (JsonText.codePoints "after") = JsonText.codePoints "after" := by decide
  simp only [if_neg hbrace, hloads, hkey]
  simp [JsonText.Value.member?]

/-- A text comes back from its token as it was exactly if no high surrogate stands right before a low
    one in it; and its token is never taken for a missing one. -/
theorem pageToken_roundTrip_iff (after : PyText) :
    (decodePageToken (some (encodePageTokenPoints after)) = .ok (some after.points) ↔ ¬JsonText.HasPair after.points) ∧
      encodePageTokenPoints after ≠ "" := by
  constructor
  · rw [decodePageToken_encodePageTokenPoints, ← JsonText.joinUnits_eq_self_iff]
    simp
  · exact encodePageTokenPoints_ne_empty after

/-- A surrogate pair comes back as one code point. -/
theorem surrogates_not_roundTrip :
    ¬decodePageToken (some (encodePageTokenPoints ⟨[0xd83d, 0xde00], by decide⟩)) = .ok (some [0xd83d, 0xde00]) := by
  rw [decodePageToken_encodePageTokenPoints]
  intro h
  have hpoints : JsonText.joinUnits [0xd83d, 0xde00] = [0xd83d, 0xde00] := by simpa using h
  exact absurd hpoints (by decide)

/-- A Unicode text, as its code points. -/
def PyText.ofString (s : String) : PyText where
  points := JsonText.codePoints s
  bound := JsonText.codePoints_lt s

theorem encodePageToken_eq (after : String) : encodePageToken after = encodePageTokenPoints (.ofString after) := by
  rw [encodePageToken, JsonText.dumps_eq]
  rfl

/-- A token that was handed out names its item. -/
theorem decodePageToken_encodePageToken (after : String) :
    decodePageToken (some (encodePageToken after)) = .ok (some (JsonText.codePoints after)) := by
  have hself := (JsonText.joinUnits_eq_self_iff _).mpr (JsonText.not_hasPair_codePoints after)
  rw [encodePageToken_eq, decodePageToken_encodePageTokenPoints]
  show Except.ok (some (JsonText.joinUnits (JsonText.codePoints after))) = _
  rw [hself]

theorem codePoints_inj {s t : String} (h : JsonText.codePoints s = JsonText.codePoints t) : s = t := by
  have hinj : Function.Injective Char.toNat := fun _ _ => Char.toNat_inj.mp
  exact String.toList_inj.mp (List.map_injective_iff.mpr hinj h)

/-! ## Pages -/

section

variable {α : Type} {key : α → String} {items : List α} {n : Nat}

/-- What a page leaves out at the front. -/
theorem drop_startAfter (key : α → String) (items : List α) (after : Option String) :
    (items.drop (startAfter items key (after.map JsonText.codePoints))).map key =
      Keyset.behind after (items.map key) := by
  cases after with
  | none => rfl
  | some a =>
    induction items with
    | nil => rfl
    | cons i rest ih =>
      rw [Option.map_some, startAfter, List.findIdx?_cons]
      by_cases hi : key i = a
      · rw [if_pos (by simp [hi]), List.map_cons, Keyset.behind, List.dropWhile_cons_of_neg (by simp [hi])]
        rfl
      · have hpoints : JsonText.codePoints (key i) ≠ JsonText.codePoints a := fun h => hi (codePoints_inj h)
        rw [if_neg (by simpa using hpoints)]
        have hbehind : Keyset.behind (some a) ((i :: rest).map key) = Keyset.behind (some a) (rest.map key) := by
          rw [Keyset.behind, List.map_cons, List.dropWhile_cons_of_pos (by simpa using hi)]
          rfl
        rw [hbehind, ← ih, Option.map_some, startAfter]
        cases hfind : rest.findIdx? fun i => JsonText.codePoints (key i) = JsonText.codePoints a with
        | none => rfl
        | some k => rfl

/-- A page in terms of ids: the page after an item, and the token of its last item if more is left. -/
theorem paginate_keyset (key : α → String) (items : List α) (after : Option String) (hn : 0 < n) :
    ∃ page, paginate items key (after.map encodePageToken) n =
        .ok (page, (Keyset.next n after (items.map key)).map encodePageToken) ∧
      page.map key = Keyset.page n after (items.map key) ∧ page.Sublist items := by
  have hdecode : decodePageToken (after.map encodePageToken) = .ok (after.map JsonText.codePoints) := by
    cases after with
    | none => rfl
    | some a => exact decodePageToken_encodePageToken a
  let start := startAfter items key (after.map JsonText.codePoints)
  let page := (items.drop start).take n
  have hslice : pySlice items start (start + (n : Int)) = page := by
    rw [pySlice, if_neg (by omega)]
    show (items.drop start).take (((start : Int) + n).toNat - start) = page
    rw [show ((start : Int) + n).toNat - start = n by omega]
  have hbehind := drop_startAfter key items after
  have hpage : page.map key = Keyset.page n after (items.map key) := by
    rw [Keyset.page, ← hbehind, List.map_take]
  have hleft : ((start : Int) + n < items.length) ↔ n < (Keyset.behind after (items.map key)).length := by
    rw [← hbehind, List.length_map, List.length_drop]
    show _ ↔ n < items.length - start
    omega
  refine ⟨page, ?_, hpage, (List.take_sublist _ _).trans (List.drop_sublist _ _)⟩
  rw [paginate, hdecode]
  show Except.ok (pySlice items start _, _) = _
  rw [hslice, Keyset.next, ← hpage, List.getLast?_map]
  congr 2
  cases hlast : page.getLast? with
  | none =>
    simp
  | some last =>
    by_cases h : (start : Int) + n < items.length
    · rw [if_pos (hleft.mp h)]
      exact if_pos h
    · rw [if_neg (fun h' => h (hleft.mpr h'))]
      exact if_neg h

end

end A2AEvents

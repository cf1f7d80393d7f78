import A2AEvents.ForStd.Outcome
import A2AEvents.Native.AgentCard
import A2AEvents.Native.Publisher
import A2AEvents.Spec.CanonicalCorrect
import A2AEvents.Spec.PaginationCorrect
import A2AEvents.Spec.ReceiverCorrect
import A2AEvents.Spec.Runs
import A2AEvents.Spec.SsrfCorrect

/-!
# Untrusted cards

The resolver accepts a card or refuses it as invalid, as long as what it reads on the way has the types
that it relies on. Other cards end in an exception that the publisher takes for a failed fetch.

## Key results

- `settles_search`: loops over a member of any type
- `settles_verifyCardSignatures`, `settles_checkTrust`, `settles_readSubscriberCard`: what each part of
  the parser relies on
- `agentCardResolver_decides_iff`: the cards that are accepted or refused
-/

namespace A2AEvents

open Outcome

/-- The exception for a card that is refused. -/
def CardInvalid (e : PyError) : Prop := e.code? = some .subscriberCardInvalid

@[simp] theorem not_cardInvalid_valueError (message : String) : ¬CardInvalid (.valueError message) := by
  simp [CardInvalid, PyError.code?]

@[simp] theorem not_cardInvalid_typeError (message : String) : ¬CardInvalid (.typeError message) := by
  simp [CardInvalid, PyError.code?]

@[simp] theorem not_cardInvalid_other (kind : String) : ¬CardInvalid (.other kind) := by
  simp [CardInvalid, PyError.code?]

@[simp] theorem settles_raiseA2A {α : Type} (message : String) (details : List (String × Json)) :
    Settles CardInvalid (raiseA2A .subscriberCardInvalid message details : Except PyError α) := rfl

/-! ## Members -/

/-- The member of an object, `null` if it has none. -/
def Json.field (value : Json) (key : String) : Json :=
  match value with
  | .obj members => (Json.member? key members).getD .null
  | _ => .null

/-- The member of an object, or the default. -/
def Json.fieldD (value : Json) (key : String) (default : Json) : Json :=
  match value with
  | .obj members => (Json.member? key members).getD default
  | _ => default

theorem Json.IsObj.getKey {value : Json} (h : value.IsObj) (key : String) :
    value.getKey key = .ok (value.field key) := by
  obtain ⟨members, rfl⟩ := h
  rfl

theorem not_isObj_str (s : String) : ¬(Json.str s).IsObj := by
  intro h
  obtain ⟨members, hobj⟩ := h
  cases hobj

theorem settles_getKey_bind {α : Type} (value : Json) (key : String) (f : Json → Except PyError α) :
    Settles CardInvalid (value.getKey key >>= f) ↔ value.IsObj ∧ Settles CardInvalid (f (value.field key)) := by
  cases value with
  | obj members => exact ⟨fun h => ⟨⟨members, rfl⟩, h⟩, fun h => h.2⟩
  | _ => simp [Json.getKey, Json.IsObj, bind, Except.bind]

theorem settles_getKeyD_bind {α : Type} (value : Json) (key : String) (default : Json) (f : Json → Except PyError α) :
    Settles CardInvalid (value.getKeyD key default >>= f) ↔
      value.IsObj ∧ Settles CardInvalid (f (value.fieldD key default)) := by
  cases value with
  | obj members => exact ⟨fun h => ⟨⟨members, rfl⟩, h⟩, fun h => h.2⟩
  | _ => simp [Json.getKeyD, Json.IsObj, bind, Except.bind]

theorem isObj_orElse (value : Json) : (value.orElse (.obj [])).IsObj ↔ (value.truthy = true → value.IsObj) := by
  simp only [Json.orElse]
  split
  · rename_i h
    simp only [h, forall_const]
  · rename_i h
    exact iff_of_true ⟨[], rfl⟩ fun htruthy => absurd htruthy h

/-- The value is falsy and stands for no items, or it is the list of them. -/
def Json.Items (value : Json) (xs : List Json) : Prop := value.truthy = false ∧ xs = [] ∨ value = .arr xs

theorem Json.Items.orElse {value : Json} {xs : List Json} (h : value.Items xs) : value.orElse (.arr []) = .arr xs := by
  rcases h with ⟨hfalsy, rfl⟩ | rfl
  · simp only [Json.orElse, hfalsy, Bool.false_eq_true, if_false]
  · cases xs <;> rfl

theorem items_of_truthy {value : Json} (h : value.truthy = true) (xs : List Json) :
    value.Items xs ↔ value = .arr xs := by
  simp [Json.Items, h]

/-- A loop over a member that may be missing. The items of a text or a dict are texts. -/
theorem settles_search {α : Type} {f : Json → Except PyError (Option α)} (value : Json)
    (htext : ∀ s, ¬Settles CardInvalid (f (.str s))) :
    Settles CardInvalid ((value.orElse (.arr [])).search f) ↔
      ∃ xs, value.Items xs ∧ ∀ x, Reached f xs x → Settles CardInvalid (f x) := by
  by_cases hitems : ∃ xs, value.Items xs
  · obtain ⟨xs, hxs⟩ := hitems
    have hsame : ∀ ys, value.Items ys → ys = xs := by
      intro ys hys
      exact Json.arr.inj (hys.orElse.symm.trans hxs.orElse)
    rw [hxs.orElse]
    show Settles CardInvalid (xs.findSomeM? f) ↔ _
    rw [settles_findSome]
    constructor
    · intro h
      exact ⟨xs, hxs, h⟩
    · intro h
      obtain ⟨ys, hys, h⟩ := h
      rw [hsame ys hys] at h
      exact h
  · -- a value that is true and no list
    refine iff_of_false ?_ fun h => ?_
    · have htruthy : value.truthy = true := by
        by_contra hfalsy
        exact hitems ⟨[], .inl ⟨by simpa using hfalsy, rfl⟩⟩
      have hfirst : ∀ s rest, ¬Settles CardInvalid (List.findSomeM? f (.str s :: rest)) := by
        intro s rest h
        rw [settles_findSome] at h
        exact htext s (h (.str s) (reached_cons.mpr (.inl rfl)))
      simp only [Json.orElse, htruthy, if_true]
      cases value with
      | arr xs => exact absurd ⟨xs, .inr rfl⟩ hitems
      | str s =>
        show ¬Settles CardInvalid (List.findSomeM? f (s.toList.map _))
        cases hchars : s.toList with
        | nil =>
          have hempty : s = "" := String.toList_eq_nil_iff.mp hchars
          simp [Json.truthy, hempty] at htruthy
        | cons c rest => exact hfirst _ _
      | obj members =>
        cases members with
        | nil => simp [Json.truthy] at htruthy
        | cons m rest => exact hfirst m.1 _
      | null | bool b | int i | float x | other name => simp [Json.search, Json.iterate, bind, Except.bind]
    · obtain ⟨xs, hxs, -⟩ := h
      exact hitems ⟨xs, hxs⟩

theorem search_eq_some_iff {α : Type} {f : Json → Except PyError (Option α)} (value : Json)
    (htext : ∀ s, ¬Settles CardInvalid (f (.str s))) (found : α) :
    (value.orElse (.arr [])).search f = .ok (some found) ↔
      ∃ xs, value.Items xs ∧ ∃ x, Reached f xs x ∧ f x = .ok (some found) := by
  constructor
  · intro h
    have hsettles : Settles CardInvalid ((value.orElse (.arr [])).search f) := by rw [h]; trivial
    obtain ⟨xs, hxs, -⟩ := (settles_search value htext).mp hsettles
    rw [hxs.orElse] at h
    exact ⟨xs, hxs, findSome_eq_some_iff.mp h⟩
  · intro h
    obtain ⟨xs, hxs, hfound⟩ := h
    rw [hxs.orElse]
    exact findSome_eq_some_iff.mpr hfound

/-! ## Exceptions of other kinds -/

/-- The computation returns, or raises an exception that does not refuse the card. -/
def NoRefusal {α : Type} (x : Except PyError α) : Prop := Settles (fun e => ¬CardInvalid e) x

theorem noRefusal_getKey (value : Json) (key : String) : NoRefusal (value.getKey key) := by
  cases value with
  | obj members => trivial
  | _ => exact not_cardInvalid_other _

theorem noRefusal_getKeyD (value : Json) (key : String) (default : Json) : NoRefusal (value.getKeyD key default) := by
  cases value with
  | obj members => trivial
  | _ => exact not_cardInvalid_other _

theorem noRefusal_iterate (value : Json) : NoRefusal value.iterate := by
  cases value with
  | arr xs | str s | obj members => trivial
  | _ => exact not_cardInvalid_typeError _

theorem noRefusal_bind {α β : Type} {x : Except PyError α} {f : α → Except PyError β} (hx : NoRefusal x)
    (hf : ∀ a, x = .ok a → NoRefusal (f a)) : NoRefusal (x >>= f) :=
  (settles_bind x f).mpr ⟨hx, hf⟩

theorem noRefusal_search {α : Type} {f : Json → Except PyError (Option α)} (value : Json) (hf : ∀ x, NoRefusal (f x)) :
    NoRefusal (value.search f) :=
  noRefusal_bind (noRefusal_iterate value) fun _ _ => settles_findSome.mpr fun x _ => hf x

/-! ## Signatures -/

variable {lib : CardLib}

def IsAscii (text : String) : Prop := ∀ c ∈ text.toList, c.toNat < 128

theorem settles_encodeAscii_bind {α : Type} (text : String) (f : Bytes → Except PyError α) :
    Settles CardInvalid (encodeAscii text >>= f) ↔ IsAscii text ∧ Settles CardInvalid (f (encodeUtf8 text)) := by
  have hascii : (text.toList.all fun c => c.toNat < 128) = true ↔ IsAscii text := by
    simp [IsAscii, List.all_eq_true]
  simp only [encodeAscii]
  split
  · rename_i h
    exact ⟨fun hf => ⟨hascii.mp h, hf⟩, fun hf => hf.2⟩
  · rename_i h
    refine iff_of_false ?_ fun hf => h (hascii.mpr hf.1)
    simp [bind, Except.bind]

theorem isAscii_append {s t : String} : IsAscii (s ++ t) ↔ IsAscii s ∧ IsAscii t := by
  simp only [IsAscii, String.toList_append, List.mem_append, or_imp, forall_and]

theorem isAscii_b64url (raw : Bytes) : IsAscii (b64url raw) := by
  intro c hc
  rw [b64url, String.toList_ofList] at hc
  exact encode_ascii raw c (Base64.mem_of_mem_strip hc)

private theorem isAscii_dot : IsAscii "." := by
  intro c hc
  have hdot : c ∈ ['.'] := hc
  rw [List.mem_singleton.mp hdot]
  decide

/-- An entry that is checked is an object; if it has a header and a signature, the header is ASCII and the
    signature is a text. -/
def SignatureTyped (lib : CardLib) (sig : Json) : Prop :=
  sig.IsObj ∧ ((sig.field "protected").truthy = true → (sig.field "signature").truthy = true →
    IsAscii (lib.text (sig.field "protected")) ∧ ∃ text, sig.field "signature" = .str text)

theorem settles_checkSignature (publicKey : PublicKey) (payload : Bytes) (sig : Json) :
    Settles CardInvalid (checkSignature lib publicKey (b64url payload) sig) ↔ SignatureTyped lib sig := by
  simp only [checkSignature, settles_getKey_bind, SignatureTyped]
  rw [← and_assoc, and_self]
  apply and_congr_right
  intro _
  by_cases hboth : (sig.field "protected").truthy = true ∧ (sig.field "signature").truthy = true
  · simp only [hboth.1, hboth.2, Bool.true_eq_false, or_self, if_false, settles_encodeAscii_bind, isAscii_append,
      forall_const]
    rw [and_iff_left (isAscii_b64url payload), and_iff_left isAscii_dot]
    apply and_congr_right
    intro _
    cases sig.field "signature" with
    | str text =>
      simp only [Json.str.injEq, exists_eq', iff_true]
      split <;> exact settles_ok _
    | _ => simp
  · have hskip : (sig.field "protected").truthy = false ∨ (sig.field "signature").truthy = false := by
      simpa only [not_and_or, Bool.not_eq_true] using hboth
    rw [if_pos hskip]
    exact iff_of_true (settles_ok _) fun hp hs => absurd ⟨hp, hs⟩ hboth

/-- What verifying relies on: the card is an object, and if it has signatures, they are a list, the rest of
    the card has an encoding, and the entries up to the first valid one can be checked. -/
def SignaturesTyped (lib : CardLib) (publicKey : PublicKey) (card : Json) : Prop :=
  card.IsObj ∧ ((card.field "signatures").truthy = true →
    ∃ sigs payload, card.field "signatures" = .arr sigs ∧ canonicalize (unsignedCard card) = .ok payload ∧
      ∀ sig, Reached (checkSignature lib publicKey (b64url payload)) sigs sig → SignatureTyped lib sig)

theorem not_settles_checkSignature_text (publicKey : PublicKey) (payload : Bytes) (s : String) :
    ¬Settles CardInvalid (checkSignature lib publicKey (b64url payload) (.str s)) := by
  rw [settles_checkSignature]
  exact fun h => not_isObj_str s h.1

/-- A part of the card that is left out does not make it less of a JSON value. -/
theorem isJson_unsignedCard {card : Json} (h : card.IsJson) : (unsignedCard card).IsJson := by
  cases h with
  | obj hmembers => exact .obj fun m hm => hmembers m (List.mem_filter.mp hm).1
  | arr hitems => exact .arr hitems
  | _ => simp [unsignedCard]

theorem settles_verifyCardSignatures (publicKey : PublicKey) {card : Json} (hcard : card.IsJson) :
    Settles CardInvalid (verifyCardSignatures lib publicKey card) ↔ SignaturesTyped lib publicKey card := by
  simp only [verifyCardSignatures, settles_getKey_bind, SignaturesTyped]
  apply and_congr_right
  intro _
  cases htruthy : (card.field "signatures").truthy with
  | false =>
    have hnone : ((card.field "signatures").orElse (.arr [])).truthy = false := by
      simp only [Json.orElse, htruthy, Bool.false_eq_true, if_false]
      rfl
    rw [if_pos hnone]
    simp
  | true =>
    have hsame : (card.field "signatures").orElse (.arr []) = card.field "signatures" := by
      simp only [Json.orElse, htruthy, if_true]
    rw [if_neg (by simp [hsame, htruthy])]
    simp only [forall_const, settles_bind]
    cases hpayload : canonicalize (unsignedCard card) with
    | error e =>
      obtain ⟨message, rfl⟩ := canonicalize_error (isJson_unsignedCard hcard) hpayload
      simp
    | ok payload =>
      simp only [settles_ok, true_and, Except.ok.injEq, forall_eq', implies_true, and_true]
      rw [settles_search _ (not_settles_checkSignature_text publicKey payload)]
      simp only [settles_checkSignature, items_of_truthy htruthy]
      constructor
      · intro h
        obtain ⟨sigs, hsigs, htyped⟩ := h
        exact ⟨sigs, payload, hsigs, rfl, htyped⟩
      · intro h
        obtain ⟨sigs, payload', hsigs, rfl, htyped⟩ := h
        exact ⟨sigs, hsigs, htyped⟩

/-! ## The policy -/

/-- What checking the signatures of the card relies on. -/
def CardTrustPolicy.VerifiesTyped (lib : CardLib) (policy : CardTrustPolicy) (card : Json) : Prop :=
  ∀ publicKey, policy.signatureVerifier = some (.ed25519 publicKey) → SignaturesTyped lib publicKey card

theorem settles_verifies (policy : CardTrustPolicy) {card : Json} (hcard : card.IsJson) :
    Settles CardInvalid (policy.verifies lib card) ↔ policy.VerifiesTyped lib card := by
  simp only [CardTrustPolicy.verifies, CardTrustPolicy.VerifiesTyped]
  cases policy.signatureVerifier with
  | none => simp
  | some verifier =>
    cases verifier with
    | function verifies => simp [SignatureVerifier.call]
    | ed25519 publicKey =>
      simp only [SignatureVerifier.call, settles_verifyCardSignatures publicKey hcard, Option.some.injEq,
        SignatureVerifier.ed25519.injEq, forall_eq']

theorem settles_requireTrust (trusted : Bool) (message : String) (details : List (String × Json)) :
    Settles CardInvalid (requireTrust trusted message details) := by
  simp only [requireTrust]
  split
  · exact settles_ok ()
  · exact settles_raiseA2A message details

theorem requireTrust_eq_ok_iff (trusted : Bool) (message : String) (details : List (String × Json)) (u : Unit) :
    requireTrust trusted message details = .ok u ↔ trusted = true := by
  cases trusted <;> simp [requireTrust, raiseA2A]

/-- The checks of the policy refuse a card or let it pass, if they get through the signatures. -/
theorem settles_checkTrust (cardUrl host : String) {card : Json} (policy : CardTrustPolicy) (hcard : card.IsJson) :
    Settles CardInvalid (checkTrust lib cardUrl host card policy) ↔
      (policy.allows host = true → policy.VerifiesTyped lib card) := by
  simp only [checkTrust, settles_bind, settles_requireTrust, true_and, requireTrust_eq_ok_iff, implies_true, and_true,
    settles_verifies policy hcard, forall_const]

/-! ## The extension and the interfaces -/

/-- An extension that is looked at is an object, and so are its parameters, if it is the one looked for
    and has some. -/
def ExtensionTyped (ext : Json) : Prop :=
  ext.IsObj ∧ ((ext.field "uri").text? = some extensionUri → (ext.field "params").truthy = true →
    (ext.field "params").IsObj)

theorem settles_subscriberParams (ext : Json) :
    Settles CardInvalid (subscriberParams ext) ↔ ExtensionTyped ext := by
  simp only [subscriberParams, settles_getKey_bind, ExtensionTyped]
  apply and_congr_right
  intro hobj
  split
  · rename_i huri
    simp only [huri, hobj, forall_const, settles_getKey_bind, isObj_orElse, settles_ok, and_true, true_and]
  · rename_i huri
    exact iff_of_true (settles_ok _) fun h => absurd h huri

/-- The value of the member `extensions`. -/
def extensionsOf (card : Json) : Json := ((card.field "capabilities").orElse (.obj [])).field "extensions"

/-- What looking for the extension relies on. -/
structure ExtensionsTyped (card : Json) : Prop where
  object : card.IsObj
  capabilities : (card.field "capabilities").truthy = true → (card.field "capabilities").IsObj
  extensions : ∃ exts, (extensionsOf card).Items exts ∧ ∀ ext, Reached subscriberParams exts ext → ExtensionTyped ext

/-- What looking for an endpoint relies on. -/
def InterfacesTyped (lib : CardLib) (card : Json) : Prop :=
  ∃ ifaces, (card.field "supportedInterfaces").Items ifaces ∧ ∀ iface, Reached (jsonrpcUrl lib) ifaces iface → iface.IsObj

theorem settles_findSubscriberExtension (card : Json) :
    Settles CardInvalid (findSubscriberExtension card) ↔ ExtensionsTyped card := by
  have htext : ∀ s, ¬Settles CardInvalid (subscriberParams (.str s)) := by
    intro s
    rw [settles_subscriberParams]
    exact fun h => not_isObj_str s h.1
  simp only [findSubscriberExtension, settles_getKey_bind, isObj_orElse]
  rw [settles_bind, settles_search _ htext]
  simp only [settles_subscriberParams]
  constructor
  · intro h
    exact ⟨h.1, h.2.1, h.2.2.1⟩
  · intro h
    refine ⟨h.object, h.capabilities, h.extensions, fun found _ => ?_⟩
    cases found <;> trivial

theorem settles_jsonrpcUrl (iface : Json) : Settles CardInvalid (jsonrpcUrl lib iface) ↔ iface.IsObj := by
  simp only [jsonrpcUrl, settles_getKey_bind, settles_getKeyD_bind, settles_ok, and_true, and_self]

theorem noRefusal_jsonrpcUrl (iface : Json) : NoRefusal (jsonrpcUrl lib iface) := by
  apply noRefusal_bind (noRefusal_getKey iface _)
  intro url _
  exact noRefusal_bind (noRefusal_getKeyD iface _ _) fun _ _ => trivial

theorem noRefusal_a2aEndpointOf (card : Json) : NoRefusal (a2aEndpointOf lib card) := by
  apply noRefusal_bind (noRefusal_getKey card _)
  intro interfaces _
  apply noRefusal_bind (noRefusal_search _ noRefusal_jsonrpcUrl)
  intro found _
  cases found with
  | some url => trivial
  | none => exact noRefusal_bind (noRefusal_getKey card _) fun _ _ => trivial

theorem settles_a2aEndpointOf {card : Json} (hobj : card.IsObj) :
    Settles CardInvalid (a2aEndpointOf lib card) ↔ InterfacesTyped lib card := by
  have htext : ∀ s, ¬Settles CardInvalid (jsonrpcUrl lib (.str s)) := by
    intro s
    rw [settles_jsonrpcUrl]
    exact not_isObj_str s
  simp only [a2aEndpointOf, settles_getKey_bind, hobj, true_and]
  rw [settles_bind, settles_search _ htext]
  simp only [settles_jsonrpcUrl]
  rw [and_iff_left]
  · rfl
  · intro found _
    cases found with
    | some url => trivial
    | none =>
      rw [settles_getKey_bind]
      exact ⟨hobj, settles_ok _⟩

/-! ## Delivery modes -/

/-- The delivery modes can be looped over, and each is one. -/
def ModesTyped (params : Json) : Prop :=
  ∃ values, (params.fieldD "acceptedDeliveryModes" (.arr [])).iterate = .ok values ∧
    ∀ v ∈ values, ∃ mode : DeliveryMode, v = .str mode.value

theorem ofValue_isOk_iff (v : Json) :
    (∃ mode, DeliveryMode.ofValue v = .ok mode) ↔ ∃ mode : DeliveryMode, v = .str mode.value := by
  constructor
  · intro h
    obtain ⟨mode, h⟩ := h
    cases v with
    | str s =>
      simp only [DeliveryMode.ofValue] at h
      split at h
      · rename_i hs
        exact ⟨.webhook, by rw [hs]⟩
      · split at h
        · rename_i hs
          exact ⟨.a2aMessage, by rw [hs]⟩
        · cases h
    | _ => cases h
  · intro h
    obtain ⟨mode, rfl⟩ := h
    refine ⟨mode, ?_⟩
    cases mode <;> rfl

theorem not_cardInvalid_ofValue {v : Json} {e : PyError} (h : DeliveryMode.ofValue v = .error e) : ¬CardInvalid e := by
  simp only [DeliveryMode.ofValue] at h
  repeat' split at h
  all_goals
    cases h
    try exact not_cardInvalid_valueError _

theorem sequence_isOk_iff {α : Type} (l : List (Except PyError α)) :
    (∃ as, sequence l = .ok as) ↔ ∀ x ∈ l, ∃ a, x = .ok a := by
  induction l with
  | nil => simp [sequence]
  | cons x l ih =>
    rw [List.forall_mem_cons, ← ih]
    cases x with
    | error e => simp [sequence]
    | ok a =>
      simp only [sequence, Except.ok.injEq, exists_eq', true_and]
      cases sequence l <;> simp [Except.map]

theorem noRefusal_modes (values : List Json) : NoRefusal (sequence (values.map DeliveryMode.ofValue)) := by
  cases hmodes : sequence (values.map DeliveryMode.ofValue) with
  | ok modes => trivial
  | error e =>
    obtain ⟨v, -, hv⟩ := List.mem_map.mp (mem_of_sequence_error hmodes)
    exact not_cardInvalid_ofValue hv

theorem noRefusal_acceptedDeliveryModes (params : Json) : NoRefusal (acceptedDeliveryModes params) := by
  apply noRefusal_bind (noRefusal_getKeyD params _ _)
  intro accepted _
  apply noRefusal_bind (noRefusal_iterate accepted)
  intro values _
  exact noRefusal_bind (noRefusal_modes values) fun _ _ => trivial

theorem settles_acceptedDeliveryModes {params : Json} (hobj : params.IsObj) :
    Settles CardInvalid (acceptedDeliveryModes params) ↔ ModesTyped params := by
  simp only [acceptedDeliveryModes, settles_getKeyD_bind, hobj, true_and, ModesTyped]
  have hiterate := noRefusal_iterate (params.fieldD "acceptedDeliveryModes" (.arr []))
  cases hvalues : (params.fieldD "acceptedDeliveryModes" (.arr [])).iterate with
  | error e =>
    rw [hvalues] at hiterate
    exact iff_of_false hiterate (by simp)
  | ok values =>
    have hmodes : ∀ e, sequence (values.map DeliveryMode.ofValue) = .error e → ¬CardInvalid e := by
      intro e he
      have := noRefusal_modes values
      rwa [he] at this
    show Settles CardInvalid (sequence (values.map DeliveryMode.ofValue) >>= _) ↔ _
    rw [settles_bind, settles_iff_isOk hmodes, sequence_isOk_iff, List.forall_mem_map]
    simp only [ofValue_isOk_iff, settles_ok, implies_true, and_true, Except.ok.injEq, exists_eq_left']

/-! ## Endpoints -/

/-- `urlparse` and `port` raise nothing but `ValueError`. -/
structure CardLib.RaisesValueError (lib : CardLib) : Prop where
  urlparse : ∀ url e, lib.urlparse url = .error e → ∃ message, e = .valueError message
  port : ∀ url parts e, lib.urlparse url = .ok parts → parts.port = .error e → ∃ message, e = .valueError message

/-- The ports of an endpoint and of the card are read if the policy asks for one origin and has not refused the
    endpoint for its scheme. -/
def PortsTyped (policy : CardTrustPolicy) (card : UrlParts) (parsed : Option UrlParts) : Prop :=
  (policy.requireHttps = true → parsed.map UrlParts.scheme = some "https") → policy.requireSameOrigin = true →
    (∀ p, parsed = some p → ∃ port, p.port = .ok port) ∧ ∃ port, card.port = .ok port

/-- What checking an endpoint relies on: it is missing; or a text that is a URL; or another falsy value. -/
def EndpointTyped (lib : CardLib) (policy : CardTrustPolicy) (card : UrlParts) : Json → Prop
  | .null => True
  | .str url => ∃ parsed, lib.urlparse url = .ok parsed ∧ PortsTyped policy card (some parsed)
  | v => v.truthy = false ∧ PortsTyped policy card none

/-- Reading a port settles if there is one, whatever follows. -/
theorem settles_port_bind (hlib : lib.RaisesValueError) {α : Type} {url : String} {parts : UrlParts}
    (hparts : lib.urlparse url = .ok parts) (f : Option Nat → Except PyError α) :
    Settles CardInvalid (parts.port >>= f) ↔ ∃ port, parts.port = .ok port ∧ Settles CardInvalid (f port) := by
  cases hport : parts.port with
  | ok port => simp [bind, Except.bind]
  | error e =>
    obtain ⟨message, rfl⟩ := hlib.port url parts e hparts hport
    simp [bind, Except.bind]

theorem settles_checkOrigin (hlib : lib.RaisesValueError) {cardUrl : String} {card : UrlParts}
    (hcard : lib.urlparse cardUrl = .ok card) (endpoint : Json) {parsed : Option UrlParts}
    (hparsed : ∀ p, parsed = some p → ∃ url, lib.urlparse url = .ok p) (policy : CardTrustPolicy) :
    Settles CardInvalid (checkOrigin lib cardUrl endpoint parsed policy) ↔ PortsTyped policy card parsed := by
  have hcompare : ∀ port cardPort : Option Nat, Settles CardInvalid
      (if parsed.map (fun p => (p.scheme, p.hostname, port)) ≠ some (card.scheme, card.hostname, cardPort) then
        raiseA2A .subscriberCardInvalid
          ("Delivery endpoint " ++ lib.text endpoint ++ " is not same-origin with the card.")
          [("endpoint", endpoint), ("cardUrl", .str cardUrl)]
      else (.ok () : Except PyError Unit)) := by
    intro port cardPort
    split
    · exact settles_raiseA2A _ _
    · exact settles_ok ()
  simp only [checkOrigin, PortsTyped]
  split
  · rename_i hrefused
    exact iff_of_true (settles_raiseA2A _ _) fun hscheme => absurd (hscheme hrefused.1) hrefused.2
  · rename_i hpassed
    have hscheme : policy.requireHttps = true → parsed.map UrlParts.scheme = some "https" := by
      intro hrequired
      by_contra hne
      exact hpassed ⟨hrequired, hne⟩
    rw [imp_iff_right hscheme]
    split
    · rename_i hsame
      simp only [hsame, forall_const, hcard]
      cases parsed with
      | none =>
        show Settles CardInvalid (card.port >>= _) ↔ _
        rw [settles_port_bind hlib hcard]
        simp only [hcompare, and_true, reduceCtorEq, false_implies, implies_true, true_and]
      | some p =>
        obtain ⟨url, hurl⟩ := hparsed p rfl
        show Settles CardInvalid (p.port >>= fun _ => card.port >>= _) ↔ _
        simp only [settles_port_bind hlib hurl, settles_port_bind hlib hcard]
        simp only [hcompare, and_true, Option.some.injEq, forall_eq', exists_and_right]
    · rename_i hsame
      exact iff_of_true (settles_ok ()) fun h => absurd h hsame

theorem settles_checkEndpointTrust (hlib : lib.RaisesValueError) {cardUrl : String} {card : UrlParts}
    (hcard : lib.urlparse cardUrl = .ok card) (endpoint : Json) (policy : CardTrustPolicy) :
    Settles CardInvalid (checkEndpointTrust lib cardUrl endpoint policy) ↔ EndpointTyped lib policy card endpoint := by
  have hother : ∀ v : Json, Settles CardInvalid (if v.truthy then .error (.other "AttributeError")
      else checkOrigin lib cardUrl v none policy) ↔ v.truthy = false ∧ PortsTyped policy card none := by
    intro v
    rw [← settles_checkOrigin hlib hcard v (by simp) policy]
    cases v.truthy <;> simp
  cases endpoint with
  | null => exact iff_of_true trivial trivial
  | str url =>
    simp only [checkEndpointTrust, EndpointTyped]
    cases hurl : lib.urlparse url with
    | error e =>
      obtain ⟨message, rfl⟩ := hlib.urlparse url e hurl
      simp [bind, Except.bind]
    | ok parsed =>
      simp only [Except.ok.injEq, exists_eq_left']
      exact settles_checkOrigin hlib hcard _ (fun p hp => ⟨url, by rw [hurl, Option.some.inj hp]⟩) policy
  | bool b => exact hother (.bool b)
  | int i => exact hother (.int i)
  | float x => exact hother (.float x)
  | arr xs => exact hother (.arr xs)
  | obj members => exact hother (.obj members)
  | other name => exact hother (.other name)

/-! ## Reading a card -/

/-- The parameters that the card declares: those of the first extension that is the one looked for. -/
def Declares (card params : Json) : Prop :=
  ∃ exts ext, (extensionsOf card).Items exts ∧ Reached subscriberParams exts ext ∧ subscriberParams ext = .ok (some params)

theorem not_settles_subscriberParams_text (s : String) : ¬Settles CardInvalid (subscriberParams (.str s)) := by
  rw [settles_subscriberParams]
  exact fun h => not_isObj_str s h.1

theorem findSubscriberExtension_eq_ok_iff {card : Json} (htyped : ExtensionsTyped card) (params : Json) :
    findSubscriberExtension card = .ok params ↔ Declares card params := by
  have hsearch := search_eq_some_iff (extensionsOf card) not_settles_subscriberParams_text params
  have hobj := (isObj_orElse (card.field "capabilities")).mpr htyped.capabilities
  simp only [findSubscriberExtension, bind_eq_ok_iff, htyped.object.getKey, hobj.getKey, Except.ok.injEq,
    exists_eq_left']
  constructor
  · intro h
    obtain ⟨found, hfound, h⟩ := h
    cases found with
    | none => cases h
    | some params' =>
      cases h
      obtain ⟨exts, hexts, ext, hreached, hext⟩ := hsearch.mp hfound
      exact ⟨exts, ext, hexts, hreached, hext⟩
  · intro h
    obtain ⟨exts, ext, hexts, hreached, hext⟩ := h
    exact ⟨some params, hsearch.mpr ⟨exts, hexts, ext, hreached, hext⟩, rfl⟩

/-- The parameters that are declared have a role, and so are an object. -/
theorem Declares.isObj {card params : Json} (h : Declares card params) : params.IsObj := by
  obtain ⟨exts, ext, -, -, hext⟩ := h
  simp only [subscriberParams, bind_eq_ok_iff] at hext
  obtain ⟨uri, -, hext⟩ := hext
  split at hext
  · simp only [bind_eq_ok_iff] at hext
    obtain ⟨params', -, role, hrole, hext⟩ := hext
    split at hext
    · cases hext
      exact ((params'.orElse (.obj [])).getKey_isOk_iff "role").mp ⟨role, hrole⟩
    · cases hext
  · cases hext

/-- What reading the parameters relies on. The second endpoint is looked at if the first one is trusted. -/
structure ParamsTyped (lib : CardLib) (policy : CardTrustPolicy) (cardUrl : String) (parts : UrlParts)
    (card params : Json) : Prop where
  interfaces : InterfacesTyped lib card
  modes : ModesTyped params
  receiveUrl : EndpointTyped lib policy parts (params.field "receiveUrl")
  a2aEndpoint : ∀ url, a2aEndpointOf lib card = .ok (some url) →
    checkEndpointTrust lib cardUrl (params.field "receiveUrl") policy = .ok () → EndpointTyped lib policy parts (.str url)

theorem settles_readSubscriberCard (hlib : lib.RaisesValueError) {cardUrl : String} {parts : UrlParts}
    (hurl : lib.urlparse cardUrl = .ok parts) (card : Json) (policy : CardTrustPolicy) :
    Settles CardInvalid (readSubscriberCard lib cardUrl card policy) ↔
      ExtensionsTyped card ∧ ∀ params, Declares card params → ParamsTyped lib policy cardUrl parts card params := by
  simp only [readSubscriberCard]
  rw [settles_bind, settles_findSubscriberExtension]
  apply and_congr_right
  intro htyped
  apply forall_congr'
  intro params
  rw [findSubscriberExtension_eq_ok_iff htyped]
  apply imp_congr_right
  intro hdeclares
  rw [settles_getKey_bind]
  simp only [hdeclares.isObj, true_and, settles_bind, settles_a2aEndpointOf htyped.object,
    settles_acceptedDeliveryModes hdeclares.isObj, settles_checkEndpointTrust hlib hurl]
  constructor
  · intro h
    obtain ⟨hifaces, h⟩ := h
    obtain ⟨endpoint, hendpoint⟩ := isOk_of_settles ((settles_a2aEndpointOf htyped.object).mpr hifaces)
      (noRefusal_a2aEndpointOf card)
    obtain ⟨hmodes, -⟩ := h endpoint hendpoint
    obtain ⟨modes, hmodesOk⟩ := isOk_of_settles ((settles_acceptedDeliveryModes hdeclares.isObj).mpr hmodes)
      (noRefusal_acceptedDeliveryModes params)
    refine ⟨hifaces, hmodes, ((h endpoint hendpoint).2 modes hmodesOk).1, fun url hurl' htrusted => ?_⟩
    exact (((h (some url) hurl').2 modes hmodesOk).2 () htrusted).1
  · intro h
    refine ⟨h.interfaces, fun endpoint hendpoint => ⟨h.modes, fun modes _ => ⟨h.receiveUrl, fun _ htrusted => ?_⟩⟩⟩
    refine ⟨?_, fun _ _ => settles_ok _⟩
    cases endpoint with
    | none => trivial
    | some url => exact h.a2aEndpoint url hendpoint htrusted

/-! ## Valid signatures -/

theorem noRefusal_checkSignature (publicKey : PublicKey) (payload : String) (sig : Json) :
    NoRefusal (checkSignature lib publicKey payload sig) := by
  apply noRefusal_bind (noRefusal_getKey sig _)
  intro header _
  apply noRefusal_bind (noRefusal_getKey sig _)
  intro signature _
  split
  · trivial
  · apply noRefusal_bind
    · rw [encodeAscii]
      split
      · trivial
      · exact not_cardInvalid_valueError _
    · intro input _
      split
      · split <;> trivial
      · exact not_cardInvalid_typeError _

/-- Entries that are no valid signatures do not keep a valid one from being found, if the types are right. -/
theorem verifyCardSignatures_eq_true {publicKey : PublicKey} {card : Json} (htyped : SignaturesTyped lib publicKey card)
    {sigs : List Json} {payload : Bytes} {sig : Json} (hsigs : card.getKey "signatures" = .ok (.arr sigs))
    (hpayload : canonicalize (unsignedCard card) = .ok payload) (hsig : sig ∈ sigs)
    (hvalid : checkSignature lib publicKey (b64url payload) sig = .ok (some ())) :
    verifyCardSignatures lib publicKey card = .ok true := by
  have hfield : card.field "signatures" = .arr sigs := by
    rw [htyped.1.getKey] at hsigs
    exact Except.ok.inj hsigs
  have htruthy : (Json.arr sigs).truthy = true := by
    cases sigs with
    | nil => cases hsig
    | cons s rest => rfl
  obtain ⟨sigs', payload', hsigs', hpayload', hentries⟩ := htyped.2 (by rw [hfield]; exact htruthy)
  rw [hfield] at hsigs'
  cases hsigs'
  rw [hpayload] at hpayload'
  cases hpayload'
  obtain ⟨found, hfound⟩ := isOk_of_settles
    (settles_findSome.mpr fun s hs => (settles_checkSignature publicKey payload s).mpr (hentries s hs))
    (settles_findSome.mpr fun s _ => noRefusal_checkSignature publicKey (b64url payload) s)
  have hsome : found.isSome = true := by
    cases found with
    | some u => rfl
    | none =>
      have hnone := findSome_eq_none_iff.mp hfound sig hsig
      rw [hvalid] at hnone
      cases hnone
  have horElse : (Json.arr sigs).orElse (.arr []) = .arr sigs := by simp only [Json.orElse, htruthy, if_true]
  simp only [verifyCardSignatures, bind_eq_ok_iff, htyped.1.getKey, hfield, Except.ok.injEq, exists_eq_left', horElse,
    htruthy, Bool.true_eq_false, if_false]
  exact ⟨payload, hpayload, found, hfound, hsome⟩

/-! ## Cards -/

/-- The policy trusts the card, apart from its endpoints. -/
def CardTrustPolicy.Trusts (lib : CardLib) (policy : CardTrustPolicy) (host : String) (card : Json) : Prop :=
  policy.allows host = true ∧ policy.verifies lib card = .ok true ∧ policy.challenges host = true

theorem checkTrust_eq_ok_iff (cardUrl host : String) (card : Json) (policy : CardTrustPolicy) (u : Unit) :
    checkTrust lib cardUrl host card policy = .ok u ↔ policy.Trusts lib host card := by
  simp only [checkTrust, bind_eq_ok_iff, requireTrust_eq_ok_iff, CardTrustPolicy.Trusts]
  constructor
  · intro h
    obtain ⟨-, hallows, verified, hverified, -, rfl, hchallenge⟩ := h
    exact ⟨hallows, hverified, hchallenge⟩
  · intro h
    obtain ⟨hallows, hverified, hchallenge⟩ := h
    exact ⟨(), hallows, true, hverified, (), rfl, hchallenge⟩

/-- The types that parsing relies on, each as far as it gets. -/
structure CardTyped (lib : CardLib) (policy : CardTrustPolicy) (cardUrl : String) (parts : UrlParts) (host : String)
    (card : Json) : Prop where
  signatures : policy.allows host = true → policy.VerifiesTyped lib card
  extensions : policy.Trusts lib host card → ExtensionsTyped card
  params : policy.Trusts lib host card → ∀ params, Declares card params →
    ParamsTyped lib policy cardUrl parts card params

/-- The policy asks for a signature, and the card has a valid one. -/
def CardTrustPolicy.ValidlySigned (lib : CardLib) (policy : CardTrustPolicy) (card : Json) : Prop :=
  ∃ publicKey sigs payload, policy.signatureVerifier = some (.ed25519 publicKey) ∧
    card.getKey "signatures" = .ok (.arr sigs) ∧ canonicalize (unsignedCard card) = .ok payload ∧
    ∃ sig ∈ sigs, checkSignature lib publicKey (b64url payload) sig = .ok (some ())

/-- The policy without its signature verifier. -/
def CardTrustPolicy.signatureless (policy : CardTrustPolicy) : CardTrustPolicy :=
  { policy with signatureVerifier := none }

/-- The resolver decides on the card: it returns a `SubscriberCard` or refuses the card as invalid; the
    publisher does not report the card as unreachable; and with a valid signature in it, the outcome is
    the one without the demand for a signature. -/
structure AgentCardResolver.Decides (lib : CardLib) (cfg : PublisherConfig) (resolver : AgentCardResolver)
    (cardUrl : String) (card : Json) : Prop where
  outcome : (∃ c, resolver.call lib cardUrl = .ok c) ∨
    ∃ e, resolver.call lib cardUrl = .error e ∧ e.code? = some .subscriberCardInvalid
  reachable : ∀ e, Publisher.resolveCard { cfg with cardResolver := resolver.call lib } cardUrl = .error e →
    e.code? ≠ some .subscriberCardUnreachable
  signed : resolver.policy.ValidlySigned lib card →
    resolver.call lib cardUrl = { resolver with policy := resolver.policy.signatureless }.call lib cardUrl

section

variable {resolver : AgentCardResolver} {cardUrl host : String} {parts : UrlParts} {card : Json}

theorem settles_call_iff (hlib : lib.RaisesValueError) (hurl : lib.urlparse cardUrl = .ok parts)
    (hhost : parts.hostname = some host) (hfetch : resolver.fetch cardUrl = .ok card) (hjson : card.IsJson) :
    Settles CardInvalid (resolver.call lib cardUrl) ↔ CardTyped lib resolver.policy cardUrl parts host card := by
  simp only [AgentCardResolver.call, hfetch, parseSubscriberCard, settles_bind, hurl, settles_ok, true_and,
    Except.ok.injEq, forall_eq', hhost, Option.getD_some, settles_checkTrust cardUrl host resolver.policy hjson,
    checkTrust_eq_ok_iff, settles_readSubscriberCard hlib hurl]
  constructor
  · intro h
    exact ⟨h.1, fun ht => (h.2 () ht).1, fun ht => (h.2 () ht).2⟩
  · intro h
    exact ⟨h.signatures, fun _ ht => ⟨h.extensions ht, h.params ht⟩⟩

/-- With a valid signature, the outcome is the same as if none had been asked for. -/
theorem call_eq_signatureless (hurl : lib.urlparse cardUrl = .ok parts) (hhost : parts.hostname = some host)
    (hfetch : resolver.fetch cardUrl = .ok card) (htyped : CardTyped lib resolver.policy cardUrl parts host card)
    (hsigned : resolver.policy.ValidlySigned lib card) :
    resolver.call lib cardUrl = { resolver with policy := resolver.policy.signatureless }.call lib cardUrl := by
  obtain ⟨publicKey, sigs, payload, hverifier, hsigs, hpayload, sig, hsig, hvalid⟩ := hsigned
  have hread : readSubscriberCard lib cardUrl card resolver.policy.signatureless =
      readSubscriberCard lib cardUrl card resolver.policy := rfl
  have htrust : checkTrust lib cardUrl host card resolver.policy =
      checkTrust lib cardUrl host card resolver.policy.signatureless := by
    have hallows : resolver.policy.signatureless.allows host = resolver.policy.allows host := rfl
    simp only [checkTrust, hallows]
    cases hallowed : resolver.policy.allows host with
    | false => rfl
    | true =>
      have hverified : resolver.policy.verifies lib card = .ok true := by
        simp only [CardTrustPolicy.verifies, hverifier, SignatureVerifier.call]
        exact verifyCardSignatures_eq_true (htyped.signatures hallowed publicKey hverifier) hsigs hpayload hsig hvalid
      rw [hverified]
      rfl
  simp only [AgentCardResolver.call, hfetch, parseSubscriberCard, hurl, bind, Except.bind, hhost, Option.getD_some,
    htrust, hread]

/-- The resolver decides on a card exactly if what it reads of it has the types that reading relies on. -/
theorem agentCardResolver_decides_iff (cfg : PublisherConfig) (hlib : lib.RaisesValueError)
    (hurl : lib.urlparse cardUrl = .ok parts) (hhost : parts.hostname = some host)
    (hfetch : resolver.fetch cardUrl = .ok card) (hjson : card.IsJson) :
    resolver.Decides lib cfg cardUrl card ↔ CardTyped lib resolver.policy cardUrl parts host card := by
  have hsettles := settles_call_iff hlib hurl hhost hfetch hjson
  rw [settles_iff] at hsettles
  constructor
  · intro h
    exact hsettles.mp h.outcome
  · intro htyped
    have houtcome := hsettles.mpr htyped
    refine ⟨houtcome, fun e he => ?_, call_eq_signatureless hurl hhost hfetch htyped⟩
    rcases houtcome with ⟨c, hc⟩ | ⟨e', he', hcode⟩
    · simp only [Publisher.resolveCard, hc] at he
      cases he
    · -- the publisher passes on what it takes for a protocol error
      cases e' with
      | a2a err =>
        simp only [Publisher.resolveCard, he'] at he
        cases he
        intro hunreachable
        rw [CardInvalid, hunreachable] at hcode
        cases hcode
      | _ => cases hcode

end

/-- Cards at URLs of the plain form. -/
def plainCards : CardLib where
  urlparse := plainUrls.urlsplit
  str _ := ""

theorem plainCards_raisesValueError : plainCards.RaisesValueError where
  urlparse url e h := by cases h
  port url parts e h hport := by
    cases h
    cases hport

/-- A card with a delivery mode that there is not. -/
theorem agentCardResolver_decides_unknown_mode :
    let card := Json.obj [("capabilities", .obj [("extensions", .arr [.obj [("uri", .str extensionUri),
      ("params", .obj [("role", .str "subscriber"), ("acceptedDeliveryModes", .arr [.str "carrier-pigeon"])])]])])]
    let resolver : AgentCardResolver := { fetch := fun _ => .ok card }
    resolver.Decides plainCards Sample.config "https://agent.example.com/card" card ↔
      CardTyped plainCards {} "https://agent.example.com/card"
        { scheme := "https", hostname := some "agent.example.com" } "agent.example.com" card := by
  intro card resolver
  exact agentCardResolver_decides_iff Sample.config plainCards_raisesValueError (by rfl) rfl rfl (by simp [card])

/-- An entry that is no object stands before a valid signature: the search for one raises, and the publisher
    reports the card as unreachable. -/
theorem agentCardResolver_malformed_entry :
    let card := Json.obj [("signatures", .arr [.null, .obj [("protected", .str "e30"), ("signature", .str "AA")]])]
    let publicKey : PublicKey := { verifyRaw := fun _ _ => true }
    let policy : CardTrustPolicy := { signatureVerifier := some (.ed25519 publicKey) }
    let resolver : AgentCardResolver := { fetch := fun _ => .ok card, policy }
    card.IsJson ∧ policy.ValidlySigned plainCards card ∧
      resolver.call plainCards "https://agent.example.com/card" = .error (.other "AttributeError") ∧
      ¬resolver.Decides plainCards Sample.config "https://agent.example.com/card" card := by
  intro card publicKey policy resolver
  have hcall : resolver.call plainCards "https://agent.example.com/card" = .error (.other "AttributeError") := rfl
  refine ⟨by simp [card], ?_, hcall, fun h => ?_⟩
  · exact ⟨publicKey, _, encodeUtf8 (String.ofList [Char.ofNat 123, Char.ofNat 125]), rfl, rfl, rfl, _,
      List.mem_cons_of_mem _ List.mem_cons_self, rfl⟩
  · rcases h.outcome with ⟨c, hc⟩ | ⟨e, he, hcode⟩
    · rw [hcall] at hc
      cases hc
    · rw [hcall] at he
      cases he
      cases hcode

end A2AEvents

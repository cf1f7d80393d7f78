import A2AEvents.Native.Keys
import A2AEvents.Spec.PaginationCorrect
import A2AEvents.Spec.ReceiverCorrect

/-!
# Key rotation and the resolver's cache

A fetch writes every key that is served into the cache, over what stood there. It takes nothing out,
so that a key which was resolved once outlives its retirement.

## Key results

- `publicKeyFromJwk_toJwk`: a served key is read back
- `get?_refresh`: the cache after a fetch
- `agrees_after_refetches_iff`: when the resolver agrees with what it has just fetched
-/

namespace A2AEvents

variable {fromPublicBytes : FromPublicBytes}

/-! ## A fetch -/

theorem publicKeyFromJwk_toJwk (key : KeyPair fromPublicBytes) :
    publicKeyFromJwk fromPublicBytes key.toJwk = .ok key.publicKey := by
  rw [publicKeyFromJwk, KeyPair.toJwk, b64urlDecode_b64url]
  exact key.decodes

namespace JwksKeyResolver

/-- Served keys are all read. -/
theorem fill_toJwk (cache : Dict String PublicKey) (keys : List (KeyPair fromPublicBytes)) :
    fill fromPublicBytes cache (keys.map KeyPair.toJwk) =
      (.ok (), keys.foldl (fun cache key => cache.set key.kid key.publicKey) cache) := by
  induction keys generalizing cache with
  | nil => rfl
  | cons key keys ih =>
    have hkind : key.toJwk.kty = "OKP" ∧ key.toJwk.crv = "Ed25519" := ⟨rfl, rfl⟩
    rw [List.map_cons, fill, if_pos hkind, publicKeyFromJwk_toJwk]
    exact ih _

end JwksKeyResolver

namespace SigningKeySet

/-- The keys of a set have the kids they are filed under. -/
theorem map_kid_values (set : SigningKeySet fromPublicBytes) : set.keys.values.map (fun key => key.kid) = set.keys.keys := by
  rw [Dict.values, Dict.keys, List.map_map]
  apply List.map_congr_left
  intro e he
  exact set.kids e.1 e.2 (Dict.mem_entries_iff.mp he)

end SigningKeySet

namespace JwksKeyResolver

/-- After a fetch the cache has the keys that are served, and beside them what it had before. -/
theorem get?_refresh (resolver : JwksKeyResolver) (set : SigningKeySet fromPublicBytes) (kid : String) :
    (resolver.refresh fromPublicBytes set.jwks).2.cache.get? kid =
      match set.keys.get? kid with
      | some key => some key.publicKey
      | none => resolver.cache.get? kid := by
  have hcache : (resolver.refresh fromPublicBytes set.jwks).2.cache =
      set.keys.values.foldl (fun cache key => cache.set key.kid key.publicKey) resolver.cache := by
    rw [refresh, SigningKeySet.jwks, fill_toJwk]
  rw [hcache]
  cases hkey : set.keys.get? kid with
  | some key =>
    have hn : (set.keys.values.map fun key => key.kid).Nodup := by
      rw [set.map_kid_values]
      exact set.keys.nodup
    have hfound := Dict.get?_foldl_set_of_mem (fun key : KeyPair fromPublicBytes => key.kid)
      (fun key : KeyPair fromPublicBytes => key.publicKey) hn (Dict.mem_values_iff.mpr ⟨kid, hkey⟩) resolver.cache
    rw [set.kids kid key hkey] at hfound
    exact hfound
  | none =>
    apply Dict.get?_foldl_set_of_notMem (fun key : KeyPair fromPublicBytes => key.kid)
    rw [set.map_kid_values, Dict.mem_keys_iff, hkey]
    simp

theorem refresh_ok (resolver : JwksKeyResolver) (set : SigningKeySet fromPublicBytes) :
    (resolver.refresh fromPublicBytes set.jwks).1 = .ok () := by
  rw [refresh, SigningKeySet.jwks, fill_toJwk]

/-- What the resolver answers: what it has, or what is served now. -/
theorem resolve_eq (resolver : JwksKeyResolver) (set : SigningKeySet fromPublicBytes) (kid : String) :
    (resolver.resolve fromPublicBytes set.jwks kid).1 =
      match resolver.cache.get? kid with
      | some key => .ok key
      | none =>
        match set.keys.get? kid with
        | some key => .ok key.publicKey
        | none => .error (.keyError kid) := by
  cases hcached : resolver.cache.get? kid with
  | some key => simp only [resolve, hcached, Option.isSome_some, if_true, lookup]
  | none =>
    have hok := resolver.refresh_ok set
    have hget := resolver.get?_refresh set kid
    simp only [resolve, hcached, Option.isSome_none, Bool.false_eq_true, if_false]
    cases hfetch : resolver.refresh fromPublicBytes set.jwks with
    | mk outcome after =>
      rw [hfetch] at hok hget
      subst hok
      simp only [lookup, hget, hcached]
      cases set.keys.get? kid <;> rfl

/-- A key that is not cached is fetched. -/
theorem resolve_miss (resolver : JwksKeyResolver) (set : SigningKeySet fromPublicBytes) {kid : String}
    (hmiss : resolver.cache.get? kid = none) :
    (resolver.resolve fromPublicBytes set.jwks kid).2 = (resolver.refresh fromPublicBytes set.jwks).2 := by
  have hok := resolver.refresh_ok set
  simp only [resolve, hmiss, Option.isSome_none, Bool.false_eq_true, if_false]
  cases hfetch : resolver.refresh fromPublicBytes set.jwks with
  | mk outcome after =>
    rw [hfetch] at hok
    subst hok
    rfl

end JwksKeyResolver

/-! ## Rotation -/

/-- A publisher's keys, and a subscriber that resolves them. -/
structure Rotation (fromPublicBytes : FromPublicBytes) where
  keys : SigningKeySet fromPublicBytes
  resolver : JwksKeyResolver := {}

namespace Rotation

/-- What is done to the keys, and the lookups of the subscriber. -/
inductive Move (fromPublicBytes : FromPublicBytes) where
  | add (key : KeyPair fromPublicBytes) (activate : Bool)
  | activate (kid : String)
  | retire (kid : String)
  | lookup (kid : String)

/-- One move. A call that raises changes nothing. -/
def step (s : Rotation fromPublicBytes) : Move fromPublicBytes → Rotation fromPublicBytes
  | .add key activate => { s with keys := s.keys.add key activate }
  | .activate kid =>
    match s.keys.activate kid with
    | .ok keys => { s with keys }
    | .error _ => s
  | .retire kid =>
    match s.keys.retire kid with
    | .ok keys => { s with keys }
    | .error _ => s
  | .lookup kid => { s with resolver := (s.resolver.resolve fromPublicBytes s.keys.jwks kid).2 }

/-- Some moves, one after the other. -/
def run (s : Rotation fromPublicBytes) (moves : List (Move fromPublicBytes)) : Rotation fromPublicBytes :=
  moves.foldl step s

/-- The move makes the resolver fetch. -/
def Refetches (s : Rotation fromPublicBytes) : Move fromPublicBytes → Prop
  | .lookup kid => s.resolver.cache.get? kid = none
  | _ => False

/-- What a lookup would answer. -/
def answer (s : Rotation fromPublicBytes) (kid : String) : Except PyError PublicKey :=
  (s.resolver.resolve fromPublicBytes s.keys.jwks kid).1

/-- The resolver knows the keys that are published, and no others; the events of others are refused. -/
structure Agrees (s : Rotation fromPublicBytes) : Prop where
  published : ∀ kid key, s.keys.keys.get? kid = some key → s.answer kid = .ok key.publicKey
  retired : ∀ kid, s.keys.keys.get? kid = none → s.answer kid = .error (.keyError kid)
  refused : ∀ (cfg : ReceiverConfig) (r : Receiver) (d : Delivery) (now : Time)
    (onEvent : Option (Except PyError (Option DeliveryResult))) (res : DeliveryResult),
    s.keys.keys.get? d.keyId = none → (r.accept cfg s.answer d now onEvent).1 = .ok res → res.ack = false

/-- Every key in the cache is published, be it in another version. -/
def Fresh (s : Rotation fromPublicBytes) : Prop :=
  ∀ kid key, s.resolver.cache.get? kid = some key → ∃ current, s.keys.keys.get? kid = some current

/-- The events of keys that cannot be resolved are refused. -/
theorem accept_unknown {cfg : ReceiverConfig} {r : Receiver} {resolveKey : String → Except PyError PublicKey}
    {d : Delivery} {now : Time} {onEvent : Option (Except PyError (Option DeliveryResult))} {res : DeliveryResult}
    {kid : String} (hkey : resolveKey d.keyId = .error (.keyError kid))
    (h : (r.accept cfg resolveKey d now onEvent).1 = .ok res) : res.ack = false := by
  simp only [Receiver.accept] at h
  split at h
  · cases h
  · rename_i result hbegin
    cases h
    exact nack_of_beginAccept hbegin
  · rw [hkey] at h
    cases h
    rfl

/-- Right after a fetch, the resolver answers with what is published, or else with what it had. -/
theorem answer_refetched {s : Rotation fromPublicBytes} {kid' : String} (h : s.resolver.cache.get? kid' = none)
    (kid : String) :
    (s.step (.lookup kid')).answer kid =
      match s.keys.keys.get? kid with
      | some key => .ok key.publicKey
      | none =>
        match s.resolver.cache.get? kid with
        | some key => .ok key
        | none => .error (.keyError kid) := by
  have hcache : (s.step (.lookup kid')).resolver.cache.get? kid =
      match s.keys.keys.get? kid with
      | some key => some key.publicKey
      | none => s.resolver.cache.get? kid := by
    show (s.resolver.resolve fromPublicBytes s.keys.jwks kid').2.cache.get? kid = _
    rw [JwksKeyResolver.resolve_miss _ _ h]
    exact JwksKeyResolver.get?_refresh s.resolver s.keys kid
  show (JwksKeyResolver.resolve fromPublicBytes (s.step (.lookup kid')).resolver s.keys.jwks kid).1 = _
  rw [JwksKeyResolver.resolve_eq, hcache]
  cases hkey : s.keys.keys.get? kid with
  | some key => rfl
  | none => cases s.resolver.cache.get? kid <;> rfl

theorem agrees_iff_fresh {s : Rotation fromPublicBytes} {move : Move fromPublicBytes} (h : s.Refetches move) :
    (s.step move).Agrees ↔ s.Fresh := by
  cases move with
  | lookup kid' =>
    constructor
    · intro hagrees kid key hcached
      cases hkey : s.keys.keys.get? kid with
      | some current => exact ⟨current, rfl⟩
      | none =>
        -- a key that was only cached is still answered
        have hanswer := hagrees.retired kid hkey
        rw [answer_refetched h, hkey, hcached] at hanswer
        cases hanswer
    · intro hfresh
      have hretired : ∀ kid, s.keys.keys.get? kid = none →
          (s.step (.lookup kid')).answer kid = .error (.keyError kid) := by
        intro kid hkey
        rw [answer_refetched h, hkey]
        cases hcached : s.resolver.cache.get? kid with
        | none => rfl
        | some key =>
          obtain ⟨current, hcurrent⟩ := hfresh kid key hcached
          rw [hkey] at hcurrent
          cases hcurrent
      constructor
      · intro kid key hkey
        have hkey' : s.keys.keys.get? kid = some key := hkey
        rw [answer_refetched h, hkey']
      · exact hretired
      · intro cfg r d now onEvent res hkey haccept
        exact accept_unknown (hretired d.keyId hkey) haccept
  | _ => cases h

/-- After each of its fetches the resolver agrees with the keys that were served, exactly if all keys
    that it had before were still among them. -/
theorem agrees_after_refetches_iff (active : KeyPair fromPublicBytes) (alsoPublished : List (KeyPair fromPublicBytes))
    (moves : List (Move fromPublicBytes)) :
    let start : Rotation fromPublicBytes := { keys := .make active alsoPublished }
    (∀ before move after, moves = before ++ move :: after → (start.run before).Refetches move →
      (start.run (before ++ [move])).Agrees) ↔
    ∀ before move after, moves = before ++ move :: after → (start.run before).Refetches move →
      (start.run before).Fresh := by
  intro start
  have hsnoc : ∀ before move, start.run (before ++ [move]) = (start.run before).step move := by
    intro before move
    simp [run]
  constructor
  · intro h before move after hmoves hfetch
    rw [← agrees_iff_fresh hfetch, ← hsnoc]
    exact h before move after hmoves hfetch
  · intro h before move after hmoves hfetch
    rw [hsnoc, agrees_iff_fresh hfetch]
    exact h before move after hmoves hfetch

/-- Keys of thirty-two bytes whose signatures are the key itself. -/
def echoKeys : FromPublicBytes := fun raw =>
  if raw.length = 32 then .ok { verifyRaw := fun signature _ => signature = raw }
  else .error (.valueError "An Ed25519 public key is 32 bytes long")

def echoKey (kid : String) (byte : UInt8) : KeyPair echoKeys where
  kid := kid
  signRaw := fun _ => List.replicate 32 byte
  publicKey := { verifyRaw := fun signature _ => signature = List.replicate 32 byte }
  publicRaw := List.replicate 32 byte
  decodes := rfl

/-- A key that was resolved before its retirement is answered after the next fetch, too. -/
theorem retired_key_answered :
    let start : Rotation echoKeys := { keys := .make (echoKey "k1" 1) [] }
    let before := [.lookup "k1", .add (echoKey "k2" 2) true, .retire "k1"]
    (start.run before).Refetches (.lookup "k2") ∧ ¬(start.run (before ++ [.lookup "k2"])).Agrees := by
  intro start before
  constructor
  · show (start.run before).resolver.cache.get? "k2" = none
    rfl
  · intro h
    have hanswer := h.retired "k1" rfl
    have hkept : ∃ key, (start.run (before ++ [.lookup "k2"])).answer "k1" = .ok key := ⟨_, rfl⟩
    obtain ⟨key, hkey⟩ := hkept
    rw [hanswer] at hkey
    cases hkey

end Rotation

end A2AEvents

import A2AEvents.ForStd.Dict
import A2AEvents.Native.Signing

/-!
# Key rotation

`SigningKeySet` of `signing.py` and `JwksKeyResolver` of `server.py`: the keys that a publisher
serves, and a subscriber's cache of them, which is filled when a key is missing from it.

The Ed25519 library is a parameter, `fromPublicBytes`. The response to a fetch is the list of keys
that is served at that moment.
-/

namespace A2AEvents

/-- `Ed25519PublicKey.from_public_bytes`. -/
abbrev FromPublicBytes := Bytes → Except PyError PublicKey

/-- A signing key with its public half, which the library reads back from its raw bytes. -/
structure KeyPair (fromPublicBytes : FromPublicBytes) extends SigningKey where
  publicKey : PublicKey
  publicRaw : Bytes
  decodes : fromPublicBytes publicRaw = .ok publicKey

/-- A JSON web key. -/
structure Jwk where
  kty : String
  crv : String
  kid : String
  alg : String
  x : String

variable {fromPublicBytes : FromPublicBytes}

def KeyPair.toJwk (key : KeyPair fromPublicBytes) : Jwk where
  kty := "OKP"
  crv := "Ed25519"
  kid := key.kid
  alg := "EdDSA"
  x := b64url key.publicRaw

def publicKeyFromJwk (fromPublicBytes : FromPublicBytes) (jwk : Jwk) : Except PyError PublicKey :=
  (b64urlDecode jwk.x).bind fromPublicBytes

/-! ## The publisher's keys -/

/-- `SigningKeySet`: keys are filed under their own kids, and the active one is among them. -/
structure SigningKeySet (fromPublicBytes : FromPublicBytes) where
  keys : Dict String (KeyPair fromPublicBytes)
  activeKid : String
  kids : ∀ kid key, keys.get? kid = some key → key.kid = kid
  active_mem : ∃ key, keys.get? activeKid = some key

namespace SigningKeySet

/-- `_keys[key.kid] = key`. -/
def file (keys : Dict String (KeyPair fromPublicBytes)) (key : KeyPair fromPublicBytes) :
    Dict String (KeyPair fromPublicBytes) := keys.set key.kid key

theorem kids_file {keys : Dict String (KeyPair fromPublicBytes)} {new : KeyPair fromPublicBytes}
    (h : ∀ kid key, keys.get? kid = some key → key.kid = kid) :
    ∀ kid key, (file keys new).get? kid = some key → key.kid = kid := by
  intro kid key hget
  rw [file, Dict.get?_set] at hget
  split at hget
  · rename_i hkid
    rw [← Option.some.inj hget]
    exact hkid.symm
  · exact h kid key hget

theorem mem_file {keys : Dict String (KeyPair fromPublicBytes)} {kid : String} (new : KeyPair fromPublicBytes)
    (h : ∃ key, keys.get? kid = some key) : ∃ key, (file keys new).get? kid = some key := by
  rw [file, Dict.get?_set]
  split
  · exact ⟨new, rfl⟩
  · exact h

/-- A set with one key, which is active. -/
def single (active : KeyPair fromPublicBytes) : SigningKeySet fromPublicBytes where
  keys := file ∅ active
  activeKid := active.kid
  kids := kids_file fun _ _ h => (by cases h)
  active_mem := by
    rw [file, Dict.get?_set, if_pos rfl]
    exact ⟨active, rfl⟩

def add (set : SigningKeySet fromPublicBytes) (key : KeyPair fromPublicBytes) (activate : Bool) :
    SigningKeySet fromPublicBytes where
  keys := file set.keys key
  activeKid := if activate then key.kid else set.activeKid
  kids := kids_file set.kids
  active_mem := by
    split
    · rw [file, Dict.get?_set, if_pos rfl]
      exact ⟨key, rfl⟩
    · exact mem_file key set.active_mem

/-- The constructor: an active key, and further keys that are published with it. -/
def make (active : KeyPair fromPublicBytes) (alsoPublished : List (KeyPair fromPublicBytes)) :
    SigningKeySet fromPublicBytes :=
  alsoPublished.foldl (fun set key => set.add key false) (single active)

def activate (set : SigningKeySet fromPublicBytes) (kid : String) : Except PyError (SigningKeySet fromPublicBytes) :=
  match h : set.keys.get? kid with
  | none => .error (.keyError ("Key " ++ kid ++ " is not in the set; add() it before activating."))
  | some key => .ok { set with activeKid := kid, active_mem := ⟨key, h⟩ }

def retire (set : SigningKeySet fromPublicBytes) (kid : String) : Except PyError (SigningKeySet fromPublicBytes) :=
  if h : kid = set.activeKid then .error (.valueError "Cannot retire the active signing key.")
  else
    .ok { keys := set.keys.erase kid
          activeKid := set.activeKid
          kids := by
            intro kid' key hget
            rw [Dict.get?_erase] at hget
            split at hget
            · cases hget
            · exact set.kids kid' key hget
          active_mem := by
            rw [Dict.get?_erase, if_neg (Ne.symm h)]
            exact set.active_mem }

/-- The keys that the discovery endpoint serves. -/
def jwks (set : SigningKeySet fromPublicBytes) : List Jwk := set.keys.values.map KeyPair.toJwk

end SigningKeySet

/-! ## The subscriber's cache -/

structure JwksKeyResolver where
  cache : Dict String PublicKey := ∅

namespace JwksKeyResolver

/-- Put fetched keys into the cache, up to the first that cannot be read. -/
def fill (fromPublicBytes : FromPublicBytes) (cache : Dict String PublicKey) :
    List Jwk → Except PyError Unit × Dict String PublicKey
  | [] => (.ok (), cache)
  | jwk :: rest =>
    if jwk.kty = "OKP" ∧ jwk.crv = "Ed25519" then
      match publicKeyFromJwk fromPublicBytes jwk with
      | .error e => (.error e, cache)
      | .ok key => fill fromPublicBytes (cache.set jwk.kid key) rest
    else fill fromPublicBytes cache rest

/-- `_refresh`, where `served` is the response. -/
def refresh (fromPublicBytes : FromPublicBytes) (resolver : JwksKeyResolver) (served : List Jwk) :
    Except PyError Unit × JwksKeyResolver :=
  let r := fill fromPublicBytes resolver.cache served
  (r.1, { cache := r.2 })

/-- `self._cache[key_id]`. -/
def lookup (resolver : JwksKeyResolver) (keyId : String) : Except PyError PublicKey :=
  match resolver.cache.get? keyId with
  | some key => .ok key
  | none => .error (.keyError keyId)

/-- Resolve a key; `served` is what a fetch would find. -/
def resolve (fromPublicBytes : FromPublicBytes) (resolver : JwksKeyResolver) (served : List Jwk) (keyId : String) :
    Except PyError PublicKey × JwksKeyResolver :=
  if (resolver.cache.get? keyId).isSome then (resolver.lookup keyId, resolver)
  else
    match resolver.refresh fromPublicBytes served with
    | (.error e, resolver) => (.error e, resolver)
    | (.ok (), resolver) => (resolver.lookup keyId, resolver)

end JwksKeyResolver

end A2AEvents

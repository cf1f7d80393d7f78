import A2AEvents.Native.Ssrf
import A2AEvents.Spec.FieldsCorrect

/-!
# Host names with a trailing dot

`h` and `h.` are one host to a client that connects to it. To the guard they are two: no text with a
trailing dot is a loopback name or an address, so that it accepts `h.` whatever `h` is.

## Key results

- `parse_trailing_dot`: IPv4 addresses do not end in a dot
- `checkHost_isOk_iff`: what the guard refuses
- `checkEndpoint_trailing_dot_iff`: when both spellings are treated alike
-/

namespace A2AEvents

/-! ## Texts with a trailing dot -/

/-- A trailing separator leaves an empty segment. -/
theorem splitOn_append_sep (sep : Char) (text : List Char) : splitOn sep (text ++ [sep]) = splitOn sep text ++ [[]] := by
  induction text with
  | nil => simp [splitOn]
  | cons c rest ih =>
    rw [List.cons_append, splitOn, splitOn, ih]
    split
    · rfl
    · cases hrest : splitOn sep rest with
      | nil => exact absurd hrest (splitOn_ne_nil sep rest)
      | cons seg segs => rfl

/-- No IPv4 address ends in a dot: its last octet would be empty. -/
theorem parse_trailing_dot (text : List Char) : IPv4.parse (text ++ ['.']) = none := by
  have hempty : IPv4.parseOctet [] = none := by decide
  rw [IPv4.parse]
  split
  · rfl
  · rw [splitOn_append_sep, List.map_append]
    split
    · -- four octets, the last of them the empty one
      rename_i heq
      have hlast := congrArg List.getLast? heq
      simp [hempty] at hlast
    · rfl

theorem endsWith_trailing_dot (ending host : String) (h : ending.toList.getLast? ≠ some '.') (hne : ending ≠ "") :
    endsWith ending (host ++ ".") = false := by
  rw [Bool.eq_false_iff]
  intro hsuffix
  rw [endsWith, List.isSuffixOf_iff_suffix] at hsuffix
  obtain ⟨front, hfront⟩ := hsuffix
  have hlast := congrArg List.getLast? hfront
  rw [String.toList_append] at hlast
  have hnil : ending.toList ≠ [] := by simpa using hne
  rw [List.getLast?_append_of_ne_nil _ hnil] at hlast
  apply h
  rw [hlast]
  simp

/-! ## What the guard refuses -/

/-- The policy refuses the classes that an address is in. -/
def SSRFPolicy.Refuses (policy : SSRFPolicy) (ip : IpAddress) : Prop :=
  policy.blockLoopback = true ∧ ip.isLoopback = true ∨ policy.blockLinkLocal = true ∧ ip.isLinkLocal = true ∨
  policy.blockPrivate = true ∧ ip.isPrivate = true ∨
  policy.blockReserved = true ∧ (ip.isReserved = true ∨ ip.isUnspecified = true ∨ ip.isMulticast = true)

/-- The policy refuses a host by its name, or by the address that it spells. -/
def SSRFPolicy.RefusesHost (policy : SSRFPolicy) (lib : UrlLib) (host : String) : Prop :=
  policy.blockLoopback = true ∧ (host = "localhost" ∨ endsWith ".localhost" host = true) ∨
  ∃ ip, lib.ipAddress host = some ip ∧ policy.Refuses ip

theorem screenIp_isOk_iff (url : String) (ip : IpAddress) (policy : SSRFPolicy) :
    (screenIp url ip policy).isOk = true ↔ ¬policy.Refuses ip := by
  have hrejected : ∀ reason, (rejectEndpoint url reason).isOk ≠ true := fun _ h => by cases h
  simp only [screenIp, SSRFPolicy.Refuses, Bool.and_eq_true, Bool.or_eq_true]
  -- each class is asked for where the ones before it have passed
  split
  · rename_i h
    exact iff_of_false (hrejected _) (not_not_intro (.inl h))
  split
  · rename_i h
    exact iff_of_false (hrejected _) (not_not_intro (.inr (.inl h)))
  split
  · rename_i h
    exact iff_of_false (hrejected _) (not_not_intro (.inr (.inr (.inl h))))
  split
  · rename_i h
    exact iff_of_false (hrejected _) (not_not_intro (.inr (.inr (.inr ⟨h.1, or_assoc.mp h.2⟩))))
  · rename_i h1 h2 h3 h4
    rw [or_assoc] at h4
    exact iff_of_true rfl (by simp only [h1, h2, h3, h4, or_self, not_false_iff])

/-- Without a resolver, a host passes unless its name or its address is refused. -/
theorem checkHost_isOk_iff (lib : UrlLib) (url host : String) {policy : SSRFPolicy} (hresolve : policy.resolve = none) :
    (checkHost lib url host policy).isOk = true ↔ ¬policy.RefusesHost lib host := by
  have hrejected : ∀ reason, (rejectEndpoint url reason).isOk = false := fun _ => rfl
  simp only [checkHost, SSRFPolicy.RefusesHost, hresolve]
  have hname : (host ∈ loopbackHostnames) = (host = "localhost") := by simp [loopbackHostnames]
  split
  · rename_i h
    simp only [hname, Bool.and_eq_true, Bool.or_eq_true, decide_eq_true_eq] at h
    simp [hrejected, h]
  · rename_i h
    simp only [hname, Bool.and_eq_true, Bool.or_eq_true, decide_eq_true_eq] at h
    split
    · rename_i ip hip
      rw [screenIp_isOk_iff]
      simp only [h, hip, false_or, Option.some.injEq]
      constructor
      · rintro hpass ⟨ip', rfl, hrefused⟩
        exact hpass hrefused
      · intro hpass hrefused
        exact hpass ⟨ip, rfl, hrefused⟩
    · rename_i hip
      simp only [h, hip, false_or]
      simp [Except.isOk, Except.toBool]

/-- A host with a trailing dot passes, whatever it is. -/
theorem checkHost_trailing_dot {lib : UrlLib} (hipv6 : ∀ text, lib.parseIPv6 (text ++ ".") = none) (url host : String)
    {policy : SSRFPolicy} (hresolve : policy.resolve = none) : (checkHost lib url (host ++ ".") policy).isOk = true := by
  rw [checkHost_isOk_iff lib url _ hresolve]
  rintro (⟨-, heq | hends⟩ | ⟨ip, hip, -⟩)
  · -- `localhost` does not end in a dot
    have hlast := congrArg (fun t : String => t.toList.getLast?) heq
    simp at hlast
  · rw [endsWith_trailing_dot ".localhost" host (by decide) (by decide)] at hends
    cases hends
  · have hipv4 : IPv4.parse (host ++ ".").toList = none := by
      rw [String.toList_append]
      exact parse_trailing_dot host.toList
    rw [UrlLib.ipAddress, hipv4, hipv6] at hip
    cases hip

/-! ## URLs -/

/-- The host of a URL is asked for after its scheme. -/
theorem checkEndpoint_eq {lib : UrlLib} {url scheme host : String} {port : Except PyError (Option Nat)}
    {policy : SSRFPolicy} (hurl : lib.urlsplit url = .ok { scheme, hostname := some host, port })
    (hscheme : lib.lower scheme ∈ ["http", "https"]) (hhost : host ≠ "") (hlower : lib.lower host = host)
    (hallow : host ∉ policy.allowHosts) :
    checkEndpoint lib url policy =
      if policy.requireHttps && lib.lower scheme != "https" then rejectEndpoint url "https required"
      else checkHost lib url host policy := by
  simp only [checkEndpoint, hurl, bind, Except.bind, hscheme, not_true, if_false]
  split
  · rfl
  · rw [hlower, if_neg hallow]

/-- The guard treats `h` and `h.` alike exactly if it refuses both for their scheme, or has nothing
    against `h`. -/
theorem checkEndpoint_trailing_dot_iff (lib : UrlLib) (policy : SSRFPolicy) (url dotted scheme host : String)
    (port : Except PyError (Option Nat)) (hipv6 : ∀ text, lib.parseIPv6 (text ++ ".") = none)
    (hresolve : policy.resolve = none) (hscheme : lib.lower scheme ∈ ["http", "https"]) (hhost : host ≠ "")
    (hurl : lib.urlsplit url = .ok { scheme, hostname := some host, port })
    (hdotted : lib.urlsplit dotted = .ok { scheme, hostname := some (host ++ "."), port })
    (hlower : lib.lower host = host) (hlowerDotted : lib.lower (host ++ ".") = host ++ ".")
    (hallow : host ∉ policy.allowHosts) (hallowDotted : host ++ "." ∉ policy.allowHosts) :
    (checkEndpoint lib url policy).isOk = (checkEndpoint lib dotted policy).isOk ↔
      (policy.requireHttps = true ∧ lib.lower scheme ≠ "https") ∨ ¬policy.RefusesHost lib host := by
  have hne : host ++ "." ≠ "" := by simp
  rw [checkEndpoint_eq hurl hscheme hhost hlower hallow, checkEndpoint_eq hdotted hscheme hne hlowerDotted hallowDotted]
  split
  · rename_i h
    rw [Bool.and_eq_true, bne_iff_ne] at h
    exact iff_of_true rfl (.inl h)
  · rename_i h
    rw [Bool.and_eq_true, bne_iff_ne] at h
    rw [checkHost_trailing_dot hipv6 dotted host hresolve, checkHost_isOk_iff lib url host hresolve]
    simp only [ne_eq] at h
    simp only [ne_eq, h, false_or]

/-- URLs of the plain form `scheme://host/path`, with hosts that are no IPv6 addresses. -/
def plainUrls : UrlLib where
  urlsplit url :=
    let scheme := url.toList.takeWhile (· ≠ ':')
    let host := (url.toList.drop (scheme.length + 3)).takeWhile (· ≠ '/')
    .ok { scheme := String.ofList scheme, hostname := some (String.ofList (host.map Char.toLower)) }
  lower text := String.ofList (text.toList.map Char.toLower)
  parseIPv6 _ := none

/-- The metadata address of a cloud host, with and without the dot. -/
theorem metadata_address_trailing_dot :
    (checkEndpoint plainUrls "http://169.254.169.254/receive" {}).isOk =
      (checkEndpoint plainUrls "http://169.254.169.254./receive" {}).isOk ↔
    (({} : SSRFPolicy).requireHttps = true ∧ plainUrls.lower "http" ≠ "https") ∨
      ¬({} : SSRFPolicy).RefusesHost plainUrls "169.254.169.254" :=
  checkEndpoint_trailing_dot_iff plainUrls {} "http://169.254.169.254/receive" "http://169.254.169.254./receive" "http"
    "169.254.169.254" (.ok none) (fun _ => rfl) rfl (by decide) (by decide) rfl rfl rfl rfl (by decide) (by decide)

/-- The default policy refuses `localhost` and accepts `localhost.`. -/
theorem localhost_trailing_dot_passes :
    (checkEndpoint plainUrls "http://localhost/receive" {}).isOk = false ∧
      (checkEndpoint plainUrls "http://LOCALHOST./receive" {}).isOk = true := by
  decide

end A2AEvents

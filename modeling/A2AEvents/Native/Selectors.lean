import A2AEvents.Native.Models

/-!
# Selector matching

`selectors.py`: paths are resolved against the event, a field filter is a
conjunction over fields of an any-of over values, a keyword search looks for
substrings of the collected texts. A path that ends at an object, or at an array
with a member that is no scalar, is an error at matching time.

`str.lower` is taken as a map on characters, `lower`.
-/

namespace A2AEvents

/-- `text.split(sep)` for a one-character separator. -/
def splitOn (sep : Char) : List Char → List (List Char)
  | [] => [[]]
  | c :: rest =>
    if c = sep then [] :: splitOn sep rest
    else
      match splitOn sep rest with
      | [] => [[c]]
      | seg :: segs => (c :: seg) :: segs

/-- Whether a value has one of the scalar types. -/
def Json.isScalar : Json → Bool
  | .null | .bool _ | .int _ | .float _ | .str _ => true
  | .arr _ | .obj _ | .other _ => false

/-- Follow the segments of a path; `none` is the sentinel for an absent field. -/
def descend (current : Json) : List (List Char) → Option Json
  | [] => some current
  | segment :: rest =>
    match current with
    | .obj members =>
      match Json.member? (String.ofList segment) members with
      | some v => descend v rest
      | none => none
    | _ => none

/-- Resolve a dotted path against an event. -/
def resolvePath (root : Json) (path : String) : Except PyError (Option Json) :=
  match descend root (splitOn '.' path.toList) with
  | none => .ok none
  | some (.obj _) =>
    raiseA2A .invalidSelector ("field path " ++ repr path ++ " resolves to an object")
      [("field", .str path)]
  | some (.arr xs) =>
    if xs.all Json.isScalar then .ok (some (.arr xs))
    else
      raiseA2A .invalidSelector ("field path " ++ repr path ++ " resolves to a non-scalar array")
        [("field", .str path)]
  | some v => .ok (some v)

/-- Exact, type-sensitive equality of a scalar with a declared value. -/
def typedEq : Json → Json → Bool
  | .null, .null => true
  | .bool a, .bool b => a = b
  | .int a, .int b => a = b
  | .int a, .float b => b.toInt? = some a
  | .float a, .int b => a.toInt? = some b
  | .float a, .float b => a.eq b
  | .str a, .str b => a = b
  | _, _ => false

/-- One field of a filter: membership for a scalar, intersection for an array. -/
def fieldMatches (eventValue : Option Json) (declared : List Json) : Bool :=
  match eventValue with
  | none => false
  | some (.arr xs) => xs.any fun ev => declared.any fun dv => typedEq ev dv
  | some v => declared.any fun dv => typedEq v dv

/-- Conjunction over the fields, stopping at the first that does not match. -/
def matchFields (event : Json) : List (String × List Json) → Except PyError Bool
  | [] => .ok true
  | (path, values) :: rest =>
    match resolvePath event path with
    | .error e => .error e
    | .ok v => if fieldMatches v values then matchFields event rest else .ok false

def matchFieldFilter (where_ : Dict String (List Json)) (event : Json) : Except PyError Bool :=
  matchFields event where_.entries

/-- The texts found at the searched fields. -/
def collectText (event : Json) : List String → Except PyError (List String)
  | [] => .ok []
  | path :: rest =>
    match resolvePath event path with
    | .error e => .error e
    | .ok v =>
      let here := match v with
        | some (.str s) => [s]
        | some (.arr xs) => xs.filterMap fun x => match x with
          | .str s => some s
          | _ => none
        | _ => []
      match collectText event rest with
      | .error e => .error e
      | .ok texts => .ok (here ++ texts)

/-- `needle in haystack`. -/
def isSubstring (needle haystack : List Char) : Bool :=
  match haystack with
  | [] => needle = []
  | _ :: rest => needle.isPrefixOf haystack || isSubstring needle rest

/-- `sep.join(texts)`. -/
def joinTexts (sep : List Char) : List (List Char) → List Char
  | [] => []
  | [t] => t
  | t :: rest => t ++ sep ++ joinTexts sep rest

def matchKeywordSearch (lower : Char → Char) (keywords : List String) (mode : KeywordMatch)
    (fields : Option (List String)) (event : Json) (defaultFields : List String) :
    Except PyError Bool :=
  match collectText event (fields.getD defaultFields) with
  | .error e => .error e
  | .ok texts =>
    let haystack := (joinTexts [' ', '\n', ' '] (texts.map String.toList)).map lower
    let hit := fun (kw : String) => isSubstring (kw.toList.map lower) haystack
    .ok (match mode with
      | .all => keywords.all hit
      | .any => keywords.any hit)

/-- Whether an event matches a selector; no selector matches everything. -/
def selectorMatches (lower : Char → Char) (selector : Option Selector) (event : Json)
    (defaultSearchFields : Option (List String)) : Except PyError Bool :=
  match selector with
  | none => .ok true
  | some (.fieldFilter where_) => matchFieldFilter where_ event
  | some (.keywordSearch keywords mode fields) =>
    matchKeywordSearch lower keywords mode fields event (defaultSearchFields.getD [])

/-- The fields of a filter have to be among the declared ones. -/
def checkFilterable (topic : Topic) (allowed : List String) : List String → Except PyError Unit
  | [] => .ok ()
  | field :: rest =>
    if field ∉ allowed then
      raiseA2A .selectorNotSupported
        ("field " ++ repr field ++ " is not filterable on topic " ++ repr topic.name)
        [("topic", .str topic.name), ("field", .str field)]
    else checkFilterable topic allowed rest

/-- Validate a selector against the declared capabilities of a topic. -/
def validateSelector (selector : Option Selector) (topic : Topic) : Except PyError Unit :=
  match selector with
  | none => .ok ()
  | some sel =>
    if sel.type ∉ topic.selectorTypes then
      raiseA2A .selectorNotSupported
        ("selector type " ++ repr sel.type ++ " not supported by topic " ++ repr topic.name)
        [("topic", .str topic.name), ("selectorType", .str sel.type)]
    else
      match sel with
      | .fieldFilter where_ =>
        if where_.entries.isEmpty then
          raiseA2A .invalidSelector "field_filter.where is empty"
        else
          match topic.filterableFields with
          | none => .ok ()
          | some allowed => checkFilterable topic allowed where_.keys
      | .keywordSearch keywords .. =>
        if keywords.isEmpty then raiseA2A .invalidSelector "keyword_search.keywords is empty"
        else .ok ()

end A2AEvents

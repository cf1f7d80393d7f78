import A2AEvents.Native.Selectors

/-!
# Values of any type

What Python does with a value that is not known to be a text, a list or a dict: conditions, keys,
`==`, the methods of a dict, and loops.
-/

namespace A2AEvents

/-- Whether a value is true in a condition. -/
def Json.truthy : Json → Bool
  | .null => false
  | .bool b => b
  | .int i => i ≠ 0
  | .float (.zero _) => false
  | .float _ => true
  | .str s => s ≠ ""
  | .arr xs => !xs.isEmpty
  | .obj members => !members.isEmpty
  | .other _ => true

/-- The exception of a container that is used as a key. -/
def Json.hash : Json → Except PyError Unit
  | .arr _ => .error (.typeError "unhashable type: list")
  | .obj _ => .error (.typeError "unhashable type: dict")
  | _ => .ok ()

/-- A truth value is the number zero or one. -/
def Json.unbool : Json → Json
  | .bool b => .int (if b then 1 else 0)
  | v => v

/-- `==` on scalars. -/
def Json.pyEq (a b : Json) : Bool := typedEq a.unbool b.unbool

/-- `value.get(key)`; only a dict has that method. -/
def Json.getKey (value : Json) (key : String) : Except PyError Json :=
  match value with
  | .obj members => .ok ((Json.member? key members).getD .null)
  | _ => .error (.other "AttributeError")

/-- The text of a value, if it is one. -/
def Json.text? : Json → Option String
  | .str s => some s
  | _ => none

/-- `value.get(key, default)`; only a dict has that method. -/
def Json.getKeyD (value : Json) (key : String) (default : Json) : Except PyError Json :=
  match value with
  | .obj members => .ok ((Json.member? key members).getD default)
  | _ => .error (.other "AttributeError")

/-- `value or other`. -/
def Json.orElse (value other : Json) : Json := if value.truthy then value else other

/-- The items of a `for` loop: those of a list, the characters of a text, the keys of a dict. -/
def Json.iterate : Json → Except PyError (List Json)
  | .arr xs => .ok xs
  | .str s => .ok (s.toList.map fun c => .str (String.ofList [c]))
  | .obj members => .ok (members.map fun m => .str m.1)
  | _ => .error (.typeError "object is not iterable")

/-- A `for` loop that `f` ends early. -/
def Json.search {α : Type} (value : Json) (f : Json → Except PyError (Option α)) : Except PyError (Option α) := do
  let xs ← value.iterate
  xs.findSomeM? f

end A2AEvents

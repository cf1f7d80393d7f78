import Mathlib.Algebra.Order.Ring.Int
import Mathlib.Data.String.Basic

/-!
# Python values of event data

Event payloads, selector operands and error details are JSON-like Python values.
`Json` has one constructor for each type the code tells apart; `other` stands for
a value of any further Python type, which can be put into a payload but has no
JSON encoding.

A finite float is kept by its shortest round-trip decimal digits, the form that
`repr` prints and from which the canonical encoding is laid out; two floats are
the same float exactly when these digits agree.
-/

namespace A2AEvents

/-- The shortest decimal form `± digits · 10 ^ exponent` of a non-zero finite float.
    The digits have no trailing zero (nor, being a number, a leading one). -/
structure Decimal where
  negative : Bool
  digits : Nat
  exponent : Int
  trailing : digits % 10 ≠ 0
  deriving DecidableEq

/-- A Python float. -/
inductive PyFloat where
  | nan
  | inf (negative : Bool)
  | zero (negative : Bool)
  | finite (d : Decimal)
  deriving DecidableEq

/-- A Python value as it occurs in a payload. The members of an object are listed
    in insertion order and have distinct keys. -/
inductive Json where
  | null
  | bool (b : Bool)
  | int (i : Int)
  | float (f : PyFloat)
  | str (s : String)
  | arr (xs : List Json)
  | obj (members : List (String × Json))
  | other (typeName : String)

/-- An integer rounded to 53 significant bits, ties to even: the value of the double
    nearest to it. -/
def roundToDouble (n : Nat) : Nat :=
  if n < 2 ^ 53 then n
  else
    let unit := 2 ^ (n.log2 - 52)
    let q := n / unit
    let r := n % unit
    if 2 * r > unit ∨ (2 * r = unit ∧ q % 2 = 1) then (q + 1) * unit else q * unit

/-- The integer a float is equal to, if there is one. A decimal with a negative
    exponent and no trailing zero is not a whole number. -/
def PyFloat.toInt? : PyFloat → Option Int
  | .zero _ => some 0
  | .finite d =>
    if d.exponent < 0 then none
    else
      let n := roundToDouble (d.digits * 10 ^ d.exponent.toNat)
      some (if d.negative then -(n : Int) else n)
  | _ => none

/-- `==` on floats: `nan` equals nothing and the zeros are equal. -/
def PyFloat.eq : PyFloat → PyFloat → Bool
  | .nan, _ => false
  | .zero _, .zero _ => true
  | a, b => a = b

/-- `dict.get` on the members of an object. -/
def Json.member? (key : String) : List (String × Json) → Option Json
  | [] => none
  | (k, v) :: rest => if k = key then some v else member? key rest

/-- The value is an object. -/
def Json.IsObj (value : Json) : Prop := ∃ members, value = .obj members

/-- A JSON text can spell the value: there is nothing of a further type in it. -/
inductive Json.IsJson : Json → Prop where
  | null : IsJson .null
  | bool (b : Bool) : IsJson (.bool b)
  | int (i : Int) : IsJson (.int i)
  | float (f : PyFloat) : IsJson (.float f)
  | str (s : String) : IsJson (.str s)
  | arr {xs : List Json} (h : ∀ x ∈ xs, IsJson x) : IsJson (.arr xs)
  | obj {members : List (String × Json)} (h : ∀ m ∈ members, IsJson m.2) : IsJson (.obj members)

attribute [simp] Json.IsJson.null Json.IsJson.bool Json.IsJson.int Json.IsJson.float Json.IsJson.str

@[simp] theorem Json.isJson_arr_iff (xs : List Json) : (Json.arr xs).IsJson ↔ ∀ x ∈ xs, x.IsJson := by
  constructor
  · intro h
    cases h with
    | arr hitems => exact hitems
  · exact Json.IsJson.arr

@[simp] theorem Json.isJson_obj_iff (members : List (String × Json)) :
    (Json.obj members).IsJson ↔ ∀ m ∈ members, m.2.IsJson := by
  constructor
  · intro h
    cases h with
    | obj hmembers => exact hmembers
  · exact Json.IsJson.obj

end A2AEvents

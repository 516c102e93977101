import Mathlib.Algebra.Group.Int.Defs
import Mathlib.Algebra.Group.Nat.Defs
import CortexOnnx.Lib.Prog

/-!
# JSON values

The part of `Json::Value` the engine and the server use: construction, `get`, `operator[]`,
`isNull`, iteration, and the checked accessors, which throw on a value they cannot convert.
-/

namespace CortexOnnx

namespace Json

def minInt : Int := -2 ^ 31

def maxInt : Int := 2 ^ 31 - 1

end Json

/-- A `double`, as the values its conversions give: `valueToString`, `static_cast<int>` (`none`
outside the range of `int`), and whether it is neither zero nor NaN. -/
structure Double where
  text : String
  truncated : Option Int
  nonzero : Bool
  inRange : ∀ i ∈ truncated, Json.minInt ≤ i ∧ i ≤ Json.maxInt
  deriving Repr, DecidableEq

/-- The argument of a conversion to `float`. -/
inductive Number where
  | int (i : Int)
  | real (d : Double)
  deriving Repr, DecidableEq

/-- `intValue` and `uintValue` are one constructor; an object lists its members in map order. -/
inductive Json where
  | null
  | bool (b : Bool)
  | int (i : Int)
  | real (d : Double)
  | str (s : String)
  | arr (elems : List Json)
  | obj (members : List (String × Json))
  deriving Repr, Inhabited

namespace Json

def isNull : Json → Bool
  | null => true
  | _ => false

def find (json : Json) (key : String) : Except String (Option Json) :=
  match json with
  | null => .ok none
  | obj members => .ok (members.lookup key)
  | _ => .error "in Json::Value::find(begin, end): requires objectValue or nullValue"

/-- `get(key, defaultValue)`: a member that is present and null is returned as null. -/
def get (json : Json) (key : String) (defaultValue : Json) : Except String Json := do
  match ← json.find key with
  -- only an absent member gives the default
  | some value => return value
  | none => return defaultValue

/-- `operator[](key) const`. -/
def index (json : Json) (key : String) : Except String Json := json.get key null

def asString : Json → Except String String
  | null => .ok ""
  | bool b => .ok (if b then "true" else "false")
  | int i => .ok (toString i)
  | real d => .ok d.text
  | str s => .ok s
  | arr _ | obj _ => .error "Type is not convertible to string"

def asInt : Json → Except String Int
  | null => .ok 0
  | bool b => .ok (if b then 1 else 0)
  -- out of range an integer throws
  | int i => if minInt ≤ i ∧ i ≤ maxInt then .ok i else .error "LargestInt out of Int range"
  | real d =>
      match d.truncated with
      | some i => .ok i
      | none => .error "double out of Int range"
  | str _ | arr _ | obj _ => .error "Value is not convertible to Int."

/-- What `asInt` gives is an `int`. -/
theorem asInt_inRange {json : Json} {i : Int} (h : json.asInt = .ok i) :
    minInt ≤ i ∧ i ≤ maxInt := by
  cases json with
  | null =>
    cases h
    decide
  | bool b =>
    cases h
    cases b <;> decide
  | int j =>
    rw [asInt] at h
    split at h
    · rename_i hrange
      cases h
      exact hrange
    · cases h
  | real d =>
    rw [asInt] at h
    split at h
    · rename_i j htruncated
      cases h
      exact d.inRange _ htruncated
    · cases h
  | str | arr | obj => cases h

def asBool : Json → Except String Bool
  | null => .ok false
  | bool b => .ok b
  | int i => .ok (i ≠ 0)
  | real d => .ok d.nonzero
  | str _ | arr _ | obj _ => .error "Value is not convertible to bool."

def asFloat : Json → Except String Number
  | null => .ok (.int 0)
  | bool b => .ok (.int (if b then 1 else 0))
  | int i => .ok (.int i)
  | real d => .ok (.real d)
  | str _ | arr _ | obj _ => .error "Value is not convertible to float."

/-- What a range-based `for` visits, and what `size()` counts. -/
def elements : Json → List Json
  | arr elems => elems
  | obj members => members.map Prod.snd
  | _ => []

end Json

end CortexOnnx

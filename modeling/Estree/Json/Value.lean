import Estree.Number.Literal

/-!
# JSON values

An object keeps its members in the order in which they were given, repeated keys included, because
the order decides which fault of a tree is reported. `Json.canonical` is the value without that
order: keys sorted by code point, the last of repeated keys kept, at every depth.
-/

namespace Estree

/-! ## §1. Values. -/

/-- A JSON value. Objects keep the order and the repetitions of their members. -/
inductive Json where
  | null
  | bool (b : Bool)
  | number (n : Number)
  | string (s : String)
  | array (items : List Json)
  | object (members : List (String × Json))

instance : Inhabited Json := ⟨.null⟩

namespace Json

mutual

/-- Equality of values, member by member in order; numbers are compared by `Number.same`. -/
def same : Json → Json → Bool
  | .null, .null => true
  | .bool a, .bool b => a == b
  | .number a, .number b => a.same b
  | .string a, .string b => a == b
  | .array xs, .array ys => sameItems xs ys
  | .object xs, .object ys => sameMembers xs ys
  | _, _ => false

/-- Equality of lists of values. -/
def sameItems : List Json → List Json → Bool
  | [], [] => true
  | x :: xs, y :: ys => same x y && sameItems xs ys
  | _, _ => false

/-- Equality of lists of members. -/
def sameMembers : List (String × Json) → List (String × Json) → Bool
  | [], [] => true
  | (k, x) :: xs, (l, y) :: ys => k == l && same x y && sameMembers xs ys
  | _, _ => false

end

/-! ## §2. Canonical form. -/

/-- Puts a member into a list sorted by key; a member with the same key is replaced. -/
def putMember (k : String) (v : Json) : List (String × Json) → List (String × Json)
  | [] => [(k, v)]
  | (l, w) :: rest =>
    if l < k then (l, w) :: putMember k v rest
    else if l = k then (k, v) :: rest
    else (k, v) :: (l, w) :: rest

mutual

/-- The value with the members of every object sorted by key, the last of repeated keys kept. -/
def canonical : Json → Json
  | .array items => .array (canonicalItems items)
  | .object members => .object (canonicalMembers [] members)
  | v => v

/-- Each item in canonical form. -/
def canonicalItems : List Json → List Json
  | [] => []
  | v :: rest => canonical v :: canonicalItems rest

/-- The members put one after the other into the sorted list `acc`. -/
def canonicalMembers (acc : List (String × Json)) : List (String × Json) → List (String × Json)
  | [] => acc
  | (k, v) :: rest => canonicalMembers (putMember k (canonical v) acc) rest

end

/-- The first member with the given key. -/
def member? (k : String) : Json → Option Json
  | .object members => members.lookup k
  | _ => none

end Json

end Estree

import Estree.Json.Value
import Estree.Json.Token

/-!
# Reading JSON values from tokens

Recursive descent over the tokens of a text. `fuel` bounds the number of steps and is never used up
when it is the number of tokens or more; `room` is how many more brackets may be opened inside one
another.

A run of members is read as far as it goes: `Members` holds the members read and how the run ended,
so that a reader who checks members as they come can tell what stood before a fault of the text.
-/

namespace Estree

namespace Json

/-! ## §1. Values. -/

/-- How a run of members ends. -/
inductive Ending where
  /-- With a closing brace, before the given tokens. -/
  | closed (rest : List Token)
  /-- At a fault: the key of the member that was being read and the first token of its value, as far
  as they were read. -/
  | broken (key : Option String) (head : Option Token)

/-- The members of an object as far as they could be read. -/
structure Members where
  read : List (String × Json)
  ending : Ending

namespace Members

/-- The members with one more in front. -/
def cons (k : String) (v : Json) (ms : Members) : Members :=
  { ms with read := (k, v) :: ms.read }

/-- No members before a fault. -/
def fault (key : Option String) (head : Option Token) : Members := ⟨[], .broken key head⟩

end Members

/-- The value of a token that is a whole value by itself. -/
def scalar? : Token → Option Json
  | .null => some .null
  | .bool b => some (.bool b)
  | .string s => some (.string s)
  | .numeral t => t.number?.map .number
  | _ => none

mutual

/-- Reads one value and gives the tokens after it. -/
def value? : (fuel room : Nat) → List Token → Option (Json × List Token)
  | 0, _, _ => none
  | _, _, [] => none
  | fuel + 1, room, t :: ts =>
    match t with
    | .openBracket =>
      match room, ts with
      | 0, _ => none
      | _ + 1, .closeBracket :: rest => some (.array [], rest)
      | room + 1, ts => (items? fuel room ts).map fun (items, rest) => (.array items, rest)
    | .openBrace =>
      match room with
      | 0 => none
      | room + 1 =>
        match braced fuel room ts with
        | ⟨read, .closed rest⟩ => some (.object read, rest)
        | ⟨_, .broken _ _⟩ => none
    | t => (scalar? t).map fun v => (v, ts)

/-- Reads one or more items up to the closing bracket. -/
def items? : (fuel room : Nat) → List Token → Option (List Json × List Token)
  | 0, _, _ => none
  | fuel + 1, room, ts =>
    match value? fuel room ts with
    | some (v, .comma :: ts) => (items? fuel room ts).map fun (vs, rest) => (v :: vs, rest)
    | some (v, .closeBracket :: rest) => some ([v], rest)
    | _ => none

/-- Reads the members of an object after its opening brace. -/
def braced : (fuel room : Nat) → List Token → Members
  | 0, _, _ => .fault none none
  | _, _, .closeBrace :: rest => ⟨[], .closed rest⟩
  | fuel + 1, room, ts => memberRun fuel room ts

/-- Reads one or more members up to the closing brace. -/
def memberRun : (fuel room : Nat) → List Token → Members
  | 0, _, _ => .fault none none
  | fuel + 1, room, .string k :: .colon :: ts =>
    match value? fuel room ts with
    | some (v, .comma :: ts) => (memberRun fuel room ts).cons k v
    | some (v, .closeBrace :: rest) => ⟨[(k, v)], .closed rest⟩
    | some (v, _) => (Members.fault none none).cons k v
    | none => .fault (some k) ts.head?
  | _, _, .string k :: _ => .fault (some k) none
  | _, _, _ => .fault none none

end

/-! ## §2. Whole texts. -/

/-- Reads a text that is one value, nested without limit. -/
def read? (text : String) : Option Json :=
  let ts := Token.ofText text
  match value? (2 * ts.length + 1) ts.length ts with
  | some (v, []) => some v
  | _ => none

/-! ## §3. Passing over values. -/

mutual

/-- Passes over one value. Only its form counts: strings may have stray escapes, numerals may be out
of range and brackets may nest without limit. -/
def skip? : (fuel : Nat) → List Token → Option (List Token)
  | 0, _ => none
  | _, [] => none
  | fuel + 1, t :: ts =>
    match t with
    | .openBracket =>
      match ts with
      | .closeBracket :: rest => some rest
      | ts => skipItems? fuel ts
    | .openBrace =>
      match ts with
      | .closeBrace :: rest => some rest
      | ts => skipMembers? fuel ts
    | .null | .bool _ | .string _ | .stray | .numeral _ => some ts
    | .closeBrace | .closeBracket | .comma | .colon | .bad => none

/-- Passes over one or more items and the closing bracket. -/
def skipItems? : (fuel : Nat) → List Token → Option (List Token)
  | 0, _ => none
  | fuel + 1, ts =>
    match skip? fuel ts with
    | some (.comma :: ts) => skipItems? fuel ts
    | some (.closeBracket :: rest) => some rest
    | _ => none

/-- Passes over one or more members and the closing brace. -/
def skipMembers? : (fuel : Nat) → List Token → Option (List Token)
  | 0, _ => none
  | fuel + 1, .string _ :: .colon :: ts | fuel + 1, .stray :: .colon :: ts =>
    match skip? fuel ts with
    | some (.comma :: ts) => skipMembers? fuel ts
    | some (.closeBrace :: rest) => some rest
    | _ => none
  | _, _ => none

end

end Json

end Estree

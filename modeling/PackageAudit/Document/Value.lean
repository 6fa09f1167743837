import PackageAudit.Binary64.Basic

/-!
# Document.Value — the tree that a JSON or YAML text stands for

* `Number`, `Value` — the tree;
* `Kind` — the kind of a value as error messages name it;
* `Value.put` — a member joins an object under construction, the last of one key counting;
* `Value.count` — how many values were written, replaced ones included;
* `Value.same` — equality of two trees up to what was replaced.
-/

namespace PackageAudit

/-- A number of a document: an integer of 64 bits with sign, or a double. -/
inductive Number where
  | int (value : Int)
  | float (value : Binary64)
  deriving DecidableEq

/--
A document tree. An object has each key once; where a text repeats a key, the last value stands in
the place of the first, and the values it displaced are kept aside in `replaced`.
-/
inductive Value where
  | null
  | bool (value : Bool)
  | number (value : Number)
  | string (value : String)
  | array (items : List Value)
  | object (members : List (String × Value)) (replaced : List (String × Value))

/-- Kinds of values, and the kind of a place where nothing stands. -/
inductive Kind where
  | null
  | bool
  | number
  | string
  | array
  | object
  | absent
  deriving DecidableEq

/-- The name of a kind in messages. -/
def Kind.name : Kind → String
  | null => "null"
  | bool => "boolean"
  | number => "number"
  | string => "string"
  | array => "array"
  | object => "object"
  | absent => "absent"

namespace Number

/-- The integers a number may hold exactly. -/
def inRange (n : Int) : Bool :=
  -0x8000000000000000 ≤ n && n < 0x8000000000000000

/-- The nearest double. -/
def toBinary64 : Number → Binary64
  | int n => Binary64.ofInt n
  | float x => x

/-- Equality of numbers of one shape; an integer never equals a double. -/
def same : Number → Number → Bool
  | int a, int b => a == b
  | float a, float b => a.same b
  | _, _ => false

end Number

namespace Value

def kind : Value → Kind
  | null => .null
  | bool _ => .bool
  | number _ => .number
  | string _ => .string
  | array _ => .array
  | object _ _ => .object

/-! ## Objects under construction -/

/-- Store a value under a key that already has one, and say which value that was. -/
def replace? (members : List (String × Value)) (key : String) (value : Value) :
    Option (List (String × Value) × Value) :=
  match members with
  | [] => none
  | (k, v) :: rest =>
    if k = key then some ((k, value) :: rest, v)
    else (replace? rest key value).map fun (rest, old) => ((k, v) :: rest, old)

/-- The member under a key. -/
def member? : Value → String → Option Value
  | object members _, key => members.lookup key
  | _, _ => none

/-- The element at an index. -/
def item? : Value → Nat → Option Value
  | array items, i => items[i]?
  | _, _ => none

/-! ## Counting -/

mutual

/-- How many values the tree holds, those that a later member replaced included. -/
def count : Value → Nat
  | array items => 1 + countAll items
  | object members replaced => 1 + countMembers members + countMembers replaced
  | _ => 1

def countAll : List Value → Nat
  | [] => 0
  | v :: vs => count v + countAll vs

def countMembers : List (String × Value) → Nat
  | [] => 0
  | (_, v) :: ms => count v + countMembers ms

end

/-! ## Equality -/

mutual

/-- Same kinds and values, members in the same order; what was replaced does not matter. -/
def same : Value → Value → Bool
  | null, null => true
  | bool a, bool b => a == b
  | number a, number b => a.same b
  | string a, string b => a == b
  | array as, array bs => sameAll as bs
  | object as _, object bs _ => sameMembers as bs
  | _, _ => false

def sameAll : List Value → List Value → Bool
  | [], [] => true
  | a :: as, b :: bs => same a b && sameAll as bs
  | _, _ => false

def sameMembers : List (String × Value) → List (String × Value) → Bool
  | [], [] => true
  | (k, a) :: as, (l, b) :: bs => k == l && same a b && sameMembers as bs
  | _, _ => false

end

end Value

end PackageAudit

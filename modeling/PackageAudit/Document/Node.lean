import PackageAudit.Document.Error

/-!
# Document.Node — places in a document

A node is a place reached from the root by keys and indices, whether or not a value stands there.

* `Document` — a tree as a whole;
* `Node` — a value with the values it lies in, or a place without a value;
* `Node.get`, `Node.item` — one step down;
* `Node.path`, `Node.parent?`, `Node.key?` — the way back;
* `Node.string`, `Node.number`, … — the value, if it is of the kind asked for.
-/

namespace PackageAudit

/-- A document as a reader built it. -/
structure Document where
  root : Value

/-- A place in a document. -/
inductive Node where
  /-- A value, with the values around it and the steps between them, innermost first. -/
  | present (value : Value) (around : List (Key × Value))
  /-- A place with nothing in it, reached by at least one step. -/
  | absent (keys : List Key)

namespace Document

/-- The place of the whole tree. -/
def rootNode (d : Document) : Node :=
  .present d.root []

/-- The number of values that were read, replaced ones included. -/
def size (d : Document) : Nat :=
  d.root.count

/-- The compact JSON text of the whole tree. -/
def render (d : Document) : String :=
  d.root.render

end Document

namespace Node

/-- The steps from the root. -/
def keys : Node → List Key
  | present _ around => (around.map Prod.fst).reverse
  | absent keys => keys

/-- Where the node is, as messages say it. -/
def path (n : Node) : String :=
  formatPath n.keys

def value? : Node → Option Value
  | present value _ => some value
  | absent _ => none

def kind : Node → Kind
  | present value _ => value.kind
  | absent _ => .absent

def isAbsent (n : Node) : Bool :=
  n.kind == .absent

/-! ## Steps -/

/-- The member under a key; absent when there is none or the value is no object. -/
def get (n : Node) (key : String) : Node :=
  match n with
  | present value around =>
    match value.member? key with
    | some child => present child ((.member key, value) :: around)
    | none => absent (n.keys ++ [.member key])
  | absent keys => absent (keys ++ [.member key])

/-- The element at an index; absent when there is none or the value is no array. -/
def item (n : Node) (index : Nat) : Node :=
  match n with
  | present value around =>
    match value.item? index with
    | some child => present child ((.index index, value) :: around)
    | none => absent (n.keys ++ [.index index])
  | absent keys => absent (keys ++ [.index index])

/-- The value that the node is a part of. -/
def parent? : Node → Option Node
  | present _ ((_, value) :: around) => some (present value around)
  | _ => none

/-- The step by which the value was reached from its parent. -/
def key? : Node → Option Key
  | present _ ((key, _) :: _) => some key
  | _ => none

/-! ## Values of a kind -/

/-- The complaint that a value of another kind was expected. -/
def mismatch (n : Node) (expected : Kind) : DocumentError :=
  .typeMismatch n.path expected.name n.kind.name

def bool (n : Node) : Except DocumentError Bool :=
  match n.value? with
  | some (.bool b) => .ok b
  | _ => .error (n.mismatch .bool)

def string (n : Node) : Except DocumentError String :=
  match n.value? with
  | some (.string s) => .ok s
  | _ => .error (n.mismatch .string)

def number (n : Node) : Except DocumentError Number :=
  match n.value? with
  | some (.number x) => .ok x
  | _ => .error (n.mismatch .number)

/-- The elements of an array, as nodes. -/
def items (n : Node) : Except DocumentError (List Node) :=
  match n with
  | present (.array items) around =>
    .ok (items.mapIdx fun (i : Nat) v => present v ((.index i, .array items) :: around))
  | _ => .error (n.mismatch .array)

/-- The members of an object, as nodes, in order. -/
def members (n : Node) : Except DocumentError (List (String × Node)) :=
  match n with
  | present (.object ms replaced) around =>
    .ok (ms.map fun (k, v) => (k, present v ((.member k, .object ms replaced) :: around)))
  | _ => .error (n.mismatch .object)

/-- The text under a key: nothing if the member is absent, a complaint if it is no string. -/
def optionalString (n : Node) (key : String) : Except DocumentError (Option String) :=
  let member := n.get key
  if member.isAbsent then .ok none else member.string.map some

/-! ## The whole subtree -/

/-- The compact JSON text of the value; a place without one reads as `null`. -/
def render (n : Node) : String :=
  match n.value? with
  | some v => v.render
  | none => "null"

/-- Same kinds and values; two absent places are the same. -/
def same (m n : Node) : Bool :=
  match m.value?, n.value? with
  | some a, some b => a.same b
  | none, none => true
  | _, _ => false

end Node

end PackageAudit

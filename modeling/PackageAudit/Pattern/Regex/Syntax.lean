import PackageAudit.Document.Reading

/-!
# Pattern.Regex.Syntax — what a regular expression says

* `Regex.Node`, `Regex.Class` — the parts of an expression and of a set in brackets;
* `Regex.Flag` — what can be switched inside an expression;
* `Regex.Fault` — why a text is no regular expression;
* `Node.depth` — how deep its parts lie in each other.
-/

namespace PackageAudit

namespace Pattern

namespace Regex

/-- Why a text is no regular expression. -/
inductive Fault where
  | unexpectedEnd
  | unclosedGroup
  | unopenedGroup
  | groupName
  | duplicateName
  | lookAround
  | backReference
  | flag
  | unclosedClass
  | classRange
  | classItem
  | escape
  | hexadecimal
  | property
  | missingOperand
  | count
  | wordEdge
  /-- A part that could match something that is no text. -/
  | notText
  /-- A part that means something only in Unicode mode. -/
  | unicodeOnly
  | tooDeep
  | tooLarge
  deriving DecidableEq

inductive Flag where
  | caseInsensitive
  | multiLine
  | dotAll
  | swapGreed
  | unicode
  | crlf
  | verbose
  deriving DecidableEq

/-- The flags that are set or cleared, in order. -/
abbrev FlagChange := List (Flag × Bool)

/-- A literal character; `byte` if it is written as a byte of two hexadecimal digits. -/
structure Literal where
  char : Char
  byte : Bool

inductive Anchor where
  | lineStart
  | lineEnd
  | textStart
  | textEnd
  | wordEdge
  | noWordEdge
  | wordStart
  | wordEnd
  | wordStartHalf
  | wordEndHalf

inductive Perl where
  | digit
  | space
  | word

/-- A property of characters by its name, or by its name and one of its values. -/
inductive Query where
  | name (name : String)
  | value (property value : String)

/-- A part that stands for characters or a place, and has no parts of its own. -/
inductive Atom where
  | literal (l : Literal)
  | anchor (a : Anchor)
  | perl (negated : Bool) (kind : Perl)
  | property (negated : Bool) (query : Query)

inductive ClassOp where
  | intersection
  | difference
  | symmetricDifference

/-- What stands in brackets. -/
inductive Class where
  | literal (l : Literal)
  | range (low high : Literal)
  | named (negated : Bool) (ranges : List (Nat × Nat))
  | perl (negated : Bool) (kind : Perl)
  | property (negated : Bool) (query : Query)
  | brackets (negated : Bool) (inner : Class)
  | union (parts : List Class)
  | binary (op : ClassOp) (left right : Class)

inductive Node where
  | empty
  | flags (change : FlagChange)
  | dot
  | atom (a : Atom)
  | brackets (negated : Bool) (inner : Class)
  | repeated (greedy : Bool) (least : Nat) (most : Option Nat) (body : Node)
  | group (name : Option String) (change : FlagChange) (body : Node)
  | concat (parts : List Node)
  | choice (branches : List Node)

/-! ## Depth -/

mutual

/-- How many sets, unions and operations lie in each other. -/
def Class.depth : Class → Nat
  | brackets _ inner => inner.depth + 1
  | union [] => 0
  | union (c :: cs) => max c.depth (Class.depthAll cs) + 1
  | binary _ l r => max l.depth r.depth + 1
  | _ => 0

def Class.depthAll : List Class → Nat
  | [] => 0
  | c :: cs => max c.depth (Class.depthAll cs)

end

mutual

/-- How many composed parts lie in each other. -/
def Node.depth : Node → Nat
  | brackets _ inner => inner.depth + 1
  | repeated _ _ _ body => body.depth + 1
  | group _ _ body => body.depth + 1
  | concat parts => Node.depthAll parts + 1
  | choice branches => Node.depthAll branches + 1
  | _ => 0

def Node.depthAll : List Node → Nat
  | [] => 0
  | n :: ns => max n.depth (Node.depthAll ns)

end

mutual

/-- The names of the groups, in order. -/
def Node.names : Node → List String
  | repeated _ _ _ body => body.names
  | group name _ body => name.toList ++ body.names
  | concat parts => Node.namesAll parts
  | choice branches => Node.namesAll branches
  | _ => []

def Node.namesAll : List Node → List String
  | [] => []
  | n :: ns => n.names ++ Node.namesAll ns

end

end Regex

end Pattern

end PackageAudit

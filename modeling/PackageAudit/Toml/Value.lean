/-!
# Toml.Value — what a settings file says

* `Toml` — values of a settings file; tables and arrays remember how they came to be;
* `TomlTable.putDotted` — a value joins a table under a key of several parts;
* `TomlTable.openTable`, `TomlTable.openElement` — a header starts a table, or an element of an
  array of tables;
* `Toml.fields?` — the values of named fields.

No table can be started twice, and how a table came to be decides what may still join it.
-/

namespace PackageAudit

/-- How a table came to be. -/
inductive TableOrigin where
  /-- By its own header. -/
  | header
  /-- By the header of a table inside it. -/
  | implied
  /-- By a key of several parts. -/
  | dotted
  /-- As a value between braces. -/
  | braces
  deriving DecidableEq

/-- A value of a settings file. Of floats and dates it is only known that they are there. -/
inductive Toml where
  | string (text : String)
  | integer (value : Int)
  | float
  | boolean (value : Bool)
  | date
  /-- An array; one that headers made may grow by further headers. -/
  | array (byHeaders : Bool) (items : List Toml)
  | table (origin : TableOrigin) (members : List (String × Toml))

/-- The members of a table, in the order in which they were given. -/
abbrev TomlTable := List (String × Toml)

namespace TomlTable

/-- Give a key that has a value another value. -/
def set (key : String) (value : Toml) : TomlTable → TomlTable
  | [] => []
  | (k, v) :: rest => if k = key then (k, value) :: rest else (k, v) :: set key value rest

/--
Put a value under a key of several parts. Tables on the way must have come to be without a header
of their own, and the last of them by such a key.
-/
def putDotted (value : Toml) (origin : TableOrigin) (t : TomlTable) : List String → Option TomlTable
  | [] => none
  | [key] => if origin = .dotted ∧ (t.lookup key).isNone then some (t ++ [(key, value)]) else none
  | key :: rest =>
    match t.lookup key with
    | none => (putDotted value .dotted [] rest).map fun inner => t ++ [(key, .table .dotted inner)]
    | some (.table inside inner) =>
      if inside = .implied ∨ inside = .dotted then
        (putDotted value inside inner rest).map fun inner => set key (.table inside inner) t
      else none
    | some _ => none

/-- Put a value under a key, which may have several parts. -/
def put (value : Toml) (t : TomlTable) : List String → Option TomlTable
  | [key] => if (t.lookup key).isNone then some (t ++ [(key, value)]) else none
  | keys => putDotted value .header t keys

/-- Change the last element of an array. -/
def changeLast (change : TomlTable → Option TomlTable) : List Toml → Option (List Toml)
  | [] => none
  | [.table origin members] => (change members).map fun members => [.table origin members]
  | [_] => none
  | item :: rest => (changeLast change rest).map (item :: ·)

/--
Change the table at the keys of a header. Tables that are not there come to be, and an array of
tables stands for its last element.
-/
def changeAt (change : TomlTable → Option TomlTable) : List String → TomlTable → Option TomlTable
  | [], t => change t
  | key :: rest, t =>
    match t.lookup key with
    | none => (changeAt change rest []).map fun inner => t ++ [(key, .table .implied inner)]
    | some (.table origin inner) =>
      if origin = .braces then none
      else (changeAt change rest inner).map fun inner => set key (.table origin inner) t
    | some (.array true items) =>
      (changeLast (changeAt change rest) items).map fun items => set key (.array true items) t
    | some _ => none

/-- Start a table by its header. -/
def openTable (key : String) (t : TomlTable) : Option TomlTable :=
  match t.lookup key with
  | none => some (t ++ [(key, .table .header [])])
  | some (.table .implied inner) => some (set key (.table .header inner) t)
  | some _ => none

/-- Start the next element of an array of tables by its header. -/
def openElement (key : String) (t : TomlTable) : Option TomlTable :=
  match t.lookup key with
  | none => some (t ++ [(key, .array true [.table .header []])])
  | some (.array true items) => some (set key (.array true (items ++ [.table .header []])) t)
  | some _ => none

end TomlTable

/-- The values of named fields: of a table, or of an array in the order of the names. -/
def Toml.fields? (names : List String) : Toml → Option (List (Option Toml))
  | .table _ members => some (names.map fun name => members.lookup name)
  | .array _ items => some ((List.range names.length).map fun (i : Nat) => items[i]?)
  | _ => none

end PackageAudit

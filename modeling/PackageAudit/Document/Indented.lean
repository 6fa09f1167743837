import PackageAudit.Document.Printer

/-!
# Document.Indented — JSON text for readers

* `Value.renderIndented` — a tree with one item or member on a line, two blanks deeper than the
  bracket around it; brackets around nothing stand together.
-/

namespace PackageAudit

namespace Value

/-- The start of a line at a depth. -/
def margin (depth : Nat) : String :=
  .ofList (List.replicate (2 * depth) ' ')

/-- Brackets at a depth, around parts that are one deeper. -/
def block (depth : Nat) (left right : String) (parts : List String) : String :=
  if parts.isEmpty then left ++ right
  else
    left ++ "\n" ++ ",\n".intercalate (parts.map (margin (depth + 1) ++ ·)) ++ "\n" ++
      margin depth ++ right

mutual

/-- The text of a tree whose first line stands at a depth. -/
def renderAt (depth : Nat) : Value → String
  | array items => block depth "[" "]" (renderAllAt (depth + 1) items)
  | object members _ => block depth "\x7b" "\x7d" (renderMembersAt (depth + 1) members)
  | v => v.render

def renderAllAt (depth : Nat) : List Value → List String
  | [] => []
  | v :: vs => renderAt depth v :: renderAllAt depth vs

def renderMembersAt (depth : Nat) : List (String × Value) → List String
  | [] => []
  | (k, v) :: ms => (Json.quote k ++ ": " ++ renderAt depth v) :: renderMembersAt depth ms

end

/-- The text of a tree over several lines. -/
def renderIndented (v : Value) : String :=
  v.renderAt 0

end Value

end PackageAudit

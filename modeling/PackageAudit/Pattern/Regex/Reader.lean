import PackageAudit.Pattern.Regex.Atom

/-!
# Pattern.Regex.Reader — the reader of regular expressions

* `Regex.readBrackets` — a set of characters in brackets;
* `Regex.readBranches` — the branches of a group, or of the expression as a whole;
* `Regex.read` — a text that is one expression.
-/

namespace PackageAudit

namespace Pattern

namespace Regex

/-! ## Sets in brackets -/

/-- The sets of ASCII characters with names of their own. -/
def asciiClass? (name : String) : Option (List (Nat × Nat)) :=
  match name with
  | "alnum" => some [(0x30, 0x39), (0x41, 0x5A), (0x61, 0x7A)]
  | "alpha" => some [(0x41, 0x5A), (0x61, 0x7A)]
  | "ascii" => some [(0, 0x7F)]
  | "blank" => some [(0x09, 0x09), (0x20, 0x20)]
  | "cntrl" => some [(0, 0x1F), (0x7F, 0x7F)]
  | "digit" => some [(0x30, 0x39)]
  | "graph" => some [(0x21, 0x7E)]
  | "lower" => some [(0x61, 0x7A)]
  | "print" => some [(0x20, 0x7E)]
  | "punct" => some [(0x21, 0x2F), (0x3A, 0x40), (0x5B, 0x60), (0x7B, 0x7E)]
  | "space" => some [(0x09, 0x0D), (0x20, 0x20)]
  | "upper" => some [(0x41, 0x5A)]
  | "word" => some [(0x30, 0x39), (0x41, 0x5A), (0x5F, 0x5F), (0x61, 0x7A)]
  | "xdigit" => some [(0x30, 0x39), (0x41, 0x46), (0x61, 0x66)]
  | _ => none

/-- The rest of `s` behind a given start. -/
def dropStart? : List Char → List Char → Option (List Char)
  | [], s => some s
  | c :: cs, d :: s => if c = d then dropStart? cs s else none
  | _ :: _, [] => none

theorem length_dropStart? {p s r : List Char} (h : dropStart? p s = some r) :
    s.length = p.length + r.length := by
  induction p generalizing s with
  | nil => simp_all [dropStart?]
  | cons c cs ih =>
    cases s with
    | nil => simp [dropStart?] at h
    | cons d s =>
      simp only [dropStart?] at h
      split at h
      · simp only [List.length_cons, ih h]; omega
      · simp at h

theorem le_of_dropStart? {p s r : List Char} (h : dropStart? p s = some r) :
    r.length ≤ s.length :=
  length_dropStart? h ▸ Nat.le_add_left _ _

/-- What follows the sign of a negation, if there is one. -/
def dropNegation : List Char → List Char
  | '^' :: rest => rest
  | s => s

theorem length_dropNegation_le (s : List Char) : (dropNegation s).length ≤ s.length := by
  unfold dropNegation
  split <;> simp

/-- A named set between colons, behind its opening bracket. -/
def readNamedClass? (s : List Char) : Option (OptionalReading s Class) :=
  match h₀ : dropStart? [':'] s with
  | none => none
  | some body =>
    let start := dropNegation body
    let name := start.takeWhile (· != ':')
    match asciiClass? (.ofList name), h₁ : dropStart? [':', ']'] (start.dropWhile (· != ':')) with
    | some ranges, some rest =>
      have hbody := Nat.le_trans (length_dropNegation_le body) (le_of_dropStart? h₀)
      have hname := Nat.le_trans (List.dropWhile_sublist _).length_le hbody
      some ⟨.named (body.head? == some '^') ranges, rest, Nat.le_trans (le_of_dropStart? h₁) hname⟩
    | _, _ => none

/-- One element of a set: a character, or a class behind a backslash. -/
def readClassAtom (verbose : Bool) (s : List Char) : Except Fault (Reading s Atom) :=
  match s with
  | [] => .error .unclosedClass
  | c :: rest =>
    if c = '\\' then (readEscape verbose rest).map (·.behind)
    else .ok (.head (.literal ⟨c, false⟩))

/-- A part of a set by itself. -/
def Atom.toClass : Atom → Except Fault Class
  | .literal l => .ok (.literal l)
  | .perl negated kind => .ok (.perl negated kind)
  | .property negated query => .ok (.property negated query)
  | .anchor _ => .error .classItem

/-- An end of a range. -/
def Atom.toLiteral : Atom → Except Fault Literal
  | .literal l => .ok l
  | _ => .error .classItem

/-- One element of a set, or the range from it to another one. -/
def readClassItem (verbose : Bool) (s : List Char) : Except Fault (Reading s Class) := do
  let first ← readClassAtom verbose s
  have h₁ := Nat.lt_of_le_of_lt (length_skip_le verbose first.rest) first.shorter
  match h : skip verbose first.rest with
  | [] => .error .unclosedClass
  | c :: rest =>
    let next := (skip verbose rest).head?
    if c ≠ '-' ∨ next = some ']' ∨ next = some '-' then
      pure ⟨← first.value.toClass, skip verbose first.rest, h₁⟩
    else
      have h₂ := Nat.lt_of_le_of_lt (length_skip_le verbose rest)
        (Nat.lt_trans (length_of_skip h) first.shorter)
      let second ← readClassAtom verbose (skip verbose rest)
      let low ← first.value.toLiteral
      let high ← second.value.toLiteral
      if high.char < low.char then .error .classRange
      else pure ⟨.range low high, second.rest, Nat.lt_trans second.shorter h₂⟩

/-- Several parts as one. -/
def union : List Class → Class
  | [c] => c
  | parts => .union parts

/-- Join what stands on the two sides of an operation, if there is one. -/
def join (pending : Option (ClassOp × Class)) (right : Class) : Class :=
  match pending with
  | some (op, left) => .binary op left right
  | none => right

/-- Characters that stand for themselves at the start of a set: any dashes, else a bracket. -/
def readClassStart (verbose : Bool) (items : List Class) (s : List Char) :
    OptionalReading s (List Class) :=
  match s with
  | [] => ⟨items, [], Nat.le_refl _⟩
  | c :: rest =>
    have h := length_skip_le verbose rest
    if c = '-' then
      ((readClassStart verbose (.literal ⟨'-', false⟩ :: items) (skip verbose rest)).widen h).behind
    else if c = ']' ∧ items.isEmpty then
      ⟨[.literal ⟨']', false⟩], skip verbose rest, Nat.le_succ_of_le h⟩
    else .nothing items
  termination_by s.length
  decreasing_by simp only [List.length_cons]; omega

/-- What follows the sign of an operation on sets. -/
def afterClassOp? (s : List Char) : Option (ClassOp × List Char) :=
  match s with
  | '&' :: '&' :: rest => some (.intersection, rest)
  | '-' :: '-' :: rest => some (.difference, rest)
  | '~' :: '~' :: rest => some (.symmetricDifference, rest)
  | _ => none

theorem length_of_afterClassOp? {c : Char} {s r : List Char} {op : ClassOp}
    (h : afterClassOp? (c :: s) = some (op, r)) : r.length ≤ s.length := by
  unfold afterClassOp? at h
  split at h <;> grind

/-- Whether a set is negated, and the characters at its start that stand for themselves. -/
def readBracketsStart (verbose : Bool) (s : List Char) : OptionalReading s (Bool × List Class) :=
  match h : skip verbose s with
  | '^' :: rest =>
    have h := Nat.le_trans (length_skip_le verbose rest) (Nat.le_of_lt (length_of_skip h))
    ((readClassStart verbose [] (skip verbose rest)).map (true, ·)).widen h
  | _ =>
    ((readClassStart verbose [] (skip verbose s)).map (false, ·)).widen (length_skip_le verbose s)

mutual

/-- A set, behind its opening bracket. -/
def readBrackets (verbose : Bool) (s : List Char) : Except Fault (Reading s (Bool × Class)) :=
  let start := readBracketsStart verbose s
  have h := start.notLonger
  match readClassBody verbose none start.value.2 start.rest with
  | .error e => .error e
  | .ok r => .ok ⟨(start.value.1, r.value), r.rest, Nat.lt_of_lt_of_le r.shorter h⟩
  termination_by 2 * s.length + 1
  decreasing_by
    have := (readBracketsStart verbose s).notLonger
    omega

/-- The parts of a set up to its closing bracket; `items` holds those since the last operation. -/
def readClassBody (verbose : Bool) (pending : Option (ClassOp × Class)) (items : List Class)
    (s : List Char) : Except Fault (Reading s Class) :=
  match h : skip verbose s with
  | [] => .error .unclosedClass
  | c :: rest =>
    have hc := length_of_skip h
    if c = ']' then .ok ⟨join pending (union items.reverse), rest, hc⟩
    else if c = '[' then
      match readNamedClass? rest with
      | some r =>
        have hr := Nat.lt_of_le_of_lt r.notLonger hc
        (readClassBody verbose pending (r.value :: items) r.rest).map (·.widen (Nat.le_of_lt hr))
      | none =>
        match readBrackets verbose rest with
        | .error e => .error e
        | .ok r =>
          have hr := Nat.lt_trans r.shorter hc
          (readClassBody verbose pending (.brackets r.value.1 r.value.2 :: items) r.rest).map
            (·.widen (Nat.le_of_lt hr))
    else
      match hop : afterClassOp? (c :: rest) with
      | some (op, more) =>
        have hmore := Nat.lt_of_le_of_lt (length_of_afterClassOp? hop) hc
        (readClassBody verbose (some (op, join pending (union items.reverse))) [] more).map
          (·.widen (Nat.le_of_lt hmore))
      | none =>
        match readClassItem verbose (c :: rest) with
        | .error e => .error e
        | .ok r =>
          have hr := Nat.lt_of_lt_of_le r.shorter hc
          (readClassBody verbose pending (r.value :: items) r.rest).map (·.widen (Nat.le_of_lt hr))
  termination_by 2 * s.length

end

/-! ## Groups -/

/-- The flag of a letter. -/
def flag? : Char → Option Flag
  | 'i' => some .caseInsensitive
  | 'm' => some .multiLine
  | 's' => some .dotAll
  | 'U' => some .swapGreed
  | 'u' => some .unicode
  | 'R' => some .crlf
  | 'x' => some .verbose
  | _ => none

/-- Whether a group follows its flags, or they stand alone. -/
inductive FlagsEnd where
  | colon
  | parenthesis

/--
Flags up to the mark behind them. `negated` says whether a minus sign was passed, and `dangling`
whether no flag came since; no flag may be named twice.
-/
def readFlags (negated dangling : Bool) (change : FlagChange) (s : List Char) :
    Except Fault (Reading s (FlagChange × FlagsEnd)) :=
  match s with
  | [] => .error .flag
  | c :: rest =>
    let grown (r : Reading rest (FlagChange × FlagsEnd)) : Reading (c :: rest) _ :=
      r.behind
    if c = ':' ∨ c = ')' then
      if dangling then .error .flag
      else .ok (.head (change.reverse, if c = ':' then .colon else .parenthesis))
    else if c = '-' then
      if negated then .error .flag else (readFlags true true change rest).map grown
    else
      match flag? c with
      | none => .error .flag
      | some f =>
        if change.any fun (g, _) => g == f then .error .flag
        else (readFlags negated false ((f, !negated) :: change) rest).map grown

/-- Characters of the name of a group. -/
def isNameChar (first : Bool) (c : Char) : Bool :=
  c == '_' || Property.alphabetic.has c ||
    (!first &&
      (c == '.' || c == '[' || c == ']' ||
        (Category.membersOf [.decimalNumber, .letterNumber, .otherNumber]).has c))

/-- The name of a group up to its closing bracket. -/
def readName (name s : List Char) : Except Fault (Reading s String) :=
  match s with
  | [] => .error .groupName
  | c :: rest =>
    if c = '>' then
      if name.isEmpty then .error .groupName else .ok (.head (.ofList name.reverse))
    else if isNameChar name.isEmpty c then (readName (c :: name) rest).map (·.behind)
    else .error .groupName

/-- What stands between the parenthesis that opens a group and its body. -/
inductive GroupStart where
  /-- Flags that hold from here on; there is no body. -/
  | flags (change : FlagChange)
  | body (name : Option String) (change : FlagChange)

/-- The start of a group, behind its parenthesis. -/
def readGroupStart (s : List Char) : Except Fault (OptionalReading s GroupStart) :=
  if (['=', '!'].any fun c => (dropStart? ['?', c] s).isSome || (dropStart? ['?', '<', c] s).isSome)
  then .error .lookAround
  else
    let named (rest : List Char) (h : rest.length ≤ s.length) :
        Except Fault (OptionalReading s GroupStart) :=
      (readName [] rest).map fun r =>
        ⟨.body (some r.value) [], r.rest, Nat.le_trans (Nat.le_of_lt r.shorter) h⟩
    match h₁ : dropStart? ['?', 'P', '<'] s, h₂ : dropStart? ['?', '<'] s,
      h₃ : dropStart? ['?'] s with
    | some rest, _, _ => named rest (le_of_dropStart? h₁)
    | none, some rest, _ => named rest (le_of_dropStart? h₂)
    | none, none, some rest =>
      if rest.isEmpty then .error .unclosedGroup
      else
        match readFlags false false [] rest with
        | .error e => .error e
        | .ok r =>
          have h := Nat.le_trans (Nat.le_of_lt r.shorter) (le_of_dropStart? h₃)
          match r.value with
          | (change, .colon) => .ok ⟨.body none change, r.rest, h⟩
          | ([], .parenthesis) => .error .missingOperand
          | (change, .parenthesis) => .ok ⟨.flags change, r.rest, h⟩
    | none, none, none => .ok (.nothing (.body none []))

/-! ## Repetitions -/

/-- Whether a question mark makes a repetition prefer fewer matches. -/
def readLazy (s : List Char) : OptionalReading s Bool :=
  match s with
  | '?' :: _ => (Reading.head true).toOptional
  | _ => .nothing false

/-- The bounds that the sign of a repetition stands for. -/
def signBounds? : Char → Option (Nat × Option Nat)
  | '?' => some (0, some 1)
  | '*' => some (0, none)
  | '+' => some (1, none)
  | _ => none

/-- The bounds of a repetition, behind their opening brace. -/
def readBounds (verbose : Bool) (s : List Char) :
    Except Fault (OptionalReading s (Nat × Option Nat)) := do
  have h₀ := length_skip_le verbose s
  let least ← readNumber verbose (skip verbose s)
  match h₁ : least.rest with
  | '}' :: rest =>
    have h := Nat.lt_of_lt_of_le (OptionalReading.length_of_rest h₁) h₀
    pure (Reading.mk (least.value, some least.value) rest h).toOptional
  | ',' :: rest =>
    have h := Nat.lt_of_lt_of_le (OptionalReading.length_of_rest h₁) h₀
    match h₂ : skip verbose rest with
    | '}' :: rest' =>
      have h := Nat.lt_trans (length_of_skip h₂) h
      pure (Reading.mk (least.value, none) rest' h).toOptional
    | _ =>
      let most ← readNumber verbose (skip verbose rest)
      match h₃ : most.rest with
      | '}' :: rest' =>
        if most.value < least.value then .error .count
        else
          have h := Nat.lt_of_lt_of_le (OptionalReading.length_of_rest h₃)
            (Nat.le_trans (length_skip_le verbose rest) (Nat.le_of_lt h))
          pure (Reading.mk (least.value, some most.value) rest' h).toOptional
      | _ => .error .count
  | _ => .error .count

/-- The last item, which a repetition applies to, and the items before it. -/
def operand : List Node → Except Fault (Node × List Node)
  | [] => .error .missingOperand
  | .empty :: _ => .error .missingOperand
  | .flags _ :: _ => .error .missingOperand
  | n :: rest => .ok (n, rest)

/-! ## Expressions -/

/-- Parts in order as one node; they are given backwards. -/
def concat : List Node → Node
  | [] => .empty
  | [n] => n
  | parts => .concat parts.reverse

/-- Branches in order as one node; they are given backwards, the last one by its parts. -/
def choice (branches : List Node) (items : List Node) : Node :=
  match branches with
  | [] => concat items
  | branches => .choice (concat items :: branches).reverse

/-- Whether blanks count no longer, or again, after a change of flags. -/
def verboseAfter (verbose : Bool) (change : FlagChange) : Bool :=
  (change.lookup .verbose).getD verbose

/-- Make a reading of the rest a reading of all. -/
def continueFrom {s t : List Char} (h : t.length ≤ s.length)
    (x : Except Fault (OptionalReading t Node)) : Except Fault (OptionalReading s Node) :=
  x.map fun r => ⟨r.value, r.rest, Nat.le_trans r.notLonger h⟩

/--
The branches up to a closing parenthesis or the end. `branches` holds those complete, `items` the
parts of the one being read, both backwards.
-/
def readBranches (verbose : Bool) (branches items : List Node) (s : List Char) :
    Except Fault (OptionalReading s Node) :=
  match h : skip verbose s with
  | [] => .ok ⟨choice branches items, [], Nat.zero_le _⟩
  | c :: rest =>
    have hc := length_of_skip h
    have hc' := Nat.le_of_lt hc
    if c = ')' then .ok ⟨choice branches items, skip verbose s, length_skip_le verbose s⟩
    else if c = '|' then continueFrom hc' (readBranches verbose (concat items :: branches) [] rest)
    else if c = '(' then
      have hs := length_skip_le verbose rest
      match readGroupStart (skip verbose rest) with
      | .error e => .error e
      | .ok start =>
        have hstart := Nat.lt_of_le_of_lt (Nat.le_trans start.notLonger hs) hc
        match start.value with
        | .flags change =>
          continueFrom (Nat.le_of_lt hstart)
            (readBranches (verboseAfter verbose change) branches (.flags change :: items)
              start.rest)
        | .body name change =>
          match readBranches (verboseAfter verbose change) [] [] start.rest with
          | .error e => .error e
          | .ok body =>
            match hbody : body.rest with
            | [] => .error .unclosedGroup
            | _ :: rest' =>
              have hrest := Nat.lt_trans (OptionalReading.length_of_rest hbody) hstart
              continueFrom (Nat.le_of_lt hrest)
                (readBranches verbose branches (.group name change body.value :: items) rest')
    else if c = '[' then
      match readBrackets verbose rest with
      | .error e => .error e
      | .ok r =>
        have hr := Nat.lt_trans r.shorter hc
        continueFrom (Nat.le_of_lt hr)
          (readBranches verbose branches (.brackets r.value.1 r.value.2 :: items) r.rest)
    else if let some (least, most) := signBounds? c then
      match operand items with
      | .error e => .error e
      | .ok (n, before) =>
        have hr := Nat.lt_of_le_of_lt (readLazy rest).notLonger hc
        let item := Node.repeated ((readLazy rest).value == false) least most n
        continueFrom (Nat.le_of_lt hr)
          (readBranches verbose branches (item :: before) (readLazy rest).rest)
    else if c = '{' then
      match operand items, readBounds verbose rest with
      | .error e, _ => .error e
      | _, .error e => .error e
      | .ok (n, before), .ok bounds =>
        have hbounds := Nat.le_trans (length_skip_le verbose bounds.rest) bounds.notLonger
        have hr := Nat.lt_of_le_of_lt
          (Nat.le_trans (readLazy (skip verbose bounds.rest)).notLonger hbounds) hc
        let greedy := (readLazy (skip verbose bounds.rest)).value == false
        let item := Node.repeated greedy bounds.value.1 bounds.value.2 n
        continueFrom (Nat.le_of_lt hr)
          (readBranches verbose branches (item :: before)
            (readLazy (skip verbose bounds.rest)).rest)
    else if c = '\\' then
      match readEscape verbose rest with
      | .error e => .error e
      | .ok r =>
        have hr := Nat.lt_trans r.shorter hc
        continueFrom (Nat.le_of_lt hr)
          (readBranches verbose branches (.atom r.value :: items) r.rest)
    else if c = '.' then continueFrom hc' (readBranches verbose branches (.dot :: items) rest)
    else if c = '^' then
      continueFrom hc' (readBranches verbose branches (.atom (.anchor .lineStart) :: items) rest)
    else if c = '$' then
      continueFrom hc' (readBranches verbose branches (.atom (.anchor .lineEnd) :: items) rest)
    else
      continueFrom hc' (readBranches verbose branches (.atom (.literal ⟨c, false⟩) :: items) rest)
  termination_by s.length
  decreasing_by all_goals assumption

/-- How deep the parts of an expression may lie in each other. -/
def maxDepth : Nat := 250

/-- The expression that a text spells. -/
def read (s : List Char) : Except Fault Node := do
  let r ← readBranches false [] [] s
  if !r.rest.isEmpty then throw .unopenedGroup
  if maxDepth < r.value.depth then throw .tooDeep
  if ¬ r.value.names.Nodup then throw .duplicateName
  pure r.value

end Regex

end Pattern

end PackageAudit

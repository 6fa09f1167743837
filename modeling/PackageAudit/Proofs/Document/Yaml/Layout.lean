import PackageAudit.Proofs.Document.Yaml.Completeness
import PackageAudit.Proofs.Document.Yaml.Content

/-!
# Proofs.Document.Yaml.Layout — every layout of a tree is read as the tree

A tree may be laid out in blocks in many ways: each node may be indented by a step of its own, start
on the line of its dash or on the next one, and stand at the column of its key if it is a sequence.

* `Yaml.Layout` — the choices for every node of a tree, by the path to the node;
* `Yaml.Layout.write`, `Yaml.Layout.print` — the lines and the text of a tree in a layout;
* `Yaml.Printed` — lines whose tokens are known, with the column of the first one;
* `Yaml.writtenSpelled` — the lines of a tree spell it, by induction on the tree;
* `Yaml.parse_print` — the text of a tree is read as the tree, whatever its layout.
-/

namespace PackageAudit

namespace Value

theorem height_current_le (v : Value) : v.current.height ≤ v.height := by
  induction v using induction with
  | null | bool | number | string => exact Nat.le_refl _
  | array items ih =>
    rw [current, currentAll_eq_map]
    refine heightAll_le_iff.2 (List.forall_mem_map.2 fun v hv => ?_)
    exact Nat.le_trans (Nat.succ_le_succ (ih v hv)) (heightAll_le_iff.1 (Nat.le_refl _) v hv)
  | object members replaced ih =>
    rw [current, currentMembers_eq_map]
    refine heightMembers_le_iff.2 (List.forall_mem_map.2 fun m hm => ?_)
    exact Nat.le_trans (Nat.succ_le_succ (ih m hm)) (heightMembers_le_iff.1 (Nat.le_refl _) m hm)

/-- The innermost value lies in no more collections than there are in each other. -/
theorem height_le_nesting (v : Value) : v.height ≤ v.nesting := by
  induction v using induction with
  | null | bool | number | string => exact Nat.le_refl _
  | array items ih =>
    rw [nesting, Nat.add_comm]
    refine heightAll_le_iff.2 fun v hv => Nat.succ_le_succ ?_
    exact Nat.le_trans (ih v hv) (nestingAll_le_iff.1 (Nat.le_refl _) v hv)
  | object members replaced ih =>
    rw [nesting, Nat.add_comm]
    refine heightMembers_le_iff.2 fun m hm => Nat.succ_le_succ ?_
    exact Nat.le_trans (ih m hm) (nestingMembers_le_iff.1 (Nat.le_refl _) m hm)

end Value

namespace Yaml

open Json (quoteChars)

/-! ## Layouts -/

/-- How a node is written behind a dash or a key. -/
structure Choice where
  /-- The spaces behind the dash or the colon, if anything follows on the line, but one. -/
  gap : Nat
  /-- Whether a collection begins on the line of its dash. -/
  sameLine : Bool
  /-- The columns, but one, that a collection on the next line stands deeper by. -/
  step : Nat
  /-- Whether a sequence stands at the column of its key instead. -/
  aligned : Bool

/-- The choices for all nodes of a tree. A node is found by the positions on the way to it. -/
abbrev Layout := List Nat → Choice

/-- A line that begins at a column. -/
structure Line where
  column : Nat
  text : List Char

def Line.chars (line : Line) : List Char :=
  List.replicate line.column ' ' ++ line.text

/-- Lines whose first one is moved behind a dash. -/
def onDash (column gap : Nat) : List Line → List Line
  | [] => []
  | first :: rest => ⟨column, '-' :: (List.replicate (gap + 1) ' ' ++ first.text)⟩ :: rest

namespace Layout

/-- The choices for the nodes below a position. -/
def child (l : Layout) (i : Nat) : Layout := fun path => l (i :: path)

/-- Where a collection stands that belongs to a key at a column. -/
def memberColumn (c : Choice) (column : Nat) (v : Value) : Nat :=
  if c.aligned ∧ v.kind = .array then column else column + c.step + 1

mutual

/-- The lines of a tree at a column. Strings and keys are quoted. -/
def write (l : Layout) (column : Nat) : Value → List Line
  | .array (v :: vs) => writeItems l 0 column (v :: vs)
  | .object (m :: ms) _ => writeMembers l 0 column (m :: ms)
  | v => [⟨column, v.render.toList⟩]

def writeItems (l : Layout) (i column : Nat) : List Value → List Line
  | [] => []
  | v :: vs =>
    let choice := l [i]
    (if v.isFlat ∨ choice.sameLine then
        onDash column choice.gap (write (l.child i) (column + choice.gap + 2) v)
      else ⟨column, ['-']⟩ :: write (l.child i) (column + choice.step + 1) v) ++
      writeItems l (i + 1) column vs

def writeMembers (l : Layout) (i column : Nat) : List (String × Value) → List Line
  | [] => []
  | (k, v) :: ms =>
    let choice := l [i]
    let key := quoteChars k.toList
    (if v.isFlat then
        [⟨column, key ++ ':' :: (List.replicate (choice.gap + 1) ' ' ++ v.render.toList)⟩]
      else ⟨column, key ++ [':']⟩ :: write (l.child i) (memberColumn choice column v) v) ++
      writeMembers l (i + 1) column ms

end

/-- The text of a tree, each of its lines ended. -/
def print (l : Layout) (column : Nat) (v : Value) : List Char :=
  (l.write column v).flatMap fun line => line.chars ++ ['\n']

end Layout

/-! ## Lines and their tokens -/

section Lines

variable {n c d : Nat} {ls ls' : List Line} {ts us found : List Token} {text : List Char}
  {v : Value}

theorem tokensFrom_append (n : Nat) (found : List Token) (xs ys : List (List Char)) :
    tokensFrom n found (xs ++ ys) =
      (tokensFrom n found xs).bind fun found => tokensFrom (n + xs.length) found ys := by
  induction xs generalizing n found with
  | nil => rfl
  | cons x xs ih =>
    rw [List.cons_append, tokensFrom, tokensFrom]
    cases lineTokens n found x with
    | error e => rfl
    | ok found =>
      dsimp only
      rw [ih, List.length_cons, Nat.add_assoc n, Nat.add_comm 1]

/-- Blanks in front of a line only move what stands on it. -/
theorem lineTokens_visible (h : Visible text) (hline : readLine n [] c text = .ok found) :
    lineTokens n [] (List.replicate c ' ' ++ text) = .ok found := by
  obtain ⟨⟨d, more, rfl, hd⟩, hmarker, -⟩ := h
  simp only [List.mem_cons, not_or] at hd
  obtain ⟨hspace, htab, hhash, hpercent, -⟩ := hd
  have hbeq {e : Char} (he : d ≠ e) : (d == e) = false := beq_eq_false_iff_ne.2 he
  -- The margin ends at the first character, so it is made of blanks and holds no tab.
  have hmargin : (List.replicate c ' ' ++ d :: more).takeWhile (fun c => c == ' ' || c == '\t') =
      List.replicate c ' ' := by
    rw [List.takeWhile_append_of_pos fun e he => by rw [List.eq_of_mem_replicate he]; rfl,
      List.takeWhile_cons_of_neg (by rw [hbeq hspace, hbeq htab]; exact Bool.false_ne_true),
      List.append_nil]
  have hidx : (List.replicate c ' ').idxOf? '\t' = none := by
    rw [List.idxOf?_eq_none_iff]
    exact fun h => absurd (List.eq_of_mem_replicate h) (by decide)
  have hbody : (List.replicate c ' ' ++ d :: more).drop c = d :: more :=
    List.drop_left' List.length_replicate
  rw [lineTokens, hmargin]
  rw [List.length_replicate, hbody, List.head?_cons]
  split
  · next h => cases h
  · next h => exact absurd (Option.some.inj h) hhash
  next h =>
  cases h
  rw [hidx, hmarker, hbeq hpercent, hline, Bool.and_false]
  rfl

/-- Lines that begin at a column and have the tokens. -/
inductive Printed (n c : Nat) : List Line → List Token → Prop where
  | mk {text : List Char} {rest : List Line} {ts us : List Token} (hvisible : Visible text)
      (hline : readLine n [] c text = .ok ts.reverse)
      (hrest : tokensFrom (n + 1) [] (rest.map Line.chars) = .ok us.reverse)
      (hunbroken : ∀ line ∈ rest, '\n' ∉ line.text ∧ '\r' ∉ line.text) :
      Printed n c (⟨c, text⟩ :: rest) (ts ++ us)

theorem Printed.tokens (h : Printed n c ls ts) :
    tokensFrom n [] (ls.map Line.chars) = .ok ts.reverse := by
  cases h with
  | mk hvisible hline hrest =>
    rw [List.map_cons, tokensFrom, Line.chars, lineTokens_visible hvisible hline]
    dsimp only
    rw [tokensFrom_found, hrest, List.reverse_append]
    rfl

theorem Printed.unbroken (h : Printed n c ls ts) :
    ∀ line ∈ ls, '\n' ∉ line.text ∧ '\r' ∉ line.text := by
  cases h with
  | mk hvisible _ _ hunbroken => exact List.forall_mem_cons.2 ⟨hvisible.unbroken, hunbroken⟩

/-- A single line. -/
theorem Printed.line (hvisible : Visible text) (hline : readLine n [] c text = .ok ts.reverse) :
    Printed n c [⟨c, text⟩] ts := by
  have h : Printed n c [⟨c, text⟩] (ts ++ []) := .mk hvisible hline rfl nofun
  rwa [List.append_nil] at h

theorem Printed.append (h : Printed n c ls ts) (h' : Printed (n + ls.length) d ls' us) :
    Printed n c (ls ++ ls') (ts ++ us) := by
  have htokens := h'.tokens
  -- Only the first line is told from the others, and it stays the first one.
  cases h with
  | @mk text rest ts₁ ts₂ hvisible hline hrest hunbroken =>
    rw [List.cons_append, List.append_assoc]
    refine .mk hvisible hline ?_ (List.forall_mem_append.2 ⟨hunbroken, h'.unbroken⟩)
    rw [List.length_cons, Nat.add_comm rest.length, ← Nat.add_assoc] at htokens
    rw [List.map_append, tokensFrom_append, hrest, List.length_map]
    dsimp only [Except.bind]
    rw [tokensFrom_found, htokens, List.reverse_append]
    rfl

theorem readLine_dash (gap : Nat) (h : Visible text) :
    readLine n [] c ('-' :: (List.replicate (gap + 1) ' ' ++ text)) =
      (readLine n [] (c + gap + 2) text).map (· ++ [⟨.dash, n, c⟩]) := by
  obtain ⟨⟨d, more, rfl, hd⟩, -, -⟩ := h
  simp only [List.mem_cons, not_or] at hd
  obtain ⟨hspace, htab, hhash, -, -⟩ := hd
  have hdrop : (List.replicate (gap + 1) ' ' ++ d :: more).dropWhile (· == ' ') = d :: more := by
    rw [List.dropWhile_append_of_pos fun e he => beq_iff_eq.2 (List.eq_of_mem_replicate he)]
    exact dropWhile_blank hspace
  have hcolumn : c + 1 + ((List.replicate (gap + 1) ' ' ++ d :: more).length - (d :: more).length) =
      c + gap + 2 := by
    rw [List.length_append, List.length_replicate, Nat.add_sub_cancel]
    omega
  have hapart : isApart (List.replicate (gap + 1) ' ' ++ d :: more) = true := rfl
  rw [readLine, if_pos hapart]
  dsimp only
  rw [hdrop, hcolumn, List.head?_cons]
  split
  · next h => cases h
  · next h => exact absurd (Option.some.inj h) hhash
  · next h => exact absurd (Option.some.inj h) htab
  · exact readLine_found n _ _ _

theorem unbroken_blanks {d e : Char} (hd : d ≠ e ∧ d ≠ ' ') (n : Nat) (h : d ∉ text) :
    d ∉ e :: (List.replicate n ' ' ++ text) := by
  rw [List.mem_cons, List.mem_append]
  rintro (h' | h' | h')
  · exact hd.1 h'
  · exact hd.2 (List.eq_of_mem_replicate h')
  · exact h h'

theorem visible_dash (gap : Nat) (h : '\n' ∉ text ∧ '\r' ∉ text) :
    Visible ('-' :: (List.replicate (gap + 1) ' ' ++ text)) where
  head := ⟨'-', _, rfl, by decide⟩
  noMarker := rfl
  unbroken := ⟨unbroken_blanks (by decide) _ h.1, unbroken_blanks (by decide) _ h.2⟩

/-- A block on the line of a dash stands behind it. -/
theorem Printed.onDash (gap : Nat) (h : Printed n (c + gap + 2) ls ts) :
    Printed n c (onDash c gap ls) (⟨.dash, n, c⟩ :: ts) := by
  cases h with
  | @mk text rest ts₁ ts₂ hvisible hline hrest hunbroken =>
    rw [← List.cons_append]
    refine .mk (visible_dash gap hvisible.unbroken) ?_ hrest hunbroken
    rw [readLine_dash gap hvisible, hline, List.reverse_cons]
    rfl

theorem printed_dash : Printed n c [⟨c, ['-']⟩] [⟨.dash, n, c⟩] := by
  refine .line ⟨⟨'-', [], rfl, by decide⟩, rfl, by decide⟩ ?_
  rw [readLine]
  rfl

theorem readLine_content (hdash : ∀ rest, text = '-' :: rest → isApart rest = false)
    (hcontent : readContent .ready [] c text = .ok text) :
    readLine n [] c text = .ok [⟨.content text, n, c⟩] := by
  unfold readLine
  split
  · next rest =>
    rw [hdash rest rfl, hcontent]
    rfl
  · rw [hcontent]
    rfl

theorem Flat.printed (h : Flat text v) : Printed n c [⟨c, text⟩] [⟨.content text, n, c⟩] :=
  .line h.toVisible (readLine_content h.noDash (h.content [] c))

theorem printed_key (n c : Nat) (k : String) :
    Printed n c [⟨c, quoteChars k.toList ++ [':']⟩]
      [⟨.content (quoteChars k.toList ++ [':']), n, c⟩] := by
  have hcolon : '\n' ∉ [':'] ∧ '\r' ∉ [':'] := by decide
  refine .line (visible_quoteChars hcolon _) (readLine_content (fun rest h => ?_) ?_)
  · cases (List.cons.inj h).1
  · exact readContent_key c k.toList

theorem Flat.printed_entry (h : Flat text v) (n c gap : Nat) (k : String) :
    Printed n c [⟨c, quoteChars k.toList ++ ':' :: (List.replicate (gap + 1) ' ' ++ text)⟩]
      [⟨.content (quoteChars k.toList ++ ':' :: (List.replicate (gap + 1) ' ' ++ text)),
        n, c⟩] := by
  have hfeed := unbroken_blanks (e := ':') (by decide) (gap + 1) h.unbroken.1
  have hreturn := unbroken_blanks (e := ':') (by decide) (gap + 1) h.unbroken.2
  refine .line (visible_quoteChars ⟨hfeed, hreturn⟩ _) (readLine_content (fun rest h => ?_) ?_)
  · cases (List.cons.inj h).1
  · exact readContent_entry h c gap k.toList

end Lines

/-! ## Trees -/

section Trees

variable {c : Nat} {v : Value} {ts : List Token}

/-- The lines of a tree, at any place and in any layout, spell the tree. -/
def WrittenSpelled (v : Value) : Prop :=
  ∀ (l : Layout) (n c : Nat), ∃ ts,
    Printed n c (l.write c v) ts ∧ Spelled .reader c (.node v.current) ts

theorem written_flat (hflat : v.isFlat = true) (hnumbers : v.AllNumbers Value.IsInteger) :
    WrittenSpelled v := by
  intro l n c
  have h := flat_render hflat hnumbers
  have hwrite : l.write c v = [⟨c, v.render.toList⟩] := by
    unfold Layout.write
    split
    · cases hflat
    · cases hflat
    · rfl
  rw [hwrite]
  exact ⟨_, h.printed, .scalar (t := ⟨.content _, n, c⟩) ⟨_, rfl, h.noEntry c, h.scalar c⟩⟩

/-- The entry of a sequence begins on the line of its dash or on the next one. -/
theorem written_item (hv : WrittenSpelled v) (l : Layout) (n c : Nat) (choice : Choice) :
    ∃ ts, Printed n c
        (if v.isFlat ∨ choice.sameLine then onDash c choice.gap (l.write (c + choice.gap + 2) v)
          else ⟨c, ['-']⟩ :: l.write (c + choice.step + 1) v) ts ∧
      Spelled .reader c (.item v.current) ts := by
  split
  · obtain ⟨ts, hprinted, hspelled⟩ := hv l n (c + choice.gap + 2)
    have hdeeper : c < c + choice.gap + 2 := by omega
    refine ⟨_, hprinted.onDash choice.gap, ?_⟩
    exact .item (t := ⟨.dash, n, c⟩) rfl (.deeper hdeeper hspelled)
  · obtain ⟨ts, hprinted, hspelled⟩ := hv l (n + 1) (c + choice.step + 1)
    have hdeeper : c < c + choice.step + 1 := by omega
    refine ⟨_, printed_dash.append hprinted, ?_⟩
    exact .item (t := ⟨.dash, n, c⟩) rfl (.deeper hdeeper hspelled)

theorem written_items {vs : List Value} (hvs : ∀ v ∈ vs, WrittenSpelled v) (hne : vs ≠ [])
    (l : Layout) (i n c : Nat) :
    ∃ ts, Printed n c (l.writeItems i c vs) ts ∧
      Spelled .reader c (.items (Value.currentAll vs)) ts := by
  induction vs generalizing i n with
  | nil => exact absurd rfl hne
  | cons v vs ih =>
    rw [List.forall_mem_cons] at hvs
    obtain ⟨ts, hprinted, hspelled⟩ := written_item hvs.1 (l.child i) n c (l [i])
    rw [Layout.writeItems, Value.currentAll]
    cases vs with
    | nil =>
      rw [Layout.writeItems, List.append_nil]
      exact ⟨ts, hprinted, .lastItem hspelled⟩
    | cons u us =>
      obtain ⟨ts', hprinted', hspelled'⟩ := ih hvs.2 (List.cons_ne_nil u us) (i + 1) _
      exact ⟨ts ++ ts', hprinted.append hprinted', .moreItems hspelled hspelled'⟩

/-- A node with something in it that is an array begins with a dash. -/
theorem Spelled.items_of_node {vs : List Value} (h : Spelled .reader c (.node (.array vs)) ts)
    (hne : vs ≠ []) : Spelled .reader c (.items vs) ts := by
  cases h with
  | scalar h =>
    obtain ⟨text, -, -, hscalar⟩ := h
    have hheight := Value.heightAll_le_iff.1 (Nat.le_of_eq (height_of_scalar hscalar))
    obtain ⟨v, hv⟩ := List.exists_mem_of_ne_nil vs hne
    exact absurd (hheight v hv) (Nat.not_succ_le_zero _)
  | sequence h => exact h

/-- The value of a key stands on its line, or below. -/
theorem written_member (hv : WrittenSpelled v) (hnumbers : v.AllNumbers Value.IsInteger)
    (l : Layout) (n c : Nat) (choice : Choice) (k : String) :
    ∃ ts, Printed n c
        (if v.isFlat then
          [⟨c, quoteChars k.toList ++ ':' ::
            (List.replicate (choice.gap + 1) ' ' ++ v.render.toList)⟩]
        else ⟨c, quoteChars k.toList ++ [':']⟩ :: l.write (Layout.memberColumn choice c v) v) ts ∧
      Spelled .reader c (.member k v.current) ts := by
  split
  · -- The content of the line is the whole entry.
    next hflat =>
    have h := flat_render hflat hnumbers
    obtain ⟨column, hentry⟩ :=
      splitEntry_quoteChars c k.toList (head?_blanks choice.gap v.render.toList)
    obtain ⟨column', hvalue⟩ := entryValue?_blanks column (choice.gap + 1) h.toVisible
    rw [String.ofList_toList, hvalue] at hentry
    refine ⟨_, h.printed_entry n c choice.gap k, ?_⟩
    exact .inlineMember (t := ⟨.content _, n, c⟩)
      ⟨_, _, rfl, hentry, rfl, .scalar (h.scalar column')⟩
  · next hdeep =>
    obtain ⟨ts, hprinted, hspelled⟩ := hv l (n + 1) (Layout.memberColumn choice c v)
    have hends : ([] : List Char).head?.all (· == ' ') = true := rfl
    obtain ⟨column, hentry⟩ := splitEntry_quoteChars c k.toList hends
    rw [String.ofList_toList] at hentry
    have hkey : Lexicon.reader.entry ⟨.content (quoteChars k.toList ++ [':']), n, c⟩ k none :=
      ⟨_, _, rfl, hentry, rfl, .nothing⟩
    refine ⟨_, (printed_key n c k).append hprinted, ?_⟩
    unfold Layout.memberColumn at hspelled
    split at hspelled
    · -- A sequence at the column of its key. There is an entry in it, as it is not flat.
      next haligned =>
      cases v with
      | array vs =>
        have hne : Value.currentAll vs ≠ [] := by
          rw [Value.currentAll_eq_map]
          rintro hnil
          rw [List.map_eq_nil_iff.1 hnil] at hdeep
          exact hdeep rfl
        exact .alignedMember hkey (hspelled.items_of_node hne)
      | _ => cases haligned.2
    · have hdeeper : c < c + choice.step + 1 := by omega
      exact .nestedMember hkey (.deeper hdeeper hspelled)

theorem written_members {ms : List (String × Value)} (hms : ∀ m ∈ ms, WrittenSpelled m.2)
    (hnumbers : ∀ m ∈ ms, m.2.AllNumbers Value.IsInteger) (hne : ms ≠ []) (l : Layout)
    (i n c : Nat) :
    ∃ ts, Printed n c (l.writeMembers i c ms) ts ∧
      Spelled .reader c (.members (Value.currentMembers ms)) ts := by
  induction ms generalizing i n with
  | nil => exact absurd rfl hne
  | cons m ms ih =>
    obtain ⟨k, v⟩ := m
    rw [List.forall_mem_cons] at hms hnumbers
    obtain ⟨ts, hprinted, hspelled⟩ := written_member hms.1 hnumbers.1 (l.child i) n c (l [i]) k
    rw [Layout.writeMembers, Value.currentMembers]
    cases ms with
    | nil =>
      rw [Layout.writeMembers, List.append_nil]
      exact ⟨ts, hprinted, .lastMember hspelled⟩
    | cons m ms =>
      obtain ⟨ts', hprinted', hspelled'⟩ := ih hms.2 hnumbers.2 (List.cons_ne_nil m ms) (i + 1) _
      exact ⟨ts ++ ts', hprinted.append hprinted', .moreMembers hspelled hspelled'⟩

theorem writtenSpelled (hnumbers : v.AllNumbers Value.IsInteger) (hkeys : v.KeysDistinct) :
    WrittenSpelled v := by
  induction v using Value.induction with
  | null | bool | number | string => exact written_flat rfl hnumbers
  | array items ih =>
    cases items with
    | nil => exact written_flat rfl hnumbers
    | cons v vs =>
      rw [Value.AllNumbers, Value.allNumbersOf_iff] at hnumbers
      rw [Value.KeysDistinct, Value.allKeysDistinct_iff] at hkeys
      intro l n c
      obtain ⟨ts, hprinted, hspelled⟩ := written_items
        (fun u hu => ih u hu (hnumbers u hu) (hkeys u hu)) (List.cons_ne_nil v vs) l 0 n c
      exact ⟨ts, by rwa [Layout.write], .sequence hspelled⟩
  | object members replaced ih =>
    cases members with
    | nil => exact written_flat rfl hnumbers
    | cons m ms =>
      rw [Value.AllNumbers, Value.membersNumbers_iff] at hnumbers
      obtain ⟨hnodup, hkeys⟩ := hkeys
      rw [Value.membersKeysDistinct_iff] at hkeys
      intro l n c
      obtain ⟨ts, hprinted, hspelled⟩ := written_members
        (fun u hu => ih u hu (hnumbers u hu) (hkeys u hu)) hnumbers (List.cons_ne_nil m ms) l 0 n c
      refine ⟨ts, by rwa [Layout.write], .mapping hspelled ?_⟩
      rwa [Value.keys_currentMembers]

end Trees

/-! ## Texts -/

section Texts

variable {v : Value}

theorem lines_print {ls : List Line} (h : ∀ line ∈ ls, '\n' ∉ line.text ∧ '\r' ∉ line.text) :
    lines (ls.flatMap fun line => line.chars ++ ['\n']) = ls.map Line.chars ++ [[]] := by
  induction ls with
  | nil => rfl
  | cons line ls ih =>
    rw [List.forall_mem_cons] at h
    -- What is no blank can only stand in the text of a line.
    have hblanks {d : Char} (hd : d ≠ ' ') (htext : d ∉ line.text) : d ∉ line.chars := by
      rw [Line.chars, List.mem_append]
      exact fun hmem => hmem.elim (fun hmem => hd (List.eq_of_mem_replicate hmem)) htext
    have hreturn : line.chars.getLast? ≠ some '\r' := fun hlast =>
      hblanks (by decide) h.1.2 (List.mem_of_getLast? hlast)
    rw [List.flatMap_cons, List.append_assoc, List.singleton_append, lines,
      List.splitOn_append_cons_self_of_not_mem (hblanks (by decide) h.1.1), List.map_cons,
      if_neg hreturn, List.map_cons, List.cons_append, ← ih h.2, lines]

theorem Printed.dropMark {c : Nat} {ls : List Line} {ts : List Token} (h : Printed 0 c ls ts) :
    dropMark (ls.flatMap fun line => line.chars ++ ['\n']) =
      ls.flatMap fun line => line.chars ++ ['\n'] := by
  cases h with
  | mk hvisible =>
    obtain ⟨d, more, rfl, hd⟩ := hvisible.head
    rw [List.flatMap_cons, Line.chars]
    -- The text begins with a blank, or with what shows first, and neither is a mark.
    cases c with
    | zero =>
      unfold Yaml.dropMark
      split
      · next h =>
        obtain ⟨rfl, -⟩ := List.cons.inj h
        exact absurd (by decide) hd
      · rfl
    | succ c => rfl

/-- Characters are valid UTF-8, so the reader takes their text for what it is. -/
theorem parse_of_readText {cs : List Char} (h : readText (dropMark cs) = .ok v) :
    parse (Utf8.encode cs) = .ok ⟨v⟩ := by
  rw [parse, read, Utf8.split_encode]
  dsimp only
  rw [h]
  rfl

/-- A tree that keeps within the limit is read from its text in any layout. -/
theorem readText_print (l : Layout) (c : Nat) (hnumbers : v.AllNumbers Value.IsInteger)
    (hkeys : v.KeysDistinct) (hheight : v.height ≤ 512) :
    readText (dropMark (l.print c v)) = .ok v.current := by
  obtain ⟨ts, hprinted, hspelled⟩ := writtenSpelled hnumbers hkeys l 0 c
  have htokens : tokens (l.print c v) = .ok ts := by
    rw [tokens, Layout.print, lines_print hprinted.unbroken, tokensFrom_append, hprinted.tokens]
    exact congrArg Except.ok ts.reverse_reverse
  rw [Layout.print, hprinted.dropMark, ← Layout.print, readText_iff]
  exact ⟨ts, htokens, .inr ⟨c, hspelled, Nat.le_trans v.height_current_le hheight⟩⟩

/--
A tree of integers, texts, truth values and nulls is read from its text in every layout, if no more
than 512 arrays and objects lie in each other and no object has a key twice. What is read has the
same kinds and values in the same order.
-/
theorem parse_print (l : Layout) (c : Nat) (hnumbers : v.AllNumbers Value.IsInteger)
    (hkeys : v.KeysDistinct) (hnesting : v.nesting ≤ 512) :
    ∃ d, parse (Utf8.encode (l.print c v)) = .ok d ∧ v.same d.root = true := by
  have hread := readText_print l c hnumbers hkeys (Nat.le_trans v.height_le_nesting hnesting)
  refine ⟨⟨v.current⟩, parse_of_readText hread, Value.same_current (hnumbers.mono fun n hn => ?_)⟩
  cases n with
  | int n => trivial
  | float x => cases hn

/-- A sequence at the column of its key, and a mapping on the line of its dash. -/
theorem parse_print_aligned :
    let v : Value := .object
      [("a\t", .array [.number (.int (-5)), .object [("b", .array []), ("c", .null)] []]),
        ("", .string "#")] []
    let l : Layout := fun path => ⟨path.length, true, 2, true⟩
    v.AllNumbers Value.IsInteger ∧ v.KeysDistinct ∧ v.nesting ≤ 512 ∧
      ∃ d, parse (Utf8.encode (l.print 1 v)) = .ok d ∧ v.same d.root = true := by
  intro v l
  have hnumbers : v.AllNumbers Value.IsInteger := by
    simp [v, Value.AllNumbers, Value.AllNumbersOf, Value.MembersNumbers, Value.IsInteger,
      Json.Fits]
  have hkeys : v.KeysDistinct := by
    simp [v, Value.KeysDistinct, Value.AllKeysDistinct, Value.MembersKeysDistinct]
  have hnesting : v.nesting ≤ 512 := by decide
  exact ⟨hnumbers, hkeys, hnesting, parse_print l 1 hnumbers hkeys hnesting⟩

/-- The same mapping on the line of its dash and below it. -/
example :
    let v : Value := .array [.object [("a", .array [.bool true]), ("b", .null)] []]
    (Layout.print (fun _ => ⟨0, true, 1, true⟩) 0 v,
      Layout.print (fun _ => ⟨1, false, 0, false⟩) 0 v) =
    ("- \"a\":\n  - true\n  \"b\": null\n".toList,
      "-\n \"a\":\n  -  true\n \"b\":  null\n".toList) := by decide

end Texts

end Yaml

end PackageAudit

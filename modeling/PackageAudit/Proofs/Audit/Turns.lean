import Mathlib.Data.List.Chain
import PackageAudit.Proofs.Audit.Contract
import PackageAudit.Proofs.Package.Entries

/-!
# Proofs.Audit.Turns — no file is passed over

Once it is built, a checker is asked to look at one file after the other, in each of its passes, and
then to come to its end. A path without an entry would be passed over in silence, but every file has
one. So all that keeps a checker from seeing a file is what it did itself before:

* `Task`, `Checker.rounds` — what a checker is to be asked, by the files of the package;
* `Turn`, `Checker.turns` — what it is asked, with what it keeps and what it has reported by then;
* `Checker.Halts` — it gives up in a turn, or breaks the rules of reporting;
* `Checker.MakesUp` — the turns are all that is done once the checker is built;
* `Checker.turns_follow_files` — they follow the files up to the first one that halts.
-/

namespace PackageAudit

/-- One thing that a checker is asked to do once it is built. -/
inductive Task where
  | visit (pass : Nat) (entry : Entry)
  | finish
  deriving DecidableEq

/-- A task that is begun: with what the checker keeps, and what it has reported by then. -/
structure Turn (σ : Type) where
  task : Task
  state : σ
  batch : Batch

namespace Checker

variable (c : Checker) (s : Subject)

/-! ## Tasks -/

/-- What a checker does when it is asked to. -/
def respond : Task → c.State → Check c.State
  | .visit pass e, state => c.visit s e pass state
  | .finish, state => do c.finish s state; pure state

/-- What is asked of a checker, as the entries of the package have it. -/
def tasks (s : Subject) (passes : Nat) : List Task :=
  (visits s.source.files s.entries passes).map (fun (pass, e) => .visit pass e) ++ [.finish]

/-- A look at every file in every pass, in the order of the package. -/
def rounds (s : Subject) (passes : Nat) : List Task :=
  (List.range passes).flatMap fun pass =>
    s.source.files.map fun path => .visit pass (.classify s.target false path)

theorem calls_eq_map (passes : Nat) : c.calls s passes = (tasks s passes).map (c.respond s) := by
  rw [calls, tasks, List.map_append, List.map_map]
  rfl

/-- No file is missing from the entries of its package. -/
theorem tasks_eq_rounds (source : Source) (baselines : Baselines) (passes : Nat) :
    tasks (.of source baselines) passes = rounds (.of source baselines) passes ++ [.finish] := by
  let s := Subject.of source baselines
  have hfiles : source.files.filterMap s.entries.get? =
      source.files.map fun path => .classify s.target false path :=
    EntrySet.filterMap_get?_files
  rw [tasks, rounds, visits, List.map_flatMap]
  change ((List.range passes).flatMap fun pass =>
    ((source.files.filterMap s.entries.get?).map fun e => (pass, e)).map _) ++ _ = _
  rw [hfiles]
  simp only [List.map_map]
  rfl

/-! ## Turns -/

/-- What comes of a turn. -/
def outcome (turn : Turn c.State) : Batch × Except Stop c.State :=
  (c.respond s turn.task turn.state).perform c.name c.checks turn.batch

/-- The reports that are made in a turn. -/
def reports (turn : Turn c.State) : List Call :=
  (c.respond s turn.task turn.state).log c.name c.checks turn.batch

/-- In a turn the checker gives up, or breaks the rules of reporting. -/
def Halts (turn : Turn c.State) : Prop :=
  (∃ cause, (c.outcome s turn).2 = .error cause) ∨ (c.outcome s turn).1.breach ≠ none

/-- What the next turn starts from. -/
def next? (turn : Turn c.State) : Option (c.State × Batch) :=
  match c.outcome s turn with
  | (b, .ok state) => if b.breach.isSome then none else some (state, b)
  | (_, .error _) => none

variable {c s} in
theorem next?_eq_none_iff {turn : Turn c.State} : c.next? s turn = none ↔ c.Halts s turn := by
  unfold next? Halts
  rcases c.outcome s turn with ⟨b, cause | state⟩
  · simp
  · cases hbreach : b.breach <;> simp [hbreach]

instance (turn : Turn c.State) : Decidable (c.Halts s turn) :=
  decidable_of_iff (c.next? s turn = none) next?_eq_none_iff

/-- The turns for tasks, from what a checker keeps and what it has reported on. -/
def turnsFrom : List Task → c.State → Batch → List (Turn c.State)
  | [], _, _ => []
  | task :: rest, state, b =>
    ⟨task, state, b⟩ ::
      match c.next? s ⟨task, state, b⟩ with
      | some (state, b) => turnsFrom rest state b
      | none => []

/-- The turns of a checker once it is built. -/
def turns : List (Turn c.State) :=
  match (c.build s).perform c.name c.checks .empty with
  | (b, .ok (some state)) =>
    if b.breach.isSome then [] else c.turnsFrom s (tasks s (c.passes state)) state b
  | _ => []

variable {c s} {task : Task} {todo rest : List Task} {state state' : c.State} {b b' : Batch}
  {turn : Turn c.State}

theorem next?_eq_some_iff :
    c.next? s turn = some (state, b) ↔ c.outcome s turn = (b, .ok state) ∧ b.breach = none := by
  unfold next?
  rcases c.outcome s turn with ⟨b', cause | state'⟩
  · simp
  · cases hbreach : b'.breach with
    | some breach =>
      simp only [hbreach, Option.isSome_some, if_true, reduceCtorEq, Prod.mk.injEq, false_iff]
      rintro ⟨⟨rfl, -⟩, hnone⟩
      rw [hnone] at hbreach
      cases hbreach
    | none =>
      simp only [hbreach, Option.isSome_none, Bool.false_eq_true, if_false, Option.some.injEq,
        Prod.mk.injEq, Except.ok.injEq]
      constructor
      · rintro ⟨rfl, rfl⟩
        exact ⟨⟨rfl, rfl⟩, hbreach⟩
      · rintro ⟨⟨rfl, rfl⟩, -⟩
        exact ⟨rfl, rfl⟩

theorem turnsFrom_of_halts (h : c.Halts s ⟨task, state, b⟩) :
    c.turnsFrom s (task :: rest) state b = [⟨task, state, b⟩] := by
  rw [turnsFrom, next?_eq_none_iff.2 h]

theorem turnsFrom_of_next? (h : c.next? s ⟨task, state, b⟩ = some (state', b')) :
    c.turnsFrom s (task :: rest) state b = ⟨task, state, b⟩ :: c.turnsFrom s rest state' b' := by
  rw [turnsFrom, h]

/-- A turn that does not halt is followed by the next one. -/
theorem exists_next? (h : ¬ c.Halts s turn) : ∃ state b, c.next? s turn = some (state, b) := by
  rw [← next?_eq_none_iff, ← Ne, Option.ne_none_iff_exists'] at h
  obtain ⟨⟨state, b⟩, hnext⟩ := h
  exact ⟨state, b, hnext⟩

/-! ## Up to the turn that halts -/

/--
Either there is a turn for every task and none of them halts, or the last turn is the first one that
does, and the tasks behind it are not begun.
-/
theorem turnsFrom_cases (todo : List Task) (state : c.State) (b : Batch) :
    ((c.turnsFrom s todo state b).map Turn.task = todo ∧
        ∀ turn ∈ c.turnsFrom s todo state b, ¬ c.Halts s turn) ∨
      ∃ front last, c.turnsFrom s todo state b = front ++ [last] ∧
        (front ++ [last]).map Turn.task <+: todo ∧
        c.Halts s last ∧ ∀ turn ∈ front, ¬ c.Halts s turn := by
  induction todo generalizing state b with
  | nil => exact .inl ⟨rfl, List.forall_mem_nil _⟩
  | cons task rest ih =>
    by_cases hhalts : c.Halts s ⟨task, state, b⟩
    · refine .inr ⟨[], _, turnsFrom_of_halts hhalts, ?_, hhalts, List.forall_mem_nil _⟩
      exact List.prefix_append [task] rest
    · obtain ⟨state', b', hnext⟩ := exists_next? hhalts
      rw [turnsFrom_of_next? hnext]
      rcases ih state' b' with ⟨htasks, hall⟩ | ⟨front, last, hturns, hbegun, hlast, hfront⟩
      · refine .inl ⟨?_, List.forall_mem_cons.2 ⟨hhalts, hall⟩⟩
        rw [List.map_cons, htasks]
      · refine .inr ⟨⟨task, state, b⟩ :: front, last, ?_, ?_, hlast, ?_⟩
        · rw [hturns]
          rfl
        · exact (List.prefix_cons_inj task).2 hbegun
        · exact List.forall_mem_cons.2 ⟨hhalts, hfront⟩

/-! ## The work of a checker -/

/-- A turn that halts is the last thing that is done. -/
theorem perform_of_halts (h : c.Halts s ⟨task, state, b⟩) :
    Check.performAll c.name c.checks ((task :: rest).map (c.respond s)) state b =
        c.outcome s ⟨task, state, b⟩ ∧
      Check.logAll c.name c.checks ((task :: rest).map (c.respond s)) state b =
        [c.reports s ⟨task, state, b⟩] := by
  rw [List.map_cons, Check.performAll, Check.logAll]
  have houtcome : (c.respond s task state).perform c.name c.checks b =
      c.outcome s ⟨task, state, b⟩ := rfl
  rw [houtcome]
  rcases hresult : c.outcome s ⟨task, state, b⟩ with ⟨b', cause | state'⟩
  · exact ⟨rfl, rfl⟩
  · rw [Halts, hresult] at h
    have hbreach : b'.breach.isSome = true := by
      rcases h with ⟨cause, hcause⟩ | hbreach
      · cases hcause
      · exact Option.isSome_iff_ne_none.2 hbreach
    simp only [hbreach, if_true, true_and]
    rfl

/-- Otherwise the rest is done from what comes of the turn. -/
theorem perform_of_next? (h : c.next? s ⟨task, state, b⟩ = some (state', b')) :
    Check.performAll c.name c.checks ((task :: rest).map (c.respond s)) state b =
        Check.performAll c.name c.checks (rest.map (c.respond s)) state' b' ∧
      Check.logAll c.name c.checks ((task :: rest).map (c.respond s)) state b =
        c.reports s ⟨task, state, b⟩ ::
          Check.logAll c.name c.checks (rest.map (c.respond s)) state' b' := by
  obtain ⟨houtcome, hbreach⟩ := next?_eq_some_iff.1 h
  have hperform : (c.respond s task state).perform c.name c.checks b = (b', .ok state') := houtcome
  rw [List.map_cons, Check.performAll, Check.logAll, hperform]
  simp only [hbreach, Option.isSome_none, Bool.false_eq_true, if_false, true_and]
  rfl

/-- Turns that begin with a state and a batch, and go on with what comes of each. -/
structure Linked (c : Checker) (s : Subject) (state : c.State) (b : Batch)
    (turns : List (Turn c.State)) : Prop where
  starts : ∀ turn, turns.head? = some turn → turn.state = state ∧ turn.batch = b
  goesOn : turns.IsChain fun turn turn' => c.next? s turn = some (turn'.state, turn'.batch)

theorem linked_turnsFrom (todo : List Task) (state : c.State) (b : Batch) :
    c.Linked s state b (c.turnsFrom s todo state b) := by
  induction todo generalizing state b with
  | nil => exact ⟨fun _ h => (nomatch h), .nil⟩
  | cons task rest ih =>
    by_cases hhalts : c.Halts s ⟨task, state, b⟩
    · rw [turnsFrom_of_halts hhalts]
      refine ⟨fun turn hturn => ?_, .singleton _⟩
      obtain rfl := Option.some.inj hturn
      exact ⟨rfl, rfl⟩
    · obtain ⟨state', b', hnext⟩ := exists_next? hhalts
      rw [turnsFrom_of_next? hnext]
      refine ⟨fun turn hturn => ?_, List.isChain_cons.2 ⟨fun turn hturn => ?_, ?_⟩⟩
      · obtain rfl := Option.some.inj hturn
        exact ⟨rfl, rfl⟩
      · obtain ⟨rfl, rfl⟩ := (ih state' b').starts turn hturn
        exact hnext
      · exact (ih state' b').goesOn

/-- The reports of the tasks that are begun are those of the turns. -/
theorem logAll_respond (todo : List Task) (state : c.State) (b : Batch) :
    Check.logAll c.name c.checks (todo.map (c.respond s)) state b =
      (c.turnsFrom s todo state b).map (c.reports s) := by
  induction todo generalizing state b with
  | nil => rfl
  | cons task rest ih =>
    by_cases hhalts : c.Halts s ⟨task, state, b⟩
    · rw [(perform_of_halts hhalts).2, turnsFrom_of_halts hhalts]
      rfl
    · obtain ⟨state', b', hnext⟩ := exists_next? hhalts
      rw [(perform_of_next? hnext).2, turnsFrom_of_next? hnext, ih]
      rfl

/-- What comes of all tasks is what comes of the last turn. -/
theorem performAll_respond (todo : List Task) (hne : todo ≠ []) (state : c.State) (b : Batch) :
    ∃ last, (c.turnsFrom s todo state b).getLast? = some last ∧
      Check.performAll c.name c.checks (todo.map (c.respond s)) state b = c.outcome s last := by
  induction todo generalizing state b with
  | nil => exact absurd rfl hne
  | cons task rest ih =>
    by_cases hhalts : c.Halts s ⟨task, state, b⟩
    · exact ⟨_, by rw [turnsFrom_of_halts hhalts]; rfl, (perform_of_halts hhalts).1⟩
    · obtain ⟨state', b', hnext⟩ := exists_next? hhalts
      rw [(perform_of_next? hnext).1, turnsFrom_of_next? hnext]
      cases rest with
      | nil =>
        -- nothing is left to be done
        refine ⟨_, rfl, ?_⟩
        exact ((next?_eq_some_iff.1 hnext).1).symm
      | cons next rest =>
        obtain ⟨last, hlast, hperform⟩ := ih (List.cons_ne_nil _ _) state' b'
        exact ⟨last, by rw [List.getLast?_cons, hlast]; rfl, hperform⟩

/-- Turns that make up what is done once a checker is built with a state. -/
structure MakesUp (c : Checker) (s : Subject) (state : c.State) (b : Batch)
    (turns : List (Turn c.State)) : Prop extends c.Linked s state b turns where
  /-- All reports are made in them, or while the checker is built. -/
  logs : c.logs s = (c.build s).log c.name c.checks .empty :: turns.map (c.reports s)
  /-- The work ends as the last one of them does. -/
  ends : ∃ last, turns.getLast? = some last ∧
    (c.work s).1 = (c.outcome s last).1 ∧
      ∀ cause, (c.work s).2 = some cause ↔ (c.outcome s last).2 = .error cause

section Built

variable (hbuild : (c.build s).perform c.name c.checks .empty = (b, .ok (some state)))
  (hb : b.breach = none)
include hbuild hb

theorem turns_of_build : c.turns s = c.turnsFrom s (tasks s (c.passes state)) state b := by
  simp only [turns, hbuild, hb, Option.isSome_none, Bool.false_eq_true, if_false]

theorem makesUp_turns : c.MakesUp s state b (c.turns s) := by
  rw [turns_of_build hbuild hb]
  have hne : tasks s (c.passes state) ≠ [] := List.append_ne_nil_of_right_ne_nil _ (by simp)
  refine ⟨linked_turnsFrom _ _ _, ?_, ?_⟩
  · simp only [logs, hbuild, hb, Option.isSome_none, Bool.false_eq_true, if_false, calls_eq_map,
      logAll_respond]
  · obtain ⟨last, hlast, hperform⟩ := performAll_respond _ hne state b
    refine ⟨last, hlast, ?_⟩
    simp only [work, hbuild, hb, Option.isSome_none, Bool.false_eq_true, if_false, calls_eq_map,
      hperform]
    rcases c.outcome s last with ⟨b', cause | state'⟩
    · simp
    · simp

end Built

/-- Visits and then the end are begun in order, up to the first turn that halts. -/
structure Follows (c : Checker) (s : Subject) (visits : List Task) : Prop where
  begun : (c.turns s).map Turn.task <+: visits ++ [Task.finish]
  all : (∀ turn ∈ c.turns s, ¬ c.Halts s turn) →
    (c.turns s).map Turn.task = visits ++ [Task.finish]
  upTo : ∀ front turn behind, c.turns s = front ++ turn :: behind → c.Halts s turn →
    behind = [] ∧ (∀ earlier ∈ front, ¬ c.Halts s earlier) ∧
      (c.turns s).map Turn.task = (visits ++ [Task.finish]).take (front.length + 1)
  finish_iff : Task.finish ∈ (c.turns s).map Turn.task ↔
    ∀ turn ∈ c.turns s, c.Halts s turn → turn.task = .finish

/-- If a turn halts, it is the last one. -/
theorem eq_last_of_halts {turns front front' behind : List (Turn c.State)}
    {last turn : Turn c.State} (hends : turns = front ++ [last])
    (hfront : ∀ turn ∈ front, ¬ c.Halts s turn) (hsplit : turns = front' ++ turn :: behind)
    (hhalts : c.Halts s turn) : front' = front ∧ turn = last ∧ behind = [] := by
  rcases List.eq_nil_or_concat behind with rfl | ⟨behind, other, rfl⟩
  · obtain ⟨rfl, hlast⟩ := List.append_inj' (hsplit.symm.trans hends) rfl
    exact ⟨rfl, (List.cons.inj hlast).1, rfl⟩
  · -- it would stand in front of the last one, where no turn halts
    rw [List.concat_eq_append, ← List.cons_append, ← List.append_assoc] at hsplit
    obtain ⟨rfl, -⟩ := List.append_inj' (hsplit.symm.trans hends) rfl
    exact absurd hhalts (hfront turn (List.mem_append_right front' List.mem_cons_self))

theorem follows_of_turnsFrom {visits : List Task} (hvisits : Task.finish ∉ visits)
    (hturns : c.turns s = c.turnsFrom s (visits ++ [Task.finish]) state b) :
    c.Follows s visits := by
  have hcases := turnsFrom_cases (c := c) (s := s) (visits ++ [Task.finish]) state b
  rw [← hturns] at hcases
  rcases hcases with ⟨htasks, hall⟩ | ⟨front, last, hends, hbegun, hlast, hfront⟩
  -- no turn halts: everything is begun, the end at last
  · refine ⟨htasks ▸ List.prefix_refl _, fun _ => htasks, ?_, ?_⟩
    · intro front turn behind hsplit hhalts
      have hmem : turn ∈ c.turns s := by
        rw [hsplit]
        exact List.mem_append_right front List.mem_cons_self
      exact absurd hhalts (hall turn hmem)
    · rw [htasks]
      refine iff_of_true (List.mem_append_right visits List.mem_cons_self) ?_
      exact fun turn hturn hhalts => absurd hhalts (hall turn hturn)
  -- the last turn halts and no other one does
  · have hmem : last ∈ c.turns s := by
      rw [hends]
      exact List.mem_append_right front List.mem_cons_self
    refine ⟨hends ▸ hbegun, fun hall => absurd hlast (hall last hmem), ?_, ?_, ?_⟩
    · intro front' turn behind hsplit hhalts
      obtain ⟨rfl, rfl, rfl⟩ := eq_last_of_halts hends hfront hsplit hhalts
      refine ⟨rfl, hfront, ?_⟩
      rw [hends, List.prefix_iff_eq_take.1 hbegun, List.length_map, List.length_append]
      rfl
    · -- the end is asked for once, and last
      intro hfinish turn hturn hhalts
      obtain ⟨front', behind, hsplit⟩ := List.append_of_mem hturn
      obtain ⟨-, rfl, -⟩ := eq_last_of_halts hends hfront hsplit hhalts
      rw [hends] at hfinish
      rcases List.prefix_concat_iff.1 hbegun with htasks | hbefore
      · rw [List.map_append] at htasks
        obtain ⟨-, htask⟩ := List.append_inj' htasks rfl
        exact (List.cons.inj htask).1
      · exact absurd (hbefore.subset hfinish) hvisits
    · intro hfinish
      exact List.mem_map.2 ⟨last, hmem, hfinish last hmem hlast⟩

/--
A checker that is built is asked to look at every file of the package, in each of its passes and in
the order of the package, and then to come to its end. Only if it gives up or breaks the rules of
reporting, it is asked nothing more. What it is handed over is the entry of a file.
-/
theorem turns_follow_files (c : Checker) (source : Source) (baselines : Baselines)
    {state : c.State} {b : Batch}
    (hbuild : (c.build (.of source baselines)).perform c.name c.checks .empty =
      (b, .ok (some state))) (hb : b.breach = none) :
    let s := Subject.of source baselines
    c.MakesUp s state b (c.turns s) ∧ c.Follows s (rounds s (c.passes state)) ∧
      ∀ pass e, Task.visit pass e ∈ (c.turns s).map Turn.task →
        pass < c.passes state ∧ e.path ∈ source.files ∧ e.isDirectory = false := by
  intro s
  have hturns : c.turns s =
      c.turnsFrom s (rounds s (c.passes state) ++ [Task.finish]) state b := by
    rw [turns_of_build hbuild hb, tasks_eq_rounds]
  have hfollows : c.Follows s (rounds s (c.passes state)) :=
    follows_of_turnsFrom (by simp [rounds]) hturns
  refine ⟨makesUp_turns hbuild hb, hfollows, fun pass e hvisit => ?_⟩
  have hmem := hfollows.begun.subset hvisit
  simp only [rounds, List.mem_append, List.mem_flatMap, List.mem_range, List.mem_map,
    Task.visit.injEq, List.mem_singleton, reduceCtorEq, or_false] at hmem
  obtain ⟨_, hpass, path, hpath, rfl, rfl⟩ := hmem
  exact ⟨hpass, hpath, rfl⟩

/-- A checker that goes through the files twice, and gives up on one of them. -/
def reader (bad : String) : Checker where
  name := "reader"
  checks := [⟨"TST-020-1"⟩]
  State := Nat
  build _ := pure (some 0)
  passes _ := 2
  visit _ e _ seen := if e.path = bad then .stop (.precondition "not readable") else pure (seen + 1)
  finish _ seen := .finding ⟨"TST-020-1"⟩ (toString seen)

/-- Without a bad file it sees two files twice; else it stops at the bad one. -/
theorem turns_follow_files_twice :
    let source := (MemoryPackage.mk [("a/c.txt", []), ("b.txt", [])]).source
    let s := Subject.of source .offline
    let visit (pass : Nat) (path : String) : Task := .visit pass (.classify ⟨none⟩ false path)
    ((reader "").turns s).map Turn.task = [visit 0 "a/c.txt", visit 0 "b.txt", visit 1 "a/c.txt",
        visit 1 "b.txt", .finish] ∧
      ((reader "b.txt").turns s).map Turn.task = [visit 0 "a/c.txt", visit 0 "b.txt"] := by
  intro source s visit
  have hturns (bad : String) : (reader bad).turns s =
      (reader bad).turnsFrom s (rounds s 2 ++ [.finish]) (0 : Nat) .empty := by
    rw [turns_of_build rfl rfl, tasks_eq_rounds]
    rfl
  constructor
  · refine (turns_follow_files (reader "") source .offline rfl rfl).2.1.all ?_
    rw [hturns]
    decide +kernel
  · have hends : (reader "b.txt").turns s =
        [⟨visit 0 "a/c.txt", (0 : Nat), .empty⟩] ++ ⟨visit 0 "b.txt", (1 : Nat), .empty⟩ :: [] := by
      rw [hturns]
      rfl
    have hhalts : (reader "b.txt").Halts s ⟨visit 0 "b.txt", (1 : Nat), .empty⟩ := .inl ⟨_, rfl⟩
    have hfollows := (turns_follow_files (reader "b.txt") source .offline rfl rfl).2.1
    exact (hfollows.upTo _ _ _ hends hhalts).2.2

end Checker

end PackageAudit

import Mathlib.Data.List.Induction
import PackageAudit.Proofs.Audit.History

/-!
# Proofs.Audit.Replay — a batch is the replay of its calls

The calls of a checker say everything that its batch holds. The invariant is `Batch.Reflects`: as
long as no call breaks the rules of reporting, findings, skips and records of the batch are those
of the calls, in order. One call keeps it (`Reflects.step`), so a list of calls does, and the batch
notes exactly the first thing wrong with its calls (`breach_replay`).
-/

namespace PackageAudit

/-! ## The first thing wrong -/

private theorem findSome?_congr_mem {α β : Type} {f g : α → Option β} {l : List α}
    (h : ∀ x ∈ l, f x = g x) : l.findSome? f = l.findSome? g := by
  induction l with
  | nil => rfl
  | cons x l ih =>
    have hrest : l.findSome? f = l.findSome? g := ih fun y hy => h y (List.mem_cons_of_mem x hy)
    simp [List.findSome?_cons, h x List.mem_cons_self, hrest]

theorem take_append_of_mem_zipIdx {α : Type} {l : List α} (more : List α) {x : α × Nat}
    (h : x ∈ l.zipIdx) : (l ++ more).take x.2 = l.take x.2 := by
  have hlt : x.2 < l.length := by simpa using List.snd_lt_of_mem_zipIdx h
  exact List.take_append_of_le_length (Nat.le_of_lt hlt)

theorem firstBreach?_append_singleton (declared : List CheckId) (calls : List Call) (call : Call) :
    firstBreach? declared (calls ++ [call]) =
      (firstBreach? declared calls).or (call.breach? declared calls) := by
  have hfront :
      (calls.zipIdx.findSome? fun x => x.1.breach? declared ((calls ++ [call]).take x.2)) =
        firstBreach? declared calls := by
    -- what stands before an earlier call is the same in the longer list
    refine findSome?_congr_mem fun x hx => ?_
    rw [take_append_of_mem_zipIdx [call] hx]
  have hlast :
      [(call, calls.length)].findSome?
          (fun x => x.1.breach? declared ((calls ++ [call]).take x.2)) =
        call.breach? declared calls := by
    simp
  calc
    firstBreach? declared (calls ++ [call])
        = (calls.zipIdx ++ [(call, calls.length)]).findSome?
            fun x => x.1.breach? declared ((calls ++ [call]).take x.2) := by
          simp [firstBreach?, List.zipIdx_append]
    _ = (firstBreach? declared calls).or (call.breach? declared calls) := by
          rw [List.findSome?_append, hfront, hlast]

/-! ## What an addition changes -/

namespace Batch

section Additions

variable (b : Batch) (check other : CheckId) (text : String) (content : Bytes) (breach : Breach)

@[simp] theorem isSkipped_addFinding :
    (b.addFinding check text).isSkipped other = b.isSkipped other :=
  rfl

@[simp] theorem hasFailed_addFinding :
    (b.addFinding check text).hasFailed other = (b.hasFailed other || check == other) := by
  by_cases hmem : check ∈ b.failed
  · by_cases heq : check = other
    · subst heq
      simp [addFinding, hasFailed, hmem]
    · simp [addFinding, hasFailed, hmem, heq]
  · simp [addFinding, hasFailed, hmem, Bool.or_comm, Bool.beq_eq_decide_eq, eq_comm]

@[simp] theorem isSkipped_addSkip :
    (b.addSkip check text).isSkipped other = (b.isSkipped other || check == other) := by
  simp [addSkip, isSkipped]

@[simp] theorem hasFailed_addSkip : (b.addSkip check text).hasFailed other = b.hasFailed other :=
  rfl

@[simp] theorem knows_addFinding :
    (b.addFinding check text).knows other = (b.knows other || check == other) := by
  simp [knows, Bool.or_assoc]

@[simp] theorem knows_addSkip :
    (b.addSkip check text).knows other = (b.knows other || check == other) := by
  simp [knows, Bool.or_right_comm]

@[simp] theorem isSkipped_addRecord :
    (b.addRecord text content).isSkipped other = b.isSkipped other :=
  rfl

@[simp] theorem hasFailed_addRecord :
    (b.addRecord text content).hasFailed other = b.hasFailed other :=
  rfl

@[simp] theorem knows_addRecord : (b.addRecord text content).knows other = b.knows other :=
  rfl

@[simp] theorem knows_addBreach : (b.addBreach breach).knows other = b.knows other :=
  rfl

@[simp] theorem isSkipped_addBreach : (b.addBreach breach).isSkipped other = b.isSkipped other :=
  rfl

@[simp] theorem hasFailed_addBreach : (b.addBreach breach).hasFailed other = b.hasFailed other :=
  rfl

end Additions

/-! ## One call -/

/-- What a batch holds behind calls none of which breaks the rules of reporting. -/
structure Reflects (b : Batch) (calls : List Call) : Prop where
  findings : b.findings.reverse = calls.filterMap Call.finding?
  failed : ∀ check, b.hasFailed check = calls.any (Call.reports check)
  skips : b.skips = calls.filterMap Call.skip?
  records : b.records.reverse = calls.filterMap Call.record?
  breach : b.breach = none

theorem reflects_empty : empty.Reflects [] :=
  ⟨rfl, fun _ => rfl, rfl, rfl, rfl⟩

variable {declared : List CheckId} {b : Batch} {calls : List Call} {call : Call}

theorem any_filterMap_finding? (check : CheckId) (calls : List Call) :
    (calls.filterMap Call.finding?).any (·.check == check) = calls.any (Call.reports check) := by
  rw [List.any_filterMap]
  congr 1
  funext call
  cases call <;> rfl

theorem any_filterMap_skip? (check : CheckId) (calls : List Call) :
    (calls.filterMap Call.skip?).any (·.check == check) = calls.any (Call.leavesOut check) := by
  rw [List.any_filterMap]
  congr 1
  funext call
  cases call <;> rfl

theorem Reflects.isSkipped (h : b.Reflects calls) (check : CheckId) :
    b.isSkipped check = calls.any (Call.leavesOut check) := by
  rw [Batch.isSkipped, h.skips, any_filterMap_skip?]

theorem Reflects.findingBreach? (h : b.Reflects calls) (check : CheckId) (message : String) :
    b.findingBreach? declared check = (Call.finding check message).breach? declared calls := by
  simp [Batch.findingBreach?, Call.breach?, h.isSkipped]

theorem Reflects.skipBreach? (h : b.Reflects calls) (check : CheckId) (reason : String) :
    b.skipBreach? declared check = (Call.skip check reason).breach? declared calls := by
  simp [Batch.skipBreach?, Call.breach?, h.isSkipped, h.failed]

/-- A call that breaks no rule is kept. -/
theorem Reflects.step (h : b.Reflects calls) (hlegal : call.breach? declared calls = none) :
    (b.step declared call).Reflects (calls ++ [call]) := by
  cases call with
  | finding check message =>
    have hnone : b.findingBreach? declared check = none := by
      rw [h.findingBreach? check message, hlegal]
    constructor
    · simp [Batch.step, hnone, addFinding, h.findings, Call.finding?]
    · intro other
      simp [Batch.step, hnone, h.failed, Call.reports]
    · simp [Batch.step, hnone, addFinding, h.skips, Call.skip?]
    · simp [Batch.step, hnone, addFinding, h.records, Call.record?]
    · simp [Batch.step, hnone, addFinding, h.breach]
  | skip check reason =>
    have hnone : b.skipBreach? declared check = none := by
      rw [h.skipBreach? check reason, hlegal]
    constructor
    · simp [Batch.step, hnone, addSkip, h.findings, Call.finding?]
    · intro other
      simp [Batch.step, hnone, h.failed, Call.reports]
    · simp [Batch.step, hnone, addSkip, h.skips, Call.skip?]
    · simp [Batch.step, hnone, addSkip, h.records, Call.record?]
    · simp [Batch.step, hnone, addSkip, h.breach]
  | record name content =>
    constructor
    · simp [Batch.step, addRecord, h.findings, Call.finding?]
    · intro other
      simp [Batch.step, h.failed, Call.reports]
    · simp [Batch.step, addRecord, h.skips, Call.skip?]
    · simp [Batch.step, addRecord, h.records, Call.record?]
    · simp [Batch.step, addRecord, h.breach]

/-- A call that breaks a rule is the first such call if there was none before. -/
theorem Reflects.breach_step (h : b.Reflects calls) :
    (b.step declared call).breach = call.breach? declared calls := by
  cases hcall : call.breach? declared calls with
  | none => exact (h.step hcall).breach
  | some breach =>
    cases call with
    | finding check message =>
      have hsome : b.findingBreach? declared check = some breach := by
        rw [h.findingBreach? check message, hcall]
      simp [Batch.step, hsome, addBreach, h.breach]
    | skip check reason =>
      have hsome : b.skipBreach? declared check = some breach := by
        rw [h.skipBreach? check reason, hcall]
      simp [Batch.step, hsome, addBreach, h.breach]
    | record name content => simp [Call.breach?] at hcall

/-- What was wrong first stays. -/
theorem breach_step_of_some {breach : Breach} (h : b.breach = some breach) :
    (b.step declared call).breach = some breach := by
  cases call with
  | finding check message =>
    simp only [step]
    split <;> simp [addBreach, addFinding, h]
  | skip check reason =>
    simp only [step]
    split <;> simp [addBreach, addSkip, h]
  | record name content => simp [step, addRecord, h]

/-! ## Lists of calls -/

@[simp] theorem replay_nil : b.replay declared [] = b :=
  rfl

@[simp] theorem replay_cons : b.replay declared (call :: calls) =
    (b.step declared call).replay declared calls :=
  rfl

theorem replay_append (more : List Call) :
    b.replay declared (calls ++ more) = (b.replay declared calls).replay declared more := by
  simp [replay]

/-- A batch notes the first thing wrong with its calls, and holds all of them if nothing is. -/
theorem replay_empty (declared : List CheckId) (calls : List Call) :
    (empty.replay declared calls).breach = firstBreach? declared calls ∧
      (firstBreach? declared calls = none → (empty.replay declared calls).Reflects calls) := by
  -- calls are added at the end, behind which the invariant says what the batch holds
  induction calls using List.reverseRecOn with
  | nil => exact ⟨rfl, fun _ => reflects_empty⟩
  | append_singleton calls call ih =>
    obtain ⟨hbreach, hreflects⟩ := ih
    rw [replay_append, firstBreach?_append_singleton]
    cases hfirst : firstBreach? declared calls with
    | some breach =>
      rw [hfirst] at hbreach
      exact ⟨by simpa using breach_step_of_some hbreach, by simp⟩
    | none =>
      have h := hreflects hfirst
      refine ⟨by simpa using h.breach_step, fun hcall => ?_⟩
      exact h.step (by simpa using hcall)

theorem breach_replay (declared : List CheckId) (calls : List Call) :
    (empty.replay declared calls).breach = firstBreach? declared calls :=
  (replay_empty declared calls).1

theorem reflects_replay (h : firstBreach? declared calls = none) :
    (empty.replay declared calls).Reflects calls :=
  (replay_empty declared calls).2 h

/-! ## Leaving out all remaining rules -/

theorem findingBreach?_of_unknown {check : CheckId} (h : b.knows check = false)
    (hmem : check ∈ declared) : b.findingBreach? declared check = none := by
  rw [knows, Bool.or_eq_false_iff] at h
  simp [findingBreach?, hmem, h]

theorem skipBreach?_of_unknown {check : CheckId} (h : b.knows check = false)
    (hmem : check ∈ declared) : b.skipBreach? declared check = none := by
  rw [knows, Bool.or_eq_false_iff] at h
  simp [skipBreach?, hmem, h]

theorem step_skip_of_unknown {check : CheckId} (reason : String) (hmem : check ∈ declared)
    (hunknown : b.knows check = false) :
    b.step declared (.skip check reason) = b.addSkip check reason := by
  simp [step, skipBreach?_of_unknown hunknown hmem]

/-- To leave out the remaining rules is to leave out one after the other. -/
theorem addSkips_eq_replay {todo : List CheckId} (reason : String) (hsub : todo ⊆ declared) :
    b.addSkips todo reason = b.replay declared (b.restCalls reason todo) := by
  induction todo generalizing b with
  | nil => rfl
  | cons check todo ih =>
    have hrest : todo ⊆ declared := fun x hx => hsub (List.mem_cons_of_mem check hx)
    cases hknown : b.knows check with
    | true =>
      have hor : (b.isSkipped check || b.hasFailed check) = true := hknown
      simp only [addSkips, List.foldl_cons, restCalls, hknown, hor, if_true]
      exact ih hrest
    | false =>
      have hor : (b.isSkipped check || b.hasFailed check) = false := hknown
      have hstep := step_skip_of_unknown reason (hsub List.mem_cons_self) hknown
      simp only [addSkips, List.foldl_cons, restCalls, hknown, hor, Bool.false_eq_true, if_false,
        replay_cons, hstep]
      exact ih hrest

/-- A call about a declared rule makes it known, whether the call may be made or not. -/
theorem knows_step {check : CheckId} (hmem : check ∈ declared) :
    (b.step declared call).knows check =
      (b.knows check || (call.leavesOut check || call.reports check)) := by
  cases call with
  | finding other message =>
    cases h : b.findingBreach? declared other with
    | none => simp [step, h, Call.reports, Call.leavesOut]
    | some breach =>
      by_cases heq : other = check
      · -- a call about a declared rule is refused only if something is known about it
        subst heq
        have hknown : b.knows other = true := by
          by_contra hnot
          simp [findingBreach?_of_unknown (by simpa using hnot) hmem] at h
        simp [step, h, hknown]
      · simp [step, h, heq, Call.reports, Call.leavesOut]
  | skip other reason =>
    cases h : b.skipBreach? declared other with
    | none => simp [step, h, Call.reports, Call.leavesOut]
    | some breach =>
      by_cases heq : other = check
      · subst heq
        have hknown : b.knows other = true := by
          by_contra hnot
          simp [skipBreach?_of_unknown (by simpa using hnot) hmem] at h
        simp [step, h, hknown]
      · simp [step, h, heq, Call.reports, Call.leavesOut]
  | record name content => simp [step, Call.reports, Call.leavesOut]

theorem knows_replay {check : CheckId} (hmem : check ∈ declared) (calls : List Call) :
    (empty.replay declared calls).knows check =
      calls.any fun call => call.leavesOut check || call.reports check := by
  induction calls using List.reverseRecOn with
  | nil => rfl
  | append_singleton calls call ih =>
    rw [replay_append, replay_cons, replay_nil, knows_step hmem, ih, List.any_append]
    simp

/-- A rule of which nothing is known may be left out. -/
theorem breach?_skip_of_unknown {check : CheckId} (reason : String) (hmem : check ∈ declared)
    (hunknown : (empty.replay declared calls).knows check = false) :
    (Call.skip check reason).breach? declared calls = none := by
  rw [knows_replay hmem, List.any_eq_false] at hunknown
  have hskip : calls.any (Call.leavesOut check) = false := by
    rw [List.any_eq_false]
    intro call hcall hout
    exact hunknown call hcall (by simp [hout])
  have hfinding : calls.any (Call.reports check) = false := by
    rw [List.any_eq_false]
    intro call hcall hrep
    exact hunknown call hcall (by simp [hrep])
  simp [Call.breach?, hmem, hskip, hfinding]

/-- The calls that leave out the remaining rules may be made, whatever calls there were before. -/
theorem breach?_restCalls {todo : List CheckId} {past : List Call} (reason : String)
    (hsub : todo ⊆ declared) {front back : List Call}
    (h : (empty.replay declared past).restCalls reason todo = front ++ call :: back) :
    call.breach? declared (past ++ front) = none := by
  induction todo generalizing past front with
  | nil => simp [restCalls] at h
  | cons check todo ih =>
    have hrest : todo ⊆ declared := fun x hx => hsub (List.mem_cons_of_mem check hx)
    have hmem : check ∈ declared := hsub List.mem_cons_self
    cases hknown : (empty.replay declared past).knows check with
    | true =>
      rw [restCalls, hknown, if_pos rfl] at h
      exact ih hrest h
    | false =>
      rw [restCalls, hknown, if_neg (by simp)] at h
      cases front with
      | nil =>
        -- nothing is known about the rule of the first call
        obtain ⟨rfl, -⟩ := List.cons.inj h
        simpa using breach?_skip_of_unknown reason hmem hknown
      | cons first front =>
        -- the calls behind the first one are those that remain after it
        obtain ⟨rfl, htail⟩ := List.cons.inj h
        have hadd : (empty.replay declared past).addSkip check reason =
            empty.replay declared (past ++ [.skip check reason]) := by
          rw [replay_append, replay_cons, replay_nil, step_skip_of_unknown reason hmem hknown]
        rw [hadd] at htail
        simpa using ih hrest htail

end Batch

/-! ## Work -/

namespace Check

variable {α σ : Type} (checker : String) (declared : List CheckId)

theorem perform_eq_replay (m : Check α) (b : Batch) :
    (m.perform checker declared b).1 = b.replay declared (m.log checker declared b) := by
  induction m generalizing b with
  | done value => rfl
  | stop cause => rfl
  | report check message next ih =>
    rw [log, Batch.replay_cons, ← ih]
    cases h : b.findingBreach? declared check with
    | none => simp [perform, Batch.step, h]
    | some breach => simp [perform, Batch.step, h]
  | skip check reason next ih =>
    rw [log, Batch.replay_cons, ← ih]
    cases h : b.skipBreach? declared check with
    | none => simp [perform, Batch.step, h]
    | some breach => simp [perform, Batch.step, h]
  | skipAll reason next ih =>
    -- the one step that stands for several calls
    rw [log, Batch.replay_append, ← Batch.addSkips_eq_replay reason (List.Subset.refl declared),
      ← ih]
    rfl
  | record name content next ih =>
    rw [log, Batch.replay_cons, perform, ih]
    rfl

theorem performAll_eq_replay (tasks : List (σ → Check σ)) (state : σ) (b : Batch) :
    (performAll checker declared tasks state b).1 =
      b.replay declared (logAll checker declared tasks state b).flatten := by
  induction tasks generalizing state b with
  | nil => rfl
  | cons task tasks ih =>
    have hfirst := perform_eq_replay checker declared (task state) b
    rw [performAll, logAll, List.flatten_cons, Batch.replay_append, ← hfirst]
    rcases (task state).perform checker declared b with ⟨next, cause | state⟩
    · rfl
    · by_cases hbreach : next.breach.isSome
      · simp [hbreach]
      · simp [hbreach, ih]

end Check

theorem Checker.work_eq_replay (c : Checker) (s : Subject) :
    (c.work s).1 = Batch.empty.replay c.checks (c.log s) := by
  have hbuild := Check.perform_eq_replay c.name c.checks (c.build s) .empty
  rw [work, log, logs, List.flatten_cons, Batch.replay_append, ← hbuild]
  rcases (c.build s).perform c.name c.checks .empty with ⟨b, cause | _ | state⟩
  · rfl
  · rfl
  · by_cases hbreach : b.breach.isSome
    · simp [hbreach]
    · have hall := Check.performAll_eq_replay c.name c.checks
        (c.calls s (c.passes state)) state b
      simp only [hbreach, Bool.false_eq_true, if_false, ← hall]
      rcases Check.performAll c.name c.checks (c.calls s (c.passes state)) state b with
        ⟨last, cause | state⟩ <;> rfl

end PackageAudit

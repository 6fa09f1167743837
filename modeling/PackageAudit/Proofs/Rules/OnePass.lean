import PackageAudit.Proofs.Package.Memory
import PackageAudit.Proofs.Rules.Reporting

/-!
# Proofs.Rules.OnePass — checkers that look at each file once

Such a checker has findings for each file and goes on with a state that depends on the file and the
state before. What it reports is known without following its work:

* `Check.perform_bind` — work behind work, done on a batch;
* `Check.reportAll` — findings that are reported one after the other;
* `Checker.EndsWith` — a checker comes to its end with a state;
* `Checker.audit_of_visits` — what such a checker comes to, and with which state;
* `Checker.audit_of_onePass` — the same where there is at most one finding for each file;
* `Checker.audit_of_reporting`, `Checker.audit_of_reportingAll` — where the state stays as it is.
-/

namespace PackageAudit

namespace Check

/-! ## Work behind work -/

/-- Work behind work is done on the batch that the first part leaves, unless that gives up. -/
theorem perform_bind {α β : Type} (checker : String) (declared : List CheckId) (m : Check α)
    (f : α → Check β) (b : Batch) :
    (m >>= f).perform checker declared b =
      match m.perform checker declared b with
      | (b, .ok value) => (f value).perform checker declared b
      | (b, .error cause) => (b, .error cause) := by
  change (m.andThen f).perform checker declared b = _
  induction m generalizing b with
  | done value => rfl
  | stop cause => rfl
  | report check message next ih =>
    simp only [andThen, perform]
    split
    · exact ih _ _
    · exact ih _ _
  | skip check reason next ih =>
    simp only [andThen, perform]
    split
    · exact ih _ _
    · exact ih _ _
  | skipAll reason next ih => exact ih _ _
  | record name content next ih => exact ih _ _

theorem bind_done {α : Type} (m : Check α) : (m >>= fun a => pure a) = m := by
  change m.andThen done = m
  induction m with
  | done value => rfl
  | stop cause => rfl
  | report check message next ih => exact congrArg (report check message) (funext ih)
  | skip check reason next ih => exact congrArg (skip check reason) (funext ih)
  | skipAll reason next ih => exact congrArg (skipAll reason) (funext ih)
  | record name content next ih => exact congrArg (record name content) (funext ih)

theorem andThen_assoc {α β γ : Type} (m : Check α) (f : α → Check β) (g : β → Check γ) :
    (m.andThen f).andThen g = m.andThen fun a => (f a).andThen g := by
  induction m with
  | done value => rfl
  | stop cause => rfl
  | report check message next ih => exact congrArg (report check message) (funext ih)
  | skip check reason next ih => exact congrArg (skip check reason) (funext ih)
  | skipAll reason next ih => exact congrArg (skipAll reason) (funext ih)
  | record name content next ih => exact congrArg (record name content) (funext ih)

instance : LawfulMonad Check :=
  LawfulMonad.mk' Check bind_done (fun _ _ => rfl) andThen_assoc

/-! ## Reports -/

/-- Report a finding if there is one. -/
def reportAny : Option Finding → Check Unit
  | none => pure ()
  | some f => finding f.check f.message

/-- Report a finding if there is one, and go on with a state. -/
def reporting {σ : Type} (problem : Option Finding) (state : σ) : Check σ := do
  reportAny problem
  pure state

section Reporting

variable {σ : Type} {problem problem' : Option Finding} {state state' : σ}

/-- Work without a state that reports a finding does nothing else. -/
theorem reporting_unit (problem : Option Finding) : reporting problem () = reportAny problem := by
  cases problem with
  | none => rfl
  | some f =>
    refine congrArg (report f.check f.message) (funext fun answer => ?_)
    cases answer <;> rfl

theorem reporting_inj (h : reporting problem state = reporting problem' state') :
    problem = problem' := by
  cases problem with
  | none =>
    cases problem' with
    | none => rfl
    | some f => cases h
  | some f =>
    cases problem' with
    | none => cases h
    | some g =>
      obtain ⟨hcheck, hmessage, -⟩ := report.inj h
      cases f
      cases g
      exact congrArg some (Finding.mk.injEq .. ▸ ⟨hcheck, hmessage⟩)

end Reporting

/-- Report findings, the first one first. -/
def reportAll (findings : List Finding) : Check Unit :=
  findings.forM fun f => finding f.check f.message

/-- Report findings, and go on with a state. -/
def reportingAll {σ : Type} (findings : List Finding) (state : σ) : Check σ := do
  reportAll findings
  pure state

/-- Reports behind reports. -/
theorem reportAll_append (findings more : List Finding) :
    reportAll (findings ++ more) = reportAll findings >>= fun _ => reportAll more :=
  List.forM_append

/-- One finding or none is a list of findings. -/
theorem reporting_eq_reportingAll {σ : Type} (problem : Option Finding) (state : σ) :
    reporting problem state = reportingAll problem.toList state := by
  cases problem with
  | none => rfl
  | some f =>
    refine congrArg (report f.check f.message) (funext fun answer => ?_)
    cases answer <;> rfl

/-- A list of reports is the report of a list. -/
theorem forM_finding {α : Type} (l : List α) (g : α → Finding) :
    (l.forM fun x => finding (g x).check (g x).message) = reportAll (l.map g) := by
  induction l with
  | nil => rfl
  | cons x l ih =>
    exact congrArg (finding (g x).check (g x).message >>= ·) (funext fun _ => ih)

/-- What a batch becomes when findings are added, the first one first. -/
structure Extends (b : Batch) (findings : List Finding) (b' : Batch) : Prop where
  findings : b'.findings = findings.reverse ++ b.findings
  skips : b'.skips = b.skips
  records : b'.records = b.records
  breach : b'.breach = b.breach

theorem Extends.nil (b : Batch) : Extends b [] b :=
  ⟨rfl, rfl, rfl, rfl⟩

theorem Extends.trans {b b₁ b₂ : Batch} {fs gs : List Finding} (h : Extends b fs b₁)
    (h' : Extends b₁ gs b₂) : Extends b (fs ++ gs) b₂ where
  findings := by rw [h'.findings, h.findings, List.reverse_append, List.append_assoc]
  skips := h'.skips.trans h.skips
  records := h'.records.trans h.records
  breach := h'.breach.trans h.breach

section Reports

variable (checker : String) {declared : List CheckId} {b : Batch}

theorem perform_finding {check : CheckId} (message : String)
    (h : b.findingBreach? declared check = none) :
    (finding check message).perform checker declared b = (b.addFinding check message, .ok ()) := by
  rw [finding, perform, h]
  rfl

theorem perform_leaveOut {check : CheckId} (reason : String)
    (h : b.skipBreach? declared check = none) :
    (leaveOut check reason).perform checker declared b = (b.addSkip check reason, .ok ()) := by
  rw [leaveOut, perform, h]
  rfl

/-- Findings are added in order. -/
theorem perform_reportAll {findings : List Finding} (hb : b.IsWhole)
    (hdeclared : ∀ f ∈ findings, f.check ∈ declared) :
    ∃ b', (reportAll findings).perform checker declared b = (b', .ok ()) ∧
      Extends b findings b' := by
  induction findings generalizing b with
  | nil => exact ⟨b, rfl, .nil b⟩
  | cons f rest ih =>
    rw [List.forall_mem_cons] at hdeclared
    have hfirst : Extends b [f] (b.addFinding f.check f.message) := ⟨rfl, rfl, rfl, rfl⟩
    obtain ⟨b', hperform, hrest⟩ := ih (b := b.addFinding f.check f.message) hb hdeclared.2
    refine ⟨b', ?_, hfirst.trans hrest⟩
    change (finding f.check f.message >>= fun _ => reportAll rest).perform checker declared b = _
    rw [perform_bind, perform_finding checker f.message (hb.findingBreach? hdeclared.1)]
    exact hperform

theorem perform_reportingAll {σ : Type} {findings : List Finding} (state : σ) (hb : b.IsWhole)
    (hdeclared : ∀ f ∈ findings, f.check ∈ declared) :
    ∃ b', (reportingAll findings state).perform checker declared b = (b', .ok state) ∧
      Extends b findings b' := by
  obtain ⟨b', hperform, hextends⟩ := perform_reportAll checker hb hdeclared
  exact ⟨b', by rw [reportingAll, perform_bind, hperform]; rfl, hextends⟩

/--
Tasks that report findings, and go on with the next state, add their findings in order. The
invariant is what a task may rely on of the state that it is given.
-/
theorem performAll_reportingAll {σ ι : Type} {task : ι → σ → Check σ} {problems : ι → List Finding}
    {next : ι → σ → σ} {inv : σ → Prop} {l : List ι}
    (htask : ∀ x ∈ l, ∀ state, inv state →
      task x state = reportingAll (problems x) (next x state) ∧ inv (next x state))
    (hdeclared : ∀ x ∈ l, ∀ f ∈ problems x, f.check ∈ declared)
    (rest : List (σ → Check σ)) {state : σ} (hstate : inv state) (hb : b.IsWhole)
    (hbreach : b.breach = none) :
    ∃ b', performAll checker declared (l.map task ++ rest) state b =
        performAll checker declared rest (l.foldl (fun state x => next x state) state) b' ∧
      Extends b (l.flatMap problems) b' := by
  -- On the tasks, for every batch they may start from: no rule is left out by any of them, so each
  -- task finds the batch as legal for its findings as the one before.
  induction l generalizing b state with
  | nil => exact ⟨b, rfl, .nil b⟩
  | cons x l ih =>
    rw [List.forall_mem_cons] at htask hdeclared
    obtain ⟨htask₁, hnext⟩ := htask.1 state hstate
    obtain ⟨b₁, hperform, hfirst⟩ := perform_reportingAll checker (next x state) hb hdeclared.1
    have hb₁ : b₁.IsWhole := hfirst.skips.trans hb
    have hbreach₁ : b₁.breach = none := hfirst.breach.trans hbreach
    obtain ⟨b₂, hrest, hmore⟩ := ih htask.2 hdeclared.2 hnext hb₁ hbreach₁
    refine ⟨b₂, ?_, ?_⟩
    · rw [List.map_cons, List.cons_append, performAll, htask₁, hperform]
      dsimp only
      rw [hbreach₁]
      exact hrest
    · rw [List.flatMap_cons]
      exact hfirst.trans hmore

end Reports

end Check

/-! ## The files -/

namespace Checker

variable {c : Checker} {s : Subject}

/-- The entries of the files, in the order of the package. -/
def visited (s : Subject) : List Entry :=
  s.source.files.filterMap s.entries.get?

theorem mem_visited_iff {e : Entry} :
    e ∈ visited s ↔ e.path ∈ s.source.files ∧ s.entries.get? e.path = some e := by
  rw [visited, List.mem_filterMap]
  constructor
  · rintro ⟨path, hpath, he⟩
    obtain rfl := EntrySet.path_of_get? he
    exact ⟨hpath, he⟩
  · rintro ⟨hpath, he⟩
    exact ⟨e.path, hpath, he⟩

theorem calls_one : c.calls s 1 =
    (visited s).map (fun e => c.visit s e 0) ++ [fun state => do c.finish s state; pure state] := by
  have hvisits : visits s.source.files s.entries 1 = (visited s).map fun e => (0, e) :=
    List.append_nil _
  rw [calls, hvisits, List.map_map]
  rfl

/-- A checker comes to the end of its files with a state, the one that it is finished with. -/
def EndsWith (c : Checker) (s : Subject) (state : c.State) : Prop :=
  ∃ b start b', (c.build s).perform c.name c.checks .empty = (b, .ok (some start)) ∧
    Check.performAll c.name c.checks (c.calls s (c.passes start)) start b = (b', .ok state)

section OnePass

variable {state : c.State} {problem? : Entry → Option Finding} {problems : Entry → List Finding}
  {next : Entry → c.State → c.State} {inv : c.State → Prop} {last : List Finding} {b : Batch}

/-- The calls of a checker that goes through the files once. -/
theorem performAll_calls_one (hb : b.IsWhole) (hbreach : b.breach = none) (hstate : inv state)
    (hvisit : ∀ e ∈ visited s, ∀ state, inv state →
      c.visit s e 0 state = Check.reportingAll (problems e) (next e state) ∧ inv (next e state))
    (hdeclared : ∀ e ∈ visited s, ∀ f ∈ problems e, f.check ∈ c.checks)
    (hfinish : c.finish s ((visited s).foldl (fun state e => next e state) state) =
      Check.reportAll last)
    (hlast : ∀ f ∈ last, f.check ∈ c.checks) :
    ∃ b', Check.performAll c.name c.checks (c.calls s 1) state b =
        (b', .ok ((visited s).foldl (fun state e => next e state) state)) ∧
      Check.Extends b ((visited s).flatMap problems ++ last) b' := by
  obtain ⟨b₁, hvisits, hseen⟩ := Check.performAll_reportingAll c.name hvisit hdeclared
    [fun state => do c.finish s state; pure state] hstate hb hbreach
  have hb₁ : b₁.IsWhole := hseen.skips.trans hb
  obtain ⟨b₂, hend, hsaid⟩ := Check.perform_reportAll c.name hb₁ hlast
  have hextends := hseen.trans hsaid
  refine ⟨b₂, ?_, hextends⟩
  rw [calls_one, hvisits, Check.performAll, Check.perform_bind, hfinish, hend]
  change (if b₂.breach.isSome then _ else _) = _
  rw [hextends.breach.trans hbreach]
  rfl

/--
A checker that goes through the files once reports its findings for each of them, and at the end
those of its last state.
-/
theorem audit_of_visits
    (hbuild : (c.build s).perform c.name c.checks .empty = (b, .ok (some state)))
    (hb : b.IsWhole) (hbreach : b.breach = none) (hpasses : c.passes state = 1)
    (hstate : inv state)
    (hvisit : ∀ e ∈ visited s, ∀ state, inv state →
      c.visit s e 0 state = Check.reportingAll (problems e) (next e state) ∧ inv (next e state))
    (hdeclared : ∀ e ∈ visited s, ∀ f ∈ problems e, f.check ∈ c.checks)
    (hfinish : c.finish s ((visited s).foldl (fun state e => next e state) state) =
      Check.reportAll last)
    (hlast : ∀ f ∈ last, f.check ∈ c.checks) :
    c.audit s =
        .ok ⟨b.findings.reverse ++ ((visited s).flatMap problems ++ last), [],
          b.records.reverse⟩ ∧
      c.EndsWith s ((visited s).foldl (fun state e => next e state) state) := by
  obtain ⟨b', hcalls, hextends⟩ :=
    performAll_calls_one hb hbreach hstate hvisit hdeclared hfinish hlast
  have hbreach' : b'.breach = none := hextends.breach.trans hbreach
  have hskips : b'.skips = [] := hextends.skips.trans hb
  have hwork : c.work s = (b', none) := by
    simp only [work, hbuild, hbreach, hpasses, hcalls, Option.isSome_none, Bool.false_eq_true,
      if_false]
  constructor
  · simp only [audit, hwork, conclude, hbreach', hextends.findings, hskips, hextends.records,
      List.reverse_append, List.reverse_reverse]
  · exact ⟨b, state, b', hbuild, hpasses ▸ hcalls⟩

/--
A checker that goes through the files once reports at most one finding for each of them, and at the
end those of its last state.
-/
theorem audit_of_onePass
    (hbuild : (c.build s).perform c.name c.checks .empty = (b, .ok (some state)))
    (hb : b.IsWhole) (hbreach : b.breach = none) (hpasses : c.passes state = 1)
    (hstate : inv state)
    (hvisit : ∀ e ∈ visited s, ∀ state, inv state →
      c.visit s e 0 state = Check.reporting (problem? e) (next e state) ∧ inv (next e state))
    (hdeclared : ∀ e ∈ visited s, ∀ f, problem? e = some f → f.check ∈ c.checks)
    (hfinish : c.finish s ((visited s).foldl (fun state e => next e state) state) =
      Check.reportAll last)
    (hlast : ∀ f ∈ last, f.check ∈ c.checks) :
    c.audit s =
        .ok ⟨b.findings.reverse ++ ((visited s).filterMap problem? ++ last), [],
          b.records.reverse⟩ ∧
      c.EndsWith s ((visited s).foldl (fun state e => next e state) state) := by
  have hvisits : ∀ e ∈ visited s, ∀ state, inv state →
      c.visit s e 0 state = Check.reportingAll (problem? e).toList (next e state) ∧
        inv (next e state) := by
    intro e he state hstate
    rw [← Check.reporting_eq_reportingAll]
    exact hvisit e he state hstate
  have hall : ∀ e ∈ visited s, ∀ f ∈ (problem? e).toList, f.check ∈ c.checks :=
    fun e he f hf => hdeclared e he f (Option.mem_toList.1 hf)
  rw [List.filterMap_eq_flatMap_toList]
  exact audit_of_visits hbuild hb hbreach hpasses hstate hvisits hall hfinish hlast

end OnePass

section SameState

variable {state : c.State} {problem? : Entry → Option Finding} {problems : Entry → List Finding}
  {b : Batch}

/-- A checker that goes through the files once, and whose state stays as it is. -/
theorem audit_of_reportingAll
    (hbuild : (c.build s).perform c.name c.checks .empty = (b, .ok (some state)))
    (hb : b.IsWhole) (hbreach : b.breach = none) (hpasses : c.passes state = 1)
    (hvisit : ∀ e ∈ visited s, c.visit s e 0 state = Check.reportingAll (problems e) state)
    (hdeclared : ∀ e ∈ visited s, ∀ f ∈ problems e, f.check ∈ c.checks)
    (hfinish : c.finish s state = pure ()) :
    c.audit s =
      .ok ⟨b.findings.reverse ++ (visited s).flatMap problems, [], b.records.reverse⟩ := by
  have hsame : ∀ e ∈ visited s, ∀ state', state = state' →
      c.visit s e 0 state' = Check.reportingAll (problems e) state' ∧ state = state' := by
    rintro e he state' rfl
    exact ⟨hvisit e he, rfl⟩
  have hend : c.finish s ((visited s).foldl (fun (state : c.State) (_ : Entry) => state) state) =
      Check.reportAll [] := by
    rw [List.foldl_fixed, hfinish]
    rfl
  have haudit := audit_of_visits hbuild hb hbreach hpasses rfl hsame hdeclared hend
    (List.forall_mem_nil _)
  rw [haudit.1, List.append_nil]

/-- The same where there is at most one finding for each file. -/
theorem audit_of_reporting
    (hbuild : (c.build s).perform c.name c.checks .empty = (b, .ok (some state)))
    (hb : b.IsWhole) (hbreach : b.breach = none) (hpasses : c.passes state = 1)
    (hvisit : ∀ e ∈ visited s, c.visit s e 0 state = Check.reporting (problem? e) state)
    (hdeclared : ∀ e ∈ visited s, ∀ f, problem? e = some f → f.check ∈ c.checks)
    (hfinish : c.finish s state = pure ()) :
    c.audit s =
      .ok ⟨b.findings.reverse ++ (visited s).filterMap problem?, [], b.records.reverse⟩ := by
  rw [List.filterMap_eq_flatMap_toList]
  exact audit_of_reportingAll hbuild hb hbreach hpasses
    (fun e he => (hvisit e he).trans (Check.reporting_eq_reportingAll _ _))
    (fun e he f hf => hdeclared e he f (Option.mem_toList.1 hf)) hfinish

end SameState

end Checker

end PackageAudit

import Mathlib.Data.List.Nodup
import PackageAudit.Package.Memory
import PackageAudit.Proofs.Audit.Outcome

/-!
# Proofs.Audit.Accounting — a report accounts for every call

What a report says is read off the histories of its checkers (`Audit.report_accounts_for_calls`): no
finding is lost, repeated or moved, and a checker that gives up loses what it left out, but nothing
else.
-/

namespace PackageAudit

/-! ## First occurrences -/

/-- The members of a list that do not stand further in front already. -/
def firstOccurrences {α : Type} [DecidableEq α] (l : List α) : List α :=
  (l.zipIdx.filter fun (x, i) => x ∉ l.take i).map Prod.fst

section FirstOccurrences

variable {α : Type} [DecidableEq α]

theorem firstOccurrences_append_singleton (l : List α) (x : α) :
    firstOccurrences (l ++ [x]) = firstOccurrences l ++ if x ∈ l then [] else [x] := by
  have hfront : (l.zipIdx.filter fun y => y.1 ∉ (l ++ [x]).take y.2) =
      l.zipIdx.filter fun y => y.1 ∉ l.take y.2 := by
    refine List.filter_congr fun y hy => ?_
    rw [take_append_of_mem_zipIdx [x] hy]
  have hlast : (l ++ [x]).take l.length = l := by simp
  simp only [firstOccurrences, List.zipIdx_append, List.filter_append, List.map_append, hfront]
  by_cases hx : x ∈ l <;> simp [hx]

theorem eraseDups_eq_firstOccurrences (l : List α) : l.eraseDups = firstOccurrences l := by
  induction l using List.reverseRecOn with
  | nil => rfl
  | append_singleton l x ih =>
    rw [List.eraseDups_append, firstOccurrences_append_singleton, ih]
    by_cases hx : x ∈ l
    · simp [List.removeAll, hx]
    · simp [List.removeAll, hx, List.eraseDups_cons]

theorem mem_firstOccurrences {l : List α} {x : α} : x ∈ firstOccurrences l ↔ x ∈ l := by
  rw [← eraseDups_eq_firstOccurrences, List.mem_eraseDups]

theorem nodup_firstOccurrences (l : List α) : (firstOccurrences l).Nodup := by
  induction l using List.reverseRecOn with
  | nil => exact List.nodup_nil
  | append_singleton l x ih =>
    rw [firstOccurrences_append_singleton]
    by_cases hx : x ∈ l
    · simpa [hx] using ih
    · rw [if_neg hx, List.nodup_append]
      refine ⟨ih, List.nodup_singleton x, ?_⟩
      intro y hy z hz
      obtain rfl := List.mem_singleton.1 hz
      rintro rfl
      exact hx (mem_firstOccurrences.1 hy)

theorem filter_eraseDups (p : α → Bool) (l : List α) :
    (l.filter p).eraseDups = l.eraseDups.filter p := by
  induction l using List.reverseRecOn with
  | nil => rfl
  | append_singleton l x ih =>
    rw [List.filter_append, List.eraseDups_append, List.eraseDups_append, List.filter_append, ih]
    by_cases hp : p x = true
    · -- the last element is new to the list if it is new to what is kept of it
      by_cases hx : x ∈ l
      · simp [List.removeAll, hp, hx]
      · simp [List.removeAll, hp, hx, List.eraseDups_cons]
    · by_cases hx : x ∈ l
      · simp [List.removeAll, hp, hx]
      · simp [List.removeAll, hp, hx, List.eraseDups_cons]

/-- The second of two lists adds what the first has not. -/
theorem eraseDups_append (l m : List α) :
    (l ++ m).eraseDups = l.eraseDups ++ m.eraseDups.filter (· ∉ l.eraseDups) := by
  have hnew : m.removeAll l = m.filter (· ∉ l) := by simp [List.removeAll]
  rw [List.eraseDups_append, hnew, filter_eraseDups]
  simp only [List.mem_eraseDups]

theorem eraseDups_append_of_disjoint {l m : List α} (h : l.Disjoint m) :
    (l ++ m).eraseDups = l.eraseDups ++ m.eraseDups := by
  rw [eraseDups_append]
  congr 1
  rw [List.filter_eq_self]
  intro x hx
  simpa using fun hl => h hl (List.mem_eraseDups.1 hx)

end FirstOccurrences

/-! ## Reports -/

namespace Audit

variable {a : Audit}

/-- Only the checkers that have some rule left report findings. -/
theorem findings_contribution (s : Subject) (checkers : List Checker) :
    checkers.flatMap (fun c => (a.contribution s c).findings) =
      (checkers.filter a.involves).flatMap fun c =>
        (c.reported s).filter fun f => !a.isExcluded f.check := by
  induction checkers with
  | nil => rfl
  | cons c rest ih =>
    rw [List.flatMap_cons, ih]
    cases hinv : a.involves c with
    | false => simp [hinv, contribution, restrict]
    | true => simp [hinv, contribution, restrict]

/-- Excluded rules aside, only the checkers that have some rule left leave out any. -/
theorem skips_contribution (s : Subject) (checkers : List Checker) :
    (checkers.flatMap fun c => (a.contribution s c).skips).filter (fun k => !a.isExcluded k.check) =
      (checkers.filter a.involves).flatMap fun c =>
        (c.leftOut s).filter fun k => !a.isExcluded k.check := by
  -- what an exclusion adds is about excluded rules only
  have hexcluded : ∀ checks : List CheckId,
      ((checks.filter a.isExcluded).map (Skip.mk · excludedReason)).filter
        (fun k => !a.isExcluded k.check) = [] := by
    intro checks
    rw [List.filter_eq_nil_iff]
    intro k hk
    obtain ⟨check, hcheck, rfl⟩ := List.mem_map.1 hk
    simpa using (List.mem_filter.1 hcheck).2
  induction checkers with
  | nil => rfl
  | cons c rest ih =>
    rw [List.flatMap_cons, List.filter_append, ih]
    cases hinv : a.involves c with
    | false => simp [hinv, contribution, restrict, hexcluded]
    | true => simp [hinv, contribution, restrict, hexcluded]

/--
A report holds the first occurrences of the findings under rules that are not excluded, checker by
checker: those of the calls in their order and, where the checker gave up, one for each of its
rules. Of such rules it leaves out those that some checker left out which did not give up.
-/
theorem report_accounts_for_calls {source : Source} {baselines : Baselines} {r : Report}
    (h : a.run source baselines = .ok r) :
    let s := Subject.of source baselines
    let checkers := a.checkers.filter a.involves
    r.findings = firstOccurrences
        (checkers.flatMap fun c => (c.reported s).filter fun f => !a.isExcluded f.check) ∧
      r.skips.filter (fun k => !a.isExcluded k.check) =
        checkers.flatMap fun c => (c.leftOut s).filter fun k => !a.isExcluded k.check := by
  intro s checkers
  obtain ⟨hreport, -⟩ := run_eq_ok h
  subst hreport
  refine ⟨?_, ?_⟩
  · simp only [report, List.flatMap_map, findings_contribution]
    exact eraseDups_eq_firstOccurrences _
  · simp only [report, List.flatMap_map]
    exact skips_contribution s a.checkers

/-- A checker that reports one finding twice and leaves out its other rule. -/
def repeating : Checker :=
  .single "repeating" [⟨"TST-001-1"⟩, ⟨"TST-002-1"⟩] fun _ => do
    .finding ⟨"TST-001-1"⟩ "seen"
    .leaveOut ⟨"TST-002-1"⟩ "not needed"
    .finding ⟨"TST-001-1"⟩ "seen"

/-- A checker that reports a finding, leaves out its other rules and gives up. -/
def needy : Checker :=
  .single "needy" [⟨"TST-003-1"⟩, ⟨"TST-004-1"⟩, ⟨"TST-005-1"⟩] fun _ => do
    .finding ⟨"TST-003-1"⟩ "seen"
    .leaveOutRest "later"
    .stop (.precondition "missing")

theorem report_accounts_for_repeating_needy :
    ∃ r, (Audit.mk [repeating, needy] [⟨"TST-004-1"⟩]).run MemoryPackage.empty.source .offline =
        .ok r ∧
      r.findings = [⟨⟨"TST-001-1"⟩, "seen"⟩, ⟨⟨"TST-003-1"⟩, "seen"⟩,
        ⟨⟨"TST-003-1"⟩, "missing"⟩, ⟨⟨"TST-005-1"⟩, "missing"⟩] ∧
      r.skips.filter (fun k => !Audit.isExcluded ⟨[repeating, needy], [⟨"TST-004-1"⟩]⟩ k.check) =
        [⟨⟨"TST-002-1"⟩, "not needed"⟩] := by
  cases hrun : (Audit.mk [repeating, needy] [⟨"TST-004-1"⟩]).run MemoryPackage.empty.source
      .offline with
  | error e => exact absurd hrun (by nofun)
  | ok r =>
    obtain ⟨hfindings, hskips⟩ := report_accounts_for_calls hrun
    exact ⟨r, rfl, hfindings, hskips⟩

end Audit

end PackageAudit

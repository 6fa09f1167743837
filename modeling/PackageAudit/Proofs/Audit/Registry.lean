import Mathlib.Data.List.Nodup
import PackageAudit.Audit.Run

/-!
# Proofs.Audit.Registry — which checkers make an audit

Checkers make an audit if each of them has a rule and the names of all rules are well formed and
different (`Audit.ofCheckers_eq_ok_iff`). An audit then leaves out the rules that it is told to, and
is told so only by names of its rules (`Audit.exclude_eq_ok_iff`).
-/

namespace PackageAudit

namespace Audit

/-- Each checker has a rule, and the names of all rules are well formed and different. -/
structure Acceptable (checkers : List Checker) : Prop where
  nonempty : ∀ c ∈ checkers, c.checks ≠ []
  wellFormed : ∀ check ∈ checkers.flatMap (·.checks), check.isWellFormed = true
  nodup : (checkers.flatMap (·.checks)).Nodup

/-! ## Owners -/

theorem lookup_eq_none_iff_notMem {owners : List (CheckId × String)} {check : CheckId} :
    owners.lookup check = none ↔ check ∉ owners.map Prod.fst := by
  rw [List.lookup_eq_none_iff]
  constructor
  · intro h hmem
    obtain ⟨p, hp, rfl⟩ := List.mem_map.1 hmem
    simpa using h p hp
  · intro h p hp
    have hne : check ≠ p.1 := by
      rintro rfl
      exact h (List.mem_map_of_mem hp)
    simpa using hne

theorem assign_eq_ok {owner : String} {owners given : List (CheckId × String)}
    {checks : List CheckId} (h : assign owner owners checks = .ok given) :
    (∀ check ∈ checks, check.isWellFormed = true) ∧
      given.map Prod.fst = checks.reverse ++ owners.map Prod.fst ∧
      ((owners.map Prod.fst).Nodup → (given.map Prod.fst).Nodup) := by
  induction checks generalizing owners with
  | nil =>
    cases h
    exact ⟨by simp, by simp, id⟩
  | cons check rest ih =>
    rw [assign] at h
    split at h
    · cases h
    · next hwf =>
      split at h
      · cases h
      · next hlookup =>
        -- the rule is well formed and has no owner yet
        obtain ⟨hrest, hkeys, hnodup⟩ := ih h
        refine ⟨?_, by simp [hkeys], fun howners => hnodup ?_⟩
        · intro other hmem
          rcases List.mem_cons.1 hmem with rfl | hmem
          · simpa using hwf
          · exact hrest other hmem
        · exact List.nodup_cons.2 ⟨lookup_eq_none_iff_notMem.1 hlookup, howners⟩

theorem assign_of_nodup (owner : String) {owners : List (CheckId × String)}
    {checks : List CheckId} (hwf : ∀ check ∈ checks, check.isWellFormed = true)
    (hnodup : (checks ++ owners.map Prod.fst).Nodup) :
    ∃ given, assign owner owners checks = .ok given := by
  induction checks generalizing owners with
  | nil => exact ⟨owners, rfl⟩
  | cons check rest ih =>
    have hcheck : check.isWellFormed = true := hwf check List.mem_cons_self
    obtain ⟨hfresh, -⟩ := List.nodup_cons.1 hnodup
    have hlookup : owners.lookup check = none :=
      lookup_eq_none_iff_notMem.2 fun hmem => hfresh (List.mem_append_right rest hmem)
    -- the rule moves from those to be given to those that have an owner
    have hmoved : (rest ++ ((check, owner) :: owners).map Prod.fst).Nodup := by
      rw [List.map_cons]
      exact (List.perm_middle.nodup_iff).2 hnodup
    obtain ⟨given, hgiven⟩ :=
      ih (fun other hmem => hwf other (List.mem_cons_of_mem check hmem)) hmoved
    exact ⟨given, by simp [assign, hcheck, hlookup, hgiven]⟩

theorem assignAll_eq_ok {owners given : List (CheckId × String)} {checkers : List Checker}
    (h : assignAll owners checkers = .ok given) :
    (∀ c ∈ checkers, c.checks ≠ []) ∧
      (∀ check ∈ checkers.flatMap (·.checks), check.isWellFormed = true) ∧
      given.map Prod.fst = (checkers.flatMap (·.checks)).reverse ++ owners.map Prod.fst ∧
      ((owners.map Prod.fst).Nodup → (given.map Prod.fst).Nodup) := by
  induction checkers generalizing owners with
  | nil =>
    cases h
    exact ⟨by simp, by simp, by simp, id⟩
  | cons c rest ih =>
    rw [assignAll] at h
    split at h
    · cases h
    · next hempty =>
      split at h
      · next owned howned =>
        obtain ⟨hwf, hkeys, hnodup⟩ := assign_eq_ok howned
        obtain ⟨hne, hrest, hall, hdistinct⟩ := ih h
        refine ⟨?_, ?_, by simp [hall, hkeys], fun howners => hdistinct (hnodup howners)⟩
        · intro d hd
          rcases List.mem_cons.1 hd with rfl | hd
          · simpa using hempty
          · exact hne d hd
        · intro check hmem
          rw [List.flatMap_cons, List.mem_append] at hmem
          rcases hmem with hmem | hmem
          · exact hwf check hmem
          · exact hrest check hmem
      · cases h

theorem assignAll_of_nodup (owners : List (CheckId × String)) {checkers : List Checker}
    (hne : ∀ c ∈ checkers, c.checks ≠ [])
    (hwf : ∀ check ∈ checkers.flatMap (·.checks), check.isWellFormed = true)
    (hnodup : (checkers.flatMap (·.checks) ++ owners.map Prod.fst).Nodup) :
    ∃ given, assignAll owners checkers = .ok given := by
  induction checkers generalizing owners with
  | nil => exact ⟨owners, rfl⟩
  | cons c rest ih =>
    rw [List.flatMap_cons] at hwf hnodup
    have hempty : c.checks.isEmpty = false := by
      simpa using hne c List.mem_cons_self
    have hfirst : (c.checks ++ owners.map Prod.fst).Nodup :=
      hnodup.sublist ((List.sublist_append_left _ _).append (List.Sublist.refl _))
    obtain ⟨owned, howned⟩ := assign_of_nodup c.name
      (fun check hmem => hwf check (List.mem_append_left _ hmem)) hfirst
    -- the rules of the checker move in the same way, backwards
    have hmoved : (rest.flatMap (·.checks) ++ owned.map Prod.fst).Nodup := by
      have hperm : (rest.flatMap (·.checks) ++ (c.checks.reverse ++ owners.map Prod.fst)).Perm
          (c.checks ++ rest.flatMap (·.checks) ++ owners.map Prod.fst) := by
        rw [← List.append_assoc]
        exact (List.perm_append_comm.trans ((List.reverse_perm _).append_right _)).append_right _
      rw [(assign_eq_ok howned).2.1]
      exact hperm.nodup_iff.2 hnodup
    obtain ⟨given, hgiven⟩ :=
      ih owned (fun d hd => hne d (List.mem_cons_of_mem c hd))
        (fun check hmem => hwf check (List.mem_append_right _ hmem)) hmoved
    exact ⟨given, by simp [assignAll, hempty, howned, hgiven]⟩

theorem ofCheckers_eq_ok_iff {checkers : List Checker} {a : Audit} :
    ofCheckers checkers = .ok a ↔ Acceptable checkers ∧ a = ⟨checkers, []⟩ := by
  constructor
  · intro h
    unfold ofCheckers at h
    split at h
    · next given hgiven =>
      obtain ⟨hne, hwf, hkeys, hnodup⟩ := assignAll_eq_ok hgiven
      have hall : ((checkers.flatMap (·.checks)).reverse).Nodup := by
        simpa [hkeys] using hnodup List.nodup_nil
      exact ⟨⟨hne, hwf, List.nodup_reverse.1 hall⟩, (Except.ok.inj h).symm⟩
    · cases h
  · rintro ⟨h, rfl⟩
    obtain ⟨given, hgiven⟩ := assignAll_of_nodup [] h.nonempty h.wellFormed
      (by simpa using h.nodup)
    simp [ofCheckers, hgiven]

/-! ## Exclusions -/

theorem find?_eq_some_iff {a : Audit} {name : String} {check : CheckId} :
    a.find? name = some check ↔ ⟨name⟩ ∈ a.checks ∧ check = ⟨name⟩ := by
  constructor
  · intro h
    have htext : check.text = name := by simpa using List.find?_some h
    subst htext
    exact ⟨List.mem_of_find?_eq_some h, rfl⟩
  · rintro ⟨hmem, rfl⟩
    cases hfind : a.find? name with
    | none =>
      have hnone := List.find?_eq_none.1 hfind ⟨name⟩ hmem
      simp at hnone
    | some check =>
      have htext : check.text = name := by simpa using List.find?_some hfind
      subst htext
      rfl

theorem excludeOne_eq_ok_iff {a b : Audit} {name : String} :
    a.excludeOne name = .ok b ↔
      ⟨name⟩ ∈ a.checks ∧ b = { a with excluded := a.excluded ++ [⟨name⟩] } := by
  cases hfind : a.find? name with
  | some check =>
    obtain ⟨hmem, rfl⟩ := find?_eq_some_iff.1 hfind
    simp [excludeOne, hfind, hmem, eq_comm]
  | none =>
    have habsent : ⟨name⟩ ∉ a.checks := by
      intro hmem
      have hsome := find?_eq_some_iff.2 ⟨hmem, rfl⟩
      rw [hfind] at hsome
      cases hsome
    simp [excludeOne, hfind, habsent]

theorem exclude_eq_ok_iff {a b : Audit} {names : List String} :
    a.exclude names = .ok b ↔
      (∀ name ∈ names, ⟨name⟩ ∈ a.checks) ∧
        b = { a with excluded := a.excluded ++ names.map CheckId.mk } := by
  induction names generalizing a with
  | nil => simp [exclude, pure, Except.pure, eq_comm]
  | cons name rest ih =>
    have hcons : a.exclude (name :: rest) = a.excludeOne name >>= fun b => b.exclude rest := rfl
    rw [hcons]
    cases hone : a.excludeOne name with
    | error e =>
      have habsent : ⟨name⟩ ∉ a.checks := by
        intro hmem
        have hok := excludeOne_eq_ok_iff.2 ⟨hmem, rfl⟩
        rw [hone] at hok
        cases hok
      constructor
      · intro h
        cases h
      · rintro ⟨hall, -⟩
        exact absurd (hall name List.mem_cons_self) habsent
    | ok next =>
      obtain ⟨hmem, rfl⟩ := excludeOne_eq_ok_iff.1 hone
      have hrest : Audit.exclude { a with excluded := a.excluded ++ [⟨name⟩] } rest = .ok b ↔
          (∀ other ∈ rest, ⟨other⟩ ∈ a.checks) ∧
            b = { a with excluded := a.excluded ++ [⟨name⟩] ++ rest.map CheckId.mk } := ih
      simp only [bind, Except.bind, hrest, List.forall_mem_cons, hmem, true_and, List.map_cons,
        List.append_assoc, List.singleton_append]

/-- An audit is made of the checkers and the names that it was made from. -/
theorem eq_of_exclude_ofCheckers {checkers : List Checker} {names : List String} {base a : Audit}
    (hcheckers : ofCheckers checkers = .ok base) (hexclude : base.exclude names = .ok a) :
    Acceptable checkers ∧ (∀ name ∈ names, ⟨name⟩ ∈ checkers.flatMap (·.checks)) ∧
      a = ⟨checkers, names.map CheckId.mk⟩ := by
  obtain ⟨haccept, rfl⟩ := ofCheckers_eq_ok_iff.1 hcheckers
  obtain ⟨hnames, rfl⟩ := exclude_eq_ok_iff.1 hexclude
  exact ⟨haccept, hnames, rfl⟩

theorem isExcluded_iff {checkers : List Checker} {names : List String} {check : CheckId} :
    isExcluded ⟨checkers, names.map CheckId.mk⟩ check = true ↔ check.text ∈ names := by
  rw [isExcluded, List.contains_iff_mem, List.mem_map]
  constructor
  · rintro ⟨name, hname, rfl⟩
    exact hname
  · intro h
    exact ⟨check.text, h, rfl⟩

end Audit

end PackageAudit

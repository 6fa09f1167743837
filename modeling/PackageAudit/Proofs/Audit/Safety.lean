import PackageAudit.Proofs.Audit.Outcome

/-!
# Proofs.Audit.Safety — work that keeps to the rules of reporting

`Check.Safe` walks through the calls of some work and asks that each may be made on the batch as it
is then, and that the work gives up only with a message. It is stated by recursion on the work, so
it follows the way in which work is put together: one rule for each kind of call, `safe_bind` for
work behind work, `safe_forM` for a list of calls under an invariant. A checker whose tasks are safe
under an invariant always has a result (`Checker.reliable_of_safe`, `Checker.Reliable.audit`).
-/

namespace PackageAudit

namespace Check

/--
Whether work on a batch makes only calls that may be made, gives up only with a message, and comes
to no other values and batches than those asked for.
-/
def Safe {α : Type} (declared : List CheckId) :
    Check α → Batch → (α → Batch → Prop) → Prop
  | done value, b, post => post value b
  | stop (.precondition _), _, _ => True
  | stop (.contract _), _, _ => False
  | report check message next, b, post =>
    b.findingBreach? declared check = none ∧
      (next none).Safe declared (b.addFinding check message) post
  | skip check reason next, b, post =>
    b.skipBreach? declared check = none ∧
      (next none).Safe declared (b.addSkip check reason) post
  | skipAll reason next, b, post => (next ()).Safe declared (b.addSkips declared reason) post
  | record name content next, b, post => (next ()).Safe declared (b.addRecord name content) post

variable {α β : Type} {declared : List CheckId} {b : Batch}

/-! ## Rules -/

/-- Work goes on with what a file answers. -/
theorem ofFile_bind {value : α} {f : α → Check β} : (ofFile (.ok value) >>= f) = f value :=
  rfl

theorem safe_pure {value : α} {post : α → Batch → Prop} :
    (pure value : Check α).Safe declared b post ↔ post value b :=
  Iff.rfl

theorem safe_precondition {message : String} {post : α → Batch → Prop} :
    (stop (.precondition message) : Check α).Safe declared b post :=
  trivial

theorem Safe.mono {m : Check α} {post post' : α → Batch → Prop} (h : m.Safe declared b post)
    (hpost : ∀ value b, post value b → post' value b) : m.Safe declared b post' := by
  induction m generalizing b with
  | done value => exact hpost value b h
  | stop cause =>
    cases cause with
    | precondition message => trivial
    | contract error => exact h.elim
  | report check message next ih => exact ⟨h.1, ih none h.2⟩
  | skip check reason next ih => exact ⟨h.1, ih none h.2⟩
  | skipAll reason next ih => exact ih () h
  | record name content next ih => exact ih () h

theorem safe_bind {m : Check α} {f : α → Check β} {post : β → Batch → Prop} :
    (m >>= f).Safe declared b post ↔
      m.Safe declared b fun value b => (f value).Safe declared b post := by
  change (m.andThen f).Safe declared b post ↔ _
  induction m generalizing b with
  | done value => exact Iff.rfl
  | stop cause => cases cause <;> exact Iff.rfl
  | report check message next ih => exact and_congr_right fun _ => ih none
  | skip check reason next ih => exact and_congr_right fun _ => ih none
  | skipAll reason next ih => exact ih ()
  | record name content next ih => exact ih ()

theorem safe_finding {check : CheckId} {message : String} {post : Unit → Batch → Prop} :
    (finding check message).Safe declared b post ↔
      b.findingBreach? declared check = none ∧ post () (b.addFinding check message) :=
  Iff.rfl

theorem safe_leaveOut {check : CheckId} {reason : String} {post : Unit → Batch → Prop} :
    (leaveOut check reason).Safe declared b post ↔
      b.skipBreach? declared check = none ∧ post () (b.addSkip check reason) :=
  Iff.rfl

theorem safe_leaveOutRest {reason : String} {post : Unit → Batch → Prop} :
    (leaveOutRest reason).Safe declared b post ↔ post () (b.addSkips declared reason) :=
  Iff.rfl

theorem safe_relyOn {name : String} {content : Bytes} {post : Unit → Batch → Prop} :
    (relyOn name content).Safe declared b post ↔ post () (b.addRecord name content) :=
  Iff.rfl

/-- Work that needs a result goes on with it, or gives up with a message. -/
theorem safe_orStop {ε : Type} {message : ε → String} {x : Except ε α}
    {post : α → Batch → Prop} (h : ∀ value, x = .ok value → post value b) :
    (orStop (fun e => .precondition (message e)) x).Safe declared b post := by
  cases x with
  | error e => exact safe_precondition
  | ok value => exact safe_pure.2 (h value rfl)

theorem safe_ofFile {x : Except PackageError α} {post : α → Batch → Prop}
    (h : ∀ value, x = .ok value → post value b) : (ofFile x).Safe declared b post :=
  safe_orStop h

theorem safe_ofManifest {x : Except ManifestError α} {post : α → Batch → Prop}
    (h : ∀ value, x = .ok value → post value b) : (ofManifest x).Safe declared b post :=
  safe_orStop h

theorem safe_forM {ι : Type} {l : List ι} {f : ι → Check Unit} {inv : Batch → Prop}
    (hstep : ∀ x ∈ l, ∀ b, inv b → (f x).Safe declared b fun _ => inv) (hb : inv b) :
    (l.forM f).Safe declared b fun _ => inv := by
  induction l generalizing b with
  | nil => exact hb
  | cons x l ih =>
    change (f x >>= fun _ => l.forM f).Safe declared b fun _ => inv
    rw [safe_bind]
    refine (hstep x List.mem_cons_self b hb).mono fun _ next hnext => ?_
    exact ih (fun y hy => hstep y (List.mem_cons_of_mem x hy)) hnext

/-! ## Safe work keeps to the rules -/

theorem breach_addSkips (b : Batch) (declared : List CheckId) (reason : String) :
    (b.addSkips declared reason).breach = b.breach := by
  induction declared generalizing b with
  | nil => rfl
  | cons check rest ih =>
    have hrest := ih (if b.isSkipped check || b.hasFailed check then b else b.addSkip check reason)
    refine Eq.trans hrest ?_
    split <;> rfl

/-- What safe work comes to. -/
def Settled (post : α → Batch → Prop) (b : Batch) : Except Stop α → Prop
  | .ok value => b.breach = none ∧ post value b
  | .error (.precondition _) => b.breach = none
  | .error (.contract _) => False

theorem settled_perform (checker : String) {m : Check α} {post : α → Batch → Prop}
    (h : m.Safe declared b post) (hb : b.breach = none) :
    Settled post (m.perform checker declared b).1 (m.perform checker declared b).2 := by
  induction m generalizing b with
  | done value => exact ⟨hb, h⟩
  | stop cause =>
    cases cause with
    | precondition message => exact hb
    | contract error => exact h.elim
  | report check message next ih =>
    rw [perform, h.1]
    exact ih none h.2 hb
  | skip check reason next ih =>
    rw [perform, h.1]
    exact ih none h.2 hb
  | skipAll reason next ih =>
    rw [perform]
    exact ih () h (by rw [breach_addSkips, hb])
  | record name content next ih =>
    rw [perform]
    exact ih () h hb

theorem settled_performAll {σ : Type} (checker : String) {inv : σ → Batch → Prop}
    {tasks : List (σ → Check σ)} {state : σ}
    (hstep : ∀ task ∈ tasks, ∀ state b, inv state b → (task state).Safe declared b inv)
    (hinv : inv state b) (hb : b.breach = none) :
    Settled inv (performAll checker declared tasks state b).1
      (performAll checker declared tasks state b).2 := by
  induction tasks generalizing state b with
  | nil => exact ⟨hb, hinv⟩
  | cons task rest ih =>
    have hfirst := settled_perform checker (hstep task List.mem_cons_self state b hinv) hb
    rw [performAll]
    rcases hperform : (task state).perform checker declared b with ⟨next, cause | value⟩
    · simpa [hperform] using hfirst
    · rw [hperform] at hfirst
      obtain ⟨hlegal, hnext⟩ : next.breach = none ∧ inv value next := hfirst
      simp only [hlegal, Option.isSome_none, Bool.false_eq_true, if_false]
      exact ih (fun other hmem => hstep other (List.mem_cons_of_mem task hmem)) hnext hlegal

end Check

/-! ## Reliable checkers -/

namespace Checker

/-- A checker that keeps to the rules of reporting and gives up only with a message. -/
structure Reliable (c : Checker) (s : Subject) : Prop where
  legal : firstBreach? c.checks (c.log s) = none
  ending : ∀ e, c.ending s ≠ some (.contract e)

variable {c : Checker} {s : Subject}

theorem legal_of_settled_error {α : Type} {post : α → Batch → Prop} {b : Batch} {cause : Stop}
    (h : Check.Settled post b (.error cause)) :
    b.breach = none ∧ ∀ e, some cause ≠ some (.contract e) := by
  cases cause with
  | precondition message => exact ⟨h, by simp⟩
  | contract error => exact h.elim

/-- A checker is reliable if its tasks are safe under an invariant that building it sets up. -/
theorem reliable_of_safe (inv : c.State → Batch → Prop)
    (hbuild : (c.build s).Safe c.checks .empty
      fun state? b => ∀ state, state? = some state → inv state b)
    (hvisit : ∀ e pass state b, inv state b → (c.visit s e pass state).Safe c.checks b inv)
    (hfinish : ∀ state b, inv state b → (c.finish s state).Safe c.checks b fun _ => inv state) :
    c.Reliable s := by
  -- the invariant holds between tasks; the last one comes to the state that it was given
  have htasks : ∀ passes, ∀ task ∈ c.calls s passes, ∀ state b, inv state b →
      (task state).Safe c.checks b inv := by
    intro passes task hmem state b hinv
    rcases List.mem_append.1 hmem with hmem | hmem
    · obtain ⟨⟨pass, entry⟩, -, rfl⟩ := List.mem_map.1 hmem
      exact hvisit entry pass state b hinv
    · obtain rfl := List.mem_singleton.1 hmem
      refine Check.safe_bind.2 ((hfinish state b hinv).mono fun _ next hnext => ?_)
      exact Check.safe_pure.2 hnext
  have hwork : (c.work s).1.breach = none ∧ ∀ e, (c.work s).2 ≠ some (.contract e) := by
    have hfirst := Check.settled_perform c.name hbuild rfl
    rw [work]
    rcases hperform : (c.build s).perform c.name c.checks .empty with ⟨b, cause | _ | state⟩
    · rw [hperform] at hfirst
      exact legal_of_settled_error hfirst
    · rw [hperform] at hfirst
      exact ⟨hfirst.1, by simp⟩
    · rw [hperform] at hfirst
      obtain ⟨hb, hstate⟩ : b.breach = none ∧ ∀ s, some state = some s → inv s b := hfirst
      have hrest := Check.settled_performAll c.name (htasks (c.passes state)) (hstate state rfl) hb
      simp only [hb, Option.isSome_none, Bool.false_eq_true, if_false]
      rcases hall : Check.performAll c.name c.checks (c.calls s (c.passes state)) state b
        with ⟨last, cause | final⟩
      · rw [hall] at hrest
        exact legal_of_settled_error hrest
      · rw [hall] at hrest
        exact ⟨hrest.1, by simp⟩
  exact ⟨by rw [← breach_work, hwork.1], hwork.2⟩

/-- Work that is done at once is reliable if it is safe from the start. -/
theorem reliable_single {name : String} {checks : List CheckId} {work : Subject → Check Unit}
    (h : (work s).Safe checks .empty fun _ _ => True) : (single name checks work).Reliable s := by
  refine reliable_of_safe (fun _ _ => True) ?_ (fun _ _ _ _ _ => trivial) (fun _ _ _ => trivial)
  refine Check.safe_bind.2 (h.mono fun _ b _ => ?_)
  intro state hstate
  exact trivial

theorem Reliable.audit (h : c.Reliable s) : ∃ r, c.audit s = .ok r := by
  rw [audit_of_legal h.legal]
  split
  · next e hending => exact absurd hending (h.ending e)
  · exact ⟨_, rfl⟩

end Checker

namespace Audit

theorem mem_of_mem_atWorkAmong {a : Audit} {s : Subject} {c : Checker} {checkers : List Checker}
    (h : c ∈ a.atWorkAmong s checkers) : c ∈ checkers := by
  induction checkers with
  | nil => exact h
  | cons d rest ih =>
    rw [atWorkAmong] at h
    split at h
    · rcases List.mem_cons.1 h with rfl | h
      · exact List.mem_cons_self
      · split at h
        · exact List.mem_cons_of_mem d (ih h)
        · cases h
    · exact List.mem_cons_of_mem d (ih h)

theorem mem_of_mem_atWork {a : Audit} {s : Subject} {c : Checker} (h : c ∈ a.atWork s) :
    c ∈ a.checkers :=
  mem_of_mem_atWorkAmong h

theorem run_of_reliable {a : Audit} {source : Source} {baselines : Baselines}
    (h : ∀ c ∈ a.checkers, c.Reliable (.of source baselines)) :
    ∃ r, a.run source baselines = .ok r := by
  cases hrun : a.run source baselines with
  | ok r => exact ⟨r, rfl⟩
  | error e =>
    -- the error would be that of a checker at work, which has a result
    obtain ⟨before, c, hwork, hc⟩ := run_eq_error hrun
    have hmem : c ∈ a.atWork (.of source baselines) := by
      rw [hwork]
      exact List.mem_append_right before List.mem_cons_self
    obtain ⟨result, hresult⟩ := (h c (mem_of_mem_atWork hmem)).audit
    rw [hc] at hresult
    cases hresult

end Audit

end PackageAudit

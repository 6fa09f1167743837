import PackageAudit.Proofs.Audit.Report
import PackageAudit.Proofs.Audit.Safety
import PackageAudit.Proofs.Package.Entries
import PackageAudit.Proofs.Text.Lines

/-!
# Proofs.Audit.Rendered — reports as texts

A report is printed line by line. What checkers wrote into it stands on these lines as it is, and so
the lines of the text are those that were meant only if none of these texts holds a line feed.

* `Texts` — all texts of a batch, a result or a report are of a kind;
* `Check.Says` — work that reports such texts only, by recursion on the work, with one rule for each
  way in which work is put together;
* `Checker.says_of_check`, `Audit.texts_of_run` — then results and reports hold such texts only;
* `flatMap_filter_perm` — what is grouped by distinct keys is only put in another order;
* `Report.Faithful` — the text of a report has one line for each rule, finding and record and one
  for the counts, and shows the outcomes of the rules and no others;
* `Report.Consistent.faithful`, `Report.Faithful.texts` — so it is for the reports whose texts are
  lines, and for no others;
* `Audit.consistent_of_run` — the reports of runs say one thing about each rule.
-/

namespace PackageAudit

/-! ## Texts of a kind -/

variable {ok : String → Prop}

/-- All texts of findings, skips and records are of a kind. -/
structure Texts (ok : String → Prop) (findings : List Finding) (skips : List Skip)
    (records : List BaselineRecord) : Prop where
  finding : ∀ f ∈ findings, ok f.message
  skip : ∀ k ∈ skips, ok k.reason
  record : ∀ b ∈ records, ok b.name

theorem Texts.nil : Texts ok [] [] [] :=
  ⟨by simp, by simp, by simp⟩

/-- Texts of a batch. -/
abbrev Batch.Texts (ok : String → Prop) (b : Batch) : Prop :=
  PackageAudit.Texts ok b.findings b.skips b.records

abbrev BatchResult.Texts (ok : String → Prop) (r : BatchResult) : Prop :=
  PackageAudit.Texts ok r.findings r.skips r.records

abbrev Report.Texts (ok : String → Prop) (r : Report) : Prop :=
  PackageAudit.Texts ok r.findings r.skips r.baselines

namespace Batch

variable {b : Batch} {text : String}

theorem Texts.addFinding (h : b.Texts ok) (check : CheckId) (htext : ok text) :
    (b.addFinding check text).Texts ok :=
  ⟨List.forall_mem_cons.2 ⟨htext, h.finding⟩, h.skip, h.record⟩

theorem Texts.addSkip (h : b.Texts ok) (check : CheckId) (htext : ok text) :
    (b.addSkip check text).Texts ok :=
  ⟨h.finding, List.forall_mem_append.2 ⟨h.skip, List.forall_mem_singleton.2 htext⟩, h.record⟩

theorem Texts.addSkips (h : b.Texts ok) (declared : List CheckId) (htext : ok text) :
    (b.addSkips declared text).Texts ok := by
  unfold Batch.addSkips
  induction declared generalizing b with
  | nil => exact h
  | cons check rest ih =>
    rw [List.foldl_cons]
    split
    · exact ih h
    · exact ih (h.addSkip check htext)

theorem Texts.addRecord (h : b.Texts ok) (content : Bytes) (htext : ok text) :
    (b.addRecord text content).Texts ok :=
  ⟨h.finding, h.skip, List.forall_mem_cons.2 ⟨htext, h.record⟩⟩

end Batch

/-! ## Work that reports such texts -/

namespace Check

/--
Whether work reports texts of a kind only, whatever its calls are answered, and comes to no other
values than those asked for.
-/
def Says {α : Type} (ok : String → Prop) : Check α → (α → Prop) → Prop
  | done value, post => post value
  | stop (.precondition message), _ => ok message
  | stop (.contract _), _ => True
  | report _ message next, post => ok message ∧ ∀ answer, (next answer).Says ok post
  | skip _ reason next, post => ok reason ∧ ∀ answer, (next answer).Says ok post
  | skipAll reason next, post => ok reason ∧ (next ()).Says ok post
  | record name _ next, post => ok name ∧ (next ()).Says ok post

variable {α β : Type} {post : α → Prop} {text : String}

theorem Says.mono {m : Check α} {post' : α → Prop} (h : m.Says ok post)
    (hpost : ∀ value, post value → post' value) : m.Says ok post' := by
  induction m with
  | done value => exact hpost value h
  | stop cause => cases cause <;> exact h
  | report check message next ih => exact ⟨h.1, fun answer => ih answer (h.2 answer)⟩
  | skip check reason next ih => exact ⟨h.1, fun answer => ih answer (h.2 answer)⟩
  | skipAll reason next ih => exact ⟨h.1, ih () h.2⟩
  | record name content next ih => exact ⟨h.1, ih () h.2⟩

theorem says_bind {m : Check α} {f : α → Check β} {post : β → Prop} :
    (m >>= f).Says ok post ↔ m.Says ok fun value => (f value).Says ok post := by
  change (m.andThen f).Says ok post ↔ _
  induction m with
  | done value => exact Iff.rfl
  | stop cause => cases cause <;> exact Iff.rfl
  | report check message next ih => exact and_congr_right fun _ => forall_congr' ih
  | skip check reason next ih => exact and_congr_right fun _ => forall_congr' ih
  | skipAll reason next ih => exact and_congr_right fun _ => ih ()
  | record name content next ih => exact and_congr_right fun _ => ih ()

theorem says_unlessBreach {post : Unit → Prop} (h : post ()) (answer : Option AuditError) :
    (unlessBreach answer).Says ok post := by
  cases answer with
  | none => exact h
  | some error => trivial

theorem says_finding {check : CheckId} {post : Unit → Prop} (htext : ok text) (h : post ()) :
    (finding check text).Says ok post :=
  ⟨htext, says_unlessBreach h⟩

theorem says_leaveOut {check : CheckId} {post : Unit → Prop} (htext : ok text) (h : post ()) :
    (leaveOut check text).Says ok post :=
  ⟨htext, says_unlessBreach h⟩

theorem says_leaveOutRest {post : Unit → Prop} (htext : ok text) (h : post ()) :
    (leaveOutRest text).Says ok post :=
  ⟨htext, h⟩

theorem says_relyOn {content : Bytes} {post : Unit → Prop} (htext : ok text) (h : post ()) :
    (relyOn text content).Says ok post :=
  ⟨htext, h⟩

/-- Work that needs a result goes on with it, or gives up with a message. -/
theorem says_orStop {ε : Type} {message : ε → String} {x : Except ε α}
    (herror : ∀ e, x = .error e → ok (message e)) (h : ∀ value, x = .ok value → post value) :
    (orStop (fun e => .precondition (message e)) x).Says ok post := by
  cases x with
  | error e => exact herror e rfl
  | ok value => exact h value rfl

theorem says_ofFile {x : Except PackageError α} (herror : ∀ e, x = .error e → ok e.message)
    (h : ∀ value, x = .ok value → post value) : (ofFile x).Says ok post :=
  says_orStop herror h

theorem says_ofManifest {x : Except ManifestError α} (herror : ∀ e, x = .error e → ok e.message)
    (h : ∀ value, x = .ok value → post value) : (ofManifest x).Says ok post :=
  says_orStop herror h

theorem says_forM {ι : Type} {l : List ι} {f : ι → Check Unit}
    (h : ∀ x ∈ l, (f x).Says ok fun _ => True) : (l.forM f).Says ok fun _ => True := by
  induction l with
  | nil => trivial
  | cons x l ih =>
    obtain ⟨hx, hl⟩ := List.forall_mem_cons.1 h
    change (f x >>= fun _ => l.forM f).Says ok fun _ => True
    exact says_bind.2 (hx.mono fun _ _ => ih hl)

/-! ### What is done with it -/

/-- What such work comes to. -/
def Comes (ok : String → Prop) (post : α → Prop) : Except Stop α → Prop
  | .ok value => post value
  | .error (.precondition message) => ok message
  | .error (.contract _) => True

variable {b : Batch} (checker : String) (declared : List CheckId)

theorem texts_perform {m : Check α} (h : m.Says ok post) (hb : b.Texts ok) :
    (m.perform checker declared b).1.Texts ok ∧
      Comes ok post (m.perform checker declared b).2 := by
  induction m generalizing b with
  | done value => exact ⟨hb, h⟩
  | stop cause => cases cause <;> exact ⟨hb, h⟩
  | report check message next ih =>
    rw [perform]
    split
    · exact ih _ (h.2 _) hb
    · exact ih _ (h.2 _) (hb.addFinding check h.1)
  | skip check reason next ih =>
    rw [perform]
    split
    · exact ih _ (h.2 _) hb
    · exact ih _ (h.2 _) (hb.addSkip check h.1)
  | skipAll reason next ih => exact ih () h.2 (hb.addSkips declared h.1)
  | record name content next ih => exact ih () h.2 (hb.addRecord content h.1)

theorem texts_performAll {σ : Type} {inv : σ → Prop} {tasks : List (σ → Check σ)} {state : σ}
    (hstep : ∀ task ∈ tasks, ∀ state, inv state → (task state).Says ok inv) (hstate : inv state)
    (hb : b.Texts ok) :
    (performAll checker declared tasks state b).1.Texts ok ∧
      Comes ok inv (performAll checker declared tasks state b).2 := by
  induction tasks generalizing state b with
  | nil => exact ⟨hb, hstate⟩
  | cons task rest ih =>
    obtain ⟨htask, hrest⟩ := List.forall_mem_cons.1 hstep
    obtain ⟨hfirst, hnext⟩ := texts_perform checker declared (htask state hstate) hb
    rw [performAll]
    rcases hperform : (task state).perform checker declared b with ⟨next, cause | value⟩
    · rw [hperform] at hfirst hnext
      exact ⟨hfirst, hnext⟩
    · rw [hperform] at hfirst hnext
      dsimp only
      split
      · exact ⟨hfirst, hnext⟩
      · exact ih hrest hnext hfirst

end Check

/-! ## Checkers -/

namespace Checker

/-- Whether the result of a checker holds texts of a kind only, if it has one. -/
def Says (ok : String → Prop) (c : Checker) (s : Subject) : Prop :=
  ∀ result, c.audit s = .ok result → result.Texts ok

variable {c : Checker} {s : Subject}

theorem mem_visits {files : List String} {entries : EntrySet} {passes pass : Nat} {e : Entry}
    (h : (pass, e) ∈ visits files entries passes) : e ∈ entries.entries ∧ e.path ∈ files := by
  obtain ⟨_, _, h⟩ := List.mem_flatMap.1 h
  obtain ⟨e', h, hpair⟩ := List.mem_map.1 h
  cases hpair
  obtain ⟨path, hpath, hget⟩ := List.mem_filterMap.1 h
  exact ⟨List.mem_of_find?_eq_some hget, (EntrySet.path_of_get? hget).symm ▸ hpath⟩

theorem texts_of_conclude {b : Batch} {stop : Option Stop} {result : BatchResult}
    (hb : b.Texts ok) (hstop : ∀ message, stop = some (.precondition message) → ok message)
    (h : c.conclude b stop = .ok result) : result.Texts ok := by
  have hreverse : ∀ f ∈ b.findings.reverse, ok f.message := fun f hf =>
    hb.finding f (List.mem_reverse.1 hf)
  have hrecords : ∀ r ∈ b.records.reverse, ok r.name := fun r hr =>
    hb.record r (List.mem_reverse.1 hr)
  unfold conclude at h
  split at h
  · cases h
  · cases h
    exact ⟨hreverse, hb.skip, hrecords⟩
  · next message _ =>
    cases h
    refine ⟨List.forall_mem_append.2 ⟨hreverse, ?_⟩, List.forall_mem_nil _, hrecords⟩
    intro f hf
    obtain ⟨check, -, rfl⟩ := List.mem_map.1 hf
    exact hstop message rfl
  · cases h

/-- The texts of a checker are those of its tasks, which keep to what building it sets up. -/
theorem says_of_check (inv : c.State → Prop)
    (hbuild : (c.build s).Says ok fun state? => ∀ state, state? = some state → inv state)
    (hvisit : ∀ e ∈ s.entries.entries, e.path ∈ s.source.files → ∀ pass state, inv state →
      (c.visit s e pass state).Says ok inv)
    (hfinish : ∀ state, inv state → (c.finish s state).Says ok fun _ => True) : c.Says ok s := by
  -- Visits and the end of a checker are tasks alike: each leaves behind a state that keeps to it.
  have htasks : ∀ passes, ∀ task ∈ c.calls s passes, ∀ state, inv state →
      (task state).Says ok inv := by
    intro passes task hmem state hstate
    rcases List.mem_append.1 hmem with hmem | hmem
    · obtain ⟨⟨pass, e⟩, hvisits, rfl⟩ := List.mem_map.1 hmem
      obtain ⟨he, hfile⟩ := mem_visits hvisits
      exact hvisit e he hfile pass state hstate
    · obtain rfl := List.mem_singleton.1 hmem
      exact Check.says_bind.2 ((hfinish state hstate).mono fun _ _ => hstate)
  have hwork : (c.work s).1.Texts ok ∧
      ∀ message, (c.work s).2 = some (.precondition message) → ok message := by
    obtain ⟨hfirst, hstate⟩ := Check.texts_perform c.name c.checks hbuild (b := .empty) .nil
    rw [work]
    rcases hperform : (c.build s).perform c.name c.checks .empty with ⟨b, cause | _ | state⟩
    · rw [hperform] at hfirst hstate
      refine ⟨hfirst, ?_⟩
      rintro message ⟨⟩
      exact hstate
    · rw [hperform] at hfirst
      refine ⟨hfirst, ?_⟩
      rintro message ⟨⟩
    · rw [hperform] at hfirst hstate
      dsimp only
      split
      · refine ⟨hfirst, ?_⟩
        rintro message ⟨⟩
      obtain ⟨hlast, hend⟩ := Check.texts_performAll c.name c.checks (htasks (c.passes state))
        (hstate state rfl) hfirst
      rcases hall : Check.performAll c.name c.checks (c.calls s (c.passes state)) state b
        with ⟨last, cause | final⟩
      · rw [hall] at hlast hend
        refine ⟨hlast, ?_⟩
        rintro message ⟨⟩
        exact hend
      · rw [hall] at hlast
        refine ⟨hlast, ?_⟩
        rintro message ⟨⟩
  exact fun result h => texts_of_conclude hwork.1 hwork.2 h

/-- The texts of work that is done at once. -/
theorem says_single {name : String} {checks : List CheckId} {work : Subject → Check Unit}
    (h : (work s).Says ok fun _ => True) : (single name checks work).Says ok s := by
  refine says_of_check (fun _ => True) ?_ (fun _ _ _ _ _ _ => trivial) (fun _ _ => trivial)
  refine Check.says_bind.2 (h.mono fun _ _ => ?_)
  intro state hstate
  exact trivial

end Checker

/-! ## Runs -/

namespace Audit

variable {a : Audit} {s : Subject} {c : Checker} {result : BatchResult} {r : Report}

theorem texts_restrict (hexcluded : ok excludedReason) (h : result.Texts ok) :
    (a.restrict c result).Texts ok := by
  refine ⟨fun f hf => h.finding f (List.mem_of_mem_filter hf), ?_, h.record⟩
  intro k hk
  rcases List.mem_append.1 hk with hk | hk
  · exact h.skip k (List.mem_of_mem_filter hk)
  · obtain ⟨check, -, rfl⟩ := List.mem_map.1 hk
    exact hexcluded

theorem texts_report {results : List BatchResult} (h : ∀ result ∈ results, result.Texts ok) :
    (a.report results).Texts ok := by
  constructor
  · intro f hf
    obtain ⟨result, hresult, hf⟩ := List.mem_flatMap.1 (List.mem_eraseDups.1 hf)
    exact (h result hresult).finding f hf
  · intro k hk
    obtain ⟨result, hresult, hk⟩ := List.mem_flatMap.1 hk
    exact (h result hresult).skip k hk
  · intro b hb
    obtain ⟨result, hresult, hb⟩ := List.mem_flatMap.1 (List.mem_eraseDups.1 hb)
    exact (h result hresult).record b hb

/-- A report holds texts of a kind only if all results do, and the reason for an exclusion. -/
theorem texts_of_run {source : Source} {baselines : Baselines} (hexcluded : ok excludedReason)
    (h : ∀ c ∈ a.checkers, c.Says ok (.of source baselines))
    (hrun : a.run source baselines = .ok r) : r.Texts ok := by
  rcases a.run_cases source baselines with ⟨hreport, -, hall⟩ | ⟨-, -, e, -, -, herror, -⟩
  · cases hrun.symm.trans hreport
    refine texts_report fun result hresult => ?_
    obtain ⟨c, hc, rfl⟩ := List.mem_map.1 hresult
    cases hinvolves : a.involves c with
    | false =>
      rw [contribution_of_not_involves hinvolves]
      exact texts_restrict hexcluded .nil
    | true =>
      obtain ⟨result, haudit⟩ := hall c (List.mem_filter.2 ⟨hc, hinvolves⟩)
      rw [contribution_of_audit hinvolves haudit]
      exact texts_restrict hexcluded (h c hc result haudit)
  · cases hrun.symm.trans herror

end Audit

/-! ## Groups -/

/-- What is grouped by distinct keys is all there, if every key is among them. -/
theorem flatMap_filter_perm {α κ : Type} [BEq κ] [LawfulBEq κ] (key : α → κ) {keys : List κ}
    (hkeys : keys.Nodup) {l : List α} (hl : ∀ x ∈ l, key x ∈ keys) :
    (keys.flatMap fun k => l.filter (key · == k)).Perm l := by
  induction keys generalizing l with
  | nil =>
    have hnil : l = [] := List.eq_nil_iff_forall_not_mem.2 fun x hx => List.not_mem_nil (hl x hx)
    rw [hnil, List.flatMap_nil]
  | cons k keys ih =>
    obtain ⟨hk, hkeys⟩ := List.nodup_cons.1 hkeys
    -- The other keys select from what the first one leaves.
    have hothers : (keys.flatMap fun k' => l.filter (key · == k')) =
        keys.flatMap fun k' => (l.filter (!key · == k)).filter (key · == k') := by
      refine List.flatMap_congr fun k' hk' => ?_
      rw [List.filter_filter]
      refine List.filter_congr fun x _ => ?_
      have hne : k' ≠ k := fun h => hk (h ▸ hk')
      by_cases hx : key x = k'
      · simp [hx, hne]
      · simp [hx]
    have hrest : ∀ x ∈ l.filter (!key · == k), key x ∈ keys := by
      intro x hx
      obtain ⟨hx, hne⟩ := List.mem_filter.1 hx
      refine (List.mem_cons.1 (hl x hx)).resolve_left ?_
      simpa using hne
    rw [List.flatMap_cons, hothers]
    exact ((ih hkeys hrest).append_left _).trans (List.filter_append_perm _ l)

/-! ## The text of a report -/

namespace Report

/-- The line with the outcome of a rule. -/
def outcomeLine (r : Report) (s : Summary) : String :=
  s.outcome.word ++ " " ++ s.check.text ++
    match r.skipReason? s.check with
    | some reason => " (" ++ reason ++ ")"
    | none => ""

/-- The line of a finding, below that of its rule. -/
def findingLine (f : Finding) : String :=
  "       " ++ f.message

/-- Whether a line begins as one with an outcome does. -/
def tellsOutcome (line : String) : Bool :=
  [Outcome.pass, .fail, .skip].any fun outcome =>
    (outcome.word ++ " ").toList.isPrefixOf line.toList

/--
A text that tells what a report holds, and nothing else: each line of it is about one rule, one
finding or one record, or is the summary. The lines that begin with an outcome are those about
rules, in the order of the rules.
-/
structure Faithful (declared : List CheckId) (r : Report) : Prop where
  /-- The lines of the text are those that were written, and nothing stands behind them. -/
  lines_eq : endedLines r.render = r.lines
  whole : String.join ((endedLines r.render).map (· ++ "\n")) = r.render
  /-- There is one line for each rule, each finding and each record, and one summary. -/
  perm : (endedLines r.render).Perm (r.checks.map r.outcomeLine ++ r.findings.map findingLine ++
    r.baselines.map recordLine ++ [r.countLine])
  outcomes_eq : (endedLines r.render).filter tellsOutcome = r.checks.map r.outcomeLine
  checks_eq : r.checks.map (·.check) = declared
  /-- Only behind a rule that is left out stands more than the outcome and the rule. -/
  outcome_eq : ∀ s ∈ r.checks, s.outcome ≠ .skip →
    r.outcomeLine s = s.outcome.word ++ " " ++ s.check.text

variable {r : Report}

theorem checkLines_eq (r : Report) (s : Summary) :
    r.checkLines s = r.outcomeLine s :: (r.findingsFor s.check).map findingLine :=
  rfl

/-! ### Lines -/

theorem isLine_word (outcome : Outcome) : IsLine outcome.word := by
  cases outcome <;> simp [IsLine, Outcome.word]

theorem isLine_hex (bs : Bytes) : IsLine (Endian.hex bs) := by
  simp [IsLine, Endian.hex]

theorem Texts.isLine_outcomeLine (h : r.Texts IsLine) {s : Summary} (hcheck : IsLine s.check.text) :
    IsLine (r.outcomeLine s) := by
  unfold outcomeLine
  cases hreason : r.skipReason? s.check with
  | none => simp [IsLine, isLine_word, hcheck]
  | some reason =>
    obtain ⟨k, hk, rfl⟩ := Option.map_eq_some_iff.1 hreason
    have hk' := h.skip k (List.mem_of_find?_eq_some hk)
    simp [IsLine, isLine_word, hcheck, hk']

theorem Texts.isLine_of_mem_lines (h : r.Texts IsLine)
    (hchecks : ∀ s ∈ r.checks, IsLine s.check.text) : ∀ line ∈ r.lines, IsLine line := by
  have hfinding : ∀ f ∈ r.findings, IsLine (findingLine f) := fun f hf => by
    simp [findingLine, IsLine, h.finding f hf]
  have hrecord : ∀ b ∈ r.baselines, IsLine (recordLine b) := fun b hb => by
    simp [recordLine, IsLine, h.record b hb, isLine_hex]
  have hcount : IsLine r.countLine := by simp [countLine, IsLine, toString]
  unfold lines
  refine List.forall_mem_append.2 ⟨List.forall_mem_append.2 ⟨?_, ?_⟩, ?_⟩
  · intro line hline
    obtain ⟨s, hs, hline⟩ := List.mem_flatMap.1 hline
    rw [checkLines_eq] at hline
    rcases List.mem_cons.1 hline with rfl | hline
    · exact h.isLine_outcomeLine (hchecks s hs)
    · obtain ⟨f, hf, rfl⟩ := List.mem_map.1 hline
      exact hfinding f (List.mem_of_mem_filter hf)
  · intro line hline
    obtain ⟨b, hb, rfl⟩ := List.mem_map.1 hline
    exact hrecord b hb
  · exact List.forall_mem_singleton.2 hcount

/-- A finding under a listed rule has its line. -/
theorem findingLine_mem_lines {f : Finding} {outcome : Outcome} (hf : f ∈ r.findings)
    (houtcome : r.outcome? f.check = some outcome) : findingLine f ∈ r.lines := by
  obtain ⟨s, hs, -⟩ := Option.map_eq_some_iff.1 houtcome
  have hcheck : s.check = f.check :=
    eq_of_beq (List.find?_some (p := fun s : Summary => s.check == f.check) hs)
  have hrule : findingLine f ∈ r.checkLines s := by
    rw [checkLines_eq, findingsFor, hcheck]
    refine List.mem_cons_of_mem _ (List.mem_map_of_mem (List.mem_filter.2 ⟨hf, ?_⟩))
    exact beq_self_eq_true f.check
  refine List.mem_append_left _ (List.mem_append_left _ ?_)
  exact List.mem_flatMap.2 ⟨s, List.mem_of_find?_eq_some hs, hrule⟩

/-- In the text stands whatever a line of the report falls apart into. -/
theorem mem_endedLines {line part : String} (hline : line ∈ r.lines) (h : part ∈ linesIn line) :
    part ∈ endedLines r.render := by
  rw [render, endedLines_join]
  exact List.mem_flatMap.2 ⟨line, hline, h⟩

/-- The lines are grouped by rules. -/
theorem lines_perm (hchecks : (r.checks.map (·.check)).Nodup)
    (hfindings : ∀ f ∈ r.findings, f.check ∈ r.checks.map (·.check)) :
    r.lines.Perm (r.checks.map r.outcomeLine ++ r.findings.map findingLine ++
      r.baselines.map recordLine ++ [r.countLine]) := by
  have hgroups : (r.checks.flatMap fun s => r.findingsFor s.check).Perm r.findings := by
    have hkeys := flatMap_filter_perm Finding.check hchecks hfindings
    rwa [List.flatMap_map] at hkeys
  have hrules : (r.checks.flatMap r.checkLines).Perm
      (r.checks.map r.outcomeLine ++ r.findings.map findingLine) := by
    have hsplit := List.map_append_flatMap_perm r.checks r.outcomeLine
      fun s => (r.findingsFor s.check).map findingLine
    refine hsplit.symm.trans (List.Perm.append_left _ ?_)
    rw [← List.map_flatMap]
    exact hgroups.map findingLine
  exact (hrules.append_right _).append_right _

/-! ### Beginnings of lines -/

theorem head?_of_tellsOutcome {line : String} (h : tellsOutcome line = true) :
    line.toList.head? ∈ [some 'p', some 'f', some 's'] := by
  obtain ⟨outcome, -, h⟩ := List.any_eq_true.1 h
  obtain ⟨rest, hrest⟩ := List.isPrefixOf_iff_prefix.1 h
  rw [← hrest]
  cases outcome <;> simp [Outcome.word]

theorem tellsOutcome_outcomeLine (r : Report) (s : Summary) :
    tellsOutcome (r.outcomeLine s) = true := by
  refine List.any_eq_true.2 ⟨s.outcome, ?_, ?_⟩
  · cases s.outcome <;> simp
  · rw [List.isPrefixOf_iff_prefix]
    simp only [outcomeLine, String.toList_append, List.append_assoc]
    exact ⟨_, List.append_assoc _ _ _⟩

theorem tellsOutcome_findingLine (f : Finding) : tellsOutcome (findingLine f) = false := by
  refine Bool.eq_false_iff.2 fun h => ?_
  have hhead := head?_of_tellsOutcome h
  simp [findingLine] at hhead

theorem tellsOutcome_recordLine (b : BaselineRecord) : tellsOutcome (recordLine b) = false := by
  refine Bool.eq_false_iff.2 fun h => ?_
  have hhead := head?_of_tellsOutcome h
  simp [recordLine] at hhead

theorem tellsOutcome_countLine (r : Report) : tellsOutcome r.countLine = false := by
  refine Bool.eq_false_iff.2 fun h => ?_
  -- It begins with a number, and that with a digit.
  have hhead := head?_of_tellsOutcome h
  obtain ⟨c, digits, hdigits⟩ := List.exists_cons_of_ne_nil
    (Nat.toDigits_ne_nil (n := r.count .pass) (b := 10))
  have hc : c.isDigit = true :=
    Nat.isDigit_of_mem_toDigits (b := 10) (by decide) (by decide) (hdigits ▸ List.mem_cons_self)
  simp [countLine, toString, hdigits] at hhead
  rcases hhead with rfl | rfl | rfl <;> exact absurd hc (by decide)

/-- The lines that begin with an outcome are those about rules. -/
theorem filter_tellsOutcome (r : Report) :
    r.lines.filter tellsOutcome = r.checks.map r.outcomeLine := by
  have hrule : ∀ s, (r.checkLines s).filter tellsOutcome = [r.outcomeLine s] := by
    intro s
    have hfindings : ((r.findingsFor s.check).map findingLine).filter tellsOutcome = [] := by
      simp [tellsOutcome_findingLine]
    rw [checkLines_eq, List.filter_cons_of_pos (tellsOutcome_outcomeLine r s), hfindings]
  have hrecords : (r.baselines.map recordLine).filter tellsOutcome = [] := by
    simp [tellsOutcome_recordLine]
  have hcount : [r.countLine].filter tellsOutcome = [] := by simp [tellsOutcome_countLine]
  rw [lines, List.filter_append, List.filter_append, hrecords, hcount, List.append_nil,
    List.append_nil, List.filter_flatMap, List.map_eq_flatMap]
  exact List.flatMap_congr fun s _ => hrule s

/-- A report whose texts are lines is told faithfully, if it says one thing about each rule. -/
theorem Consistent.faithful {declared : List CheckId} {excluded : List String}
    (h : r.Consistent declared excluded) (htexts : r.Texts IsLine)
    (hdeclared : ∀ check ∈ declared, IsLine check.text) : r.Faithful declared := by
  have hchecks : ∀ s ∈ r.checks, IsLine s.check.text := fun s hs =>
    hdeclared s.check (h.checks_eq ▸ List.mem_map_of_mem hs)
  have hlines : endedLines r.render = r.lines :=
    endedLines_join_of_isLine (htexts.isLine_of_mem_lines hchecks)
  constructor
  · exact hlines
  · rw [hlines]
    rfl
  · rw [hlines]
    exact lines_perm (h.checks_eq ▸ h.checks_nodup)
      fun f hf => h.checks_eq ▸ (h.finding_declared f hf).1
  · rw [hlines, filter_tellsOutcome]
  · exact h.checks_eq
  · intro s hs hskip
    have hnone : r.skipReason? s.check = none := by
      refine Option.map_eq_none_iff.2 (List.find?_eq_none.2 fun k hk hcheck => hskip ?_)
      exact (h.skip_iff s hs).2 ⟨k, hk, eq_of_beq hcheck⟩
    rw [outcomeLine, hnone, String.append_empty]

/-- What a faithful text shows are lines. -/
theorem Faithful.texts {declared : List CheckId} (h : r.Faithful declared)
    (hskips : (r.skips.map (·.check)).Nodup) (hmem : ∀ k ∈ r.skips, k.check ∈ declared) :
    r.Texts IsLine := by
  have hlines : ∀ line ∈ r.checks.map r.outcomeLine ++ r.findings.map findingLine ++
      r.baselines.map recordLine ++ [r.countLine], IsLine line := fun line hline =>
    isLine_of_mem_endedLines (h.perm.mem_iff.2 hline)
  simp only [List.forall_mem_append, List.forall_mem_map] at hlines
  obtain ⟨⟨⟨houtcomes, hfindings⟩, hrecords⟩, -⟩ := hlines
  constructor
  · intro f hf
    have hline := hfindings f hf
    simp only [findingLine, IsLine, String.toList_append, List.mem_append, not_or] at hline
    exact hline.2
  · intro k hk
    obtain ⟨s, hs, hcheck⟩ := List.mem_map.1 (h.checks_eq ▸ hmem k hk)
    have hreason : r.skipReason? s.check = some k.reason :=
      hcheck ▸ Audit.skipReason?_eq hskips hk
    have hline := houtcomes s hs
    rw [outcomeLine, hreason] at hline
    simp only [IsLine, String.toList_append, List.mem_append, not_or] at hline
    exact hline.2.1.2
  · intro b hb
    have hline := hrecords b hb
    simp only [recordLine, IsLine, String.toList_append, List.mem_append, not_or] at hline
    exact hline.1.1.2

end Report

/-- A report is consistent, and leaves out no other rules than those of its checkers. -/
theorem Audit.consistent_of_run {checkers : List Checker} {names : List String} {source : Source}
    {baselines : Baselines} {r : Report} (haccept : Acceptable checkers)
    (hnames : ∀ name ∈ names, ⟨name⟩ ∈ checkers.flatMap (·.checks))
    (hrun : Audit.run ⟨checkers, names.map CheckId.mk⟩ source baselines = .ok r) :
    r.Consistent (checkers.flatMap (·.checks)) names ∧
      ∀ k ∈ r.skips, k.check ∈ checkers.flatMap (·.checks) := by
  obtain ⟨rfl, hlegal⟩ := run_eq_ok hrun
  have hfits := fits_contributions haccept.nodup hlegal
  have hchecks : (Audit.mk checkers (names.map CheckId.mk)).checks.Nodup := haccept.nodup
  constructor
  · refine consistent_of_fits hchecks hnames (fun _ => isExcluded_iff) ?_
    rw [List.flatMap_map, List.flatMap_map]
    exact hfits
  · intro k hk
    obtain ⟨result, hresult, hk⟩ := List.mem_flatMap.1 hk
    obtain ⟨c, hc, rfl⟩ := List.mem_map.1 hresult
    exact hfits.skip_mem k (List.mem_flatMap.2 ⟨c, hc, hk⟩)

end PackageAudit

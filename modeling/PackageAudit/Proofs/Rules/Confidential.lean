import PackageAudit.Proofs.Confidential.Index
import PackageAudit.Proofs.Package.Entries
import PackageAudit.Proofs.Rules.OnePass
import PackageAudit.Rules.Confidential

/-!
# Proofs.Rules.Confidential — confidential contents are found

A file is first compared with the index by the digest of its start. It is read as a whole only for
an entry that shares this digest and is not longer than the file, and then compared with entries
only until one matches. None of this changes the answer.

* `ConfidentialRules.search_eq` — the search finds a match if there is one;
* `ConfidentialRules.audit_of_visits` — what is reported of a package, from what visits find;
* `ConfidentialRules.audit_withoutRules` — the same where all files are short enough to be hashed;
* `ConfidentialRules.audit_encode` — the findings, in terms of the contents behind an index.
-/

namespace PackageAudit

namespace ConfidentialRules

open Confidential (Index Secret)

/-! ## Matches -/

/-- The entry of a confidential content. -/
def secretOf (content : Bytes) : Secret where
  start := (FilteredDigest.ofStart content).hash
  full := (FilteredDigest.of content).hash
  length := .ofNat (FilteredDigest.of content).length

/-- Contents that agree in the digests of their starts, their lengths and their whole digests. -/
structure Alike (a b : Bytes) : Prop where
  start : (FilteredDigest.ofStart a).hash = (FilteredDigest.ofStart b).hash
  length : (FilteredDigest.of a).length = (FilteredDigest.of b).length
  full : (FilteredDigest.of a).hash = (FilteredDigest.of b).hash

/-- An entry has the length and the digest of a whole content. -/
def Matches (content : Bytes) (s : Secret) : Prop :=
  (FilteredDigest.of content).length = s.length.toNat ∧ (FilteredDigest.of content).hash = s.full

instance (content : Bytes) : DecidablePred (Matches content) := fun s =>
  inferInstanceAs (Decidable (_ = s.length.toNat ∧ _ = s.full))

/-- An entry has the length and both digests of a content. -/
def Describes (content : Bytes) (s : Secret) : Prop :=
  s.start = (FilteredDigest.ofStart content).hash ∧ Matches content s

instance (content : Bytes) : DecidablePred (Describes content) := fun s =>
  inferInstanceAs (Decidable (s.start = _ ∧ Matches content s))

theorem describes_secretOf {secret content : Bytes}
    (h : (FilteredDigest.of secret).length < 2 ^ 32) :
    Describes content (secretOf secret) ↔ Alike secret content := by
  have hlength : (secretOf secret).length.toNat = (FilteredDigest.of secret).length := by
    rw [secretOf, UInt32.toNat_ofNat']
    exact Nat.mod_eq_of_lt h
  unfold Describes Matches
  rw [hlength]
  exact ⟨fun ⟨hstart, hlength, hfull⟩ => ⟨hstart, hlength.symm, hfull.symm⟩,
    fun h => ⟨h.start, h.length.symm, h.full.symm⟩⟩

theorem length_of_le (content : Bytes) : (FilteredDigest.of content).length ≤ content.length := by
  have hlength : (FilteredDigest.of content).length =
      0 + (content.filter (!FilteredDigest.isLineBreak ·)).length := rfl
  rw [hlength, Nat.zero_add]
  exact List.length_filter_le _ _

theorem ofStart_take (content : Bytes) :
    FilteredDigest.ofStart (content.take FilteredDigest.startLength) =
      FilteredDigest.ofStart content := by
  rw [FilteredDigest.ofStart, List.take_take, Nat.min_self]
  rfl

/-! ## One file -/

/-- An index without rules. -/
def withoutRules (secrets : List Secret) : Index :=
  ⟨secrets, ⟨[], []⟩, ⟨[], []⟩, [], none⟩

/-- The finding about a file with a confidential content. -/
def hashFinding (path : String) : Finding :=
  ⟨hashRule, s!"confidential content hash match: {path}"⟩

/-- What is wrong with a content under a path. -/
def problem? (secrets : List Secret) (path : String) (content : Bytes) : Option Finding :=
  if ∃ s ∈ secrets, Describes content s then some (hashFinding path) else none

theorem problem?_eq_some {secrets : List Secret} {path : String} {content : Bytes} {f : Finding} :
    problem? secrets path content = some f ↔
      (∃ s ∈ secrets, Describes content s) ∧ f = hashFinding path := by
  unfold problem?
  split
  · next hknown => rw [Option.some_inj, and_iff_right hknown, eq_comm]
  · next hknown => exact iff_of_false nofun fun h => hknown h.1

theorem hashFinding_injective : Function.Injective hashFinding := by
  intro path path' h
  exact String.append_right_inj _ |>.1 (Finding.mk.inj h).2

section Files

variable {secrets : List Secret} {p : MemoryPackage} {path : String} {content : Bytes}

theorem digestOf_eq (hget : p.get? path = some content) {known : Option FilteredDigest}
    (hknown : ∀ digest ∈ known, digest = .of content) :
    digestOf p.source path known = pure (.of content) := by
  cases known with
  | some digest => rw [digestOf, hknown digest rfl]
  | none =>
    rw [digestOf, MemoryPackage.source_openFile hget]
    rfl

/--
Passing over what is longer than the file, reading the file when that is needed first, and stopping
at the first match all leave the answer as it is: whether any of the entries matches.
-/
theorem search_eq (hget : p.get? path = some content) {known : Option FilteredDigest}
    (hknown : ∀ digest ∈ known, digest = .of content) :
    search p.source path content.length known secrets = Check.reportAny
      (if ∃ s ∈ secrets, Matches content s then some (hashFinding path) else none) := by
  -- On the entries, whether the digest is known already or not: it may only be the right one.
  induction secrets generalizing known with
  | nil =>
    rw [if_neg fun ⟨_, hs, _⟩ => List.not_mem_nil hs]
    rfl
  | cons s rest ih =>
    rw [search]
    simp only [List.exists_mem_cons_iff]
    split
    · -- Line breaks do not count, so the digest of a file is never longer than the file.
      next hlonger =>
      have hother : ¬ Matches content s := fun h =>
        absurd (length_of_le content) (Nat.not_le.2 (h.1 ▸ hlonger))
      rw [ih hknown]
      simp only [hother, false_or]
    · rw [digestOf_eq hget hknown]
      change (if Matches content s then _ else _) = _
      by_cases hmatch : Matches content s
      · simp only [hmatch, true_or, if_true]
        rfl
      · rw [if_neg hmatch, ih (by rintro _ ⟨⟩; rfl)]
        simp only [hmatch, false_or]

theorem checkHash_eq (h : Index.Ascending secrets) (hget : p.get? path = some content)
    (hlength : content.length ≤ maxHashedLength) :
    checkHash (withoutRules secrets) p.source path content.length =
      Check.reportAny (problem? secrets path content) := by
  have hcandidates : (∃ s ∈ (withoutRules secrets).candidates (FilteredDigest.ofStart content).hash,
      Matches content s) ↔ ∃ s ∈ secrets, Describes content s := by
    simp only [Index.mem_candidates_iff (i := withoutRules secrets) h, and_assoc]
    rfl
  rw [checkHash]
  split
  · next hnone =>
    -- An index without entries knows nothing.
    have hempty : secrets = [] :=
      List.length_eq_zero_iff.1 (hnone.resolve_right (Nat.not_lt.2 hlength))
    subst hempty
    rw [problem?, if_neg fun ⟨_, hs, _⟩ => List.not_mem_nil hs]
    rfl
  · rw [MemoryPackage.source_readStart hget, Check.ofFile_bind, ofStart_take,
      search_eq hget (by rintro _ ⟨⟩)]
    simp only [hcandidates]
    rfl

/-- Without rules nothing but the digests of a file are looked at. -/
theorem visit_of_checkHash {s : Subject} {e : Entry} {x : Option Finding}
    (hsource : s.source = p.source) (hget : p.get? e.path = some content)
    (hhash : checkHash (withoutRules secrets) p.source e.path content.length =
      Check.reportAny x) :
    visit s e (withoutRules secrets) = Check.reporting x (withoutRules secrets) := by
  have hpath : checkPath (withoutRules secrets) e = pure () := rfl
  have hcontent : checkContent (withoutRules secrets) p.source e content.length = pure () := rfl
  rw [visit, hsource, hpath, MemoryPackage.source_size hget]
  change (checkHash (withoutRules secrets) p.source e.path content.length >>= fun _ =>
    checkContent (withoutRules secrets) p.source e content.length >>= fun _ => _) = _
  rw [hcontent, hhash]
  rfl

theorem visit_eq {s : Subject} {e : Entry} (hsource : s.source = p.source)
    (h : Index.Ascending secrets) (hget : p.get? e.path = some content)
    (hlength : content.length ≤ maxHashedLength) :
    visit s e (withoutRules secrets) =
      Check.reporting (problem? secrets e.path content) (withoutRules secrets) :=
  visit_of_checkHash hsource hget (checkHash_eq h hget hlength)

end Files

/-! ## All files -/

section Audits

variable {secrets : List Secret} {p : MemoryPackage} {s : Subject}
  {wrong? : String → Bytes → Option Finding}

/-- What is wrong with the file under a path of a package, if that depends on the file only. -/
def problemAt? (wrong? : String → Bytes → Option Finding) (p : MemoryPackage) (path : String) :
    Option Finding :=
  (p.get? path).bind (wrong? path)

/-- The problems of the files of a package. -/
def problems (secrets : List Secret) (p : MemoryPackage) : List Finding :=
  p.contents.filterMap fun f => problem? secrets f.1 f.2

theorem filterMap_problemAt? (hp : p.files.Nodup) :
    p.files.filterMap (problemAt? wrong? p) = p.contents.filterMap fun f => wrong? f.1 f.2 := by
  rw [MemoryPackage.files, List.filterMap_map]
  apply List.filterMap_congr
  intro f hf
  have hget : p.get? f.1 = some f.2 := MemoryPackage.get?_eq_some hp hf
  rw [Function.comp_apply, problemAt?, hget]
  rfl

/-- The entries that are visited are those of the files, in order. -/
theorem filterMap_visited (hsource : s.source = p.source)
    (hentries : s.entries = .ofFiles s.target p.files) (g : String → Option Finding) :
    (Checker.visited s).filterMap (fun e => g e.path) = p.files.filterMap g := by
  have hfiles : s.source.files = p.files := congrArg Source.files hsource
  rw [Checker.visited, hfiles, hentries, EntrySet.filterMap_get?_files, List.filterMap_map]
  rfl

/-- An entry that is visited is that of a file of the package. -/
theorem content_of_visited {e : Entry} (hsource : s.source = p.source)
    (h : e ∈ Checker.visited s) : ∃ content, (e.path, content) ∈ p.contents := by
  rcases Checker.mem_visited_iff.1 h with ⟨hpath, -⟩
  rw [hsource] at hpath
  obtain ⟨file, hfile, hname⟩ := List.mem_map.1 hpath
  exact ⟨file.2, hname ▸ hfile⟩

/-- The checker is built if the index can be read. -/
theorem build_eq {blob : Bytes} {index : Index} (hindex : s.baselines.index = .ok blob)
    (hblob : Index.parse blob = .ok index) :
    build s = Check.relyOn indexName blob >>= fun _ => pure (some index) := by
  rw [build, hindex]
  dsimp only
  rw [hblob]

/-- If a visit finds what is wrong with its file, these problems are reported in order. -/
theorem audit_of_visits (hsource : s.source = p.source)
    (hentries : s.entries = .ofFiles s.target p.files) (hp : p.files.Nodup) {blob : Bytes}
    {index : Index} (hindex : s.baselines.index = .ok blob) (hblob : Index.parse blob = .ok index)
    (hwrong : ∀ path content x, wrong? path content = some x → x = hashFinding path)
    (hvisit : ∀ (e : Entry) (content : Bytes), (e.path, content) ∈ p.contents →
      visit s e index = Check.reporting (wrong? e.path content) index) :
    checker.audit s =
      .ok ⟨p.contents.filterMap fun f => wrong? f.1 f.2, [], [.of indexName blob]⟩ := by
  have hbuild : (checker.build s).perform checker.name checker.checks .empty =
      (Batch.empty.addRecord indexName blob, .ok (some index)) :=
    congrArg (Check.perform checker.name checker.checks · Batch.empty) (build_eq hindex hblob)
  have hvisits : ∀ e ∈ Checker.visited s, checker.visit s e 0 index =
      Check.reporting (problemAt? wrong? p e.path) index := by
    intro e he
    obtain ⟨content, hmem⟩ := content_of_visited hsource he
    rw [problemAt?, MemoryPackage.get?_eq_some hp hmem]
    exact hvisit e content hmem
  have hdeclared : ∀ e ∈ Checker.visited s, ∀ x, problemAt? wrong? p e.path = some x →
      x.check ∈ checker.checks := by
    intro e _ x hx
    obtain ⟨content, -, hx⟩ := Option.bind_eq_some_iff.1 hx
    rw [hwrong e.path content x hx]
    exact List.mem_cons_of_mem _ List.mem_cons_self
  rw [Checker.audit_of_reporting hbuild rfl rfl rfl hvisits hdeclared rfl,
    filterMap_visited hsource hentries, filterMap_problemAt? hp]
  rfl

/-- A file is reported if and only if something is wrong with it. -/
theorem mem_reported_iff (hp : p.files.Nodup)
    (hwrong : ∀ path content x, wrong? path content = some x → x = hashFinding path)
    {f : String × Bytes} (hf : f ∈ p.contents) :
    hashFinding f.1 ∈ p.contents.filterMap (fun f => wrong? f.1 f.2) ↔
      wrong? f.1 f.2 = some (hashFinding f.1) := by
  rw [List.mem_filterMap]
  constructor
  · rintro ⟨g, hg, hproblem⟩
    -- The finding names the path, and a path has one content.
    have hpath : f.1 = g.1 := hashFinding_injective (hwrong _ _ _ hproblem)
    have hcontent : some f.2 = some g.2 := by
      rw [← MemoryPackage.get?_eq_some hp hf, ← MemoryPackage.get?_eq_some hp hg, hpath]
    rwa [← hpath, ← Option.some.inj hcontent] at hproblem
  · exact fun hproblem => ⟨f, hf, hproblem⟩

/-- With an index without rules, what is reported are the problems of the files, in order. -/
theorem audit_withoutRules (hsource : s.source = p.source)
    (hentries : s.entries = .ofFiles s.target p.files)
    (h : Index.Ascending secrets) (hp : p.files.Nodup)
    (hsmall : ∀ f ∈ p.contents, f.2.length ≤ maxHashedLength)
    {blob : Bytes} (hindex : s.baselines.index = .ok blob)
    (hblob : Index.parse blob = .ok (withoutRules secrets)) :
    checker.audit s = .ok ⟨problems secrets p, [], [.of indexName blob]⟩ :=
  audit_of_visits hsource hentries hp hindex hblob (fun _ _ _ hx => (problem?_eq_some.1 hx).2)
    fun _ _ hmem => visit_eq hsource h (MemoryPackage.get?_eq_some hp hmem) (hsmall _ hmem)

theorem mem_problems_iff (hp : p.files.Nodup) {f : String × Bytes} (hf : f ∈ p.contents) :
    hashFinding f.1 ∈ problems secrets p ↔ ∃ s ∈ secrets, Describes f.2 s := by
  have hwrong : ∀ path content x, problem? secrets path content = some x → x = hashFinding path :=
    fun _ _ _ hx => (problem?_eq_some.1 hx).2
  rw [problems, mem_reported_iff hp hwrong hf, problem?_eq_some, and_iff_left rfl]

theorem nodup_problems (hp : p.files.Nodup) : (problems secrets p).Nodup := by
  have hpaths : p.contents.Pairwise fun f g => f.1 ≠ g.1 := List.pairwise_map.1 hp
  refine List.pairwise_filterMap.2 (hpaths.imp fun {f g} hne x hx y hy hxy => ?_)
  obtain ⟨-, rfl⟩ := problem?_eq_some.1 hx
  obtain ⟨-, rfl⟩ := problem?_eq_some.1 hy
  exact hne (hashFinding_injective hxy)

/--
Confidential contents, published as an index without rules, are reported: for each file of a package
that is like one of them there is one finding, and there are no others. A file with the very bytes
of a confidential content is among these.

The number of entries is one word of the index, which more contents than that do not fit.
-/
theorem audit_encode {secrets : List Bytes} {files : List (String × Bytes)} {p : MemoryPackage}
    {baselines : Baselines}
    (hlengths : ∀ secret ∈ secrets, (FilteredDigest.of secret).length < 2 ^ 32)
    (hcount : secrets.length < 2 ^ 32)
    (hfiles : MemoryPackage.ofFiles files = .ok p)
    (hsmall : ∀ f ∈ files, f.2.length ≤ maxHashedLength)
    (hindex : baselines.index = .ok (Index.encode (secrets.map secretOf) [])) :
    ∃ r, checker.audit (.of p.source baselines) = .ok r ∧ r.skips = [] ∧ r.findings.Nodup ∧
      (∀ x ∈ r.findings, ∃ f ∈ files, x = hashFinding f.1) ∧
      (∀ f ∈ files, hashFinding f.1 ∈ r.findings ↔ ∃ secret ∈ secrets, Alike secret f.2) ∧
      ∀ f ∈ files, f.2 ∈ secrets → hashFinding f.1 ∈ r.findings := by
  obtain ⟨hpaths, hperm⟩ := MemoryPackage.perm_of_ofFiles hfiles
  have hblob := Index.parse_encode_nil ((List.length_map secretOf).symm ▸ hcount)
  have haudit := audit_withoutRules (s := .of p.source baselines) rfl rfl
    (Index.ascending_ordered _) hpaths (fun f hf => hsmall f (hperm.mem_iff.1 hf)) hindex hblob
  have hknown (content : Bytes) :
      (∃ s ∈ Index.ordered (secrets.map secretOf), Describes content s) ↔
        ∃ secret ∈ secrets, Alike secret content := by
    simp only [Index.mem_ordered, List.mem_map, exists_exists_and_eq_and]
    exact exists_congr fun secret => and_congr_right fun h => describes_secretOf (hlengths _ h)
  have hiff : ∀ f ∈ files,
      hashFinding f.1 ∈ problems (Index.ordered (secrets.map secretOf)) p ↔
        ∃ secret ∈ secrets, Alike secret f.2 := by
    intro f hf
    rw [mem_problems_iff hpaths (hperm.mem_iff.2 hf), hknown]
  refine ⟨_, haudit, rfl, nodup_problems hpaths, ?_, hiff, ?_⟩
  · intro x hx
    obtain ⟨f, hf, hproblem⟩ := List.mem_filterMap.1 hx
    exact ⟨f, hperm.mem_iff.1 hf, (problem?_eq_some.1 hproblem).2⟩
  · intro f hf hsecret
    exact (hiff f hf).2 ⟨f.2, hsecret, ⟨rfl, rfl, rfl⟩⟩

end Audits

/-- A short content, and how it looks with other line breaks. -/
def note : Bytes := [0x6B, 0x65, 0x79, 0x0A]

def returnNote : Bytes := [0x6B, 0x65, 0x79, 0x0D, 0x0A]

/-- A content that is longer. -/
def notes : Bytes := [0x6B, 0x65, 0x79, 0x73]

/-- A package with both of them. -/
def notePackage : MemoryPackage := ⟨[("copy.txt", returnNote), ("other.txt", notes)]⟩

/-- A service that knows the short content only. -/
def noteBaselines : Baselines :=
  { Baselines.offline with index := .ok (Index.encode [secretOf note] []) }

theorem audit_encode_note :
    ∃ r, checker.audit (.of notePackage.source noteBaselines) = .ok r ∧
      hashFinding "copy.txt" ∈ r.findings ∧ hashFinding "other.txt" ∉ r.findings := by
  have halike : Alike note returnNote := ⟨by decide +kernel, by decide +kernel, by decide +kernel⟩
  have hunlike : ¬ Alike note notes := fun h => absurd h.length (by decide +kernel)
  obtain ⟨r, haudit, -, -, -, hiff, -⟩ :=
    @audit_encode [note] notePackage.contents notePackage noteBaselines (by decide +kernel)
      (by decide) (by decide +kernel) (by decide +kernel) rfl
  refine ⟨r, haudit, ?_, ?_⟩
  · exact (hiff ("copy.txt", returnNote) List.mem_cons_self).2 ⟨note, List.mem_cons_self, halike⟩
  · intro h
    obtain ⟨secret, hsecret, hlike⟩ :=
      (hiff ("other.txt", notes) (List.mem_cons_of_mem _ List.mem_cons_self)).1 h
    obtain rfl := List.mem_singleton.1 hsecret
    exact hunlike hlike

end ConfidentialRules

end PackageAudit

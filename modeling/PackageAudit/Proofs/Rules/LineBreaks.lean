import PackageAudit.Proofs.Digest.Filtered
import PackageAudit.Proofs.Rules.Confidential

/-!
# Proofs.Rules.LineBreaks — confidential contents with other line breaks

Line breaks are left out before a content is hashed, so they do not change its digest. The digest of
its start is another matter: the start is cut off first, with the line breaks in it. A content that
goes on behind its start has another one once its line breaks take more room.

* `ConfidentialRules.audit_mem_iff` — what is said of each file, whatever the lengths of the others;
* `ConfidentialRules.audit_lineBreaks` — when a content is found again with other line breaks;
* `ConfidentialRules.returns_missed` — a content of 600 lines that is not.
-/

namespace PackageAudit

namespace ConfidentialRules

open Confidential (Index Secret)
open FilteredDigest (kept)

variable {secrets : List Bytes} {files : List (String × Bytes)} {p : MemoryPackage}
  {baselines : Baselines}

/-! ## Contents of a package -/

/-- What is wrong with a content under a path, if it is short enough to be hashed. -/
def hashed? (secrets : List Secret) (path : String) (content : Bytes) : Option Finding :=
  if content.length ≤ maxHashedLength then problem? secrets path content else none

theorem hashed?_eq_some {path : String} {content : Bytes} {entries : List Secret} {x : Finding} :
    hashed? entries path content = some x ↔ content.length ≤ maxHashedLength ∧
      (∃ s ∈ entries, Describes content s) ∧ x = hashFinding path := by
  unfold hashed?
  split
  · next hsmall => rw [problem?_eq_some, and_iff_right hsmall]
  · next hlong => exact iff_of_false nofun fun h => hlong h.1

/-- Without rules nothing is said of a file that is too long to be hashed. -/
theorem visit_hashed {s : Subject} {e : Entry} {entries : List Secret} {content : Bytes}
    (hsource : s.source = p.source) (h : Index.Ascending entries)
    (hget : p.get? e.path = some content) :
    visit s e (withoutRules entries) =
      Check.reporting (hashed? entries e.path content) (withoutRules entries) := by
  unfold hashed?
  split
  · next hsmall => exact visit_eq hsource h hget hsmall
  · next hlong =>
    exact visit_of_checkHash hsource hget (if_pos (.inr (Nat.lt_of_not_le hlong)))

/-- What an index that holds some contents says of the files of a package. -/
theorem audit_mem_iff (hlengths : ∀ secret ∈ secrets, (FilteredDigest.of secret).length < 2 ^ 32)
    (hcount : secrets.length < 2 ^ 32) (hfiles : MemoryPackage.ofFiles files = .ok p)
    (hindex : baselines.index = .ok (Index.encode (secrets.map secretOf) [])) :
    ∃ r, checker.audit (.of p.source baselines) = .ok r ∧
      ∀ f ∈ files, hashFinding f.1 ∈ r.findings ↔
        f.2.length ≤ maxHashedLength ∧ ∃ secret ∈ secrets, Alike secret f.2 := by
  obtain ⟨hpaths, hperm⟩ := MemoryPackage.perm_of_ofFiles hfiles
  have hblob := Index.parse_encode_nil ((List.length_map secretOf).symm ▸ hcount)
  have hwrong : ∀ path content x,
      hashed? (Index.ordered (secrets.map secretOf)) path content = some x → x = hashFinding path :=
    fun _ _ _ hx => (hashed?_eq_some.1 hx).2.2
  refine ⟨_, audit_of_visits (s := .of p.source baselines) rfl rfl hpaths hindex hblob hwrong
    fun e content hmem => visit_hashed rfl (Index.ascending_ordered _)
      (MemoryPackage.get?_eq_some hpaths hmem), fun f hf => ?_⟩
  rw [mem_reported_iff hpaths hwrong (hperm.mem_iff.2 hf), hashed?_eq_some, and_iff_left rfl]
  simp only [Index.mem_ordered, List.mem_map, exists_exists_and_eq_and]
  exact and_congr_right fun _ =>
    exists_congr fun secret => and_congr_right fun h => describes_secretOf (hlengths _ h)

/-! ## Line breaks -/

/-- A content that is found must agree with an entry in its start as well. -/
theorem alike_iff {secret content : Bytes} :
    Alike secret content ↔ FilteredDigest.of secret = FilteredDigest.of content ∧
      (FilteredDigest.ofStart secret).hash = (FilteredDigest.ofStart content).hash := by
  constructor
  · rintro ⟨hstart, hlength, hfull⟩
    refine ⟨?_, hstart⟩
    cases hs : FilteredDigest.of secret
    cases hc : FilteredDigest.of content
    rw [hs, hc] at hlength hfull
    rw [FilteredDigest.mk.injEq]
    exact ⟨hfull, hlength⟩
  · rintro ⟨hof, hstart⟩
    exact ⟨hstart, by rw [hof], by rw [hof]⟩

/--
A file that holds a confidential content with other line breaks is reported if and only if its start
has the digest of the start of that content, or of another one with the same digest as a whole. This
is so if the starts differ in line breaks only, and always if both contents are no longer than a
start.
-/
theorem audit_lineBreaks {secret : Bytes} {f : String × Bytes}
    (hlengths : ∀ secret ∈ secrets, (FilteredDigest.of secret).length < 2 ^ 32)
    (hcount : secrets.length < 2 ^ 32) (hfiles : MemoryPackage.ofFiles files = .ok p)
    (hindex : baselines.index = .ok (Index.encode (secrets.map secretOf) []))
    (hsecret : secret ∈ secrets) (hf : f ∈ files) (hsmall : f.2.length ≤ maxHashedLength)
    (hkept : kept f.2 = kept secret) :
    ∃ r, checker.audit (.of p.source baselines) = .ok r ∧
      (hashFinding f.1 ∈ r.findings ↔ ∃ other ∈ secrets,
        FilteredDigest.of other = FilteredDigest.of secret ∧
          (FilteredDigest.ofStart other).hash = (FilteredDigest.ofStart f.2).hash) ∧
      (kept (secret.take FilteredDigest.startLength) =
        kept (f.2.take FilteredDigest.startLength) → hashFinding f.1 ∈ r.findings) ∧
      (secret.length ≤ FilteredDigest.startLength → f.2.length ≤ FilteredDigest.startLength →
        hashFinding f.1 ∈ r.findings) := by
  obtain ⟨r, haudit, hiff⟩ := audit_mem_iff hlengths hcount hfiles hindex
  have hiff : hashFinding f.1 ∈ r.findings ↔ ∃ secret ∈ secrets, Alike secret f.2 :=
    (hiff f hf).trans (and_iff_right hsmall)
  have hof : FilteredDigest.of f.2 = FilteredDigest.of secret := FilteredDigest.of_eq_of_kept hkept
  have hstarts (h : kept (secret.take FilteredDigest.startLength) =
      kept (f.2.take FilteredDigest.startLength)) : hashFinding f.1 ∈ r.findings := by
    refine hiff.2 ⟨secret, hsecret, alike_iff.2 ⟨hof.symm, ?_⟩⟩
    exact congrArg FilteredDigest.hash (FilteredDigest.of_eq_of_kept h)
  refine ⟨r, haudit, ?_, hstarts, fun hshort hshort' => hstarts ?_⟩
  · simp only [hiff, alike_iff, hof]
  · -- Contents that are no longer than a start are their own starts.
    rw [List.take_of_length_le hshort, List.take_of_length_le hshort', hkept]

/-- A content of lines of one letter, each with the given line break. -/
def letterLines (count : Nat) (lineBreak : Bytes) : Bytes :=
  (List.replicate count (0x61 :: lineBreak)).flatten

/-- A service that knows one content. -/
def baselinesOf (secret : Bytes) : Baselines :=
  { Baselines.offline with index := .ok (Index.encode [secretOf secret] []) }

/-- Few enough lines are found whatever their line breaks are. -/
theorem audit_lineBreaks_short :
    let content := letterLines 300 [0x0D, 0x0A]
    kept content = kept (letterLines 300 [0x0A]) ∧
      ∃ r, checker.audit
          (.of (MemoryPackage.source ⟨[("copy.txt", content)]⟩)
            (baselinesOf (letterLines 300 [0x0A]))) = .ok r ∧
        hashFinding "copy.txt" ∈ r.findings := by
  intro content
  have hkept : kept content = kept (letterLines 300 [0x0A]) := by decide +kernel
  obtain ⟨r, haudit, -, -, hshort⟩ :=
    @audit_lineBreaks [letterLines 300 [0x0A]] [("copy.txt", content)] ⟨[("copy.txt", content)]⟩
      (baselinesOf (letterLines 300 [0x0A])) _ ("copy.txt", content) (by decide +kernel) (by decide)
      (by decide +kernel) rfl List.mem_cons_self List.mem_cons_self (by decide +kernel) hkept
  exact ⟨hkept, r, haudit, hshort (by decide +kernel) (by decide +kernel)⟩

/--
With 600 lines the start holds more of them where line breaks take one byte than where they take
two, and the copy with the longer line breaks passes as something else.
-/
theorem returns_missed :
    let secret := letterLines 600 [0x0A]
    let content := letterLines 600 [0x0D, 0x0A]
    kept content = kept secret ∧ content.length ≤ maxHashedLength ∧
      ((Audit.mk [checker] []).run (MemoryPackage.source ⟨[("copy.txt", content)]⟩)
          (baselinesOf secret)).map Report.findings = .ok [] :=
  ⟨by decide +kernel, by decide +kernel, by decide +kernel⟩

end ConfidentialRules

end PackageAudit

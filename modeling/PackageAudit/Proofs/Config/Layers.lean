import Mathlib
import PackageAudit.CommandLine.Arguments
import PackageAudit.Proofs.Audit.Accounting
import PackageAudit.Proofs.Text.Lines

/-!
# Proofs.Config.Layers — settings laid over settings

Variables are laid over the settings of a file, and the options of a command line over both. What
can be used stays so, and rules are only added to those that are left out.

* `Config.joinNames` — names with others behind them that are not yet there;
* `Config.Lists` — the names between the commas of a text;
* `Config.Merged` — settings with those of variables over them, field by field;
* `Invocation.adjust_merge` — what becomes of settings under both layers.

What a variable or an option sets depends on it alone, and not on what was set before. So each layer
laid over its own result changes nothing.
-/

namespace PackageAudit

namespace Config

variable {lookup : String → Option String} {c m : Config}

/-! ## Names -/

section Names

variable {names more : List String} {name : String}

/-- Names with those of others behind them that are not among them, each once. -/
def joinNames (names more : List String) : List String :=
  names ++ (more.filter (· ∉ names)).eraseDups

theorem joinNames_nil : joinNames names [] = names :=
  List.append_nil _

/-- The first of the names to be joined is put behind the others, unless it is there. -/
theorem joinNames_cons :
    joinNames names (name :: more) =
      joinNames (if names.contains name then names else names ++ [name]) more := by
  by_cases hmem : name ∈ names
  · simp [joinNames, hmem]
  · have hfilter : (more.filter (· ∉ names)).filter (fun other => !other == name) =
        more.filter (· ∉ names ++ [name]) := by
      rw [List.filter_filter]
      refine List.filter_congr fun other _ => ?_
      by_cases hother : other = name <;> simp [hother, hmem]
    rw [joinNames, joinNames, List.filter_cons_of_pos (by simpa using hmem), List.eraseDups_cons,
      hfilter, List.contains_eq_mem, decide_eq_false hmem]
    simp

theorem joinNames_append (others : List String) :
    joinNames names (more ++ others) = joinNames (joinNames names more) others := by
  induction more generalizing names with
  | nil => rw [joinNames_nil, List.nil_append]
  | cons name more ih => rw [List.cons_append, joinNames_cons, ih, ← joinNames_cons]

theorem mem_joinNames : name ∈ joinNames names more ↔ name ∈ names ∨ name ∈ more := by
  rw [joinNames, List.mem_append, List.mem_eraseDups, List.mem_filter, decide_eq_true_iff]
  by_cases hmem : name ∈ names <;> simp [hmem]

/-- Names that are all there change nothing. -/
theorem joinNames_of_subset (h : ∀ name ∈ more, name ∈ names) : joinNames names more = names := by
  have hnone : more.filter (· ∉ names) = [] :=
    List.filter_eq_nil_iff.2 fun name hname => by simpa using h name hname
  rw [joinNames, hnone]
  exact List.append_nil _

theorem joinNames_joinNames : joinNames (joinNames names more) more = joinNames names more :=
  joinNames_of_subset fun _ hname => mem_joinNames.2 (.inr hname)

/-- A name that is there stands as often as before, and a new one once. -/
theorem count_joinNames (name : String) :
    (joinNames names more).count name =
      if name ∈ names then names.count name else if name ∈ more then 1 else 0 := by
  have hnew : ((more.filter (· ∉ names)).eraseDups).count name =
      if name ∈ more ∧ name ∉ names then 1 else 0 := by
    have hnodup : ((more.filter (· ∉ names)).eraseDups).Nodup :=
      eraseDups_eq_firstOccurrences (more.filter (· ∉ names)) ▸ nodup_firstOccurrences _
    rw [hnodup.count]
    simp
  rw [joinNames, List.count_append, hnew]
  by_cases hmem : name ∈ names
  · simp [hmem]
  · simp [hmem, List.count_eq_zero_of_not_mem]

/-- Rules are added to those that are left out as names are joined. -/
theorem foldl_addExclude (more : List String) (c : Config) :
    more.foldl addExclude c = { c with exclude := joinNames c.exclude more } := by
  induction more generalizing c with
  | nil => rw [joinNames_nil, List.foldl_nil]
  | cons name more ih =>
    rw [List.foldl_cons, ih, joinNames_cons, addExclude]
    split <;> rfl

end Names

/-! ## Names in a text -/

/-- A text of white space only. -/
def Blank (cs : List Char) : Prop :=
  ∀ c ∈ cs, Property.whiteSpace.has c = true

/-- A text with white space around it, and the text alone. -/
structure Trims (cs core : List Char) : Prop where
  around : ∃ front back, cs = front ++ core ++ back ∧ Blank front ∧ Blank back
  head : ∀ c, core.head? = some c → Property.whiteSpace.has c = false
  last : ∀ c, core.getLast? = some c → Property.whiteSpace.has c = false

/-- The names that parts of a text hold: white space does not count. -/
inductive Holds : List (List Char) → List String → Prop where
  | nil : Holds [] []
  | blank {part parts names} : Blank part → Holds parts names → Holds (part :: parts) names
  | name {part core parts names} : Trims part core → core ≠ [] → Holds parts names →
      Holds (part :: parts) (.ofList core :: names)

/-- The names between the commas of a text. -/
def Lists (s : String) (names : List String) : Prop :=
  ∃ parts, s.toList = [','].intercalate parts ∧ (∀ part ∈ parts, ',' ∉ part) ∧ Holds parts names

theorem head?_dropWhile_blank (cs : List Char) (c : Char)
    (h : (cs.dropWhile (Property.whiteSpace.has ·)).head? = some c) :
    Property.whiteSpace.has c = false := by
  simpa [h] using List.head?_dropWhile_not (Property.whiteSpace.has ·) cs

theorem blank_takeWhile (cs : List Char) : Blank (cs.takeWhile (Property.whiteSpace.has ·)) :=
  fun _ hc => List.mem_takeWhile_imp hc

theorem trims_trim (cs : List Char) : Trims cs (trim cs) := by
  let inner := cs.dropWhile (Property.whiteSpace.has ·)
  let behind := (inner.reverse.takeWhile (Property.whiteSpace.has ·)).reverse
  have hinner : inner = trim cs ++ behind := by
    rw [← List.reverse_inj, List.reverse_append, List.reverse_reverse, trim, List.reverse_reverse]
    exact List.takeWhile_append_dropWhile.symm
  constructor
  · refine ⟨cs.takeWhile (Property.whiteSpace.has ·), behind, ?_, blank_takeWhile cs,
      fun c hc => blank_takeWhile _ c (List.mem_reverse.1 hc)⟩
    rw [List.append_assoc, ← hinner]
    exact List.takeWhile_append_dropWhile.symm
  · intro c hc
    refine head?_dropWhile_blank cs c ?_
    change inner.head? = some c
    rw [hinner, List.head?_append, hc]
    rfl
  · intro c hc
    rw [trim, List.getLast?_reverse] at hc
    exact head?_dropWhile_blank _ c hc

theorem Trims.blank {cs : List Char} (h : Trims cs []) : Blank cs := by
  obtain ⟨front, back, rfl, hfront, hback⟩ := h.around
  rw [List.append_nil]
  exact List.forall_mem_append.2 ⟨hfront, hback⟩

theorem lists_names (s : String) : Lists s (names s) := by
  have hparts (parts : List (List Char)) :
      Holds parts ((parts.map fun name => String.ofList (trim name)).filter (· ≠ "")) := by
    induction parts with
    | nil => exact .nil
    | cons part parts ih =>
      have htrims := trims_trim part
      cases hcore : trim part with
      | nil =>
        rw [hcore] at htrims
        rw [List.map_cons, hcore, List.filter_cons_of_neg (by simp)]
        exact .blank htrims.blank ih
      | cons c core =>
        rw [hcore] at htrims
        rw [List.map_cons, hcore, List.filter_cons_of_pos (by simp [String.ext_iff])]
        exact .name htrims (List.cons_ne_nil _ _) ih
  exact ⟨s.toList.splitOn ',', (List.intercalate_splitOn ',').symm, not_mem_splitOn ',' _, hparts _⟩

/-! ## Variables -/

/-- What a value sets in the place of what was set before; one that is not there sets nothing. -/
def laid {α : Type} (value : Option String) (read : String → Option α) (before : α) : Option α :=
  match value with
  | none => some before
  | some s => read s

/-- What a value sets stays as it is when the value is laid over it. -/
theorem laid_self {α : Type} {value : Option String} {read : String → Option α} {before after : α}
    (h : laid value read before = some after) : laid value read after = some after := by
  cases value with
  | none => rfl
  | some s => exact h

/-- A text that has anything but white space. -/
def filled? (s : String) : Option String :=
  if isBlank s then none else some s

/-- Settings with those of variables over them, field by field. -/
structure Merged (lookup : String → Option String) (c m : Config) : Prop where
  output : laid (lookup "PKGCHECK_OUTPUT") OutputFormat.named? c.output = some m.output
  offline : laid (lookup "PKGCHECK_OFFLINE") flagWord? c.offline = some m.offline
  registryUrl : laid (lookup "PKGCHECK_REGISTRY_URL") filled? c.registryUrl = some m.registryUrl
  exclude : m.exclude = joinNames c.exclude ((lookup "PKGCHECK_EXCLUDE").elim [] names)
  rest : m = { c with
    output := m.output
    offline := m.offline
    registryUrl := m.registryUrl
    exclude := m.exclude }

theorem mergeFrom_cons_eq_ok {name : String} {put : Config → String → Option Config}
    {rest : List (String × (Config → String → Option Config))} :
    mergeFrom lookup c ((name, put) :: rest) = (m, .ok ()) ↔
      ∃ c', laid (lookup name) (put c) c = some c' ∧ mergeFrom lookup c' rest = (m, .ok ()) := by
  cases hlookup : lookup name with
  | none => simp [mergeFrom, laid, hlookup]
  | some value => cases hput : put c value <;> simp [mergeFrom, laid, hlookup, hput]

/-- What a variable makes of settings is what its value makes of one field of them. -/
theorem laid_map {α : Type} {value : Option String} {read : String → Option α} {before : α}
    {set : α → Config} (hbefore : set before = c) :
    laid value (fun s => (read s).map set) c = some m ↔
      ∃ after, laid value read before = some after ∧ set after = m := by
  cases value with
  | none => simp [laid, hbefore]
  | some s => simp [laid]

/-- Variables are merged without a complaint if each of them can be read. -/
theorem merge_eq_ok_iff : c.merge lookup = (m, .ok ()) ↔ Merged lookup c m := by
  have hurl (c : Config) (s : String) :
      (if isBlank s then none else some { c with registryUrl := s }) =
        (filled? s).map fun registryUrl => { c with registryUrl } := by
    rw [filled?]
    split <;> rfl
  have hexclude (c : Config) : laid (lookup "PKGCHECK_EXCLUDE")
      (fun s => some ((names s).foldl addExclude c)) c =
        some { c with
          exclude := joinNames c.exclude ((lookup "PKGCHECK_EXCLUDE").elim [] names) } := by
    cases lookup "PKGCHECK_EXCLUDE" with
    | none => simp [laid, joinNames_nil]
    | some s => simp [laid, foldl_addExclude]
  simp only [merge, variableTable, mergeFrom_cons_eq_ok, hurl, hexclude]
  constructor
  · rintro ⟨c₁, h₁, c₂, h₂, c₃, h₃, c₄, h₄, h⟩
    obtain ⟨output, houtput, rfl⟩ := (laid_map (c := c) rfl).1 h₁
    obtain ⟨offline, hoffline, rfl⟩ := (laid_map rfl).1 h₂
    obtain ⟨url, hurl, rfl⟩ := (laid_map rfl).1 h₃
    cases h₄
    cases h
    exact ⟨houtput, hoffline, hurl, rfl, rfl⟩
  · rintro ⟨houtput, hoffline, hurl, hexclude, hrest⟩
    refine ⟨_, (laid_map (c := c) rfl).2 ⟨_, houtput, rfl⟩, _, (laid_map rfl).2 ⟨_, hoffline, rfl⟩,
      _, (laid_map rfl).2 ⟨_, hurl, rfl⟩, _, rfl, ?_⟩
    rw [mergeFrom, hrest, hexclude]

theorem Merged.self (h : Merged lookup c m) : Merged lookup m m where
  output := laid_self h.output
  offline := laid_self h.offline
  registryUrl := laid_self h.registryUrl
  exclude := by rw [h.exclude, joinNames_joinNames]
  rest := rfl

/-- Settings can be used if they have time for requests and the address of a registry. -/
theorem validate_eq_ok_iff :
    c.validate = .ok () ↔ c.timeout ≠ 0 ∧ isBlank c.registryUrl = false := by
  rw [validate]
  by_cases htimeout : c.timeout = 0
  · simp [htimeout]
  · cases isBlank c.registryUrl <;> simp [htimeout]

theorem isBlank_of_laid {value : Option String} {before after : String}
    (h : laid value filled? before = some after) (hbefore : isBlank before = false) :
    isBlank after = false := by
  cases value with
  | none =>
    cases h
    exact hbefore
  | some s =>
    have hs : filled? s = some after := h
    unfold filled? at hs
    split at hs
    · cases hs
    · next hblank =>
      cases hs
      exact Bool.eq_false_iff.2 hblank

/-- Variables make no settings that cannot be used. -/
theorem Merged.validate (h : Merged lookup c m) (hvalid : c.validate = .ok ()) :
    m.validate = .ok () := by
  rw [validate_eq_ok_iff] at hvalid ⊢
  refine ⟨?_, isBlank_of_laid h.registryUrl hvalid.2⟩
  rw [h.rest]
  exact hvalid.1

end Config

/-! ## Options -/

namespace Invocation

open Config (joinNames)

variable {i : Invocation} {c : Config}

/-- The rules that options leave out. -/
def exclude (i : Invocation) : List String :=
  match i.command with
  | .check _ _ exclude => exclude
  | .listChecks => []

/-- Whether options forbid to ask a service. -/
def offline (i : Invocation) : Bool :=
  match i.command with
  | .check _ offline _ => offline
  | .listChecks => false

/-- Settings with options over them, field by field. -/
theorem adjust_eq (i : Invocation) (c : Config) :
    i.adjust c = { c with
      output := if i.json then .json else c.output
      color := i.color.getD c.color
      offline := c.offline || i.offline
      exclude := joinNames c.exclude i.exclude } := by
  rw [adjust, adjustFor.eq_def, offline, exclude]
  cases i.command with
  | check directory offline exclude => exact Config.foldl_addExclude exclude _
  | listChecks => simp [Config.joinNames_nil]

/-- Options laid over settings with options change nothing. -/
theorem adjust_adjust (i : Invocation) (c : Config) : i.adjust (i.adjust c) = i.adjust c := by
  simp only [adjust_eq, Config.joinNames_joinNames, Bool.or_assoc, Bool.or_self]
  cases i.json <;> cases i.color <;> rfl

theorem validate_adjust (i : Invocation) : (i.adjust c).validate = c.validate := by
  rw [adjust_eq]
  rfl

/-! ## Both layers -/

/--
What becomes of settings `c` that a layer of variables turns into `m`, and options into those that
a run goes by.
-/
structure Layered (lookup : String → Option String) (i : Invocation) (c m : Config) : Prop where
  merged_valid : m.validate = .ok ()
  adjusted_valid : (i.adjust m).validate = .ok ()
  /-- Rules are left out as before, then those of the variable, then those of the options. -/
  exclude : ∃ named : List String,
    (lookup "PKGCHECK_EXCLUDE" = none → named = []) ∧
    (∀ s, lookup "PKGCHECK_EXCLUDE" = some s → Config.Lists s named) ∧
    m.exclude = joinNames c.exclude named ∧
    (i.adjust m).exclude = joinNames c.exclude (named ++ i.exclude) ∧
    ∀ name, (i.adjust m).exclude.count name =
      if name ∈ c.exclude then c.exclude.count name
      else if name ∈ named ++ i.exclude then 1 else 0
  json : i.json = true → (i.adjust m).output = .json
  no_json : i.json = false → (i.adjust m).output = m.output
  offline : i.offline = true → (i.adjust m).offline = true
  no_offline : i.offline = false → (i.adjust m).offline = m.offline
  merge_again : m.merge lookup = (m, .ok ())
  adjust_again : i.adjust (i.adjust m) = i.adjust m

/--
Variables and options laid over settings that can be used make settings that can be used. They leave
out the same rules and more, none of them a second time; the flags of the options win, and a layer
laid over its own result changes nothing.
-/
theorem adjust_merge {lookup : String → Option String} {c m : Config}
    (hvalid : c.validate = .ok ()) (hmerge : c.merge lookup = (m, .ok ())) (i : Invocation) :
    i.Layered lookup c m := by
  have h := Config.merge_eq_ok_iff.1 hmerge
  have hexclude : (i.adjust m).exclude =
      joinNames c.exclude ((lookup "PKGCHECK_EXCLUDE").elim [] Config.names ++ i.exclude) := by
    rw [adjust_eq, Config.joinNames_append, h.exclude]
  constructor
  · exact h.validate hvalid
  · exact (validate_adjust i).trans (h.validate hvalid)
  · refine ⟨_, fun hnone => ?_, fun s hsome => ?_, h.exclude, hexclude, fun name => ?_⟩
    · rw [hnone]
      rfl
    · rw [hsome]
      exact Config.lists_names s
    · rw [hexclude, Config.count_joinNames]
  · intro hjson
    rw [adjust_eq, hjson]
    rfl
  · intro hjson
    rw [adjust_eq, hjson]
    rfl
  · intro hoffline
    rw [adjust_eq, hoffline, Bool.or_true]
  · intro hoffline
    rw [adjust_eq, hoffline, Bool.or_false]
  · exact Config.merge_eq_ok_iff.2 h.self
  · exact adjust_adjust i m

/-- Settings that leave out one rule, under variables and options that name it among others. -/
theorem adjust_merge_repeated :
    ∃ (lookup : String → Option String) (i : Invocation) (c m : Config),
      c.exclude = ["PVP-050-1"] ∧
      lookup "PKGCHECK_EXCLUDE" = some " PVP-111-1 ,, PVP-050-1," ∧
      i.exclude = ["PVP-020-1", "PVP-111-1"] ∧
      c.validate = .ok () ∧ c.merge lookup = (m, .ok ()) ∧ i.Layered lookup c m ∧
      (i.adjust m).exclude = ["PVP-050-1", "PVP-111-1", "PVP-020-1"] := by
  let c : Config := { Config.standard with exclude := ["PVP-050-1"] }
  let lookup (name : String) : Option String :=
    if name = "PKGCHECK_EXCLUDE" then some " PVP-111-1 ,, PVP-050-1,"
    else if name = "PKGCHECK_OFFLINE" then some "no"
    else none
  let i : Invocation := ⟨.check "." true ["PVP-020-1", "PVP-111-1"], true, false, none, none⟩
  let m : Config := { c with exclude := ["PVP-050-1", "PVP-111-1"] }
  have hfilled : Config.isBlank "https://packages.unity.com" = false := by cbv
  have hvalid : c.validate = .ok () :=
    Config.validate_eq_ok_iff.2 ⟨Nat.succ_ne_zero 29, hfilled⟩
  have hnames : Config.names " PVP-111-1 ,, PVP-050-1," = ["PVP-111-1", "PVP-050-1"] := by cbv
  have hmerge : c.merge lookup = (m, .ok ()) :=
    Config.merge_eq_ok_iff.2 ⟨rfl, rfl, rfl, congrArg (joinNames c.exclude) hnames.symm, rfl⟩
  exact ⟨lookup, i, c, m, rfl, rfl, rfl, hvalid, hmerge, adjust_merge hvalid hmerge i, by decide⟩

end Invocation

end PackageAudit

import Mathlib
import PackageAudit.Baseline.Registry
import PackageAudit.Proofs.Basic
import PackageAudit.Proofs.Unicode.Case
import PackageAudit.Proofs.Url.Percent
import PackageAudit.Proofs.Version

/-!
# Proofs.Network.Endpoint — where the manifest of a version is asked for

A name that is put behind the path of an address becomes one segment, from which it is read back,
unless it is `.` or `..` or has a line break or a tab: such characters are left out.

* `UrlPath.isBack_encode_iff`, `UrlPath.isHere_encode_iff` — only `..` and `.` lead elsewhere;
* `Url.of_parse` — an address of a service leads to somebody, and names can be put behind it;
* `Url.leads_iff`, `Url.Leads.inj` — which names an address leads to, and that it leads to one only;
* `Registry.endpoint_leads_iff` — the same of the address of a name and a version.
-/

namespace PackageAudit

variable {c : Char} {cs name : List Char}

/-! ## Segments that lead elsewhere -/

namespace UrlPath

theorem eq_of_toLower_eq {d : Char} (hd : d.isAlpha = false) (h : c.toLower = d) : c = d :=
  (Case.toLower_eq_self (h ▸ hd)).symm.trans h

theorem digitValue?_of_toLower_eq_e (h : c.toLower = 'e') : Percent.digitValue? c = some 14 := by
  have hcode := congrArg Char.toNat h
  rw [Case.toNat_toLower] at hcode
  change (if 65 ≤ c.toNat ∧ c.toNat ≤ 90 then c.toNat + 32 else c.toNat) = 101 at hcode
  have hchar : c = 'e' ∨ c = 'E' := by
    rw [← Char.toNat_inj, ← Char.toNat_inj]
    change c.toNat = 101 ∨ c.toNat = 69
    split at hcode <;> omega
  rcases hchar with rfl | rfl <;> rfl

/-- Whatever stands for `.` is read as one. -/
theorem decode_append_of_isHere (h : isHere name = true) (rest : List Char) :
    Percent.decode (name ++ rest) = Utf8.encodeChar '.' ++ Percent.decode rest := by
  rw [isHere, Bool.or_eq_true, beq_iff_eq, beq_iff_eq] at h
  rcases h with rfl | h
  · exact Percent.decode_cons_of_ne (by decide) rest
  · obtain ⟨a, _, rfl, ha, h⟩ := List.map_eq_cons_iff.1 h
    obtain ⟨b, _, rfl, hb, h⟩ := List.map_eq_cons_iff.1 h
    obtain ⟨c, _, rfl, hc, h⟩ := List.map_eq_cons_iff.1 h
    obtain rfl := List.map_eq_nil_iff.1 h
    obtain rfl := eq_of_toLower_eq (by decide) ha
    obtain rfl := eq_of_toLower_eq (by decide) hb
    have hbyte : Percent.byte? '2' c = some 0x2E := by
      rw [Percent.byte?, digitValue?_of_toLower_eq_e hc]
      rfl
    change Percent.decode ('%' :: '2' :: c :: rest) = _
    rw [Percent.decode, hbyte]
    rfl

theorem isHere_of_map
    (h : name.map Char.toLower = ['.'] ∨ name.map Char.toLower = ['%', '2', 'e']) :
    isHere name = true := by
  rw [isHere, Bool.or_eq_true, beq_iff_eq, beq_iff_eq]
  refine h.imp_left fun h => ?_
  obtain ⟨a, _, rfl, ha, h⟩ := List.map_eq_cons_iff.1 h
  obtain rfl := List.map_eq_nil_iff.1 h
  rw [eq_of_toLower_eq (by decide) ha]

/-- Whatever leads back stands for `.` twice. -/
theorem exists_of_isBack (h : isBack name = true) :
    ∃ a b, name = a ++ b ∧ isHere a = true ∧ isHere b = true := by
  have hparts : ∃ a b : List Char, name.map Char.toLower = a ++ b ∧
      (a = ['.'] ∨ a = ['%', '2', 'e']) ∧ (b = ['.'] ∨ b = ['%', '2', 'e']) := by
    simp only [isBack, List.any_cons, List.any_nil, Bool.or_false, Bool.or_eq_true,
      beq_iff_eq] at h
    rcases h with h | h | h | h
    · exact ⟨['.'], ['.'], h, .inl rfl, .inl rfl⟩
    · exact ⟨['.'], ['%', '2', 'e'], h, .inl rfl, .inr rfl⟩
    · exact ⟨['%', '2', 'e'], ['.'], h, .inr rfl, .inl rfl⟩
    · exact ⟨['%', '2', 'e'], ['%', '2', 'e'], h, .inr rfl, .inr rfl⟩
  obtain ⟨_, _, h, ha, hb⟩ := hparts
  obtain ⟨a, b, rfl, rfl, rfl⟩ := List.map_eq_append_iff.1 h
  exact ⟨a, b, rfl, isHere_of_map ha, isHere_of_map hb⟩

theorem decode_of_isHere (h : isHere name = true) : Percent.decode name = Utf8.encode ['.'] := by
  rw [← List.append_nil name, decode_append_of_isHere h]
  rfl

theorem decode_of_isBack (h : isBack name = true) :
    Percent.decode name = Utf8.encode ['.', '.'] := by
  obtain ⟨a, b, rfl, ha, hb⟩ := exists_of_isBack h
  rw [decode_append_of_isHere ha, decode_of_isHere hb]
  rfl

section Written

variable {set : PercentSet}

theorem encodeChar_dot (hdot : set '.' = false) : Percent.encodeChar set '.' = ['.'] :=
  if_pos ⟨by decide, by simp [hdot]⟩

/-- A written name leads back only if it is `..`. -/
theorem isBack_encode_iff (hset : set '%' = true) (hdot : set '.' = false) :
    isBack (Percent.encode set cs) = true ↔ cs = ['.', '.'] := by
  constructor
  · -- What leads back is read as two dots, and a written name is read as what it was.
    intro h
    have hbytes := decode_of_isBack h
    rw [Percent.decode_encode hset] at hbytes
    exact Utf8.encode_injective hbytes
  · rintro rfl
    have hback : Percent.encode set ['.', '.'] = ['.', '.'] := by
      rw [Percent.encode, List.flatMap_cons, List.flatMap_cons, encodeChar_dot hdot]
      rfl
    rw [hback]
    decide

theorem isHere_encode_iff (hset : set '%' = true) (hdot : set '.' = false) :
    isHere (Percent.encode set cs) = true ↔ cs = ['.'] := by
  constructor
  · intro h
    have hbytes := decode_of_isHere h
    rw [Percent.decode_encode hset] at hbytes
    exact Utf8.encode_injective hbytes
  · rintro rfl
    have hhere : Percent.encode set ['.'] = ['.'] := by
      rw [Percent.encode, List.flatMap_cons, encodeChar_dot hdot]
      rfl
    rw [hhere]
    decide

/-- What becomes of a path as a written name joins it. -/
theorem settle_encode (hset : set '%' = true) (hdot : set '.' = false)
    (names : List (List Char)) (cs : List Char) :
    settle .service true names (Percent.encode set cs) =
      if cs = ['.', '.'] then names.dropLast ++ [[]]
      else if cs = ['.'] then names ++ [[]]
      else names ++ [Percent.encode set cs] := by
  have hback := @isBack_encode_iff cs set hset hdot
  have hhere := @isHere_encode_iff cs set hset hdot
  simp only [settle, hback, hhere, reduceCtorEq, false_and, if_false, if_true]
  rfl

end Written

end UrlPath

/-! ## Names behind a path -/

namespace Url

variable {names path : List (List Char)} {a b a' b' : List Char}

/-- A path, where the root alone has no names. -/
def rooted (names : List (List Char)) : List (List Char) :=
  if names = [[]] then [] else names

/-- The names of a path that stay in front of those put behind it. -/
def stem (path : List (List Char)) : List (List Char) :=
  rooted (openEnd path)

/-- A name that does not lead elsewhere, all of whose characters count. -/
structure IsName (name : List Char) : Prop where
  not_here : name ≠ ['.']
  not_back : name ≠ ['.', '.']
  kept : ∀ c ∈ name, isSkipped c = false

theorem IsName.filter (h : IsName name) : name.filter (!isSkipped ·) = name :=
  List.filter_eq_self.2 fun c hc => by rw [h.kept c hc]; rfl

theorem addName_eq (hhere : name ≠ ['.']) (hback : name ≠ ['.', '.'])
    (names : List (List Char)) :
    addName .service names name = UrlPath.settle .service true (rooted names)
      (Percent.encode .specialSegment (name.filter (!isSkipped ·))) := by
  rw [addName, if_neg (not_or.2 ⟨hhere, hback⟩)]
  rfl

/-- A name becomes one segment. -/
theorem IsName.addName (h : IsName name) (names : List (List Char)) :
    Url.addName .service names name =
      rooted names ++ [Percent.encode .specialSegment name] := by
  rw [addName_eq h.not_here h.not_back, h.filter, UrlPath.settle_encode rfl rfl,
    if_neg h.not_back, if_neg h.not_here]

/-- Whatever becomes one segment that is read as it is a name. -/
theorem isName_of_addName (hname : name ≠ []) (hroot : rooted names ++ [a] ≠ [[]])
    (hadd : addName .service names name = rooted names ++ [a])
    (ha : Percent.decode a = Utf8.encode name) : IsName name := by
  by_cases hdots : name = ['.'] ∨ name = ['.', '.']
  · -- Nothing is added.
    rw [addName, if_pos hdots] at hadd
    have hrooted : rooted names = names := if_neg (hadd ▸ hroot)
    have hlength := congrArg List.length hadd
    rw [hrooted, List.length_append, List.length_singleton] at hlength
    omega
  · rw [not_or] at hdots
    rw [addName_eq hdots.1 hdots.2, UrlPath.settle_encode rfl rfl] at hadd
    split_ifs at hadd with hback hhere
    · -- After `..` there is one name more only if there was none, and then the root is left.
      have hlength := congrArg List.length hadd
      simp only [List.length_append, List.length_dropLast, List.length_singleton] at hlength
      have hnil : rooted names = [] := List.length_eq_zero_iff.1 (by omega)
      rw [hnil] at hadd hroot
      exact absurd hadd.symm hroot
    · -- After `.` the segment is empty, and the name is not.
      obtain rfl : [] = a := List.singleton_inj.1 (List.append_cancel_left hadd)
      exact absurd (Utf8.encode_injective (show Utf8.encode [] = _ from ha)).symm hname
    · obtain rfl := List.singleton_inj.1 (List.append_cancel_left hadd)
      rw [Percent.decode_encode rfl] at ha
      refine ⟨hdots.1, hdots.2, fun c hc => ?_⟩
      have hall := List.filter_eq_self.1 (Utf8.encode_injective ha) c hc
      rwa [Bool.not_eq_true'] at hall

/-- Characters that separate segments or end a path. -/
def marks : List Char :=
  ['/', '\\', '?', '#']

theorem not_mem_of_marks (hc : c ∈ marks) : c ∉ Percent.encode .specialSegment name := by
  simp only [marks, List.mem_cons, List.not_mem_nil, or_false] at hc
  rcases hc with rfl | rfl | rfl | rfl <;>
    exact Percent.not_mem_encode rfl (by decide) (by decide)

/-! ## Two names behind a path -/

/-- What two names come to behind a path, if the second one is a name. -/
theorem foldl_addName {word : List Char} (hword : IsName word) :
    [name, word].foldl (addName .service) (openEnd path) =
      rooted (addName .service (openEnd path) name) ++ [Percent.encode .specialSegment word] :=
  hword.addName _

theorem IsName.foldl_addName {word : List Char} (h : IsName name) (hname : name ≠ [])
    (hword : IsName word) :
    [name, word].foldl (Url.addName .service) (openEnd path) =
      stem path ++ [Percent.encode .specialSegment name, Percent.encode .specialSegment word] := by
  -- The first name does not leave the path as bare as the root.
  have hne : stem path ++ [Percent.encode .specialSegment name] ≠ [[]] := by
    intro hroot
    have hlast : Percent.encode .specialSegment name = Percent.encode .specialSegment [] := by
      have := congrArg List.getLast? hroot
      rw [List.getLast?_concat] at this
      exact Option.some.inj this
    exact hname (Percent.encode_injective rfl hlast)
  rw [Url.foldl_addName hword, h.addName]
  change rooted (stem path ++ _) ++ _ = _
  rw [rooted, if_neg hne, List.append_assoc]
  rfl

/-- Only a name becomes a segment that is read as it is, in front of the second one. -/
theorem isName_of_foldl_addName {word : List Char} (hname : name ≠ []) (hword : IsName word)
    (h : [name, word].foldl (addName .service) (openEnd path) = stem path ++ [a, b])
    (ha : Percent.decode a = Utf8.encode name) : IsName name := by
  rw [foldl_addName hword, List.append_cons (stem path) a [b]] at h
  have hfront : rooted (addName .service (openEnd path) name) = stem path ++ [a] :=
    (List.append_inj' h rfl).1
  have hne : addName .service (openEnd path) name ≠ [[]] := by
    intro hroot
    rw [rooted, if_pos hroot] at hfront
    exact List.cons_ne_nil _ _ (List.append_eq_nil_iff.1 hfront.symm).2
  rw [rooted, if_neg hne] at hfront
  exact isName_of_addName hname (fun hroot => hne (hfront.trans hroot)) hfront ha

/-! ## Texts of addresses -/

theorem path_text_of_text {u : Url} {names' : List (List Char)} (hauthority : u.authority.isSome)
    (h : ({ u with path := .segments names } : Url).text =
      ({ u with path := .segments names' } : Url).text) :
    (UrlPath.segments names).text = (UrlPath.segments names').text := by
  obtain ⟨scheme, authority, path, query, fragment⟩ := u
  obtain ⟨authority, rfl⟩ := Option.isSome_iff_exists.1 hauthority
  have hchars := String.ofList_injective h
  simp only [authorityText] at hchars
  simpa using hchars

theorem eq_of_segments_text (ha : '/' ∉ a) (hb : '/' ∉ b)
    (h : (UrlPath.segments (names ++ [a, b])).text = (UrlPath.segments (names ++ [a', b'])).text) :
    a = a' ∧ b = b' := by
  simp only [UrlPath.text, List.flatMap_append, List.flatMap_cons, List.flatMap_nil,
    List.append_nil] at h
  have hrest : a ++ '/' :: b = a' ++ '/' :: b' := (List.cons.inj (List.append_cancel_left h)).2
  obtain ⟨hfirst, -, hsecond⟩ := (List.append_cons_inj_of_notMem ha hb).1 hrest
  exact ⟨hfirst, hsecond⟩

/-! ## Addresses of services -/

theorem scheme_of_readFile {scheme s : List Char} {u : Url} (h : readFile scheme s = .ok u) :
    u.scheme = scheme := by
  unfold readFile at h
  dsimp only at h
  split at h
  · split_ifs at h
    · cases h
      rfl
    · cases h
      rfl
    · obtain ⟨_, -, h⟩ := bind_eq_ok_iff.1 h
      cases h
      rfl
    · cases h
      rfl
  · cases h
    rfl

theorem of_readHosted {scheme s : List Char} {kind : SchemeKind} {u : Url}
    (h : readHosted scheme kind s = .ok u) :
    u.scheme = scheme ∧ u.authority.isSome ∧ u.isBase = true := by
  unfold readHosted at h
  obtain ⟨⟨authority, rest⟩, -, h⟩ := bind_eq_ok_iff.1 h
  dsimp only at h
  split_ifs at h
  · cases h
    exact ⟨rfl, rfl, rfl⟩
  · cases h
    exact ⟨rfl, rfl, rfl⟩

/-- An address of a service leads to somebody, and names can be put behind it. -/
theorem of_readScheme {scheme s : List Char} {u : Url} (h : readScheme scheme s = .ok u) :
    u.scheme = scheme ∧
      (SchemeKind.of scheme = .service → u.authority.isSome ∧ u.isBase = true) := by
  unfold readScheme at h
  dsimp only at h
  split at h
  · next hkind => exact ⟨scheme_of_readFile h, fun hservice => by cases hkind.symm.trans hservice⟩
  · exact ⟨(of_readHosted h).1, fun _ => (of_readHosted h).2⟩
  · exact ⟨(of_readHosted h).1, fun _ => (of_readHosted h).2⟩
  · next hkind =>
    cases h
    exact ⟨rfl, fun hservice => by cases hkind.symm.trans hservice⟩
  · next hkind _ _ =>
    cases h
    exact ⟨rfl, fun hservice => by cases hkind.symm.trans hservice⟩

theorem of_parse {s : List Char} {u : Url} (h : parse s = .ok u)
    (hservice : SchemeKind.of u.scheme = .service) : u.authority.isSome ∧ u.isBase = true := by
  unfold parse at h
  dsimp only at h
  split at h
  · split_ifs at h
    obtain ⟨hscheme, hparts⟩ := of_readScheme h
    exact hparts (hscheme ▸ hservice)
  · cases h

/-! ## Endpoints -/

/-- An address leads to a name and a version by two segments behind the path of another address. -/
def Leads (base : Url) (name version : String) (u : Url) : Prop :=
  ∃ path a b, base.path = .segments path ∧
    u = { base with path := .segments (stem path ++ [a, b]) } ∧ (∀ c ∈ marks, c ∉ a ∧ c ∉ b) ∧
    Percent.decode a = textBytes name ∧ Percent.decode b = textBytes version

variable {base u u' : Url} {name version name' version' : String}

/-- Names and versions that the same text leads to are the same. -/
theorem Leads.inj (hauthority : base.authority.isSome) (h : Leads base name version u)
    (h' : Leads base name' version' u') (htext : u.text = u'.text) :
    name = name' ∧ version = version' := by
  obtain ⟨path, a, b, hpath, rfl, hmarks, ha, hb⟩ := h
  obtain ⟨path', a', b', hpath', rfl, -, ha', hb'⟩ := h'
  obtain rfl : path = path' := UrlPath.segments.inj (hpath.symm.trans hpath')
  have hslash := hmarks '/' List.mem_cons_self
  obtain ⟨rfl, rfl⟩ :=
    eq_of_segments_text hslash.1 hslash.2 (path_text_of_text hauthority htext)
  exact ⟨textBytes_injective (ha.symm.trans ha'), textBytes_injective (hb.symm.trans hb')⟩

theorem isName_text {s : String} {v : Version} (h : Version.parse s = .ok v) :
    IsName v.text.toList := by
  obtain ⟨c, cs, hhead, hdigit⟩ := v.exists_head_text
  have hne : c ≠ '.' := by
    rintro rfl
    cases hdigit
  refine ⟨?_, ?_, fun d hd => ?_⟩
  · rw [hhead]
    exact fun heq => hne (List.cons.inj heq).1
  · rw [hhead]
    exact fun heq => hne (List.cons.inj heq).1
  · rw [isSkipped, Bool.or_eq_false_iff, Bool.or_eq_false_iff, beq_eq_false_iff_ne,
      beq_eq_false_iff_ne, beq_eq_false_iff_ne]
    have htext := Version.isTextChar_of_mem_text h hd
    refine ⟨⟨?_, ?_⟩, ?_⟩ <;>
      · rintro rfl
        revert htext
        unfold Version.IsTextChar Version.IsIdentifierPart
        decide

/-- A name that is no dot segment and has nothing to leave out is led to, and no other one is. -/
theorem leads_iff {path : List (List Char)} (hservice : SchemeKind.of base.scheme = .service)
    (hpath : base.path = .segments path) (hname : name ≠ "") (hversion : IsName version.toList)
    (hu : base.below? [name, version] = some u) :
    IsName name.toList ↔ Leads base name version u := by
  have hchars : name.toList ≠ [] := String.toList_eq_nil_iff.not.2 hname
  rw [below?, hpath, hservice] at hu
  dsimp only at hu
  cases hu
  constructor
  · intro h
    refine ⟨path, _, _, hpath, ?_, fun c hc => ⟨not_mem_of_marks hc, not_mem_of_marks hc⟩,
      Percent.decode_encode rfl _, Percent.decode_encode rfl _⟩
    exact congrArg (fun names => { base with path := .segments names })
      (h.foldl_addName hchars hversion)
  · rintro ⟨path', a, b, hpath', hu, -, ha, -⟩
    obtain rfl : path = path' := UrlPath.segments.inj (hpath.symm.trans hpath')
    have hnames := UrlPath.segments.inj (congrArg Url.path hu)
    exact isName_of_foldl_addName hchars hversion hnames ha

end Url

namespace Registry

variable {text name spelled : String} {base : Url} {v : Version}

/--
The manifest of a version is asked for below the address of the registry. The address leads to the
name and the version, and to no others, if the name is neither `.` nor `..` and has no tab and no
line break; with any other name it leads elsewhere.
-/
theorem endpoint_leads_iff (hbase : readAddress text = .ok base)
    (hscheme : base.scheme = "http".toList ∨ base.scheme = "https".toList) (hname : name ≠ "")
    (hversion : Version.parse spelled = .ok v) :
    ∃ u, base.below? [name, v.text] = some u ∧ endpoint base [name, v.text] = .ok u.text ∧
      (Url.IsName name.toList ↔ Url.Leads base name v.text u) ∧
      (Url.IsName name.toList → ∀ (name' spelled' : String) (v' : Version), name' ≠ "" →
        Url.IsName name'.toList → Version.parse spelled' = .ok v' →
        endpoint base [name', v'.text] = .ok u.text → name' = name ∧ v' = v) := by
  have hservice : SchemeKind.of base.scheme = .service := by
    rcases hscheme with h | h <;> rw [h] <;> rfl
  obtain ⟨hauthority, hisBase⟩ := Url.of_parse (mapError_eq_ok_iff.1 hbase) hservice
  obtain ⟨path, hpath⟩ : ∃ path, base.path = .segments path := by
    cases hnames : base.path with
    | segments path => exact ⟨path, rfl⟩
    | plain _ =>
      rw [Url.isBase, hnames] at hisBase
      cases hisBase
  have hbelow (names : List String) : ∃ u, base.below? names = some u := by
    rw [Url.below?, hpath]
    exact ⟨_, rfl⟩
  have hendpoint {names : List String} {u : Url} (hu : base.below? names = some u) :
      endpoint base names = .ok u.text := by
    rw [endpoint, hu]
  obtain ⟨u, hu⟩ := hbelow [name, v.text]
  have hiff := Url.leads_iff hservice hpath hname (Url.isName_text hversion) hu
  refine ⟨u, hu, hendpoint hu, hiff, ?_⟩
  -- Another name and version with this address are led to by it as well.
  intro hkept name' spelled' v' hname' hkept' hversion' htext
  obtain ⟨u', hu'⟩ := hbelow [name', v'.text]
  have hleads' := (Url.leads_iff hservice hpath hname' (Url.isName_text hversion') hu').1 hkept'
  have hsame : u'.text = u.text := Except.ok.inj ((hendpoint hu').symm.trans htext)
  obtain ⟨rfl, hspelled⟩ := hleads'.inj hauthority (hiff.1 hkept) hsame
  rw [Version.text_of_parse hversion, Version.text_of_parse hversion'] at hspelled
  subst hspelled
  exact ⟨rfl, Except.ok.inj (hversion'.symm.trans hversion)⟩

/-- The address of a registry. -/
def sample : Url :=
  ⟨"https".toList, some ⟨none, "example.com".toList, none⟩, .segments ["registry".toList], none,
    none⟩

theorem readAddress_sample : readAddress "https://example.com/registry" = .ok sample := by
  cbv

/-- A name with a slash is one segment. -/
theorem endpoint_leads_slash :
    ∃ u, sample.below? ["@a/b", "1.0.0"] = some u ∧
      endpoint sample ["@a/b", "1.0.0"] = .ok u.text ∧ Url.Leads sample "@a/b" "1.0.0" u := by
  have hversion : Version.parse "1.0.0" = .ok ⟨1, 0, 0, "", ""⟩ := by cbv
  obtain ⟨u, hu, htext, hiff, -⟩ := @endpoint_leads_iff "https://example.com/registry" "@a/b"
    "1.0.0" sample _ readAddress_sample (.inr rfl) (by simp) hversion
  rw [Version.text_of_parse hversion] at hu htext hiff
  exact ⟨u, hu, htext, hiff.1 ⟨by simp, by simp, by simp [Url.isSkipped]⟩⟩

theorem endpoint_plain :
    endpoint sample ["ab", "1.0.0"] = .ok "https://example.com/registry/ab/1.0.0" := by
  cbv

theorem endpoint_tab :
    endpoint sample ["a\tb", "1.0.0"] = .ok "https://example.com/registry/ab/1.0.0" := by
  cbv

/-- Two names have one address, as the tab in one of them is left out. -/
theorem tab_shares_address :
    "a\tb" ≠ "ab" ∧ readAddress "https://example.com/registry" = .ok sample ∧
      endpoint sample ["a\tb", "1.0.0"] = endpoint sample ["ab", "1.0.0"] :=
  ⟨by simp, readAddress_sample, endpoint_tab.trans endpoint_plain.symm⟩

/-- Behind a tab, two dots lead out of the registry. -/
example : endpoint sample ["\t..", "1.0.0"] = .ok "https://example.com/1.0.0" := by
  cbv

end Registry

end PackageAudit

import CleanStack.Auth.EmailRedirect

/-!
# A redirect stays where it was allowed

What is accepted is the text of a URL: alone when it stays on the page's own origin, and
behind the allowed origin otherwise. The browser reads that text against whichever page
it is on, and gets to the same place. The text is accepted again, as it is, and the
e-mails accept what the pages accept.
-/

namespace CleanStack.WebKit

open CleanStack.Lib CleanStack.Kit

variable {r : UrlReader} {value target : List Char} {externalOrigin : Option (List Char)}

theorem filter_nonempty {text : List Char} (hne : text ≠ []) :
    (some text).filter (· ≠ []) = some text := Option.filter_some_pos (by simpa using hne)

theorem startsWithSlash_iff {value : List Char} : startsWithSlash value = true ↔ ['/'] <+: value :=
  List.isPrefixOf_iff_prefix

theorem startsWithSlash_text {u : Url} (hu : u.Written) : startsWithSlash u.text = true := by
  obtain ⟨rest, htext, -⟩ := readPath_text hu .https ⟨[], false⟩
  rw [htext]
  rfl

theorem parseAgainstProbe_some {parsed : ParsedUrl}
    (h : parseAgainstProbe r value = some parsed) :
    ∃ base : Url, parseUrl r none PROBE_ORIGIN = some (.special base) ∧
      parseUrl r (some base) value = some parsed := by
  unfold parseAgainstProbe at h
  split at h
  · next base hbase => exact ⟨base, hbase, h⟩
  · cases h

theorem parseAgainstProbe_special (hr : r.Lawful) {u : Url}
    (h : parseAgainstProbe r value = some (.special u)) :
    u.Written ∧ r.Known u.authority.origin := by
  obtain ⟨base, hbase, h⟩ := parseAgainstProbe_some h
  have hknown := known_parseUrl hr (by simp) hbase
  have hwritten := written_parseUrl (by simp) hbase
  refine ⟨written_parseUrl (fun b hb => ?_) h, known_parseUrl hr (fun b hb => ?_) h⟩
  · cases hb
    exact hwritten
  · cases hb
    exact hknown

theorem parseAgainstProbe_origin (hr : r.Lawful) {parsed : ParsedUrl}
    (h : parseAgainstProbe r value = some parsed) :
    parsed.origin = nullOrigin ∨ r.Known parsed.origin := by
  obtain ⟨base, hbase, h⟩ := parseAgainstProbe_some h
  refine origin_parseUrl hr (fun b hb => ?_) h
  cases hb
  exact known_parseUrl hr (by simp) hbase

/-! ## The origin that does not exist -/

def probeHost : List Char := "same-origin.invalid".toList

theorem host_probe : Host probeHost :=
  ⟨by decide, List.all_iff_forall_prop.1 (by decide), List.all_iff_forall_prop.1 (by decide)⟩

theorem probe_origin : PROBE_ORIGIN = originText .https probeHost := by decide

theorem parseUrl_probe (r : UrlReader) : parseUrl r none PROBE_ORIGIN =
    (r.authority .https probeHost).map fun authority =>
      .special (readPath .https authority [] []) := by
  have htrim : trimUrl PROBE_ORIGIN = originText .https probeHost ++ [] := by
    rw [probe_origin, List.append_nil, trimUrl_printable (printable_originText host_probe)]
  exact parseUrl_origin host_probe (fun c hc => by cases hc) htrim

/-- A reader that knows the origin reads everything against it. -/
theorem probe_of_known (h : r.Known PROBE_ORIGIN) : ∃ base : Url,
    base.authority = ⟨PROBE_ORIGIN, false⟩ ∧
      ∀ value, parseAgainstProbe r value = parseUrl r (some base) value := by
  obtain ⟨base, -, hbase, hreads⟩ := h.reads (.inl (Eq.refl []))
  refine ⟨base, hbase, fun value => ?_⟩
  have hnone := hreads none
  rw [List.append_nil] at hnone
  rw [parseAgainstProbe, hnone]

theorem parseAgainstProbe_eq (hprobe : (parseUrl r none PROBE_ORIGIN).isSome) :
    ∃ base : Url, ∀ value, parseAgainstProbe r value = parseUrl r (some base) value := by
  obtain ⟨parsed, hparsed⟩ := Option.isSome_iff_exists.1 hprobe
  have hspecial := hparsed
  rw [parseUrl_probe] at hspecial
  obtain ⟨authority, -, rfl⟩ := Option.map_eq_some_iff.1 hspecial
  refine ⟨readPath .https authority [] [], fun value => ?_⟩
  rw [parseAgainstProbe, hparsed]

/-! ## What is accepted -/

/-- The text of a URL on the page's own origin. -/
structure OnPage (r : UrlReader) (target : List Char) : Prop where
  known : r.Known PROBE_ORIGIN
  text : ∃ u : Url, u.Written ∧ hasUnsafePath (.special u) = false ∧ target = u.text

/-- The text of a URL behind the other origin that is allowed. -/
structure OnAllowed (r : UrlReader) (externalOrigin : Option (List Char))
    (target : List Char) : Prop where
  allowed : ∃ configured origin, externalOrigin = some configured ∧ configured ≠ [] ∧
    (∃ parsed, parseAgainstProbe r configured = some parsed ∧ parsed.origin = origin) ∧
    r.Known origin ∧ origin ≠ PROBE_ORIGIN ∧
    ∃ u : Url, u.Written ∧ hasUnsafePath (.special u) = false ∧ target = origin ++ u.text

theorem onPage_of_some (hr : r.Lawful) {parsed : ParsedUrl} (hslash : startsWithSlash value = true)
    (h : parseAgainstProbe r value = some parsed)
    (hsafe : ¬(parsed.origin ≠ PROBE_ORIGIN ∨ hasUnsafePath parsed = true)) :
    OnPage r (parsed.pathname ++ parsed.search ++ parsed.hash) := by
  obtain ⟨horigin, hpath⟩ := not_or.1 hsafe
  obtain ⟨base, -, hparse⟩ := parseAgainstProbe_some h
  obtain ⟨u, rfl⟩ := parseUrl_slash (startsWithSlash_iff.1 hslash) hparse
  obtain ⟨hu, hknown⟩ := parseAgainstProbe_special hr h
  have hprobe : u.authority.origin = PROBE_ORIGIN := not_not.1 horigin
  exact ⟨hprobe ▸ hknown, u, hu, by simpa using hpath, rfl⟩

/-- No URL without an origin begins with one. -/
theorem not_null (hr : r.Lawful) {parsed : ParsedUrl} (hvalue : value = nullOrigin ∨
    nullOrigin ++ ['/'] <+: value) {base : Option Url}
    (hbase : ∀ b ∈ base, r.Known b.authority.origin) (h : parseUrl r base value = some parsed) :
    parsed.origin ≠ nullOrigin := by
  have hread : readScheme (trimUrl value) = none := by
    rcases hvalue with rfl | ⟨rest, rfl⟩
    · decide
    · obtain ⟨kept, htrim⟩ := trimUrl_append (nullOrigin ++ ['/']) (by decide)
        (List.all_iff_forall_prop.1 (by decide)) rest
      rw [htrim]
      rfl
  have hspecial : ∃ u, parsed = .special u := by
    simp only [parseUrl, hread] at h
    obtain ⟨u, -, rfl⟩ := Option.map_eq_some_iff.1 h
    exact ⟨u, rfl⟩
  obtain ⟨u, rfl⟩ := hspecial
  exact (known_parseUrl hr hbase h).ne_null

/-- What begins with a known origin stands there, when it is a URL. -/
theorem known_reads {origin : List Char} (hknown : r.Known origin)
    (hvalue : value = origin ∨ origin ++ ['/'] <+: value) :
    ∃ u : Url, u.Written ∧ u.authority = ⟨origin, false⟩ ∧
      ∀ base, parseUrl r base value = some (.special u) := by
  obtain ⟨rest, rfl, hrest⟩ : ∃ rest, value = origin ++ rest ∧ (rest = [] ∨ ['/'] <+: rest) := by
    rcases hvalue with rfl | ⟨rest, rfl⟩
    · exact ⟨[], (List.append_nil _).symm, .inl rfl⟩
    · exact ⟨'/' :: rest, by rw [List.append_assoc, List.singleton_append],
        .inr (List.prefix_append ['/'] rest)⟩
  exact hknown.reads hrest

theorem onAllowed_of_some (hr : r.Lawful) {configured : List Char} (hne : configured ≠ [])
    (h : toAllowedExternal r value configured = some target) :
    OnAllowed r (some configured) target := by
  unfold toAllowedExternal at h
  obtain ⟨allowed, hallowed, h⟩ := Option.bind_eq_some_iff.1 h
  split at h
  · cases h
  next hprobe =>
  split at h
  · cases h
  next hvalue =>
  obtain ⟨parsed, hparsed, h⟩ := Option.bind_eq_some_iff.1 h
  split at h
  · cases h
  next horigin =>
  split at h
  · cases h
  next hsafe =>
  have horigin : parsed.origin = allowed.origin := not_not.1 horigin
  have hvalue : value = allowed.origin ∨ allowed.origin ++ ['/'] <+: value := by
    by_contra hnot
    exact hvalue ⟨fun h => hnot (.inl h), fun h => hnot (.inr h)⟩
  have hknown : r.Known allowed.origin := by
    refine (parseAgainstProbe_origin hr hallowed).resolve_left fun hnull => ?_
    obtain ⟨base, hbase, hparse⟩ := parseAgainstProbe_some hparsed
    rw [hnull] at hvalue horigin
    refine not_null hr hvalue (fun b hb => ?_) hparse horigin
    cases hb
    exact known_parseUrl hr (by simp) hbase
  obtain ⟨u, hu, -, hreads⟩ := known_reads hknown hvalue
  obtain ⟨base, -, hparse⟩ := parseAgainstProbe_some hparsed
  obtain rfl : parsed = .special u := Option.some.inj (hparse.symm.trans (hreads _))
  obtain ⟨-, hpath⟩ := not_or.1 ((Bool.or_eq_true_iff.not).1 hsafe)
  refine ⟨configured, allowed.origin, rfl, hne, ⟨allowed, hallowed, rfl⟩, hknown, hprobe, u, hu,
    by simpa using hpath, ?_⟩
  rw [← Option.some.inj h, horigin]
  rfl

theorem accepted_of_some (hr : r.Lawful)
    (h : toSafeRedirect r (some value) externalOrigin = some target) :
    OnPage r target ∨ OnAllowed r externalOrigin target := by
  unfold toSafeRedirect at h
  simp only [Option.bind_eq_bind, Option.bind_some] at h
  split at h
  · obtain ⟨configured, hconfigured, h⟩ := Option.bind_eq_some_iff.1 h
    obtain ⟨hsome, hne⟩ := Option.filter_eq_some_iff.1 hconfigured
    rw [hsome]
    exact .inr (onAllowed_of_some hr (by simpa using hne) h)
  · split at h
    · cases h
    · next hslash =>
      obtain ⟨parsed, hparsed, h⟩ := Option.bind_eq_some_iff.1 h
      split at h
      · cases h
      · next hsafe =>
        cases h
        exact .inl (onPage_of_some hr (by simpa using hslash) hparsed hsafe)

/-! ## It is accepted again -/

theorem unsafe_rewritten (u : Url) (scheme : SpecialScheme) (authority : Authority) :
    hasUnsafePath (.special (u.rewritten scheme authority)) = hasUnsafePath (.special u) := rfl

theorem one_slash {u : Url} (h : hasUnsafePath (.special u) = false) :
    ¬['/', '/'] <+: u.pathname := by
  have hprefix : ['/', '/'].isPrefixOf u.pathname = false := (Bool.or_eq_false_iff.1 h).1
  rw [← List.isPrefixOf_iff_prefix, hprefix]
  simp

theorem OnPage.accepted (h : OnPage r target) (externalOrigin : Option (List Char)) :
    toSafeRedirect r (some target) externalOrigin = some target := by
  obtain ⟨hknown, u, hu, hsafe, rfl⟩ := h
  obtain ⟨base, hbase, hparse⟩ := probe_of_known hknown
  have hslash := startsWithSlash_text hu
  have hagain := (hparse u.text).trans (parseUrl_text hu (one_slash hsafe) r base)
  have horigin : (ParsedUrl.special (u.rewritten base.scheme base.authority)).origin =
      PROBE_ORIGIN := by
    show base.authority.origin = _
    rw [hbase]
  unfold toSafeRedirect
  simp only [Option.bind_eq_bind, Option.bind_some]
  rw [if_neg (by simp [hslash]), if_neg (by simp [hslash]), hagain, Option.bind_some,
    if_neg (by rw [unsafe_rewritten, hsafe, horigin]; simp)]
  exact congrArg some (text_rewritten u base.scheme base.authority)

theorem OnAllowed.accepted (hprobe : (parseUrl r none PROBE_ORIGIN).isSome)
    (h : OnAllowed r externalOrigin target) :
    toSafeRedirect r (some target) externalOrigin = some target := by
  obtain ⟨configured, origin, rfl, hne, ⟨allowed, hallowed, rfl⟩, hknown, hother, u, hu, hsafe,
    rfl⟩ := h.allowed
  obtain ⟨base, hbase⟩ := parseAgainstProbe_eq hprobe
  obtain ⟨scheme, hagain⟩ := hknown.rereads hu (some base)
  have hslash : ¬startsWithSlash (allowed.origin ++ u.text) = true := fun hslash =>
    hknown.not_slash _ (startsWithSlash_iff.1 hslash)
  have hbehind : allowed.origin ++ ['/'] <+: allowed.origin ++ u.text :=
    (List.prefix_append_right_inj _).2 (startsWithSlash_iff.1 (startsWithSlash_text hu))
  have hsafe : hasUnsafePath (.special (u.rewritten scheme ⟨allowed.origin, false⟩)) = false :=
    hsafe
  unfold toSafeRedirect
  simp only [Option.bind_eq_bind, Option.bind_some]
  rw [filter_nonempty hne, if_pos ⟨by simp [hknown.ne_nil], rfl, hslash⟩, Option.bind_some]
  unfold toAllowedExternal
  simp only [Option.bind_eq_bind]
  rw [hallowed, Option.bind_some, if_neg hother, if_neg (fun h => h.2 hbehind), hbase, hagain,
    Option.bind_some, if_neg (fun h => h rfl), hsafe]
  exact congrArg (fun text => some (allowed.origin ++ text))
    (text_rewritten u scheme ⟨allowed.origin, false⟩)

theorem probe_isSome_of_some {parsed : ParsedUrl} (h : parseAgainstProbe r value = some parsed) :
    (parseUrl r none PROBE_ORIGIN).isSome := by
  obtain ⟨base, hbase, -⟩ := parseAgainstProbe_some h
  rw [hbase]
  rfl

theorem accepted_again (hr : r.Lawful)
    (h : toSafeRedirect r (some value) externalOrigin = some target) :
    toSafeRedirect r (some target) externalOrigin = some target := by
  rcases accepted_of_some hr h with hpage | hallowed
  · exact hpage.accepted externalOrigin
  · obtain ⟨_, _, _, _, ⟨_, hparsed, _⟩, _⟩ := hallowed.allowed
    exact hallowed.accepted (probe_isSome_of_some hparsed)

/-! ## A reader of hosts -/

/-- A small letter, a digit, a dot or a dash. -/
def isHostChar (c : Char) : Bool :=
  (0x61 ≤ c.toNat && c.toNat ≤ 0x7a) || (0x30 ≤ c.toNat && c.toNat ≤ 0x39) || c == '.' || c == '-'

/-- Takes a host for what it is written as, and what stands behind another scheme for a
URL of no origin. -/
def hostReader : UrlReader where
  authority := fun scheme text =>
    if text ≠ [] ∧ text.all isHostChar then some ⟨originText scheme text, false⟩ else none
  other := fun _ rest => some ⟨⟨nullOrigin, false⟩, rest, [], []⟩

theorem hostChar_kept {c : Char} (h : isHostChar c = true) :
    Printable c ∧ inAuthority c = true := by
  rw [isHostChar, Bool.or_eq_true, Bool.or_eq_true] at h
  rcases h with (h | h) | h
  · have hrange : (97 ≤ c.toNat ∧ c.toNat ≤ 122) ∨ (48 ≤ c.toNat ∧ c.toNat ≤ 57) := by
      simpa using h
    refine ⟨by unfold Printable; omega, ?_⟩
    rw [inAuthority, isSlash, Bool.not_eq_true', Bool.or_eq_false_iff, Bool.or_eq_false_iff,
      Bool.or_eq_false_iff, beq_eq_false_iff_ne, beq_eq_false_iff_ne, beq_eq_false_iff_ne,
      beq_eq_false_iff_ne]
    refine ⟨⟨⟨?_, ?_⟩, ?_⟩, ?_⟩ <;> (rintro rfl; exact absurd hrange (by decide))
  · rw [eq_of_beq h]
    decide
  · rw [eq_of_beq h]
    decide

theorem hostReader_lawful : hostReader.Lawful where
  authority := by
    intro scheme text authority h
    obtain ⟨⟨hne, hchars⟩, hauthority⟩ := Option.ite_none_right_eq_some.1 h
    cases hauthority
    have hkept := fun c hc => hostChar_kept (List.all_eq_true.1 hchars c hc)
    exact ⟨scheme, text, ⟨hne, fun c hc => (hkept c hc).1, fun c hc => (hkept c hc).2⟩, rfl, h⟩
  other := by
    intro scheme rest url h
    cases h
    exact .inl rfl

def signInPage : Url where
  scheme := .https
  authority := ⟨"https://app.test".toList, false⟩
  path := ["sign-in".toList]
  query := none
  fragment := none

/-! ## Where the browser goes -/

/-- Whichever page the browser is on, a target that is accepted keeps it there, or leads
to the origin that is allowed, without a user or a password in front of it; and the rest
of the target is where it goes. -/
theorem redirect_stays (hr : r.Lawful)
    (h : toSafeRedirect r (some value) externalOrigin = some target) (page : Url) :
    ∃ url : Url, parseUrl r (some page) target = some (.special url) ∧
      if isExternalRedirect target then
        ∃ configured allowed, externalOrigin = some configured ∧
          parseAgainstProbe r configured = some allowed ∧
          url.authority = ⟨allowed.origin, false⟩ ∧ allowed.origin ++ url.text = target
      else
        url.scheme = page.scheme ∧ url.authority = page.authority ∧ url.text = target := by
  rcases accepted_of_some hr h with ⟨-, u, hu, hsafe, rfl⟩ | hallowed
  · refine ⟨_, parseUrl_text hu (one_slash hsafe) r page, ?_⟩
    rw [isExternalRedirect, startsWithSlash_text hu, Bool.not_true, if_neg Bool.false_ne_true]
    exact ⟨rfl, rfl, text_rewritten u page.scheme page.authority⟩
  · obtain ⟨configured, origin, rfl, -, ⟨allowed, hparsed, rfl⟩, hknown, -, u, hu, -, rfl⟩ :=
      hallowed.allowed
    obtain ⟨scheme, hread⟩ := hknown.rereads hu (some page)
    have hslash : ¬startsWithSlash (allowed.origin ++ u.text) = true := fun hslash =>
      hknown.not_slash _ (startsWithSlash_iff.1 hslash)
    refine ⟨_, hread, ?_⟩
    rw [if_pos (by rw [isExternalRedirect]; simpa using hslash)]
    exact ⟨configured, allowed, rfl, hparsed, rfl,
      congrArg (allowed.origin ++ ·) (text_rewritten u scheme ⟨allowed.origin, false⟩)⟩

theorem back_office_redirect_stays :
    ∃ url : Url, parseUrl hostReader (some signInPage)
        "https://admin.example.com/users?tab=a%20b".toList = some (.special url) ∧
      if isExternalRedirect "https://admin.example.com/users?tab=a%20b".toList then
        ∃ configured allowed, some "https://admin.example.com".toList = some configured ∧
          parseAgainstProbe hostReader configured = some allowed ∧
          url.authority = ⟨allowed.origin, false⟩ ∧
          allowed.origin ++ url.text = "https://admin.example.com/users?tab=a%20b".toList
      else
        url.scheme = signInPage.scheme ∧ url.authority = signInPage.authority ∧
          url.text = "https://admin.example.com/users?tab=a%20b".toList :=
  redirect_stays hostReader_lawful
    (by decide : toSafeRedirect hostReader
      (some "https://admin.example.com/./x/../users?tab=a b".toList)
      (some "https://admin.example.com".toList) =
        some "https://admin.example.com/users?tab=a%20b".toList) signInPage

end CleanStack.WebKit

namespace CleanStack.Auth

open CleanStack.Lib CleanStack.Kit CleanStack.WebKit

variable {r : UrlReader} {externalOrigin : Option (List Char)}

/-- What both allowlists ask of the origin they are configured with. -/
def IsOrigin (r : UrlReader) (origin : List Char) : Prop :=
  ∃ parsed, parseUrl r none origin = some parsed ∧ parsed.origin = origin

theorem known_of_isOrigin (hr : r.Lawful) {origin : List Char} (h : IsOrigin r origin) :
    r.Known origin := by
  obtain ⟨parsed, hparsed, horigin⟩ := h
  rcases origin_parseUrl hr (by simp) hparsed with hnull | hknown
  · rw [horigin] at hnull
    rw [hnull] at hparsed
    have hnone : parseUrl r none nullOrigin = none := by
      have hread : readScheme (trimUrl nullOrigin) = none := by decide
      simp only [parseUrl, hread]
      rfl
    rw [hnone] at hparsed
    cases hparsed
  · exact horigin ▸ hknown

theorem external_agrees {origin value : List Char} (hknown : r.Known origin)
    (hother : origin ≠ PROBE_ORIGIN) (hprobe : (parseUrl r none PROBE_ORIGIN).isSome)
    (hvalue : value ≠ []) :
    WebKit.toAllowedExternal r value origin = toAllowedExternal r (some value) (some origin) := by
  obtain ⟨base, hbase⟩ := parseAgainstProbe_eq hprobe
  obtain ⟨allowed, -, hauthority, hallowed⟩ := known_reads hknown (.inl rfl)
  have horigin : (ParsedUrl.special allowed).origin = origin := by
    show allowed.authority.origin = origin
    rw [hauthority]
  unfold WebKit.toAllowedExternal toAllowedExternal
  simp only [Option.bind_eq_bind]
  rw [hbase, hallowed, Option.bind_some, horigin, if_neg hother, filter_nonempty hvalue,
    Option.bind_some, filter_nonempty hknown.ne_nil, Option.bind_some]
  by_cases hin : value = origin ∨ origin ++ ['/'] <+: value
  · obtain ⟨u, -, -, hreads⟩ := known_reads hknown hin
    rw [hbase, hreads, hreads]
  · obtain ⟨hne, hbehind⟩ := not_or.1 hin
    rw [if_pos ⟨hne, hbehind⟩, if_pos ⟨hne, hbehind⟩]

/-- A path is none of the other origin's. -/
theorem slash_not_external {value : List Char} (hslash : startsWithSlash value = true)
    (hknown : ∀ origin ∈ externalOrigin, r.Known origin) :
    toAllowedExternal r (some value) externalOrigin = none := by
  unfold toAllowedExternal
  simp only [Option.bind_eq_bind]
  cases hvalue : (some value).filter (· ≠ []) with
  | none => rfl
  | some text =>
    obtain ⟨heq, -⟩ := Option.filter_eq_some_iff.1 hvalue
    cases heq
    cases hfilter : externalOrigin.filter (· ≠ []) with
    | none => rfl
    | some origin =>
      have hknown := hknown origin (Option.filter_eq_some_iff.1 hfilter).1
      have hslash := startsWithSlash_iff.1 hslash
      have hne : value ≠ origin := by
        rintro rfl
        exact hknown.not_slash [] (by rwa [List.append_nil])
      have hbehind : ¬origin ++ ['/'] <+: value := by
        rintro ⟨rest, rfl⟩
        rw [List.append_assoc] at hslash
        exact hknown.not_slash _ hslash
      rw [Option.bind_some, Option.bind_some, if_pos ⟨hne, hbehind⟩]

/-- The e-mails accept what the pages accept, and hand on the same. -/
theorem allowlists_agree (hr : r.Lawful) (hprobe : (parseUrl r none PROBE_ORIGIN).isSome)
    (hconfigured : ∀ origin ∈ externalOrigin, origin ≠ PROBE_ORIGIN ∧ IsOrigin r origin)
    (value : Option (List Char)) :
    redirectTarget r value externalOrigin = toSafeRedirect r value externalOrigin := by
  cases value with
  | none => rfl
  | some value =>
    by_cases hslash : startsWithSlash value = true
    · have hexternal := slash_not_external hslash fun origin horigin =>
        known_of_isOrigin hr (hconfigured origin horigin).2
      unfold redirectTarget toSafeRedirect toSameOriginPath
      rw [hexternal, Option.or_none]
      simp [hslash]
    · have hpath : toSameOriginPath r (some value) = none := by
        unfold toSameOriginPath
        simp [hslash]
      rw [redirectTarget, hpath, Option.none_or]
      unfold toSafeRedirect
      simp only [Option.bind_eq_bind, Option.bind_some]
      by_cases hvalue : value = []
      · rw [if_neg (fun h => h.1 hvalue), if_pos hslash, hvalue]
        rfl
      · cases hfilter : externalOrigin.filter (· ≠ []) with
        | none =>
          rw [if_neg (fun h => by cases h.2.1), if_pos hslash]
          unfold toAllowedExternal
          simp only [Option.bind_eq_bind, hfilter, Option.bind_none]
          cases (some value).filter (· ≠ []) <;> rfl
        | some origin =>
          obtain ⟨hsome, -⟩ := Option.filter_eq_some_iff.1 hfilter
          obtain ⟨hother, horigin⟩ := hconfigured origin hsome
          rw [if_pos ⟨hvalue, rfl, hslash⟩, Option.bind_some, hsome]
          exact (external_agrees (known_of_isOrigin hr horigin) hother hprobe hvalue).symm

end CleanStack.Auth

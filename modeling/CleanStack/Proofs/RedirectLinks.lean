import CleanStack.Proofs.RedirectOrigin

/-!
# A redirect on its way through links

A redirect is a parameter of the link in an e-mail and of the page for the second factor.
The browser reads the link, puts more of its query in percent form, and the page reads
the parameter back: it is the target that was accepted, and it is accepted again.
-/

namespace CleanStack.Kit

open CleanStack.Lib

/-! ## Reading one parameter -/

theorem mem_percentEncode {set : Char → Bool} {text : List Char} {c : Char}
    (h : c ∈ percentEncode set text) : c ∈ text ∧ set c = false ∨ c ∈ percentChars := by
  obtain ⟨d, hd, hc⟩ := List.mem_flatMap.1 h
  split at hc
  · obtain ⟨b, -, hc⟩ := List.mem_flatMap.1 hc
    exact .inr (percentByte_mem hc)
  · next hset =>
    rw [List.mem_singleton.1 hc]
    exact .inl ⟨hd, by simpa using hset⟩

/-- What a component is spelled with. -/
theorem mem_encodeURIComponent {text : List Char} {c : Char} (h : c ∈ encodeURIComponent text) :
    isUnreserved c = true ∨ c ∈ percentChars := by
  rcases mem_percentEncode h with ⟨-, hset⟩ | hpercent
  · exact .inl (by simpa using hset)
  · exact .inr hpercent

/-- A letter or a digit, by its code. -/
theorem code_of_alphanum {c : Char} (h : c.isAlphanum = true) :
    ((65 ≤ c.toNat ∧ c.toNat ≤ 90) ∨ (97 ≤ c.toNat ∧ c.toNat ≤ 122)) ∨
      (48 ≤ c.toNat ∧ c.toNat ≤ 57) := by
  change ((decide (65 ≤ c.val ∧ c.val ≤ 90) || (decide (97 ≤ c.val) && decide (c.val ≤ 122))) ||
    (decide (48 ≤ c.val) && decide (c.val ≤ 57))) = true at h
  simp only [Bool.or_eq_true, Bool.and_eq_true, decide_eq_true_eq, UInt32.le_iff_toNat_le] at h
  exact h

theorem printable_unreserved {c : Char} (h : isUnreserved c = true) : Printable c := by
  rw [isUnreserved, Bool.or_eq_true, Bool.or_eq_true] at h
  rcases h with (h | h) | h
  · have hcode := code_of_alphanum h
    unfold Printable
    omega
  · exact List.all_iff_forall_prop.1 (by decide) c (List.contains_iff_mem.1 h)
  · unfold Printable
    rw [eq_of_beq h]
    omega

theorem printable_encodeURIComponent (text : List Char) :
    ∀ c ∈ encodeURIComponent text, Printable c := by
  intro c hc
  rcases mem_encodeURIComponent hc with hc | hc
  · exact printable_unreserved hc
  · exact List.all_iff_forall_prop.1 (by decide) c hc

theorem unmarked_encodeURIComponent (text : List Char) :
    ∀ c ∈ encodeURIComponent text, c ≠ '&' ∧ c ≠ '#' := by
  intro c hc
  rcases mem_encodeURIComponent hc with hc | hc
  · constructor <;> (rintro rfl; exact absurd hc (by decide))
  · constructor <;> (rintro rfl; exact absurd hc (by decide))

theorem queryText_encodeURIComponent (text : List Char) :
    ∀ c ∈ encodeURIComponent text, Printable c ∧ c ≠ '#' := fun c hc =>
  ⟨printable_encodeURIComponent text c hc, (unmarked_encodeURIComponent text c hc).2⟩

/-- On its way through the browser, too. -/
theorem unmarked_encoded (text : List Char) :
    ∀ c ∈ percentEncode inSpecialQuerySet (encodeURIComponent text), c ≠ '&' := by
  intro c hc
  rcases mem_percentEncode hc with ⟨hc, -⟩ | hc
  · exact (unmarked_encodeURIComponent text c hc).1
  · rintro rfl
    exact absurd hc (by decide)

theorem searchParams_single {name value : List Char} (hname : '&' ∉ name ∧ '=' ∉ name)
    (hvalue : '&' ∉ value) : searchParams ('?' :: (name ++ '=' :: value)) =
      [(decodeFormText name, decodeFormText value)] := by
  have hpart : '&' ∉ name ++ '=' :: value := by
    rw [List.mem_append, List.mem_cons]
    rintro (h | h | h)
    · exact hname.1 h
    · exact absurd h (by decide)
    · exact hvalue h
  have hbefore : ∀ c ∈ name, (c != '=') = true := by
    intro c hc
    refine bne_iff_ne.2 ?_
    rintro rfl
    exact hname.2 hc
  rw [searchParams, splitOnChar_of_not_mem hpart, List.filter_cons_of_pos (by simp),
    List.filter_nil, List.map_singleton, List.takeWhile_append_of_pos hbefore,
    List.dropWhile_append_of_pos hbefore]
  simp

theorem searchParams_append {first rest : List Char} (hfirst : '&' ∉ first) :
    searchParams ('?' :: (first ++ '&' :: rest)) =
      searchParams ('?' :: first) ++ searchParams ('?' :: rest) := by
  rw [searchParams, searchParams, searchParams, splitOnChar_append hfirst,
    splitOnChar_of_not_mem hfirst, ← List.singleton_append, List.filter_append, List.map_append]

/-! ## The search of a page -/

theorem search_readPath (route query : List Char) {c : Char} (hroute : ∀ c ∈ route, inSegment c)
    (hc : inSpecialQuerySet c = false) (hquery : ∀ d ∈ c :: query, d ≠ '#')
    (scheme : SpecialScheme) (authority : Authority) :
    (readPath scheme authority [] (route ++ '?' :: c :: query)).search =
      '?' :: percentEncode inSpecialQuerySet (c :: query) := by
  have hends : PathEnds ('?' :: c :: query) := fun d hd => .inl (Option.some.inj hd).symm
  have hwhole : (c :: query).takeWhile (· != '#') = c :: query := by
    rw [List.takeWhile_eq_self_iff]
    exact fun d hd => bne_iff_ne.2 (hquery d hd)
  have hread : (readPath scheme authority [] (route ++ '?' :: c :: query)).query =
      some (percentEncode inSpecialQuerySet (c :: query)) := by
    rw [readPath, readSegments_kept hroute, readSegments_end hends]
    show readQuery ('?' :: c :: query) = _
    rw [readQuery, hwhole]
  have hfirst : percentEncode inSpecialQuerySet (c :: query) =
      c :: percentEncode inSpecialQuerySet query := by
    rw [percentEncode_cons, percentEncode_kept (by simpa using hc), List.singleton_append]
  rw [Url.search, hread, hfirst]
  rfl

end CleanStack.Kit

namespace CleanStack.WebKit

open CleanStack.Lib CleanStack.Kit

variable {r : UrlReader} {value target : List Char} {externalOrigin : Option (List Char)}

/-! ## The parameter -/

theorem ascii_text {u : Url} (hu : u.Written) : ∀ c ∈ u.text, c.toNat < 0x80 := by
  intro c hc
  have hprintable := (printable_text hu c hc).2
  omega

/-- An accepted target is spelled in ASCII, and there is something of it. -/
theorem ascii_accepted (hr : r.Lawful)
    (h : toSafeRedirect r (some value) externalOrigin = some target) :
    (∀ c ∈ target, c.toNat < 0x80) ∧ target ≠ [] := by
  rcases accepted_of_some hr h with ⟨-, u, hu, -, rfl⟩ | hallowed
  · refine ⟨ascii_text hu, ?_⟩
    obtain ⟨rest, htext, -⟩ := readPath_text hu .https ⟨[], false⟩
    rw [htext]
    exact List.cons_ne_nil _ _
  · obtain ⟨_, origin, _, _, _, ⟨scheme, host, hhost, rfl, _⟩, _, u, hu, _, rfl⟩ :=
      hallowed.allowed
    refine ⟨fun c hc => ?_, ?_⟩
    · rcases List.mem_append.1 hc with hc | hc
      · have hprintable := (printable_originText hhost c hc).2
        omega
      · exact ascii_text hu c hc
    · cases scheme <;> exact List.cons_ne_nil _ _

/-- What is let through is spelled in ASCII, and is let through again. -/
theorem accepted_target (hr : r.Lawful) {given : Option (List Char)}
    (h : toSafeRedirect r given externalOrigin = some target) :
    (∀ c ∈ target, c.toNat < 0x80) ∧ target ≠ [] ∧
      toSafeRedirect r (some target) externalOrigin = some target := by
  cases given with
  | none => cases h
  | some value => exact ⟨(ascii_accepted hr h).1, (ascii_accepted hr h).2, accepted_again hr h⟩

def redirectName : List Char := "redirect".toList

/-- The parameter as the browser sends it on, read back. -/
theorem searchParams_redirect (htarget : ∀ c ∈ target, c.toNat < 0x80) :
    searchParams ('?' :: percentEncode inSpecialQuerySet
      ("redirect=".toList ++ encodeURIComponent target)) = [(redirectName, target)] := by
  have hspells := (spells_encodeURIComponent htarget).encoded inSpecialQuerySet (by decide)
  have hkept : percentEncode inSpecialQuerySet "redirect=".toList = redirectName ++ ['='] := by
    decide
  have hname : decodeFormText redirectName = redirectName := by decide
  rw [percentEncode_append, hkept, List.append_assoc, List.singleton_append,
    searchParams_single (by decide) fun hmem => (hspells.unmarked _ hmem).1 rfl, hname,
    hspells.decoded]

theorem printable_append {x y : List Char} (hx : ∀ c ∈ x, Printable c)
    (hy : ∀ c ∈ y, Printable c) : ∀ c ∈ x ++ y, Printable c := fun c hc =>
  (List.mem_append.1 hc).elim (hx c) (hy c)

/-! ## The page for the second factor -/

theorem two_factor_route : "/two-factor?redirect=".toList =
    '/' :: ("two-factor".toList ++ '?' :: 'r' :: "edirect=".toList) := by decide

/-- A path of one segment is read as it is. -/
theorem parseUrl_route (text : List Char) (hprintable : ∀ c ∈ '/' :: text, Printable c)
    (hslash : (text.head?.map isSlash).getD false = false) (page : Url) :
    parseUrl r (some page) ('/' :: text) =
      some (.special (readPath page.scheme page.authority [] text)) := by
  rw [parseUrl, trimUrl_printable hprintable]
  show (readRelative r page ('/' :: text)).map ParsedUrl.special = _
  rw [readRelative, if_pos (by decide), hslash, if_neg (by simp)]
  rfl

theorem twoFactorPath_some {search : List Char} (hne : target ≠ [])
    (h : toSafeRedirect r (getParam redirectName (searchParams search)) externalOrigin =
      some target) :
    twoFactorPath r search externalOrigin =
      "/two-factor?redirect=".toList ++ encodeURIComponent target := by
  unfold redirectName at h
  unfold twoFactorPath
  simp only [h, filter_nonempty hne]

theorem twoFactorPath_none {search : List Char}
    (h : toSafeRedirect r (getParam redirectName (searchParams search)) externalOrigin = none) :
    twoFactorPath r search externalOrigin = "/two-factor".toList := by
  unfold redirectName at h
  unfold twoFactorPath
  simp only [h, Option.filter_none]

theorem two_factor_reads_none (page : Url) : ∃ url : Url,
    parseUrl r (some page) "/two-factor".toList = some (.special url) ∧
      url.authority = page.authority ∧ getParam redirectName (searchParams url.search) = none := by
  have hroute : "/two-factor".toList = '/' :: "two-factor".toList := by decide
  have hread := parseUrl_route (r := r) "two-factor".toList
    (List.all_iff_forall_prop.1 (by decide)) (by decide) page
  have hsearch : (readPath page.scheme page.authority [] "two-factor".toList).search = [] := by
    have hsegments : readSegments [] [] "two-factor".toList = (["two-factor".toList], []) := by
      decide
    rw [Url.search, readPath, hsegments]
    rfl
  rw [hroute]
  exact ⟨_, hread, rfl, by rw [hsearch]; rfl⟩

theorem two_factor_reads (htarget : ∀ c ∈ target, c.toNat < 0x80) (page : Url) : ∃ url : Url,
    parseUrl r (some page) ("/two-factor?redirect=".toList ++ encodeURIComponent target) =
        some (.special url) ∧
      url.authority = page.authority ∧
      getParam redirectName (searchParams url.search) = some target := by
  have hpath : "/two-factor?redirect=".toList ++ encodeURIComponent target =
      '/' :: ("two-factor".toList ++ '?' :: 'r' ::
        ("edirect=".toList ++ encodeURIComponent target)) := by
    rw [two_factor_route, List.cons_append, List.append_assoc, List.cons_append, List.cons_append]
  have hprintable := printable_append (x := "/two-factor?redirect=".toList)
    (List.all_iff_forall_prop.1 (by decide)) (printable_encodeURIComponent target)
  have hquery : ∀ c ∈ 'r' :: ("edirect=".toList ++ encodeURIComponent target), c ≠ '#' := by
    intro c hc
    rcases List.mem_append (s := "redirect=".toList).1 hc with hc | hc
    · rintro rfl
      exact absurd hc (by decide)
    · exact (queryText_encodeURIComponent target c hc).2
  rw [hpath] at hprintable ⊢
  have hread := parseUrl_route (r := r) _ hprintable (by rfl) page
  have hsearch := search_readPath "two-factor".toList _ (List.all_iff_forall_prop.1 (by decide))
    (by decide) hquery page.scheme page.authority
  refine ⟨_, hread, rfl, ?_⟩
  rw [hsearch]
  refine (congrArg (getParam redirectName) (searchParams_redirect htarget)).trans ?_
  rw [getParam, List.find?_cons_of_pos (by simp)]
  rfl

/-- However often the page for the second factor is opened from itself, it keeps its
target. -/
theorem two_factor_keeps_redirect (hr : r.Lawful) (search : List Char) (page : Url) :
    ∃ url : Url,
      parseUrl r (some page) (twoFactorPath r search externalOrigin) = some (.special url) ∧
      url.authority = page.authority ∧
      toSafeRedirect r (getParam redirectName (searchParams url.search)) externalOrigin =
        toSafeRedirect r (getParam redirectName (searchParams search)) externalOrigin ∧
      twoFactorPath r url.search externalOrigin = twoFactorPath r search externalOrigin := by
  cases h : toSafeRedirect r (getParam redirectName (searchParams search)) externalOrigin with
  | none =>
    obtain ⟨url, hread, hauthority, hparam⟩ := two_factor_reads_none (r := r) page
    have hnone : toSafeRedirect r none externalOrigin = none := rfl
    rw [twoFactorPath_none h]
    refine ⟨url, hread, hauthority, by rw [hparam, hnone], ?_⟩
    rw [twoFactorPath_none (by rw [hparam, hnone])]
  | some target =>
    obtain ⟨hascii, hne, hagain⟩ := accepted_target hr h
    obtain ⟨url, hread, hauthority, hparam⟩ := two_factor_reads (r := r) hascii page
    rw [twoFactorPath_some hne h]
    refine ⟨url, hread, hauthority, by rw [hparam, hagain], ?_⟩
    rw [twoFactorPath_some hne (by rw [hparam, hagain])]

theorem two_factor_keeps_users : ∃ url : Url,
    parseUrl hostReader (some signInPage)
        (twoFactorPath hostReader "?redirect=%2Fusers%3Ftab%3D1".toList none) =
      some (.special url) ∧
    url.authority = signInPage.authority ∧
    toSafeRedirect hostReader (getParam redirectName (searchParams url.search)) none =
      toSafeRedirect hostReader
        (getParam redirectName (searchParams "?redirect=%2Fusers%3Ftab%3D1".toList)) none ∧
    twoFactorPath hostReader url.search none =
      twoFactorPath hostReader "?redirect=%2Fusers%3Ftab%3D1".toList none :=
  two_factor_keeps_redirect hostReader_lawful "?redirect=%2Fusers%3Ftab%3D1".toList signInPage

end CleanStack.WebKit

namespace CleanStack.Auth

open CleanStack.Lib CleanStack.Kit CleanStack.WebKit

variable {r : UrlReader} {adminUrl : Option (List Char)}

/-! ## The link in an e-mail -/

def tokenName : List Char := "token".toList

theorem printable_segment {c : Char} (h : inSegment c) : Printable c := by
  simp only [inSegment, Bool.and_eq_true, Bool.not_eq_true'] at h
  exact printable_of_query (query_of_path h.1)

/-- A link to a page of the application is read there. -/
theorem link_reads {appUrl : List Char} (happ : r.Known appUrl) {route rest : List Char}
    (hroute : ∀ c ∈ route, inSegment c) (hrest : ∀ c ∈ rest, Printable c ∧ c ≠ '#') :
    ∃ page : Url,
      parseUrl r none (appUrl ++ ('/' :: (route ++ '?' :: 't' :: rest))) =
        some (.special page) ∧
      page.authority = ⟨appUrl, false⟩ ∧
      page.search = '?' :: percentEncode inSpecialQuerySet ('t' :: rest) := by
  obtain ⟨scheme, host, hhost, rfl, hauthority⟩ := happ
  have hprintable : ∀ c ∈ originText scheme host ++ ('/' :: (route ++ '?' :: 't' :: rest)),
      Printable c := by
    refine printable_append (printable_originText hhost) ?_
    refine List.forall_mem_cons.2 ⟨by decide, ?_⟩
    refine printable_append (fun c hc => printable_segment (hroute c hc)) ?_
    exact List.forall_mem_cons.2 ⟨by decide,
      List.forall_mem_cons.2 ⟨by decide, fun c hc => (hrest c hc).1⟩⟩
  have hstop : ∀ c ∈ ('/' :: (route ++ '?' :: 't' :: rest)).head?, inAuthority c = false := by
    intro c hc
    rw [← Option.some.inj hc]
    rfl
  refine ⟨readPath scheme ⟨originText scheme host, false⟩ [] (route ++ '?' :: 't' :: rest), ?_,
    rfl, ?_⟩
  · rw [parseUrl_origin hhost hstop (trimUrl_printable hprintable), hauthority]
    rfl
  · refine search_readPath route rest hroute (by decide) ?_ scheme _
    exact List.forall_mem_cons.2 ⟨by decide, fun c hc => (hrest c hc).2⟩

theorem unmarked_token (token : List Char) :
    '&' ∉ tokenName ++ '=' :: percentEncode inSpecialQuerySet (encodeURIComponent token) := by
  rw [List.mem_append, List.mem_cons]
  rintro (h | h | h)
  · exact absurd h (by decide)
  · exact absurd h (by decide)
  · exact unmarked_encoded token '&' h rfl

theorem encoded_token (token rest : List Char) :
    percentEncode inSpecialQuerySet ("token=".toList ++ encodeURIComponent token ++ rest) =
      tokenName ++ '=' :: (percentEncode inSpecialQuerySet (encodeURIComponent token) ++
        percentEncode inSpecialQuerySet rest) := by
  have hkept : percentEncode inSpecialQuerySet "token=".toList = tokenName ++ ['='] := by decide
  rw [percentEncode_append, percentEncode_append, hkept, List.append_assoc, List.append_assoc,
    List.singleton_append]

theorem searchParams_token (token : List Char) : ∃ value, searchParams ('?' ::
    (tokenName ++ '=' :: percentEncode inSpecialQuerySet (encodeURIComponent token))) =
      [(tokenName, value)] := by
  have hname : decodeFormText tokenName = tokenName := by decide
  refine ⟨_, (searchParams_single (by decide) fun hmem => ?_).trans (by rw [hname])⟩
  exact unmarked_encoded token '&' hmem rfl

theorem getParam_behind_token (value : List Char) (rest : List (List Char × List Char)) :
    getParam redirectName ((tokenName, value) :: rest) = getParam redirectName rest := by
  have hother : (tokenName == redirectName) = false := by decide
  rw [getParam, List.find?_cons]
  simp only [hother]
  rfl

/-- What the page reads from a link that only has a token. -/
theorem redirect_of_token (token : List Char) : getParam redirectName (searchParams ('?' ::
    percentEncode inSpecialQuerySet ("token=".toList ++ encodeURIComponent token ++ []))) =
      none := by
  obtain ⟨value, hparams⟩ := searchParams_token token
  have hnil : percentEncode inSpecialQuerySet [] = [] := rfl
  rw [encoded_token, hnil, List.append_nil, hparams, getParam_behind_token]
  rfl

/-- What the page reads from a link with a redirect behind the token. -/
theorem redirect_behind_token {target : List Char} (htarget : ∀ c ∈ target, c.toNat < 0x80)
    (token : List Char) : getParam redirectName (searchParams ('?' ::
      percentEncode inSpecialQuerySet ("token=".toList ++ encodeURIComponent token ++
        ("&redirect=".toList ++ encodeURIComponent target)))) = some target := by
  obtain ⟨value, hparams⟩ := searchParams_token token
  have hamp : percentEncode inSpecialQuerySet ("&redirect=".toList ++ encodeURIComponent target) =
      '&' :: percentEncode inSpecialQuerySet ("redirect=".toList ++ encodeURIComponent target) := by
    have hmark : "&redirect=".toList = '&' :: "redirect=".toList := by decide
    have hkept : percentEncode inSpecialQuerySet ['&'] = ['&'] := by decide
    rw [hmark, List.cons_append, percentEncode_cons, hkept, List.singleton_append]
  have hparts : ∀ token rest : List Char, tokenName ++ '=' :: (token ++ '&' :: rest) =
      (tokenName ++ '=' :: token) ++ '&' :: rest := by
    intro token rest
    rw [List.append_assoc, List.cons_append]
  rw [encoded_token, hamp, hparts, searchParams_append (unmarked_token token), hparams,
    searchParams_redirect htarget, List.singleton_append, getParam_behind_token, getParam,
    List.find?_cons_of_pos (by simp)]
  rfl

/-- A link carries what the allowlist of the e-mails let through, less the front page. -/
theorem redirectQuery_eq {target : Option (List Char)} {authUrl : List Char}
    (h : (redirectTarget r (callbackParam r authUrl) adminUrl).filter
      (fun target => target ≠ [] ∧ target ≠ ['/']) = target) :
    redirectQuery r authUrl adminUrl =
      (target.map fun target => "&redirect=".toList ++ encodeURIComponent target).getD [] := by
  unfold redirectQuery
  rw [h]
  cases target <;> rfl

theorem mem_redirectQuery {authUrl : List Char} {c : Char}
    (h : c ∈ redirectQuery r authUrl adminUrl) : Printable c ∧ c ≠ '#' := by
  rw [redirectQuery_eq rfl] at h
  cases htarget : (redirectTarget r (callbackParam r authUrl) adminUrl).filter
      (fun target => target ≠ [] ∧ target ≠ ['/']) with
  | none =>
    rw [htarget] at h
    cases h
  | some target =>
    rw [htarget] at h
    have hname : ∀ c ∈ "&redirect=".toList, Printable c ∧ c ≠ '#' :=
      List.all_iff_forall_prop.1 (by decide)
    rcases List.mem_append.1 h with h | h
    · exact hname c h
    · exact queryText_encodeURIComponent target c h

theorem mem_linkQuery {token authUrl : List Char} {c : Char}
    (h : c ∈ "oken=".toList ++ encodeURIComponent token ++ redirectQuery r authUrl adminUrl) :
    Printable c ∧ c ≠ '#' := by
  have hname : ∀ c ∈ "oken=".toList, Printable c ∧ c ≠ '#' :=
    List.all_iff_forall_prop.1 (by decide)
  rcases List.mem_append.1 h with h | h
  · rcases List.mem_append.1 h with h | h
    · exact hname c h
    · exact queryText_encodeURIComponent token c h
  · exact mem_redirectQuery h

/-- The redirect that a page accepts from the query of a link. -/
theorem redirect_of_link (hr : r.Lawful) {authUrl : List Char}
    (hagree : redirectTarget r (callbackParam r authUrl) adminUrl =
      toSafeRedirect r (callbackParam r authUrl) adminUrl) (token : List Char) :
    toSafeRedirect r (getParam redirectName (searchParams ('?' ::
        percentEncode inSpecialQuerySet ("token=".toList ++ encodeURIComponent token ++
          redirectQuery r authUrl adminUrl)))) adminUrl =
      (toSafeRedirect r (callbackParam r authUrl) adminUrl).filter (· ≠ ['/']) := by
  cases htarget : (redirectTarget r (callbackParam r authUrl) adminUrl).filter
      (fun target => target ≠ [] ∧ target ≠ ['/']) with
  | none =>
    rw [redirectQuery_eq htarget]
    refine (congrArg (toSafeRedirect r · adminUrl) (redirect_of_token token)).trans ?_
    rw [hagree] at htarget
    cases haccepted : toSafeRedirect r (callbackParam r authUrl) adminUrl with
    | none => rfl
    | some target =>
      obtain ⟨-, hne, -⟩ := accepted_target hr haccepted
      rw [haccepted] at htarget
      have hfront : target = ['/'] := by simpa [hne] using htarget
      rw [hfront]
      rfl
  | some target =>
    obtain ⟨haccepted, hkept⟩ := Option.filter_eq_some_iff.1 htarget
    rw [hagree] at haccepted
    obtain ⟨hascii, -, hagain⟩ := accepted_target hr haccepted
    have hfront : target ≠ ['/'] := (of_decide_eq_true hkept).2
    rw [redirectQuery_eq htarget]
    refine (congrArg (toSafeRedirect r · adminUrl) (redirect_behind_token hascii token)).trans ?_
    rw [hagain, haccepted, Option.filter_some_pos (by simpa using hfront)]

/-- A link is a page of the application, and the page accepts this redirect from it. -/
def OpensWith (r : UrlReader) (adminUrl : Option (List Char)) (appUrl link : List Char)
    (redirect : Option (List Char)) : Prop :=
  ∃ page : Url, parseUrl r none link = some (.special page) ∧ page.authority = ⟨appUrl, false⟩ ∧
    toSafeRedirect r (getParam redirectName (searchParams page.search)) adminUrl = redirect

theorem link_keeps_redirect (hr : r.Lawful) (hprobe : (parseUrl r none PROBE_ORIGIN).isSome)
    (hconfigured : ∀ origin ∈ adminUrl, origin ≠ PROBE_ORIGIN ∧ IsOrigin r origin)
    {appUrl : List Char} (happ : IsOrigin r appUrl) {route : List Char}
    (hroute : ∀ c ∈ route, inSegment c) (token authUrl : List Char) :
    OpensWith r adminUrl appUrl
      (appUrl ++ ('/' :: (route ++ '?' :: 't' :: ("oken=".toList ++ encodeURIComponent token ++
        redirectQuery r authUrl adminUrl))))
      ((toSafeRedirect r (callbackParam r authUrl) adminUrl).filter (· ≠ ['/'])) := by
  obtain ⟨page, hread, hauthority, hsearch⟩ :=
    link_reads (known_of_isOrigin hr happ) hroute fun c => mem_linkQuery (c := c)
  have htoken : 't' :: ("oken=".toList ++ encodeURIComponent token ++
      redirectQuery r authUrl adminUrl) = "token=".toList ++ encodeURIComponent token ++
        redirectQuery r authUrl adminUrl := by
    have hmark : "token=".toList = 't' :: "oken=".toList := by decide
    rw [hmark, List.cons_append, List.cons_append]
  refine ⟨page, hread, hauthority, ?_⟩
  rw [hsearch, htoken]
  exact redirect_of_link hr (allowlists_agree hr hprobe hconfigured _) token

/-- The page behind either link goes where the sign-in was asked to come back to, when the
pages accept that, and nowhere for the front page. -/
theorem email_links_keep_redirect (hr : r.Lawful)
    (hprobe : (parseUrl r none PROBE_ORIGIN).isSome)
    (hconfigured : ∀ origin ∈ adminUrl, origin ≠ PROBE_ORIGIN ∧ IsOrigin r origin)
    {appUrl : List Char} (happ : IsOrigin r appUrl) (token authUrl : List Char) :
    OpensWith r adminUrl appUrl (verifyUrl r appUrl token authUrl adminUrl)
        ((toSafeRedirect r (callbackParam r authUrl) adminUrl).filter (· ≠ ['/'])) ∧
      OpensWith r adminUrl appUrl (magicUrl r appUrl token authUrl adminUrl)
        ((toSafeRedirect r (callbackParam r authUrl) adminUrl).filter (· ≠ ['/'])) := by
  have hverify : "/verify-email?token=".toList =
      '/' :: ("verify-email".toList ++ '?' :: 't' :: "oken=".toList) := by decide
  have hmagic : "/magic-link?token=".toList =
      '/' :: ("magic-link".toList ++ '?' :: 't' :: "oken=".toList) := by decide
  constructor
  · have hroute : ∀ c ∈ "verify-email".toList, inSegment c := List.all_iff_forall_prop.1 (by decide)
    have hkeeps := link_keeps_redirect hr hprobe hconfigured happ hroute token authUrl
    rw [verifyUrl, hverify]
    simpa only [List.cons_append, List.append_assoc] using hkeeps
  · have hroute : ∀ c ∈ "magic-link".toList, inSegment c := List.all_iff_forall_prop.1 (by decide)
    have hkeeps := link_keeps_redirect hr hprobe hconfigured happ hroute token authUrl
    rw [magicUrl, hmagic]
    simpa only [List.cons_append, List.append_assoc] using hkeeps

theorem email_links_keep_teams :
    OpensWith hostReader (some "https://admin.test".toList) "https://app.test".toList
        (verifyUrl hostReader "https://app.test".toList "t 1".toList
          "https://api.test/verify?callbackURL=%2Fteams%3Ftab%3Da".toList
          (some "https://admin.test".toList)) (some "/teams?tab=a".toList) ∧
      OpensWith hostReader (some "https://admin.test".toList) "https://app.test".toList
        (magicUrl hostReader "https://app.test".toList "t 1".toList
          "https://api.test/verify?callbackURL=%2Fteams%3Ftab%3Da".toList
          (some "https://admin.test".toList)) (some "/teams?tab=a".toList) := by
  have hredirect : (toSafeRedirect hostReader (callbackParam hostReader
      "https://api.test/verify?callbackURL=%2Fteams%3Ftab%3Da".toList)
      (some "https://admin.test".toList)).filter (· ≠ ['/']) = some "/teams?tab=a".toList := by
    decide
  have hconfigured : ∀ origin ∈ some "https://admin.test".toList,
      origin ≠ PROBE_ORIGIN ∧ IsOrigin hostReader origin := by
    intro origin horigin
    cases horigin
    exact ⟨by decide, _, rfl, by decide⟩
  rw [← hredirect]
  exact email_links_keep_redirect hostReader_lawful (by decide) hconfigured ⟨_, rfl, by decide⟩ _ _

end CleanStack.Auth

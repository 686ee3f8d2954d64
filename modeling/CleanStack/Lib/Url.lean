import Mathlib.Data.Bool.AllAny
import Mathlib.Data.List.DropRight
import Mathlib.Data.List.TakeWhile

/-!
# Reading URLs

A URL of a special scheme has an authority, a path of segments, and perhaps a query and
a fragment. Reading one removes the blanks around the text and the tabs and line feeds
in it, takes a backslash for a slash, resolves the dot segments against what stands in
front of them, and writes what does not belong there in percent form. What the text of
an authority means, and what a URL of any other scheme is, is given to the reader.

What was read can be written down and read again. A text that begins with its path is
then a path of whichever base it is read against, unless it begins with two slashes.
-/

namespace CleanStack.Lib

inductive SpecialScheme where
  | ftp
  | http
  | https
  | ws
  | wss
deriving DecidableEq, Repr

def SpecialScheme.text : SpecialScheme → List Char
  | .ftp => ['f', 't', 'p']
  | .http => ['h', 't', 't', 'p']
  | .https => ['h', 't', 't', 'p', 's']
  | .ws => ['w', 's']
  | .wss => ['w', 's', 's']

def SpecialScheme.ofText? (text : List Char) : Option SpecialScheme :=
  [SpecialScheme.ftp, .http, .https, .ws, .wss].find? fun scheme => scheme.text == text

/-- Whose a URL is: the origin as it is written, and whether a user or a password stands
in front of the host. -/
structure Authority where
  origin : List Char
  credentials : Bool
deriving DecidableEq, Repr

structure Url where
  scheme : SpecialScheme
  authority : Authority
  path : List (List Char)
  query : Option (List Char)
  fragment : Option (List Char)
deriving DecidableEq, Repr

/-- A URL of another scheme, by what can be asked of it. -/
structure OtherUrl where
  authority : Authority
  pathname : List Char
  search : List Char
  hash : List Char
deriving DecidableEq, Repr

inductive ParsedUrl where
  | special (url : Url)
  | other (url : OtherUrl)
deriving DecidableEq, Repr

/-- The two readings that are not spelled out here. The first is given the text between
the slashes and the path, the second the scheme and what is behind its colon. -/
structure UrlReader where
  authority : SpecialScheme → List Char → Option Authority
  other : List Char → List Char → Option OtherUrl

/-! ## Percent form -/

def isControl (c : Char) : Bool := c.toNat < 0x20 || 0x7e < c.toNat

def inFragmentSet (c : Char) : Bool :=
  isControl c || [0x20, 0x22, 0x3c, 0x3e, 0x60].contains c.toNat

def inQuerySet (c : Char) : Bool :=
  isControl c || [0x20, 0x22, 0x23, 0x3c, 0x3e].contains c.toNat

def inSpecialQuerySet (c : Char) : Bool := inQuerySet c || c.toNat == 0x27

def inPathSet (c : Char) : Bool :=
  inQuerySet c || [0x3f, 0x5e, 0x60, 0x7b, 0x7d].contains c.toNat

def upperHex (n : Nat) : Char :=
  ['0', '1', '2', '3', '4', '5', '6', '7', '8', '9', 'A', 'B', 'C', 'D', 'E', 'F'].getD n '0'

def percentByte (b : UInt8) : List Char := ['%', upperHex (b.toNat / 16), upperHex (b.toNat % 16)]

def percentEncode (set : Char → Bool) (text : List Char) : List Char :=
  text.flatMap fun c => if set c then (String.utf8EncodeChar c).flatMap percentByte else [c]

/-! ## The path -/

def isSlash (c : Char) : Bool := c == '/' || c == '\\'

def isSingleDot (segment : List Char) : Bool :=
  [['.'], ['%', '2', 'e']].contains (segment.map Char.toLower)

def isDoubleDot (segment : List Char) : Bool :=
  [['.', '.'], ['.', '%', '2', 'e'], ['%', '2', 'e', '.'], ['%', '2', 'e', '%', '2', 'e']].contains
    (segment.map Char.toLower)

/-- A segment is complete. A dot segment at the end leaves an empty one behind. -/
def endSegment (path : List (List Char)) (segment : List Char) (slash : Bool) :
    List (List Char) :=
  if isDoubleDot segment then
    if slash then path.dropLast else path.dropLast ++ [[]]
  else if isSingleDot segment then
    if slash then path else path ++ [[]]
  else path ++ [segment]

/-- The path, and what is left from the query or the fragment on. -/
def readSegments (path : List (List Char)) (segment : List Char) :
    List Char → List (List Char) × List Char
  | [] => (endSegment path segment false, [])
  | c :: rest =>
      if isSlash c then readSegments (endSegment path segment true) [] rest
      else if c == '?' || c == '#' then (endSegment path segment false, c :: rest)
      else readSegments path (segment ++ percentEncode inPathSet [c]) rest

def readFragment : List Char → Option (List Char)
  | '#' :: rest => some (percentEncode inFragmentSet rest)
  | _ => none

def readQuery : List Char → Option (List Char)
  | '?' :: rest => some (percentEncode inSpecialQuerySet (rest.takeWhile (· != '#')))
  | _ => none

def readPath (scheme : SpecialScheme) (authority : Authority) (path : List (List Char))
    (text : List Char) : Url :=
  let (path, rest) := readSegments path [] text
  { scheme, authority, path, query := readQuery rest,
    fragment := readFragment (rest.dropWhile (· != '#')) }

/-! ## The whole -/

def inAuthority (c : Char) : Bool := !(isSlash c || c == '?' || c == '#')

def dropSlash : List Char → List Char
  | [] => []
  | c :: rest => if isSlash c then rest else c :: rest

/-- The slashes are passed, however many there are. -/
def readAuthority (r : UrlReader) (scheme : SpecialScheme) (text : List Char) : Option Url :=
  let text := text.dropWhile isSlash
  (r.authority scheme (text.takeWhile inAuthority)).map fun authority =>
    readPath scheme authority [] (dropSlash (text.dropWhile inAuthority))

/-- A text without a scheme. Two slashes bring an authority of its own. -/
def readRelative (r : UrlReader) (base : Url) : List Char → Option Url
  | [] => some { base with fragment := none }
  | c :: rest =>
      if isSlash c then
        if (rest.head?.map isSlash).getD false then readAuthority r base.scheme rest
        else some (readPath base.scheme base.authority [] rest)
      else if c == '?' then
        some { base with
          query := readQuery (c :: rest), fragment := readFragment (rest.dropWhile (· != '#')) }
      else if c == '#' then some { base with fragment := readFragment (c :: rest) }
      else some (readPath base.scheme base.authority base.path.dropLast (c :: rest))

def isSchemeChar (c : Char) : Bool := c.isAlphanum || c == '+' || c == '-' || c == '.'

def readScheme (text : List Char) : Option (List Char × List Char) :=
  if (text.head?.map Char.isAlpha).getD false then
    match text.dropWhile isSchemeChar with
    | ':' :: rest => some ((text.takeWhile isSchemeChar).map Char.toLower, rest)
    | _ => none
  else none

def isBlank (c : Char) : Bool := c.toNat ≤ 0x20

def isTabOrNewline (c : Char) : Bool := c.toNat == 0x9 || c.toNat == 0xa || c.toNat == 0xd

def trimUrl (text : List Char) : List Char :=
  ((text.dropWhile isBlank).rdropWhile isBlank).filter fun c => !isTabOrNewline c

def parseUrl (r : UrlReader) (base : Option Url) (text : List Char) : Option ParsedUrl :=
  let text := trimUrl text
  match readScheme text with
  | none => (base.bind fun base => readRelative r base text).map .special
  | some (scheme, rest) =>
      match SpecialScheme.ofText? scheme with
      | none => (r.other scheme rest).map .other
      | some scheme =>
          match base with
          | none => (readAuthority r scheme rest).map .special
          | some base =>
              if base.scheme = scheme && !(['/', '/'].isPrefixOf rest) then
                (readRelative r base rest).map .special
              else (readAuthority r scheme rest).map .special

/-! ## What is asked of a URL -/

def Url.pathname (u : Url) : List Char := u.path.flatMap fun segment => '/' :: segment

/-- A part that is there and empty is not written. -/
def writePart (mark : Char) : Option (List Char) → List Char
  | none => []
  | some [] => []
  | some (c :: text) => mark :: c :: text

def Url.search (u : Url) : List Char := writePart '?' u.query

def Url.hash (u : Url) : List Char := writePart '#' u.fragment

def ParsedUrl.authority : ParsedUrl → Authority
  | .special url => url.authority
  | .other url => url.authority

def ParsedUrl.origin (u : ParsedUrl) : List Char := u.authority.origin

def ParsedUrl.pathname : ParsedUrl → List Char
  | .special url => url.pathname
  | .other url => url.pathname

def ParsedUrl.search : ParsedUrl → List Char
  | .special url => url.search
  | .other url => url.search

def ParsedUrl.hash : ParsedUrl → List Char
  | .special url => url.hash
  | .other url => url.hash

/-! ## Characters -/

/-- Neither a blank nor a control, and in ASCII. -/
def Printable (c : Char) : Prop := 0x20 < c.toNat ∧ c.toNat < 0x7f

instance : DecidablePred Printable := fun c =>
  inferInstanceAs (Decidable (0x20 < c.toNat ∧ c.toNat < 0x7f))

theorem printable_of_query {c : Char} (h : inQuerySet c = false) : Printable c := by
  simp only [inQuerySet, isControl, Bool.or_eq_false_iff, decide_eq_false_iff_not,
    List.contains_cons, List.contains_nil, beq_eq_false_iff_ne] at h
  unfold Printable
  omega

theorem query_of_specialQuery {c : Char} (h : inSpecialQuerySet c = false) :
    inQuerySet c = false :=
  (Bool.or_eq_false_iff.1 h).1

theorem query_of_path {c : Char} (h : inPathSet c = false) : inQuerySet c = false :=
  (Bool.or_eq_false_iff.1 h).1

theorem printable_of_fragment {c : Char} (h : inFragmentSet c = false) : Printable c := by
  simp only [inFragmentSet, isControl, Bool.or_eq_false_iff, decide_eq_false_iff_not,
    List.contains_cons, List.contains_nil, beq_eq_false_iff_ne] at h
  unfold Printable
  omega

def percentChars : List Char :=
  ['%', '0', '1', '2', '3', '4', '5', '6', '7', '8', '9', 'A', 'B', 'C', 'D', 'E', 'F']

theorem upperHex_mem {n : Nat} (h : n < 16) : upperHex n ∈ percentChars := by
  refine List.mem_cons_of_mem _ ?_
  rw [upperHex, List.getD_eq_getElem?_getD, List.getElem?_eq_getElem (by exact h),
    Option.getD_some]
  exact List.getElem_mem _

theorem percentByte_mem {b : UInt8} {c : Char} (h : c ∈ percentByte b) : c ∈ percentChars := by
  have hb := b.toNat_lt
  rcases List.mem_cons.1 h with rfl | h
  · exact List.mem_cons_self
  rcases List.mem_cons.1 h with rfl | h
  · exact upperHex_mem (by omega)
  rw [List.mem_singleton.1 h]
  exact upperHex_mem (by omega)

/-- What comes out of an encoding needs none, where a percent form needs none. -/
theorem percentEncode_out {set : Char → Bool} (hset : percentChars.all fun c => !set c)
    {text : List Char} {c : Char} (h : c ∈ percentEncode set text) : set c = false := by
  obtain ⟨d, -, hc⟩ := List.mem_flatMap.1 h
  split at hc
  · obtain ⟨b, -, hc⟩ := List.mem_flatMap.1 hc
    simpa using List.all_eq_true.1 hset c (percentByte_mem hc)
  · next hd =>
    rw [List.mem_singleton.1 hc]
    simpa using hd

theorem percentEncode_kept {set : Char → Bool} {text : List Char}
    (h : ∀ c ∈ text, set c = false) : percentEncode set text = text := by
  induction text with
  | nil => rfl
  | cons c text ih =>
    obtain ⟨hc, htext⟩ := List.forall_mem_cons.1 h
    have hrest : percentEncode set text = text := ih htext
    rw [percentEncode] at hrest ⊢
    rw [List.flatMap_cons, hc, hrest]
    rfl

/-! ## Segments -/

def inSegment (c : Char) : Bool := !inPathSet c && !isSlash c

/-- A segment that stays as it is when it is read. -/
structure Segment (s : List Char) : Prop where
  kept : ∀ c ∈ s, inSegment c
  single : isSingleDot s = false
  double : isDoubleDot s = false

theorem segment_nil : Segment [] := ⟨by simp, rfl, rfl⟩

theorem inSegment_encode {c d : Char} (hc : isSlash c = false)
    (h : d ∈ percentEncode inPathSet [c]) : inSegment d := by
  have hset : inPathSet d = false := percentEncode_out (by decide) h
  have hslash : isSlash d = false := by
    obtain ⟨e, he, hd⟩ := List.mem_flatMap.1 h
    rw [List.mem_singleton.1 he] at hd
    split at hd
    · obtain ⟨b, -, hd⟩ := List.mem_flatMap.1 hd
      have hall : percentChars.all fun c => !isSlash c := by decide
      simpa using List.all_eq_true.1 hall d (percentByte_mem hd)
    · rw [List.mem_singleton.1 hd, hc]
  rw [inSegment, hset, hslash]
  rfl

theorem endSegment_segment {s : List Char} (h : Segment s) (path : List (List Char))
    (slash : Bool) : endSegment path s slash = path ++ [s] := by
  rw [endSegment, h.double, h.single]
  rfl

theorem mem_endSegment {path : List (List Char)} {segment t : List Char} {slash : Bool}
    (hpath : ∀ s ∈ path, Segment s) (hkept : ∀ c ∈ segment, inSegment c)
    (h : t ∈ endSegment path segment slash) : Segment t := by
  have hends : ∀ before, (∀ s ∈ before, Segment s) → t ∈ before ++ [[]] → Segment t := by
    intro before hbefore ht
    rcases List.mem_append.1 ht with ht | ht
    · exact hbefore t ht
    · rw [List.mem_singleton.1 ht]
      exact segment_nil
  have hless : ∀ s ∈ path.dropLast, Segment s := fun s hs => hpath s (List.dropLast_subset _ hs)
  unfold endSegment at h
  split at h
  · split at h
    · exact hless t h
    · exact hends _ hless h
  · next hdouble =>
    split at h
    · split at h
      · exact hpath t h
      · exact hends _ hpath h
    · next hsingle =>
      rcases List.mem_append.1 h with h | h
      · exact hpath t h
      · rw [List.mem_singleton.1 h]
        exact ⟨hkept, by simpa using hsingle, by simpa using hdouble⟩

theorem endSegment_ne_nil (path : List (List Char)) (segment : List Char) :
    endSegment path segment false ≠ [] := by
  unfold endSegment
  split
  · simp
  · split <;> simp

/-- Where a path ends. -/
def PathEnds (text : List Char) : Prop := ∀ c ∈ text.head?, c = '?' ∨ c = '#'

/-- What a reading leaves in the path, and where it stops. -/
theorem readSegments_spec {path : List (List Char)} {segment text : List Char}
    (hpath : ∀ s ∈ path, Segment s) (hkept : ∀ c ∈ segment, inSegment c) :
    (∀ s ∈ (readSegments path segment text).1, Segment s) ∧
      (readSegments path segment text).1 ≠ [] ∧ PathEnds (readSegments path segment text).2 := by
  induction text generalizing path segment with
  | nil =>
    exact ⟨fun s => mem_endSegment hpath hkept, endSegment_ne_nil path segment,
      fun c hc => by cases hc⟩
  | cons c rest ih =>
    rw [readSegments]
    split
    · exact ih (fun s => mem_endSegment hpath hkept) (by simp)
    · next hslash =>
      split
      · next hmark =>
        refine ⟨fun s => mem_endSegment hpath hkept, endSegment_ne_nil path segment, ?_⟩
        simpa [PathEnds] using hmark
      · refine ih hpath fun d hd => ?_
        rcases List.mem_append.1 hd with hd | hd
        · exact hkept d hd
        · exact inSegment_encode (by simpa using hslash) hd

theorem readSegments_kept {s : List Char} (h : ∀ c ∈ s, inSegment c)
    (path : List (List Char)) (segment rest : List Char) :
    readSegments path segment (s ++ rest) = readSegments path (segment ++ s) rest := by
  induction s generalizing segment with
  | nil => rw [List.nil_append, List.append_nil]
  | cons c s ih =>
    obtain ⟨hc, hs⟩ := List.forall_mem_cons.1 h
    simp only [inSegment, Bool.and_eq_true, Bool.not_eq_true'] at hc
    have hmark : ¬(c == '?' || c == '#') = true := by
      rintro hmark
      rcases Bool.or_eq_true_iff.1 hmark with hmark | hmark <;>
        (rw [eq_of_beq hmark] at hc; exact absurd hc.1 (by decide))
    have henc : percentEncode inPathSet [c] = [c] := percentEncode_kept (by simpa using hc.1)
    rw [List.cons_append, readSegments, if_neg (by simp [hc.2]), if_neg hmark, henc, ih hs,
      List.append_assoc, List.singleton_append]

theorem readSegments_end {rest : List Char} (h : PathEnds rest) (path : List (List Char))
    (segment : List Char) :
    readSegments path segment rest = (endSegment path segment false, rest) := by
  cases rest with
  | nil => rfl
  | cons c rest =>
    rcases h c rfl with rfl | rfl <;> rfl

/-- Reading the segments of a path gives them again. -/
theorem readSegments_path {s : List Char} {more : List (List Char)} {rest : List Char}
    (hsegments : ∀ t ∈ s :: more, Segment t) (hrest : PathEnds rest) (path : List (List Char)) :
    readSegments path [] (s ++ (more.flatMap (fun t => '/' :: t) ++ rest)) =
      (path ++ s :: more, rest) := by
  induction more generalizing path s with
  | nil =>
    have hs := hsegments s List.mem_cons_self
    rw [List.flatMap_nil, List.nil_append, readSegments_kept hs.kept, List.nil_append,
      readSegments_end hrest, endSegment_segment hs]
  | cons t more ih =>
    obtain ⟨hs, hmore⟩ := List.forall_mem_cons.1 hsegments
    rw [List.flatMap_cons, readSegments_kept hs.kept, List.nil_append, List.cons_append,
      List.cons_append, readSegments, if_pos (by decide), endSegment_segment hs,
      List.append_assoc, ih hmore, List.append_assoc, List.singleton_append]

/-! ## What a reading gives -/

structure Url.Written (u : Url) : Prop where
  segments : ∀ s ∈ u.path, Segment s
  path_ne_nil : u.path ≠ []
  query : ∀ q ∈ u.query, ∀ c ∈ q, inSpecialQuerySet c = false
  fragment : ∀ f ∈ u.fragment, ∀ c ∈ f, inFragmentSet c = false

theorem mem_readQuery {text q : List Char} (h : q ∈ readQuery text) :
    ∀ c ∈ q, inSpecialQuerySet c = false := by
  unfold readQuery at h
  split at h
  · cases h
    exact fun c => percentEncode_out (by decide)
  · cases h

theorem mem_readFragment {text f : List Char} (h : f ∈ readFragment text) :
    ∀ c ∈ f, inFragmentSet c = false := by
  unfold readFragment at h
  split at h
  · cases h
    exact fun c => percentEncode_out (by decide)
  · cases h

theorem written_readPath {path : List (List Char)} (hpath : ∀ s ∈ path, Segment s)
    (scheme : SpecialScheme) (authority : Authority) (text : List Char) :
    (readPath scheme authority path text).Written := by
  obtain ⟨hsegments, hne, -⟩ : (∀ s ∈ (readSegments path [] text).1, Segment s) ∧
      (readSegments path [] text).1 ≠ [] ∧ PathEnds (readSegments path [] text).2 :=
    readSegments_spec hpath (by simp)
  exact ⟨hsegments, hne, fun q => mem_readQuery, fun f => mem_readFragment⟩

theorem written_readAuthority {r : UrlReader} {scheme : SpecialScheme} {text : List Char}
    {u : Url} (h : readAuthority r scheme text = some u) : u.Written := by
  obtain ⟨authority, -, rfl⟩ := Option.map_eq_some_iff.1 h
  exact written_readPath (by simp) _ _ _

theorem written_readRelative {r : UrlReader} {base u : Url} {text : List Char}
    (hbase : base.Written) (h : readRelative r base text = some u) : u.Written := by
  unfold readRelative at h
  split at h
  · cases h
    exact { hbase with fragment := fun _ hf => by cases hf }
  · next c rest =>
    split at h
    · split at h
      · exact written_readAuthority h
      · cases h
        exact written_readPath (by simp) _ _ _
    · split at h
      · cases h
        exact { hbase with query := fun q => mem_readQuery, fragment := fun f => mem_readFragment }
      · split at h
        · cases h
          exact { hbase with fragment := fun f => mem_readFragment }
        · cases h
          exact written_readPath (fun s hs => hbase.segments s (List.dropLast_subset _ hs)) _ _ _

/-- Which reading gave a URL of a special scheme. -/
theorem parseUrl_special {r : UrlReader} {base : Option Url} {text : List Char} {u : Url}
    (h : parseUrl r base text = some (.special u)) :
    (∃ b ∈ base, ∃ rest, readRelative r b rest = some u) ∨
      ∃ scheme rest, readAuthority r scheme rest = some u := by
  have hauthority : ∀ {scheme rest}, (readAuthority r scheme rest).map ParsedUrl.special =
      some (.special u) → ∃ scheme rest, readAuthority r scheme rest = some u := by
    intro scheme rest h
    obtain ⟨v, hv, heq⟩ := Option.map_eq_some_iff.1 h
    cases heq
    exact ⟨scheme, rest, hv⟩
  cases hread : readScheme (trimUrl text) with
  | none =>
    simp only [parseUrl, hread] at h
    obtain ⟨v, hv, heq⟩ := Option.map_eq_some_iff.1 h
    cases heq
    obtain ⟨b, hb, hv⟩ := Option.bind_eq_some_iff.1 hv
    exact .inl ⟨b, hb, _, hv⟩
  | some parts =>
    obtain ⟨scheme, rest⟩ := parts
    simp only [parseUrl, hread] at h
    split at h
    · obtain ⟨v, -, heq⟩ := Option.map_eq_some_iff.1 h
      cases heq
    · split at h
      · exact .inr (hauthority h)
      · split at h
        · obtain ⟨v, hv, heq⟩ := Option.map_eq_some_iff.1 h
          cases heq
          exact .inl ⟨_, rfl, _, hv⟩
        · exact .inr (hauthority h)

/-- Whatever text is read, what comes out is written. -/
theorem written_parseUrl {r : UrlReader} {base : Option Url} {text : List Char} {u : Url}
    (hbase : ∀ b ∈ base, b.Written) (h : parseUrl r base text = some (.special u)) :
    u.Written := by
  rcases parseUrl_special h with ⟨b, hb, rest, h⟩ | ⟨scheme, rest, h⟩
  · exact written_readRelative (hbase b hb) h
  · exact written_readAuthority h

/-! ## Reading it again -/

/-- A part that is there and empty does not come back. -/
def Url.rewritten (u : Url) (scheme : SpecialScheme) (authority : Authority) : Url :=
  { scheme, authority, path := u.path, query := u.query.filter (· ≠ []),
    fragment := u.fragment.filter (· ≠ []) }

/-- The text that begins with the path. -/
def Url.text (u : Url) : List Char := u.pathname ++ u.search ++ u.hash

theorem writePart_filter (mark : Char) (part : Option (List Char)) :
    writePart mark (part.filter (· ≠ [])) = writePart mark part := by
  rcases part with _ | _ | ⟨c, text⟩ <;> rfl

theorem text_rewritten (u : Url) (scheme : SpecialScheme) (authority : Authority) :
    (u.rewritten scheme authority).text = u.text := by
  simp only [Url.text, Url.pathname, Url.search, Url.hash, Url.rewritten, writePart_filter]

theorem search_cases (u : Url) :
    u.search = [] ∧ u.query.filter (· ≠ []) = none ∨
      ∃ q, q ≠ [] ∧ u.query = some q ∧ u.search = '?' :: q := by
  rw [Url.search]
  rcases u.query with _ | _ | ⟨c, text⟩
  · exact .inl ⟨rfl, rfl⟩
  · exact .inl ⟨rfl, rfl⟩
  · exact .inr ⟨_, List.cons_ne_nil _ _, rfl, rfl⟩

theorem hash_cases (u : Url) :
    u.hash = [] ∧ u.fragment.filter (· ≠ []) = none ∨
      ∃ f, f ≠ [] ∧ u.fragment = some f ∧ u.hash = '#' :: f := by
  rw [Url.hash]
  rcases u.fragment with _ | _ | ⟨c, text⟩
  · exact .inl ⟨rfl, rfl⟩
  · exact .inl ⟨rfl, rfl⟩
  · exact .inr ⟨_, List.cons_ne_nil _ _, rfl, rfl⟩

theorem readFragment_hash {u : Url} (hu : u.Written) :
    readFragment u.hash = u.fragment.filter (· ≠ []) := by
  rcases hash_cases u with ⟨hhash, hnone⟩ | ⟨f, hne, hf, hhash⟩
  · rw [hhash, hnone]
    rfl
  · rw [hhash, readFragment, percentEncode_kept (hu.fragment f hf), hf,
      Option.filter_some_pos (by simpa using hne)]

theorem dropWhile_hash (u : Url) : u.hash.dropWhile (· != '#') = u.hash := by
  rcases hash_cases u with ⟨hhash, -⟩ | ⟨f, -, -, hhash⟩ <;> (rw [hhash]; rfl)

theorem no_mark_in_query {u : Url} (hu : u.Written) {q : List Char} (hq : u.query = some q) :
    ∀ c ∈ q, (c != '#') = true := by
  intro c hc
  have hset := hu.query q hq c hc
  refine bne_iff_ne.2 ?_
  rintro rfl
  exact absurd hset (by decide)

theorem readQuery_tail {u : Url} (hu : u.Written) :
    readQuery (u.search ++ u.hash) = u.query.filter (· ≠ []) := by
  rcases search_cases u with ⟨hsearch, hnone⟩ | ⟨q, hne, hq, hsearch⟩
  · rw [hsearch, hnone, List.nil_append]
    rcases hash_cases u with ⟨hhash, -⟩ | ⟨f, -, -, hhash⟩ <;> (rw [hhash]; rfl)
  · have hstop : (u.hash.takeWhile (· != '#')) = [] := by
      rcases hash_cases u with ⟨hhash, -⟩ | ⟨f, -, -, hhash⟩ <;> (rw [hhash]; rfl)
    rw [hsearch, List.cons_append, readQuery,
      List.takeWhile_append_of_pos (no_mark_in_query hu hq), hstop, List.append_nil,
      percentEncode_kept (hu.query q hq), hq, Option.filter_some_pos (by simpa using hne)]

theorem dropWhile_tail {u : Url} (hu : u.Written) :
    (u.search ++ u.hash).dropWhile (· != '#') = u.hash := by
  rcases search_cases u with ⟨hsearch, -⟩ | ⟨q, -, hq, hsearch⟩
  · rw [hsearch, List.nil_append, dropWhile_hash]
  · rw [hsearch, List.cons_append, List.dropWhile_cons_of_pos (by decide),
      List.dropWhile_append_of_pos (no_mark_in_query hu hq), dropWhile_hash]

theorem ends_tail (u : Url) : PathEnds (u.search ++ u.hash) := by
  rcases search_cases u with ⟨hsearch, -⟩ | ⟨q, -, -, hsearch⟩
  · rw [hsearch, List.nil_append]
    rcases hash_cases u with ⟨hhash, -⟩ | ⟨f, -, -, hhash⟩
    · rw [hhash]
      exact fun c hc => by cases hc
    · rw [hhash]
      exact fun c hc => .inr (Option.some.inj hc).symm
  · rw [hsearch]
    exact fun c hc => .inl (Option.some.inj hc).symm

/-- Behind its first slash, the text of a URL is read as its own path. -/
theorem readPath_text {u : Url} (hu : u.Written) (scheme : SpecialScheme)
    (authority : Authority) :
    ∃ rest, u.text = '/' :: rest ∧
      readPath scheme authority [] rest = u.rewritten scheme authority := by
  obtain ⟨s, more, hpath⟩ := List.exists_cons_of_ne_nil hu.path_ne_nil
  refine ⟨s ++ (more.flatMap (fun t => '/' :: t) ++ (u.search ++ u.hash)), ?_, ?_⟩
  · rw [Url.text, Url.pathname, hpath, List.flatMap_cons, List.cons_append, List.cons_append,
      List.cons_append, List.append_assoc, List.append_assoc]
  · rw [readPath, readSegments_path (hpath ▸ hu.segments) (ends_tail u)]
    show Url.mk scheme authority ([] ++ s :: more) (readQuery (u.search ++ u.hash))
      (readFragment ((u.search ++ u.hash).dropWhile (· != '#'))) = _
    rw [readQuery_tail hu, dropWhile_tail hu, readFragment_hash hu, List.nil_append, ← hpath]
    rfl

theorem printable_text {u : Url} (hu : u.Written) : ∀ c ∈ u.text, Printable c := by
  intro c hc
  rcases List.mem_append.1 hc with hc | hc
  · rcases List.mem_append.1 hc with hc | hc
    · obtain ⟨s, hs, hc⟩ := List.mem_flatMap.1 hc
      rcases List.mem_cons.1 hc with rfl | hc
      · exact ⟨by decide, by decide⟩
      · have hkept := (hu.segments s hs).kept c hc
        simp only [inSegment, Bool.and_eq_true, Bool.not_eq_true'] at hkept
        exact printable_of_query (query_of_path hkept.1)
    · rcases search_cases u with ⟨hsearch, -⟩ | ⟨q, -, hq, hsearch⟩
      · rw [hsearch] at hc
        cases hc
      · rw [hsearch] at hc
        rcases List.mem_cons.1 hc with rfl | hc
        · exact ⟨by decide, by decide⟩
        · exact printable_of_query (query_of_specialQuery (hu.query q hq c hc))
  · rcases hash_cases u with ⟨hhash, -⟩ | ⟨f, -, hf, hhash⟩
    · rw [hhash] at hc
      cases hc
    · rw [hhash] at hc
      rcases List.mem_cons.1 hc with rfl | hc
      · exact ⟨by decide, by decide⟩
      · exact printable_of_fragment (hu.fragment f hf c hc)

theorem not_blank {c : Char} (h : Printable c) : isBlank c = false := by
  have hlow := h.1
  simp only [isBlank, decide_eq_false_iff_not]
  omega

theorem not_tab {c : Char} (h : Printable c) : (!isTabOrNewline c) = true := by
  have hlow := h.1
  simp only [isTabOrNewline, Bool.not_eq_true', Bool.or_eq_false_iff, beq_eq_false_iff_ne]
  omega

/-- What is printable in front of a text stays in front of it. -/
theorem trimUrl_append (front : List Char) (hne : front ≠ []) (hfront : ∀ c ∈ front, Printable c)
    (text : List Char) : ∃ rest, trimUrl (front ++ text) = front ++ rest := by
  obtain ⟨c, front, rfl⟩ := List.exists_cons_of_ne_nil hne
  obtain ⟨hc, -⟩ := List.forall_mem_cons.1 hfront
  refine ⟨(text.rdropWhile isBlank).filter fun c => !isTabOrNewline c, ?_⟩
  have hend : ((c :: front) ++ text).rdropWhile isBlank =
      (c :: front) ++ text.rdropWhile isBlank := by
    induction text using List.reverseRecOn with
    | nil =>
      rw [List.append_nil, List.rdropWhile_nil, List.append_nil, List.rdropWhile_eq_self_iff]
      intro hlast
      simpa using not_blank (hfront _ (List.getLast_mem hlast))
    | append_singleton text d ih =>
      rw [← List.append_assoc]
      by_cases hd : isBlank d
      · rw [List.rdropWhile_concat_pos _ _ _ hd, List.rdropWhile_concat_pos _ _ _ hd, ih]
      · rw [List.rdropWhile_concat_neg _ _ _ hd, List.rdropWhile_concat_neg _ _ _ hd,
          List.append_assoc]
  have hkept : (c :: front).filter (fun c => !isTabOrNewline c) = c :: front :=
    List.filter_eq_self.2 fun d hd => not_tab (hfront d hd)
  rw [trimUrl, List.cons_append, List.dropWhile_cons_of_neg (by simp [not_blank hc]),
    ← List.cons_append, hend, List.filter_append, hkept]

theorem trimUrl_printable {text : List Char} (h : ∀ c ∈ text, Printable c) :
    trimUrl text = text := by
  cases text with
  | nil => rfl
  | cons c text =>
    have hrest : (c :: text).rdropWhile isBlank = c :: text := by
      rw [List.rdropWhile_eq_self_iff]
      intro hlast
      simpa using not_blank (h _ (List.getLast_mem hlast))
    rw [trimUrl, List.dropWhile_cons_of_neg (by simp [not_blank (h c List.mem_cons_self)]),
      hrest, List.filter_eq_self]
    exact fun d hd => not_tab (h d hd)

theorem readScheme_slash (text : List Char) : readScheme ('/' :: text) = none := rfl

/-- Against any base, the text of a URL is a path on that base, unless it begins with two
slashes. -/
theorem parseUrl_text {u : Url} (hu : u.Written) (hone : ¬['/', '/'] <+: u.pathname)
    (r : UrlReader) (base : Url) :
    parseUrl r (some base) u.text =
      some (.special (u.rewritten base.scheme base.authority)) := by
  obtain ⟨rest, htext, hread⟩ := readPath_text hu base.scheme base.authority
  have hstop : ¬(rest.head?.map isSlash).getD false = true := by
    intro hslash
    obtain ⟨s, more, hpath⟩ := List.exists_cons_of_ne_nil hu.path_ne_nil
    have hpathname : u.pathname = '/' :: (s ++ more.flatMap fun t => '/' :: t) := by
      rw [Url.pathname, hpath, List.flatMap_cons, List.cons_append]
    have hrest : rest = s ++ more.flatMap (fun t => '/' :: t) ++ (u.search ++ u.hash) := by
      rw [Url.text, hpathname, List.cons_append, List.cons_append] at htext
      rw [← (List.cons.inj htext).2, List.append_assoc]
    rcases s with _ | ⟨c, s⟩
    · rcases more with _ | ⟨t, more⟩
      · rw [hrest, List.flatMap_nil, List.nil_append, List.nil_append] at hslash
        cases htail : u.search ++ u.hash with
        | nil =>
          rw [htail] at hslash
          cases hslash
        | cons c tail =>
          rw [htail] at hslash
          rcases ends_tail u c (by rw [htail]; rfl) with rfl | rfl
          · exact absurd (show isSlash '?' = true from hslash) (by decide)
          · exact absurd (show isSlash '#' = true from hslash) (by decide)
      · refine hone ⟨t ++ more.flatMap fun t => '/' :: t, ?_⟩
        rw [hpathname]
        rfl
    · have hc := (hu.segments (c :: s) (by rw [hpath]; exact List.mem_cons_self)).kept c
        List.mem_cons_self
      simp only [inSegment, Bool.and_eq_true, Bool.not_eq_true'] at hc
      have hslash : isSlash c = true := by rw [hrest] at hslash; exact hslash
      rw [hc.2] at hslash
      cases hslash
  rw [parseUrl, trimUrl_printable (printable_text hu), htext]
  show (readRelative r base ('/' :: rest)).map ParsedUrl.special = _
  rw [readRelative, if_pos (by decide), if_neg hstop, hread]
  rfl

/-! ## An origin in front -/

theorem ofText_text (scheme : SpecialScheme) :
    SpecialScheme.ofText? scheme.text = some scheme := by
  cases scheme <;> rfl

theorem readScheme_text (scheme : SpecialScheme) (rest : List Char) :
    readScheme (scheme.text ++ ':' :: rest) = some (scheme.text, rest) := by
  cases scheme <;> rfl

theorem printable_scheme (scheme : SpecialScheme) : ∀ c ∈ scheme.text, Printable c := by
  have hall : scheme.text.all fun c => decide (Printable c) := by cases scheme <;> decide
  exact fun c hc => of_decide_eq_true (List.all_eq_true.1 hall c hc)

/-- The text of a host as an origin has it. -/
structure Host (host : List Char) : Prop where
  ne_nil : host ≠ []
  printable : ∀ c ∈ host, Printable c
  inside : ∀ c ∈ host, inAuthority c

def originText (scheme : SpecialScheme) (host : List Char) : List Char :=
  scheme.text ++ ':' :: '/' :: '/' :: host

theorem printable_originText {scheme : SpecialScheme} {host : List Char} (hhost : Host host) :
    ∀ c ∈ originText scheme host, Printable c := by
  intro c hc
  rcases List.mem_append.1 hc with hc | hc
  · exact printable_scheme scheme c hc
  rcases List.mem_cons.1 hc with rfl | hc
  · exact ⟨by decide, by decide⟩
  rcases List.mem_cons.1 hc with rfl | hc
  · exact ⟨by decide, by decide⟩
  rcases List.mem_cons.1 hc with rfl | hc
  · exact ⟨by decide, by decide⟩
  · exact hhost.printable c hc

theorem readAuthority_host {r : UrlReader} {scheme : SpecialScheme} {host rest : List Char}
    (hhost : Host host) (hrest : ∀ c ∈ rest.head?, inAuthority c = false) :
    readAuthority r scheme ('/' :: '/' :: (host ++ rest)) =
      (r.authority scheme host).map fun authority =>
        readPath scheme authority [] (dropSlash rest) := by
  obtain ⟨c, host, rfl⟩ := List.exists_cons_of_ne_nil hhost.ne_nil
  have hc : ¬isSlash c = true := by
    have hin := hhost.inside c List.mem_cons_self
    simp only [inAuthority, Bool.not_eq_true', Bool.or_eq_false_iff] at hin
    simp [hin.1.1]
  have hslashes : ('/' :: '/' :: (c :: host ++ rest)).dropWhile isSlash = c :: host ++ rest := by
    rw [List.dropWhile_cons_of_pos (by decide), List.dropWhile_cons_of_pos (by decide),
      List.cons_append, List.dropWhile_cons_of_neg hc]
  have hstop : rest.takeWhile inAuthority = [] ∧ rest.dropWhile inAuthority = rest := by
    cases rest with
    | nil => exact ⟨rfl, rfl⟩
    | cons d rest =>
      have hd := hrest d rfl
      exact ⟨List.takeWhile_cons_of_neg (by rw [hd]; exact Bool.false_ne_true),
        List.dropWhile_cons_of_neg (by rw [hd]; exact Bool.false_ne_true)⟩
  rw [readAuthority, hslashes]
  show (r.authority scheme ((c :: host ++ rest).takeWhile inAuthority)).map _ = _
  rw [List.takeWhile_append_of_pos hhost.inside, List.dropWhile_append_of_pos hhost.inside,
    hstop.1, hstop.2, List.append_nil]

/-- A text that begins with an origin is read with that origin, whatever the base. -/
theorem parseUrl_origin {r : UrlReader} {base : Option Url} {scheme : SpecialScheme}
    {host rest text : List Char} (hhost : Host host)
    (hrest : ∀ c ∈ rest.head?, inAuthority c = false)
    (htrim : trimUrl text = originText scheme host ++ rest) :
    parseUrl r base text =
      (r.authority scheme host).map fun authority =>
        .special (readPath scheme authority [] (dropSlash rest)) := by
  have hread : readScheme (trimUrl text) = some (scheme.text, '/' :: '/' :: (host ++ rest)) := by
    rw [htrim, originText, List.append_assoc, List.cons_append, List.cons_append,
      List.cons_append, readScheme_text]
  have hslashes : ['/', '/'].isPrefixOf ('/' :: '/' :: (host ++ rest)) = true := rfl
  have hauthority : readAuthority r scheme ('/' :: '/' :: (host ++ rest)) = _ :=
    readAuthority_host hhost hrest
  rw [parseUrl]
  simp only [hread, ofText_text, hslashes, Bool.not_true, Bool.and_false, hauthority]
  cases base <;> simp [Function.comp_def]

/-! ## Whose a URL is -/

/-- An origin that reads as itself. -/
def UrlReader.Known (r : UrlReader) (origin : List Char) : Prop :=
  ∃ scheme host, Host host ∧ origin = originText scheme host ∧
    r.authority scheme host = some ⟨origin, false⟩

/-- The origin of a URL that has none. -/
def nullOrigin : List Char := ['n', 'u', 'l', 'l']

/-- Origins are written as they are read. -/
structure UrlReader.Lawful (r : UrlReader) : Prop where
  authority : ∀ scheme text authority, r.authority scheme text = some authority →
    r.Known authority.origin
  other : ∀ scheme rest url, r.other scheme rest = some url →
    url.authority.origin = nullOrigin ∨ r.Known url.authority.origin

variable {r : UrlReader}

theorem UrlReader.Known.ne_null {origin : List Char} (h : r.Known origin) :
    origin ≠ nullOrigin := by
  obtain ⟨scheme, host, -, rfl, -⟩ := h
  intro heq
  cases scheme <;> cases heq

/-- A known origin begins with a letter. -/
theorem UrlReader.Known.not_slash {origin : List Char} (h : r.Known origin) (rest : List Char) :
    ¬['/'] <+: origin ++ rest := by
  obtain ⟨scheme, host, -, rfl, -⟩ := h
  rintro ⟨text, heq⟩
  cases scheme <;> cases heq

theorem UrlReader.Known.ne_nil {origin : List Char} (h : r.Known origin) : origin ≠ [] := by
  obtain ⟨scheme, host, -, rfl, -⟩ := h
  intro heq
  cases scheme <;> cases heq

theorem known_readAuthority (hr : r.Lawful) {scheme : SpecialScheme} {text : List Char} {u : Url}
    (h : readAuthority r scheme text = some u) : r.Known u.authority.origin := by
  obtain ⟨authority, hauthority, rfl⟩ := Option.map_eq_some_iff.1 h
  exact hr.authority _ _ _ hauthority

theorem known_readRelative (hr : r.Lawful) {base u : Url} {text : List Char}
    (hbase : r.Known base.authority.origin) (h : readRelative r base text = some u) :
    r.Known u.authority.origin := by
  unfold readRelative at h
  split at h
  · cases h
    exact hbase
  · split at h
    · split at h
      · exact known_readAuthority hr h
      · cases h
        exact hbase
    · split at h
      · cases h
        exact hbase
      · split at h
        · cases h
          exact hbase
        · cases h
          exact hbase

theorem known_parseUrl (hr : r.Lawful) {base : Option Url} {text : List Char} {u : Url}
    (hbase : ∀ b ∈ base, r.Known b.authority.origin)
    (h : parseUrl r base text = some (.special u)) : r.Known u.authority.origin := by
  rcases parseUrl_special h with ⟨b, hb, rest, h⟩ | ⟨scheme, rest, h⟩
  · exact known_readRelative hr (hbase b hb) h
  · exact known_readAuthority hr h

theorem parseUrl_other {base : Option Url} {text : List Char} {u : OtherUrl}
    (h : parseUrl r base text = some (.other u)) : ∃ scheme rest, r.other scheme rest = some u := by
  have hspecial : ∀ {v : Option Url}, v.map ParsedUrl.special ≠ some (.other u) := by
    intro v hv
    obtain ⟨w, -, heq⟩ := Option.map_eq_some_iff.1 hv
    cases heq
  cases hread : readScheme (trimUrl text) with
  | none =>
    simp only [parseUrl, hread] at h
    exact absurd h hspecial
  | some parts =>
    obtain ⟨scheme, rest⟩ := parts
    simp only [parseUrl, hread] at h
    split at h
    · obtain ⟨v, hv, heq⟩ := Option.map_eq_some_iff.1 h
      cases heq
      exact ⟨scheme, rest, hv⟩
    · split at h
      · exact absurd h hspecial
      · split at h
        · exact absurd h hspecial
        · exact absurd h hspecial

/-- Any URL has a known origin or none. -/
theorem origin_parseUrl (hr : r.Lawful) {base : Option Url} {text : List Char} {u : ParsedUrl}
    (hbase : ∀ b ∈ base, r.Known b.authority.origin) (h : parseUrl r base text = some u) :
    u.origin = nullOrigin ∨ r.Known u.origin := by
  cases u with
  | special url => exact .inr (known_parseUrl hr hbase h)
  | other url =>
    obtain ⟨scheme, rest, hother⟩ := parseUrl_other h
    exact hr.other scheme rest url hother

/-- A text that begins with a slash is never a URL of another scheme. -/
theorem parseUrl_slash {base : Option Url} {text : List Char} {u : ParsedUrl}
    (hslash : ['/'] <+: text) (h : parseUrl r base text = some u) : ∃ url, u = .special url := by
  obtain ⟨rest, rfl⟩ := hslash
  obtain ⟨kept, htrim⟩ := trimUrl_append ['/'] (by simp)
    (List.all_iff_forall_prop.1 (by decide)) rest
  have hread : readScheme (trimUrl (['/'] ++ rest)) = none := by
    rw [htrim]
    exact readScheme_slash kept
  simp only [parseUrl, hread] at h
  obtain ⟨url, -, rfl⟩ := Option.map_eq_some_iff.1 h
  exact ⟨url, rfl⟩

/-- What begins with a known origin is read there, against any base or none. -/
theorem UrlReader.Known.reads {origin : List Char} (h : r.Known origin) {rest : List Char}
    (hrest : rest = [] ∨ ['/'] <+: rest) :
    ∃ url : Url, url.Written ∧ url.authority = ⟨origin, false⟩ ∧
      ∀ base, parseUrl r base (origin ++ rest) = some (.special url) := by
  obtain ⟨scheme, host, hhost, rfl, hauthority⟩ := h
  have hprintable : ∀ c ∈ originText scheme host, Printable c := printable_originText hhost
  obtain ⟨kept, htrim, hkept⟩ : ∃ kept, trimUrl (originText scheme host ++ rest) =
      originText scheme host ++ kept ∧ ∀ c ∈ kept.head?, inAuthority c = false := by
    rcases hrest with rfl | ⟨rest, rfl⟩
    · refine ⟨[], ?_, fun c hc => by cases hc⟩
      rw [List.append_nil, trimUrl_printable hprintable]
    · obtain ⟨kept, htrim⟩ := trimUrl_append (originText scheme host ++ ['/'])
        (by simp) (fun c hc => by
          rcases List.mem_append.1 hc with hc | hc
          · exact hprintable c hc
          · rw [List.mem_singleton.1 hc]
            decide) rest
      refine ⟨'/' :: kept, ?_, fun c hc => ?_⟩
      · rw [← List.append_assoc, htrim, List.append_assoc, List.singleton_append]
      · rw [← Option.some.inj hc]
        rfl
  refine ⟨readPath scheme ⟨originText scheme host, false⟩ [] (dropSlash kept),
    written_readPath (by simp) _ _ _, rfl, fun base => ?_⟩
  rw [parseUrl_origin hhost hkept htrim, hauthority]
  rfl

/-- Behind a known origin, the text of a URL is read as its own path. -/
theorem UrlReader.Known.rereads {origin : List Char} (h : r.Known origin) {u : Url}
    (hu : u.Written) (base : Option Url) :
    ∃ scheme, parseUrl r base (origin ++ u.text) =
      some (.special (u.rewritten scheme ⟨origin, false⟩)) := by
  obtain ⟨scheme, host, hhost, rfl, hauthority⟩ := h
  obtain ⟨rest, htext, hread⟩ := readPath_text hu scheme ⟨originText scheme host, false⟩
  have hprintable : ∀ c ∈ originText scheme host ++ u.text, Printable c := fun c hc =>
    (List.mem_append.1 hc).elim (printable_originText hhost c) (printable_text hu c)
  have hstop : ∀ c ∈ u.text.head?, inAuthority c = false := by
    intro c hc
    rw [htext] at hc
    rw [← Option.some.inj hc]
    rfl
  have hslash : dropSlash u.text = rest := by
    rw [htext]
    rfl
  refine ⟨scheme, ?_⟩
  rw [parseUrl_origin hhost hstop (trimUrl_printable hprintable), hauthority, hslash]
  show some (ParsedUrl.special (readPath scheme ⟨originText scheme host, false⟩ [] rest)) = _
  rw [hread]

end CleanStack.Lib

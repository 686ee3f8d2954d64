import CleanStack.InternalRoutes.InternalFetch
import Mathlib.Algebra.Order.Field.Rat
import Mathlib.Algebra.Order.Group.Abs
import Mathlib.Algebra.Order.Ring.Cast

/-!
# What an internal signature says

The receiver rebuilds the message the sender signed, so what was sent is let in
while its timestamp is young. And a signature is one message's: the first five
texts of a message have no line end in them, so the first five line ends are
where they are told apart, whatever the body holds.
-/

namespace CleanStack.InternalRoutes

open CleanStack.Kit CleanStack.Lib

/-! ## Hexadecimal texts -/

theorem byteHex_ofNat : ∀ n < 256, (byteHex n.toUInt8).length = 2 ∧
    (byteHex n.toUInt8).all isHexDigit = true ∧ numberIn 16 (byteHex n.toUInt8) = n := by
  decide +kernel

theorem byteHex_spec (byte : UInt8) : (byteHex byte).length = 2 ∧
    (byteHex byte).all isHexDigit = true ∧ numberIn 16 (byteHex byte) = byte.toNat := by
  have h := byteHex_ofNat byte.toNat byte.toNat_lt
  rwa [Nat.toUInt8, UInt8.ofNat_toNat] at h

theorem byteHex_injective {a b : UInt8} (h : byteHex a = byteHex b) : a = b := by
  rw [← UInt8.toNat_inj, ← (byteHex_spec a).2.2, ← (byteHex_spec b).2.2, h]

theorem toHex_injective {as bs : List UInt8} (h : toHex as = toHex bs) : as = bs := by
  have hchars : as.flatMap byteHex = bs.flatMap byteHex := by
    rw [← String.toList_ofList (l := as.flatMap byteHex), ← toHex.eq_1, h, toHex.eq_1,
      String.toList_ofList]
  clear h
  induction as generalizing bs with
  | nil =>
      cases bs with
      | nil => rfl
      | cons b bs =>
          have hlen := congrArg List.length hchars
          rw [List.flatMap_cons, List.length_append, (byteHex_spec b).1] at hlen
          simp at hlen
          omega
  | cons a as ih =>
      cases bs with
      | nil =>
          have hlen := congrArg List.length hchars
          rw [List.flatMap_cons, List.length_append, (byteHex_spec a).1] at hlen
          simp at hlen
      | cons b bs =>
          rw [List.flatMap_cons, List.flatMap_cons] at hchars
          obtain ⟨hhead, htail⟩ := List.append_inj hchars
            ((byteHex_spec a).1.trans (byteHex_spec b).1.symm)
          rw [byteHex_injective hhead, ih htail]

theorem isHexDigit_of_mem {bytes : List UInt8} {c : Char} (h : c ∈ (toHex bytes).toList) :
    isHexDigit c = true := by
  rw [toHex, String.toList_ofList] at h
  obtain ⟨byte, -, hc⟩ := List.mem_flatMap.1 h
  exact List.all_eq_true.1 (byteHex_spec byte).2.1 c hc

theorem toHex_ne_empty {bytes : List UInt8} (h : bytes ≠ []) : toHex bytes ≠ "" := by
  cases bytes with
  | nil => exact absurd rfl h
  | cons byte bytes =>
      intro hempty
      have hlen := congrArg (List.length ∘ String.toList) hempty
      simp only [Function.comp, toHex, String.toList_ofList, List.flatMap_cons, List.length_append,
        (byteHex_spec byte).1] at hlen
      simp at hlen

/-! ## Comparing signatures -/

theorem foldl_or_eq_zero {l : List UInt16} {acc : UInt16} :
    l.foldl (· ||| ·) acc = 0 ↔ acc = 0 ∧ ∀ x ∈ l, x = 0 := by
  induction l generalizing acc with
  | nil => simp
  | cons x l ih => rw [List.foldl_cons, ih, UInt16.or_eq_zero_iff, and_assoc, List.forall_mem_cons]

theorem zipWith_xor_eq_zero {xs ys : List UInt16} (h : xs.length = ys.length) :
    (∀ x ∈ xs.zipWith (· ^^^ ·) ys, x = 0) ↔ xs = ys := by
  induction xs generalizing ys with
  | nil =>
      cases ys with
      | nil => simp
      | cons y ys => simp at h
  | cons x xs ih =>
      cases ys with
      | nil => simp at h
      | cons y ys =>
          rw [List.zipWith_cons_cons, List.forall_mem_cons, UInt16.xor_eq_zero_iff,
            ih (by simpa using h), List.cons.injEq]

theorem verify_iff {presented expected : String} :
    verify presented expected = true ↔ unitsOf presented = unitsOf expected := by
  rw [verify]
  split
  · next hlen =>
    constructor
    · intro h
      cases h
    · intro h
      exact absurd (congrArg List.length h) hlen
  · next hlen =>
    rw [decide_eq_true_eq, foldl_or_eq_zero, zipWith_xor_eq_zero (not_not.1 hlen)]
    simp

/-! ## The runtime -/

def BOM : Char := '\uFEFF'

/-- What the runtime's documentation says of it. `text` drops a byte order mark. -/
structure Documented (rt : Runtime) : Prop where
  upper_newline : ∀ s, '\n' ∈ (rt.toUpperCase s).toList → '\n' ∈ s.toList
  lower_newline : ∀ s, '\n' ∈ (rt.toLowerCase s).toList → '\n' ∈ s.toList
  toNumber_ofInt : ∀ n : Int, n.natAbs < 2 ^ 53 →
    rt.toNumber (JsNumber.ofInt n).text = some (.ofInt n)
  value_ofInt : ∀ n : Int, n.natAbs < 2 ^ 53 → rt.value (.ofInt n) = n
  hmac_ne_nil : ∀ key message, rt.hmacSha256 key message ≠ []
  text_toUTF8 : ∀ s : String, s.toList.head? ≠ some BOM → rt.text s.toUTF8 = s

variable {rt : Runtime}

theorem Instant.seconds_lt (now : Instant) : now.seconds.natAbs < 2 ^ 53 := by
  have := now.wf
  rw [Instant.seconds]
  omega

/-! ## Reading the header -/

theorem not_mem_numberText (n : JsNumber) {c : Char} (h : isNumberChar c = false) :
    c ∉ n.text.toList := by
  intro hc
  have := List.all_eq_true.1 n.wf.2 c hc
  rw [h] at this
  cases this

theorem not_mem_toHex (bytes : List UInt8) {c : Char} (h : isHexDigit c = false) :
    c ∉ (toHex bytes).toList := by
  intro hc
  have := isHexDigit_of_mem hc
  rw [h] at this
  cases this

theorem isJsSpace_number {c : Char} (h : isNumberChar c = true) : isJsSpace c = false := by
  simp only [isNumberChar, Bool.or_eq_true, decide_eq_true_eq] at h
  rcases h with (((hdigit | rfl) | rfl) | rfl) | rfl
  · have hbounds := Char.isDigit_iff_toNat.1 hdigit
    simp only [Char.reduceToNat] at hbounds
    exact isJsSpace_printable (by omega)
  all_goals decide

theorem isJsSpace_hex {c : Char} (h : isHexDigit c = true) : isJsSpace c = false := by
  simp only [isHexDigit, Bool.or_eq_true, Bool.and_eq_true, decide_eq_true_eq] at h
  rcases h with (hdigit | hlower) | hupper
  · have hbounds := Char.isDigit_iff_toNat.1 hdigit
    simp only [Char.reduceToNat] at hbounds
    exact isJsSpace_printable (by omega)
  · exact isJsSpace_printable (by omega)
  · exact isJsSpace_printable (by omega)

theorem headerEntry_eq {key value : String} (hkey : '=' ∉ key.toList) (hvalue : '=' ∉ value.toList)
    (htrim : trim key = key ∧ trim value = value) :
    headerEntry (key.toList ++ '=' :: value.toList) = (key, value) := by
  rw [headerEntry, splitOnChar_append hkey, splitOnChar_of_not_mem hvalue]
  simp only [List.getD_cons_zero, List.getD_cons_succ, String.ofList_toList, htrim]

theorem parse_buildSignatureHeader {n : Int} {bytes : List UInt8} (hrt : Documented rt)
    (hn : n.natAbs < 2 ^ 53) (hbytes : bytes ≠ []) :
    parseSignatureHeader rt (buildSignatureHeader (.ofInt n) (toHex bytes)) =
      some ⟨.ofInt n, toHex bytes⟩ := by
  have hchars : (buildSignatureHeader (.ofInt n) (toHex bytes)).toList =
      ("t".toList ++ '=' :: (JsNumber.ofInt n).text.toList) ++
        ',' :: ("v1".toList ++ '=' :: (toHex bytes).toList) := by
    simp [buildSignatureHeader]
  have hcomma : ',' ∉ "t".toList ++ '=' :: (JsNumber.ofInt n).text.toList := by
    have := not_mem_numberText (JsNumber.ofInt n) (show isNumberChar ',' = false by decide)
    simpa using this
  have hcomma' : ',' ∉ "v1".toList ++ '=' :: (toHex bytes).toList := by
    have := not_mem_toHex bytes (show isHexDigit ',' = false by decide)
    simpa using this
  have htime : headerEntry ("t".toList ++ '=' :: (JsNumber.ofInt n).text.toList) =
      ("t", (JsNumber.ofInt n).text) :=
    headerEntry_eq (by decide) (not_mem_numberText _ (by decide))
      ⟨by decide, trim_of_no_space fun c hc =>
        isJsSpace_number (List.all_eq_true.1 (JsNumber.ofInt n).wf.2 c hc)⟩
  have hsignature : headerEntry ("v1".toList ++ '=' :: (toHex bytes).toList) =
      ("v1", toHex bytes) :=
    headerEntry_eq (by decide) (not_mem_toHex bytes (by decide))
      ⟨by decide, trim_of_no_space fun c hc => isJsSpace_hex (isHexDigit_of_mem hc)⟩
  have hmap : (splitOnChar ',' (buildSignatureHeader (.ofInt n) (toHex bytes)).toList).map
      headerEntry = [("t", (JsNumber.ofInt n).text), ("v1", toHex bytes)] := by
    rw [hchars, splitOnChar_append hcomma, splitOnChar_of_not_mem hcomma', List.map_cons,
      List.map_cons, List.map_nil, htime, hsignature]
  have ht : fromEntries [("t", (JsNumber.ofInt n).text), ("v1", toHex bytes)] "t" =
      some (JsNumber.ofInt n).text := rfl
  have hv1 : fromEntries [("t", (JsNumber.ofInt n).text), ("v1", toHex bytes)] "v1" =
      some (toHex bytes) := rfl
  rw [parseSignatureHeader]
  simp only [hmap, ht, hv1, Option.bind_some, hrt.toNumber_ofInt n hn]
  rw [if_neg (toHex_ne_empty hbytes)]

/-! ## The message -/

theorem mem_withoutSuffix {suffix text : List Char} {c : Char} (h : c ∈ withoutSuffix suffix text) :
    c ∈ text := by
  rw [withoutSuffix] at h
  split at h
  · exact List.mem_of_mem_take h
  · exact h

theorem mem_trim {text : String} {c : Char} (h : c ∈ (trim text).toList) : c ∈ text.toList := by
  rw [trim, String.toList_ofList, trimEnd, List.mem_reverse] at h
  have hend := (List.dropWhile_sublist _).mem h
  rw [List.mem_reverse, trimStart] at hend
  exact (List.dropWhile_sublist _).mem hend

theorem normalizeHost_newline (hrt : Documented rt) {host : String} (h : '\n' ∉ host.toList) :
    '\n' ∉ (normalizeHost rt host).toList := by
  intro hmem
  rw [normalizeHost, String.toList_ofList] at hmem
  exact h (hrt.lower_newline host (mem_trim (mem_withoutSuffix (mem_withoutSuffix hmem))))

/-- Of the texts before the body, the method, the path, the host and the media
type have no line end. -/
structure SingleLines (rt : Runtime) (input : CanonicalInput) : Prop where
  method : '\n' ∉ input.method.toList
  path : '\n' ∉ input.path.toList
  host : '\n' ∉ input.host.toList
  mediaType : '\n' ∉ (normalizeContentType rt input.contentType).toList

theorem newline_not_mem_head (hrt : Documented rt) {input : CanonicalInput}
    (h : SingleLines rt input) : ∀ text ∈ input.head rt, '\n' ∉ text := by
  rw [CanonicalInput.head]
  simp only [List.forall_mem_cons]
  refine ⟨?_, ?_, h.path, normalizeHost_newline hrt h.host, h.mediaType, List.forall_mem_nil _⟩
  · exact not_mem_numberText input.timestamp (by decide)
  · exact fun hmem => h.method (hrt.upper_newline input.method hmem)

theorem length_head (input : CanonicalInput) : (input.head rt).length = 5 := by
  rw [CanonicalInput.head]
  rfl

/-- The two inputs agree on all the message is made of. -/
structure SameMessage (rt : Runtime) (a b : CanonicalInput) : Prop where
  timestamp : a.timestamp = b.timestamp
  method : rt.toUpperCase a.method = rt.toUpperCase b.method
  path : a.path = b.path
  host : normalizeHost rt a.host = normalizeHost rt b.host
  mediaType : normalizeContentType rt a.contentType = normalizeContentType rt b.contentType
  rawBody : a.rawBody = b.rawBody

theorem numberText_inj {a b : JsNumber} (h : a.text = b.text) : a = b := by
  obtain ⟨text, wf⟩ := a
  obtain ⟨text', wf'⟩ := b
  simp only at h
  subst h
  rfl

theorem canonicalize_injective (hrt : Documented rt) {a b : CanonicalInput}
    (ha : SingleLines rt a) (hb : SingleLines rt b)
    (h : canonicalize rt a = canonicalize rt b) : SameMessage rt a b := by
  rw [canonicalize, canonicalize, ← String.toList_inj, String.toList_ofList,
    String.toList_ofList] at h
  obtain ⟨hhead, hbody⟩ := separated_last_injective (newline_not_mem_head hrt ha)
    (newline_not_mem_head hrt hb) ((length_head a).trans (length_head b).symm) h
  simp only [CanonicalInput.head, List.cons.injEq, and_true, String.toList_inj] at hhead
  obtain ⟨htime, hmethod, hpath, hhost, hmedia⟩ := hhead
  exact ⟨numberText_inj htime, hmethod, hpath, hhost, hmedia, String.toList_inj.1 hbody⟩

/-! ## Letting in -/

theorem truthy_some {text : String} (h : text ≠ "") : truthy (some text) = some text := by
  simp [truthy, h]

theorem truthy_getD (text : String) : (truthy (some text)).getD "" = text := by
  by_cases h : text = ""
  · subst h
    rfl
  · rw [truthy_some h, Option.getD_some]

/-- What the request's signature header says. -/
def presented (rt : Runtime) (c : Request) : Option ParsedSignature :=
  (truthy c.signature).bind (parseSignatureHeader rt)

theorem sign_some {message key signature : String} (h : sign rt message key = some signature) :
    key ≠ "" ∧ signature = toHex (rt.hmacSha256 key.toUTF8 message.toUTF8) := by
  rw [sign, importHmacKey] at h
  split at h
  · cases h
  · next hkey =>
    rw [Option.map_some, Option.some.injEq] at h
    exact ⟨hkey, h.symm⟩

/-- A request is let in when its timestamp is young and its signature is that of
the message it makes. -/
theorem requireInternalSignature_iff {KEY : Option String} {now : Instant} {c : Request} :
    requireInternalSignature rt KEY now c = .ok () ↔
      ∃ key p, truthy KEY = some key ∧ presented rt c = some p ∧
        |(now.seconds : Rat) - rt.value p.t| ≤ MAX_AGE_SECONDS ∧
        sign rt (canonicalize rt (receivedInput rt p.t c)) key = some p.v1 := by
  rw [requireInternalSignature, presented]
  cases hkey : truthy KEY with
  | none => simp
  | some key =>
      cases hheader : truthy c.signature with
      | none => simp
      | some header =>
          cases hparsed : parseSignatureHeader rt header with
          | none => simp [hparsed]
          | some p =>
              have hunique : (∃ key' p', some key = some key' ∧ some p = some p' ∧
                  |(now.seconds : Rat) - rt.value p'.t| ≤ MAX_AGE_SECONDS ∧
                  sign rt (canonicalize rt (receivedInput rt p'.t c)) key' = some p'.v1) ↔
                    |(now.seconds : Rat) - rt.value p.t| ≤ MAX_AGE_SECONDS ∧
                      sign rt (canonicalize rt (receivedInput rt p.t c)) key = some p.v1 := by
                constructor
                · rintro ⟨_, _, ⟨⟩, ⟨⟩, hyoung, hsign⟩
                  exact ⟨hyoung, hsign⟩
                · exact fun h => ⟨key, p, rfl, rfl, h⟩
              simp only [Option.bind_some, hparsed]
              rw [hunique]
              split
              · next hold =>
                constructor
                · intro h
                  cases h
                · intro h
                  exact absurd h.1 (not_le.2 hold)
              · next hyoung =>
                cases hsign : sign rt (canonicalize rt (receivedInput rt p.t c)) key with
                | none => simp
                | some signature =>
                    rw [Option.any_some, Option.some.injEq]
                    split
                    · next hverify =>
                      have hsame := unitsOf_injective (verify_iff.1 hverify)
                      exact ⟨fun _ => ⟨not_lt.1 hyoung, hsame.symm⟩, fun _ => rfl⟩
                    · next hverify =>
                      constructor
                      · intro h
                        cases h
                      · intro h
                        exact absurd (verify_iff.2 (by rw [h.2])) hverify

/-! ## Sending -/

/-- The transport keeps the method, the path, the `Host` header and the body, and
of the other headers the signature and the media type. -/
structure Preserved (rt : Runtime) (sent got : Request) : Prop where
  method : got.method = sent.method
  pathname : got.pathname = sent.pathname
  host : got.host = sent.host
  body : got.body = sent.body
  signature : got.signature = sent.signature
  mediaType : normalizeContentType rt got.contentType = normalizeContentType rt sent.contentType

theorem fetch_some {url : Url} {method : Method} {signature : String}
    {contentType body : Option String} {sent : Request}
    (h : fetch url method signature contentType body = some sent) :
    sent = ⟨method.text, url.pathname, some url.host, contentType, some signature,
      (body.getD "").toUTF8⟩ := by
  rw [fetch.eq_def] at h
  split at h
  · cases h
  · exact (Option.some.inj h).symm

theorem text_rawBodyOf (hrt : Documented rt) (body : JsValue) :
    rt.text (rawBodyOf body).toUTF8 = rawBodyOf body := by
  refine hrt.text_toUTF8 _ ?_
  rw [rawBodyOf]
  cases htext : stringify body with
  | none => simp
  | some text =>
      intro hbom
      have hstart := startsJson_stringify htext
      rw [startsJson, show text.toList.head? = some BOM from hbom] at hstart
      exact absurd hstart (by decide)

theorem canonicalize_received (hrt : Documented rt) {url : Url} {input : SignedFetchInput}
    {t : JsNumber} {signature : String} {sent got : Request}
    (hsent : fetch url input.method signature (sentInput url input t).contentType
      (truthy (some (rawBodyOf input.body))) = some sent)
    (hgot : Preserved rt sent got) :
    canonicalize rt (receivedInput rt t got) = canonicalize rt (sentInput url input t) := by
  obtain rfl := fetch_some hsent
  have hbody : rt.text got.body = rawBodyOf input.body := by
    rw [hgot.body, truthy_getD, text_rawBodyOf hrt]
  have hhead : (receivedInput rt t got).head rt = (sentInput url input t).head rt := by
    simp only [CanonicalInput.head, receivedInput, hgot.method, hgot.pathname, hgot.host,
      hgot.mediaType, Option.getD_some, sentInput]
  rw [canonicalize, canonicalize, hhead]
  simp only [receivedInput, sentInput, hbody]

theorem sent_accepted (hrt : Documented rt) {input : SignedFetchInput} {sentAt now : Instant}
    {sent got : Request} (hsent : signedInternalFetch rt input sentAt = some sent)
    (hgot : Preserved rt sent got) (hnow : |now.ms - 1000 * sentAt.seconds| ≤ 30000) :
    requireInternalSignature rt (some input.signingKey) now got = .ok () := by
  rw [signedInternalFetch] at hsent
  obtain ⟨url, -, hsent⟩ := Option.bind_eq_some_iff.1 hsent
  obtain ⟨signature, hsign, hsent⟩ := Option.bind_eq_some_iff.1 hsent
  have hmessage := canonicalize_received hrt hsent hgot
  obtain ⟨hkey, hbytes⟩ := sign_some hsign
  have hheader : truthy got.signature =
      some (buildSignatureHeader (.ofInt sentAt.seconds) signature) := by
    rw [hgot.signature, fetch_some hsent]
    exact truthy_some (by simp [buildSignatureHeader, ← String.toList_inj])
  refine requireInternalSignature_iff.2 ⟨input.signingKey, ⟨.ofInt sentAt.seconds, signature⟩,
    truthy_some hkey, ?_, ?_, by rw [hmessage]; exact hsign⟩
  · rw [presented, hheader, Option.bind_some, hbytes]
    exact parse_buildSignatureHeader hrt sentAt.seconds_lt (hrt.hmac_ne_nil _ _)
  · rw [hrt.value_ofInt _ sentAt.seconds_lt]
    have hyoung : |now.seconds - sentAt.seconds| ≤ 30 := by
      rw [abs_le] at hnow ⊢
      have hseconds : now.seconds = now.ms / 1000 := rfl
      omega
    show |(now.seconds : Rat) - (sentAt.seconds : Rat)| ≤ ((30 : Int) : Rat)
    exact_mod_cast hyoung

/-! ## One message a signature -/

/-- Two requests let in under one signature made the same message. -/
theorem same_message (hrt : Documented rt)
    (hinj : ∀ key, Function.Injective (rt.hmacSha256 key)) {KEY : Option String}
    {now now' : Instant} {c c' : Request} {p p' : ParsedSignature}
    (h : requireInternalSignature rt KEY now c = .ok ())
    (h' : requireInternalSignature rt KEY now' c' = .ok ())
    (hp : presented rt c = some p) (hp' : presented rt c' = some p') (hv1 : p.v1 = p'.v1)
    (hlines : SingleLines rt (receivedInput rt p.t c))
    (hlines' : SingleLines rt (receivedInput rt p'.t c')) :
    SameMessage rt (receivedInput rt p.t c) (receivedInput rt p'.t c') := by
  obtain ⟨key, q, hkey, hq, -, hsign⟩ := requireInternalSignature_iff.1 h
  obtain ⟨key', q', hkey', hq', -, hsign'⟩ := requireInternalSignature_iff.1 h'
  obtain rfl : p = q := Option.some.inj (hp.symm.trans hq)
  obtain rfl : p' = q' := Option.some.inj (hp'.symm.trans hq')
  obtain rfl : key = key' := Option.some.inj (hkey.symm.trans hkey')
  have hhex := (sign_some hsign).2.symm.trans (hv1.trans (sign_some hsign').2)
  have hbytes := hinj _ (toHex_injective hhex)
  exact canonicalize_injective hrt hlines hlines' (String.toByteArray_inj.1 hbytes)

/-- What is sent is let in within thirty seconds of its timestamp, with the key
it was signed with; and what is let in under one signature agrees on everything
that is signed. -/
theorem internal_signing (rt : Runtime) (hrt : Documented rt)
    (hinj : ∀ key, Function.Injective (rt.hmacSha256 key)) :
    (∀ (input : SignedFetchInput) (sentAt : Instant) (sent : Request),
      signedInternalFetch rt input sentAt = some sent → ∀ got, Preserved rt sent got →
      ∀ now : Instant, |now.ms - 1000 * sentAt.seconds| ≤ 30000 →
        requireInternalSignature rt (some input.signingKey) now got = .ok ()) ∧
    ∀ (KEY : Option String) (now now' : Instant) (c c' : Request) (p p' : ParsedSignature),
      requireInternalSignature rt KEY now c = .ok () →
      requireInternalSignature rt KEY now' c' = .ok () →
      presented rt c = some p → presented rt c' = some p' → p.v1 = p'.v1 →
      SingleLines rt (receivedInput rt p.t c) → SingleLines rt (receivedInput rt p'.t c') →
        SameMessage rt (receivedInput rt p.t c) (receivedInput rt p'.t c') :=
  ⟨fun _ _ _ hsent _ hgot _ hnow => sent_accepted hrt hsent hgot hnow,
    fun _ _ _ _ _ _ _ h h' hp hp' hv1 hlines hlines' =>
      same_message hrt hinj h h' hp hp' hv1 hlines hlines'⟩

/-! ## One request -/

def sweepInput : SignedFetchInput where
  baseUrl := "https://api.example.com"
  method := .POST
  path := "/internal/sweep-outbox"
  body := .obj [("dryRun", .bool false)]
  signingKey := "0000000000000000000000000000000000000000000000000000000000000000"

def sweepMessage : String :=
  "1700000000\nPOST\n/internal/sweep-outbox\napi.example.com\napplication/json\n\x7b\"dryRun\":false\x7d"

def sweepMac : List UInt8 :=
  [117, 245, 182, 52, 32, 102, 70, 93, 12, 246, 151, 3, 92, 229, 142, 192, 181, 172, 45, 140, 38,
    45, 78, 185, 23, 109, 44, 132, 52, 76, 249, 160]

def decimalValue : List Char → Int
  | '-' :: digits => -(Nat.ofDigitChars 10 digits 0 : Int)
  | digits => Nat.ofDigitChars 10 digits 0

/-- A runtime that is right about this request. -/
def sweepRuntime : Runtime where
  toUpperCase s := s
  toLowerCase s := s
  toNumber s := if h : s ≠ "" ∧ s.toList.all isNumberChar = true then some ⟨s, h⟩ else none
  value n := decimalValue n.text.toList
  hmacSha256 key message :=
    if key = sweepInput.signingKey.toUTF8 ∧ message = sweepMessage.toUTF8 then sweepMac
    else List.replicate 33 0 ++ message.data.toList
  newURL path _ := some ⟨path, "api.example.com"⟩
  text body := if h : body.IsValidUTF8 then String.ofByteArray body h else ""

theorem decimalValue_ofInt (n : Int) : decimalValue (JsNumber.ofInt n).text.toList = n := by
  have hread : ∀ k : Nat, (Nat.ofDigitChars 10 (toString k).toList 0) = k := by
    intro k
    have hdigits : (toString k).toList = Nat.toDigits 10 k := by simp [Nat.repr]
    rw [hdigits, Nat.ofDigitChars_ten_toDigits]
  cases n with
  | ofNat k =>
      show decimalValue (toString k).toList = _
      rw [decimalValue.eq_def]
      split
      · next digits hminus =>
        have hmem : '-' ∈ Nat.toDigits 10 k := by
          have hhead : '-' ∈ (toString k).toList := by
            rw [hminus]
            exact List.mem_cons_self
          simpa [Nat.repr] using hhead
        have hdigit := Nat.isDigit_of_mem_toDigits (by decide) (by decide) hmem
        exact absurd hdigit (by decide)
      · rw [hread k]
        rfl
  | negSucc k =>
      have hchars : (JsNumber.ofInt (.negSucc k)).text.toList = '-' :: (toString (k + 1)).toList := by
        show ("-" ++ toString (k + 1)).toList = _
        rw [String.toList_append]
        rfl
      rw [hchars, decimalValue, hread (k + 1)]
      rfl

theorem documented_sweepRuntime : Documented sweepRuntime where
  upper_newline _ h := h
  lower_newline _ h := h
  toNumber_ofInt n _ := dif_pos (JsNumber.ofInt n).wf
  value_ofInt n _ := congrArg Int.cast (decimalValue_ofInt n)
  hmac_ne_nil key message := by
    show (if _ then sweepMac else List.replicate 33 0 ++ message.data.toList) ≠ []
    split <;> simp [sweepMac]
  text_toUTF8 s _ := dif_pos s.isValidUTF8

theorem injective_sweepRuntime (key : ByteArray) :
    Function.Injective (sweepRuntime.hmacSha256 key) := by
  intro a b h
  have hlong : ∀ m : ByteArray, sweepMac ≠ List.replicate 33 0 ++ m.data.toList := by
    intro m heq
    have hlen := congrArg List.length heq
    simp [sweepMac] at hlen
  have hmac : ∀ m, sweepRuntime.hmacSha256 key m =
      if key = sweepInput.signingKey.toUTF8 ∧ m = sweepMessage.toUTF8 then sweepMac
      else List.replicate 33 0 ++ m.data.toList := fun _ => rfl
  rw [hmac, hmac] at h
  split at h
  · next ha =>
    split at h
    · next hb => rw [ha.2, hb.2]
    · exact absurd h (hlong b)
  · split at h
    · exact absurd h.symm (hlong a)
    · exact ByteArray.ext (Array.toList_inj.1 (List.append_cancel_left h))

def sweepSent : Request where
  method := "POST"
  pathname := "/internal/sweep-outbox"
  host := some "api.example.com"
  contentType := some "application/json"
  signature := some "t=1700000000,v1=75f5b6342066465d0cf697035ce58ec0b5ac2d8c262d4eb9176d2c84344cf9a0"
  body := "\x7b\"dryRun\":false\x7d".toUTF8

/-- The request as it arrives. -/
def sweepGot : Request := { sweepSent with contentType := some "application/json; charset=utf-8" }

theorem preserved_sweep : Preserved sweepRuntime sweepSent sweepGot where
  method := rfl
  pathname := rfl
  host := rfl
  body := rfl
  signature := rfl
  mediaType := by decide +kernel

theorem internal_signing_sweep :
    signedInternalFetch sweepRuntime sweepInput ⟨1700000000500, by decide⟩ = some sweepSent ∧
      requireInternalSignature sweepRuntime (some sweepInput.signingKey) ⟨1700000030000, by decide⟩
        sweepGot = .ok () := by
  have hsent : signedInternalFetch sweepRuntime sweepInput ⟨1700000000500, by decide⟩ =
      some sweepSent := by
    decide
  have hnow : |(1700000030000 : Int) - 1000 * (1700000000500 / 1000)| ≤ 30000 := by
    decide
  refine ⟨hsent, ?_⟩
  exact (internal_signing sweepRuntime documented_sweepRuntime injective_sweepRuntime).1
    sweepInput ⟨1700000000500, by decide⟩ sweepSent hsent sweepGot preserved_sweep
    ⟨1700000030000, by decide⟩ hnow

end CleanStack.InternalRoutes

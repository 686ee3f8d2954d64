import CleanStack.Proofs.ScrubText
import CleanStack.SentryScrub.ScrubEvent

/-!
# How far the cleaning reaches

The strings inside at most ten arrays or objects are cleaned, each by
`scrubText`; what lies deeper is passed on as it is. So the leaves of what comes
out are the cleaned leaves of what went in, and cleaning twice cleans each leaf
twice.
-/

namespace CleanStack.SentryScrub

open CleanStack.Kit CleanStack.Lib

/-! ## Leaves -/

mutual

/-- The strings of a value inside at most `n` arrays or objects. -/
def leavesWithin : Nat → JsValue → List String
  | _, .str s => [s]
  | n + 1, .arr items => itemLeaves n items
  | n + 1, .obj fields => fieldLeaves n fields
  | _, _ => []

def itemLeaves : Nat → List JsValue → List String
  | _, [] => []
  | n, v :: vs => leavesWithin n v ++ itemLeaves n vs

def fieldLeaves : Nat → JsRecord → List String
  | _, [] => []
  | n, (_, v) :: fs => leavesWithin n v ++ fieldLeaves n fs

end

mutual

theorem leaves_cleanDeep (n depth : Nat) (hn : n + depth = MAX_DEPTH) :
    ∀ v, leavesWithin n (cleanDeep depth v) = (leavesWithin n v).map scrubText
  | .str s => by simp [cleanDeep, leavesWithin]
  | .arr items => by
      cases n with
      | zero => simp [cleanDeep, leavesWithin, show MAX_DEPTH ≤ depth by omega]
      | succ n =>
          rw [cleanDeep, if_neg (by omega), leavesWithin, leavesWithin]
          exact leaves_cleanItems n (depth + 1) (by omega) items
  | .obj fields => by
      cases n with
      | zero => simp [cleanDeep, leavesWithin, show MAX_DEPTH ≤ depth by omega]
      | succ n =>
          rw [cleanDeep, if_neg (by omega), leavesWithin, leavesWithin]
          exact leaves_cleanFields n (depth + 1) (by omega) fields
  | .undefined => by simp [cleanDeep, leavesWithin]
  | .null => by simp [cleanDeep, leavesWithin]
  | .bool b => by simp [cleanDeep, leavesWithin]
  | .num x => by simp [cleanDeep, leavesWithin]
  | .infinity negative => by simp [cleanDeep, leavesWithin]

theorem leaves_cleanItems (n depth : Nat) (hn : n + depth = MAX_DEPTH) :
    ∀ vs, itemLeaves n (cleanItems depth vs) = (itemLeaves n vs).map scrubText
  | [] => by simp [cleanItems, itemLeaves]
  | v :: vs => by
      rw [cleanItems, itemLeaves, itemLeaves, List.map_append, leaves_cleanDeep n depth hn v,
        leaves_cleanItems n depth hn vs]

theorem leaves_cleanFields (n depth : Nat) (hn : n + depth = MAX_DEPTH) :
    ∀ fs, fieldLeaves n (cleanFields depth fs) = (fieldLeaves n fs).map scrubText
  | [] => by simp [cleanFields, fieldLeaves]
  | (k, v) :: fs => by
      rw [cleanFields, fieldLeaves, fieldLeaves, List.map_append, leaves_cleanDeep n depth hn v,
        leaves_cleanFields n depth hn fs]

end

/-! ## What is not reached -/

mutual

/-- The arrays and objects of a value inside exactly `n` others. -/
def containersAt : Nat → JsValue → List JsValue
  | 0, .arr items => [.arr items]
  | 0, .obj fields => [.obj fields]
  | n + 1, .arr items => itemContainers n items
  | n + 1, .obj fields => fieldContainers n fields
  | _, _ => []

def itemContainers : Nat → List JsValue → List JsValue
  | _, [] => []
  | n, v :: vs => containersAt n v ++ itemContainers n vs

def fieldContainers : Nat → JsRecord → List JsValue
  | _, [] => []
  | n, (_, v) :: fs => containersAt n v ++ fieldContainers n fs

end

theorem containersAt_str (n : Nat) (s : String) : containersAt n (.str s) = [] := by
  cases n <;> rfl

mutual

theorem containers_cleanDeep (n depth : Nat) (hn : n + depth = MAX_DEPTH) :
    ∀ v, containersAt n (cleanDeep depth v) = containersAt n v
  | .str s => by rw [cleanDeep, containersAt_str, containersAt_str]
  | .arr items => by
      cases n with
      | zero => rw [cleanDeep, if_pos (by omega)]
      | succ n =>
          rw [cleanDeep, if_neg (by omega), containersAt, containersAt]
          exact containers_cleanItems n (depth + 1) (by omega) items
  | .obj fields => by
      cases n with
      | zero => rw [cleanDeep, if_pos (by omega)]
      | succ n =>
          rw [cleanDeep, if_neg (by omega), containersAt, containersAt]
          exact containers_cleanFields n (depth + 1) (by omega) fields
  | .undefined => by rw [cleanDeep]
  | .null => by rw [cleanDeep]
  | .bool b => by rw [cleanDeep]
  | .num x => by rw [cleanDeep]
  | .infinity negative => by rw [cleanDeep]

theorem containers_cleanItems (n depth : Nat) (hn : n + depth = MAX_DEPTH) :
    ∀ vs, itemContainers n (cleanItems depth vs) = itemContainers n vs
  | [] => by rw [cleanItems]
  | v :: vs => by
      rw [cleanItems, itemContainers, itemContainers, containers_cleanDeep n depth hn v,
        containers_cleanItems n depth hn vs]

theorem containers_cleanFields (n depth : Nat) (hn : n + depth = MAX_DEPTH) :
    ∀ fs, fieldContainers n (cleanFields depth fs) = fieldContainers n fs
  | [] => by rw [cleanFields]
  | (k, v) :: fs => by
      rw [cleanFields, fieldContainers, fieldContainers, containers_cleanDeep n depth hn v,
        containers_cleanFields n depth hn fs]

end

/-! ## Cleaning twice -/

/-- In none of these texts, once its queries are dropped, is the run behind an
address followed by a further domain. -/
def Unchained (texts : List String) : Prop := ∀ t ∈ texts, ¬Chained (withoutQueries t)

theorem unchained_append {l r : List String} :
    Unchained (l ++ r) ↔ Unchained l ∧ Unchained r := by
  simp only [Unchained, List.mem_append, or_imp, forall_and]

mutual

theorem cleanDeep_idem (n depth : Nat) (hn : n + depth = MAX_DEPTH) :
    ∀ v, Unchained (leavesWithin n v) →
      cleanDeep depth (cleanDeep depth v) = cleanDeep depth v
  | .str s, h => by
      rw [cleanDeep, cleanDeep, scrubText_idem (h s (by simp [leavesWithin]))]
  | .arr items, h => by
      cases n with
      | zero => simp [cleanDeep, show MAX_DEPTH ≤ depth by omega]
      | succ n =>
          rw [leavesWithin] at h
          rw [cleanDeep, if_neg (by omega), cleanDeep, if_neg (by omega),
            cleanItems_idem n (depth + 1) (by omega) items h]
  | .obj fields, h => by
      cases n with
      | zero => simp [cleanDeep, show MAX_DEPTH ≤ depth by omega]
      | succ n =>
          rw [leavesWithin] at h
          rw [cleanDeep, if_neg (by omega), cleanDeep, if_neg (by omega),
            cleanFields_idem n (depth + 1) (by omega) fields h]
  | .undefined, _ => by simp [cleanDeep]
  | .null, _ => by simp [cleanDeep]
  | .bool b, _ => by simp [cleanDeep]
  | .num x, _ => by simp [cleanDeep]
  | .infinity negative, _ => by simp [cleanDeep]

theorem cleanItems_idem (n depth : Nat) (hn : n + depth = MAX_DEPTH) :
    ∀ vs, Unchained (itemLeaves n vs) →
      cleanItems depth (cleanItems depth vs) = cleanItems depth vs
  | [], _ => by simp [cleanItems]
  | v :: vs, h => by
      rw [itemLeaves, unchained_append] at h
      rw [cleanItems, cleanItems, cleanDeep_idem n depth hn v h.1, cleanItems_idem n depth hn vs h.2]

theorem cleanFields_idem (n depth : Nat) (hn : n + depth = MAX_DEPTH) :
    ∀ fs, Unchained (fieldLeaves n fs) →
      cleanFields depth (cleanFields depth fs) = cleanFields depth fs
  | [], _ => by simp [cleanFields]
  | (k, v) :: fs, h => by
      rw [fieldLeaves, unchained_append] at h
      rw [cleanFields, cleanFields, cleanDeep_idem n depth hn v h.1,
        cleanFields_idem n depth hn fs h.2]

end

/-! ## Records -/

def recordLeaves (record : JsRecord) : List String :=
  record.flatMap fun f => leavesWithin MAX_DEPTH f.2

/-- The texts of a breadcrumb's record, a URL without its query. -/
def dataTexts (record : JsRecord) : List String :=
  record.flatMap fun f =>
    match f.2 with
    | .str s => [if URL_KEYS.contains f.1 then cleanUrl s else s]
    | v => leavesWithin MAX_DEPTH v

theorem flatMap_mapValues {record : JsRecord} {map : String → JsValue → JsValue}
    {texts : String × JsValue → List String}
    (h : ∀ f, leavesWithin MAX_DEPTH (map f.1 f.2) = (texts f).map scrubText) :
    recordLeaves (mapValues record map) = (record.flatMap texts).map scrubText := by
  induction record with
  | nil => rfl
  | cons f record ih =>
      have hcons : recordLeaves (mapValues (f :: record) map) =
          leavesWithin MAX_DEPTH (map f.1 f.2) ++ recordLeaves (mapValues record map) := rfl
      rw [hcons, ih, h f, List.flatMap_cons, List.map_append]

/-- What is too deep in a record to be cleaned. -/
def recordContainers (record : JsRecord) : List JsValue :=
  record.flatMap fun f => containersAt MAX_DEPTH f.2

theorem containers_mapValues {record : JsRecord} {map : String → JsValue → JsValue}
    (h : ∀ key v, containersAt MAX_DEPTH (map key v) = containersAt MAX_DEPTH v) :
    recordContainers (mapValues record map) = recordContainers record := by
  rw [recordContainers, mapValues, List.flatMap_map]
  exact List.flatMap_congr fun f _ => h f.1 f.2

theorem containers_cleanBreadcrumbEntry (key : String) (v : JsValue) :
    containersAt MAX_DEPTH (cleanBreadcrumbEntry key v) = containersAt MAX_DEPTH v := by
  cases v with
  | str s =>
      rw [cleanBreadcrumbEntry]
      split
      · rw [containersAt_str, containersAt_str]
      · exact containers_cleanDeep MAX_DEPTH 0 rfl _
  | _ => exact containers_cleanDeep MAX_DEPTH 0 rfl _

theorem leaves_cleanRecord (record : JsRecord) :
    recordLeaves (cleanRecord record) = (recordLeaves record).map scrubText :=
  flatMap_mapValues fun f => leaves_cleanDeep MAX_DEPTH 0 rfl f.2

theorem leaves_breadcrumbData (record : JsRecord) :
    recordLeaves (mapValues record cleanBreadcrumbEntry) = (dataTexts record).map scrubText := by
  refine flatMap_mapValues fun f => ?_
  obtain ⟨key, v⟩ := f
  cases v with
  | str s =>
      by_cases hkey : URL_KEYS.contains key = true
      · simp only [cleanBreadcrumbEntry, if_pos hkey, leavesWithin, List.map_cons, List.map_nil]
      · simp only [cleanBreadcrumbEntry, if_neg hkey, cleanDeep, leavesWithin, List.map_cons,
          List.map_nil]
  | _ => exact leaves_cleanDeep MAX_DEPTH 0 rfl _

theorem cleanRecord_idem {record : JsRecord} (h : Unchained (recordLeaves record)) :
    cleanRecord (cleanRecord record) = cleanRecord record := by
  induction record with
  | nil => rfl
  | cons f record ih =>
      have hcons : recordLeaves (f :: record) =
          leavesWithin MAX_DEPTH f.2 ++ recordLeaves record := rfl
      rw [hcons, unchained_append] at h
      have hclean : ∀ f record, cleanRecord (f :: record) =
          (f.1, cleanDeep 0 f.2) :: cleanRecord record := fun _ _ => rfl
      rw [hclean, hclean, ih h.2, cleanDeep_idem MAX_DEPTH 0 rfl f.2 h.1]

/-! ## URLs -/

theorem cleanUrl_of_none {url : String} (h : ∀ c ∈ url.toList, isQueryStart c = false) :
    cleanUrl url = url := by
  have hall : url.toList.takeWhile (fun c => !isQueryStart c) = url.toList :=
    List.takeWhile_eq_self_iff.2 fun c hc => by simp [h c hc]
  rw [cleanUrl, hall, String.ofList_toList]

theorem cleanUrl_no_start (url : String) : ∀ c ∈ (cleanUrl url).toList, isQueryStart c = false := by
  intro c hc
  rw [cleanUrl, String.toList_ofList] at hc
  simpa using List.mem_takeWhile_imp hc

/-- A text without a query sign is given none. -/
theorem scrubText_no_start {text : String} (h : ∀ c ∈ text.toList, isQueryStart c = false) :
    ∀ c ∈ (scrubText text).toList, isQueryStart c = false := by
  have hcut : ∀ c ∈ cutAt QUERY_PARAMS_MARKER text.toList, isQueryStart c = false :=
    fun c hc => h c ((cutAt_begins _ _).subset hc)
  have hquery : ¬HasQuery (cutAt QUERY_PARAMS_MARKER text.toList) := by
    rintro ⟨token, htoken, b, q, rest, rfl, -, hq, -⟩
    have hin := run_infix htoken
    rw [joined_segments] at hin
    have := hcut q (hin.subset (by simp))
    rw [hq] at this
    cases this
  intro c hc
  rw [scrubText_toList, withoutQueries, dropQueries_of_not_hasQuery hquery] at hc
  rcases (rewrites_maskEmails _).mem_of hc with hmask | hmem
  · have hall : (EMAIL_MASK.all fun c => !isQueryStart c) = true := by decide
    simpa using List.all_eq_true.1 hall c hmask
  · exact hcut c hmem

theorem cleanDeep_ne_str {depth : Nat} {v : JsValue} (h : ∀ s, v ≠ .str s) :
    ∀ s, cleanDeep depth v ≠ .str s := by
  cases v with
  | str s => exact absurd rfl (h s)
  | arr items =>
      intro s
      rw [cleanDeep]
      split <;> simp
  | obj fields =>
      intro s
      rw [cleanDeep]
      split <;> simp
  | _ => simp [cleanDeep]

theorem cleanBreadcrumbEntry_of_ne {key : String} {v : JsValue} (h : ∀ s, v ≠ .str s) :
    cleanBreadcrumbEntry key v = cleanDeep 0 v := by
  cases v with
  | str s => exact absurd rfl (h s)
  | _ => rfl

theorem cleanBreadcrumbEntry_idem {key : String} {v : JsValue}
    (h : Unchained (dataTexts [(key, v)])) :
    cleanBreadcrumbEntry key (cleanBreadcrumbEntry key v) = cleanBreadcrumbEntry key v := by
  by_cases hstr : ∃ s, v = .str s
  · obtain ⟨s, rfl⟩ := hstr
    by_cases hkey : URL_KEYS.contains key = true
    · have hurl := cleanUrl_of_none (scrubText_no_start (cleanUrl_no_start s))
      have hidem := scrubText_idem (h (cleanUrl s) (by simp only [dataTexts, List.flatMap_cons,
        if_pos hkey, List.flatMap_nil, List.append_nil, List.mem_singleton]))
      simp only [cleanBreadcrumbEntry, if_pos hkey, hurl, hidem]
    · have hidem := scrubText_idem (h s (by simp only [dataTexts, List.flatMap_cons,
        if_neg hkey, List.flatMap_nil, List.append_nil, List.mem_singleton]))
      simp only [cleanBreadcrumbEntry, if_neg hkey, cleanDeep, hidem]
  · have hne : ∀ s, v ≠ .str s := fun s hs => hstr ⟨s, hs⟩
    have htexts : dataTexts [(key, v)] = leavesWithin MAX_DEPTH v := by
      cases v with
      | str s => exact absurd rfl (hne s)
      | _ => simp [dataTexts]
    rw [htexts] at h
    rw [cleanBreadcrumbEntry_of_ne hne, cleanBreadcrumbEntry_of_ne (cleanDeep_ne_str hne),
      cleanDeep_idem MAX_DEPTH 0 rfl v h]

theorem breadcrumbData_idem {record : JsRecord} (h : Unchained (dataTexts record)) :
    mapValues (mapValues record cleanBreadcrumbEntry) cleanBreadcrumbEntry =
      mapValues record cleanBreadcrumbEntry := by
  induction record with
  | nil => rfl
  | cons f record ih =>
      have hcons : dataTexts (f :: record) = dataTexts [f] ++ dataTexts record := by
        simp [dataTexts]
      rw [hcons, unchained_append] at h
      have hmap : ∀ f record, mapValues (f :: record) cleanBreadcrumbEntry =
          (f.1, cleanBreadcrumbEntry f.1 f.2) :: mapValues record cleanBreadcrumbEntry :=
        fun _ _ => rfl
      rw [hmap, hmap, ih h.2, cleanBreadcrumbEntry_idem h.1]

/-! ## Single texts and headers -/

theorem scrubText_empty : scrubText "" = "" := by
  decide

theorem scrubIfAny_eq (text : Option String) : scrubIfAny text = text.map scrubText := by
  cases text with
  | none => rfl
  | some t =>
      rw [scrubIfAny, Option.map_some, Option.map_some]
      split
      · next hempty => rw [hempty, scrubText_empty]
      · rfl

theorem scrubIfAny_idem {text : Option String} (h : Unchained text.toList) :
    scrubIfAny (scrubIfAny text) = scrubIfAny text := by
  cases text with
  | none => rfl
  | some t =>
      rw [scrubIfAny_eq, scrubIfAny_eq, Option.map_some, Option.map_some,
        scrubText_idem (h t (by simp))]

/-- The header is there and has no value. -/
def Unset (headers : List (String × Option String)) (name : String) : Prop :=
  (∃ h ∈ headers, h.1 = name) ∧ ∀ h ∈ headers, h.1 = name → h.2 = none

theorem unset_unsetHeader (headers : List (String × Option String)) (name : String) :
    Unset (unsetHeader headers name) name ∧
      ∀ other, Unset headers other → Unset (unsetHeader headers name) other := by
  rw [unsetHeader]
  split
  · next hany =>
    have hkeys : ∀ other, (∃ h ∈ headers, h.1 = other) →
        ∃ h ∈ headers.map (fun h => if h.1 = name then (h.1, none) else h), h.1 = other := by
      rintro other ⟨h, hh, rfl⟩
      refine ⟨_, List.mem_map_of_mem hh, ?_⟩
      split <;> rfl
    refine ⟨⟨hkeys name (by simpa using hany), ?_⟩, fun other hother =>
      ⟨hkeys other hother.1, ?_⟩⟩
    · intro h hh hname
      obtain ⟨g, -, rfl⟩ := List.mem_map.1 hh
      split at hname
      · next hg => rw [if_pos hg]
      · next hg => exact absurd hname hg
    · intro h hh hname
      obtain ⟨g, hg, rfl⟩ := List.mem_map.1 hh
      split at hname
      · next hsame => rw [if_pos hsame]
      · next hsame =>
        rw [if_neg hsame]
        exact hother.2 g hg hname
  · next hany =>
    have hfresh : ∀ h ∈ headers, h.1 ≠ name := fun h hh hname =>
      hany (List.any_eq_true.2 ⟨h, hh, by simpa using hname⟩)
    refine ⟨⟨⟨(name, none), by simp, rfl⟩, ?_⟩, fun other hother => ⟨?_, ?_⟩⟩
    · intro h hh hname
      rcases List.mem_append.1 hh with hh | hh
      · exact absurd hname (hfresh h hh)
      · rw [List.mem_singleton.1 hh]
    · obtain ⟨h, hh, hname⟩ := hother.1
      exact ⟨h, List.mem_append_left _ hh, hname⟩
    · intro h hh hname
      rcases List.mem_append.1 hh with hh | hh
      · exact hother.2 h hh hname
      · rw [List.mem_singleton.1 hh]

theorem unsetHeader_of_unset {headers : List (String × Option String)} {name : String}
    (h : Unset headers name) : unsetHeader headers name = headers := by
  obtain ⟨⟨g, hg, hname⟩, hnone⟩ := h
  rw [unsetHeader, if_pos (List.any_eq_true.2 ⟨g, hg, by simpa using hname⟩)]
  refine (List.map_congr_left fun x hx => ?_).trans (List.map_id headers)
  split
  · next hx' => rw [← hnone x hx hx', id]
  · rfl

theorem foldl_unsetHeader {names : List String} {headers : List (String × Option String)}
    {other : String} (h : other ∈ names ∨ Unset headers other) :
    Unset (names.foldl unsetHeader headers) other := by
  induction names generalizing headers with
  | nil => exact h.resolve_left List.not_mem_nil
  | cons name names ih =>
      obtain ⟨hname, hother⟩ := unset_unsetHeader headers name
      refine ih ?_
      rcases h with hmem | hunset
      · rcases List.mem_cons.1 hmem with rfl | hmem
        · exact .inr hname
        · exact .inl hmem
      · exact .inr (hother other hunset)

theorem foldl_unsetHeader_of_unset {names : List String} {headers : List (String × Option String)}
    (h : ∀ name ∈ names, Unset headers name) : names.foldl unsetHeader headers = headers := by
  induction names with
  | nil => rfl
  | cons name names ih =>
      rw [List.foldl_cons, unsetHeader_of_unset (h name List.mem_cons_self)]
      exact ih fun other hother => h other (List.mem_cons_of_mem _ hother)

theorem scrubRequest_idem (r : ScrubbableRequest) :
    scrubRequest (scrubRequest r) = scrubRequest r := by
  obtain ⟨cookies, data, query, headers⟩ := r
  cases headers with
  | none => rfl
  | some headers =>
      have hunset : ∀ name ∈ DENIED_HEADERS,
          Unset (DENIED_HEADERS.foldl unsetHeader headers) name :=
        fun name hname => foldl_unsetHeader (.inl hname)
      have hsame := foldl_unsetHeader_of_unset hunset
      simp only [scrubRequest, Option.map_some, hsame]

/-! ## Breadcrumbs, logs and events -/

def ScrubbableBreadcrumb.leaves (b : ScrubbableBreadcrumb) : List String :=
  b.message.toList ++ b.data.elim [] recordLeaves

def ScrubbableBreadcrumb.texts (b : ScrubbableBreadcrumb) : List String :=
  b.message.toList ++ b.data.elim [] dataTexts

/-- The strings of a log line; what is cleaned of it are just these. -/
def ScrubbableLog.leaves (log : ScrubbableLog) : List String :=
  log.message :: log.attributes.elim [] recordLeaves

def exceptionValues (event : ScrubbableEvent) : List String :=
  event.exception.elim [] fun exceptions => (exceptions.values.getD []).filterMap (·.value)

def ScrubbableEvent.leaves (event : ScrubbableEvent) : List String :=
  event.message.toList ++ exceptionValues event ++ event.contexts.elim [] recordLeaves ++
    event.extra.elim [] recordLeaves ++
    (event.breadcrumbs.getD []).flatMap ScrubbableBreadcrumb.leaves

/-- The texts that are cleaned for an event: those of a breadcrumb that is
dropped are not. -/
def ScrubbableEvent.texts (event : ScrubbableEvent) : List String :=
  event.message.toList ++ exceptionValues event ++ event.contexts.elim [] recordLeaves ++
    event.extra.elim [] recordLeaves ++
    ((event.breadcrumbs.getD []).filter fun b => (scrubBreadcrumb b).isSome).flatMap
      ScrubbableBreadcrumb.texts

theorem elim_cleanRecord (record : Option JsRecord) :
    (record.map cleanRecord).elim [] recordLeaves =
      (record.elim [] recordLeaves).map scrubText := by
  cases record with
  | none => rfl
  | some record => exact leaves_cleanRecord record

theorem toList_scrubIfAny (text : Option String) :
    (scrubIfAny text).toList = text.toList.map scrubText := by
  rw [scrubIfAny_eq]
  cases text <;> rfl

theorem cleanRecords_idem {record : Option JsRecord}
    (h : Unchained (record.elim [] recordLeaves)) :
    (record.map cleanRecord).map cleanRecord = record.map cleanRecord := by
  cases record with
  | none => rfl
  | some record => simp only [Option.map_some, cleanRecord_idem h]

theorem leaves_scrubBreadcrumb {b b' : ScrubbableBreadcrumb} (h : scrubBreadcrumb b = some b') :
    b'.leaves = b.texts.map scrubText := by
  rw [scrubBreadcrumb] at h
  split at h
  · cases h
  · cases h
    rw [ScrubbableBreadcrumb.leaves, ScrubbableBreadcrumb.texts, List.map_append,
      toList_scrubIfAny]
    cases b.data with
    | none => rfl
    | some record => exact congrArg _ (leaves_breadcrumbData record)

theorem scrubBreadcrumb_idem {b b' : ScrubbableBreadcrumb} (h : scrubBreadcrumb b = some b')
    (hun : Unchained b.texts) : scrubBreadcrumb b' = some b' := by
  rw [ScrubbableBreadcrumb.texts, unchained_append] at hun
  rw [scrubBreadcrumb] at h
  split at h
  · cases h
  · next hkept =>
    cases h
    have hdata : (b.data.map fun record => mapValues record cleanBreadcrumbEntry).map
        (fun record => mapValues record cleanBreadcrumbEntry) =
          b.data.map fun record => mapValues record cleanBreadcrumbEntry := by
      cases hd : b.data with
      | none => rfl
      | some record =>
          rw [hd] at hun
          simp only [Option.map_some, breadcrumbData_idem hun.2]
    rw [scrubBreadcrumb, if_neg hkept, scrubIfAny_idem hun.1, hdata]

theorem leaves_scrubLog (log : ScrubbableLog) :
    (scrubLog log).leaves = log.leaves.map scrubText := by
  rw [ScrubbableLog.leaves, ScrubbableLog.leaves, List.map_cons]
  exact congrArg _ (elim_cleanRecord log.attributes)

theorem scrubLog_idem {log : ScrubbableLog} (h : Unchained log.leaves) :
    scrubLog (scrubLog log) = scrubLog log := by
  rw [ScrubbableLog.leaves, ← List.singleton_append, unchained_append] at h
  have hmessage := scrubText_idem (h.1 log.message (by simp))
  simp only [scrubLog, hmessage, cleanRecords_idem h.2]

theorem filterMap_scrubIfAny (values : List ScrubbableException) :
    (values.map fun x => (⟨scrubIfAny x.value⟩ : ScrubbableException)).filterMap (·.value) =
      (values.filterMap (·.value)).map scrubText := by
  induction values with
  | nil => rfl
  | cons x values ih =>
      obtain ⟨value⟩ := x
      rw [List.map_cons, scrubIfAny_eq]
      cases value with
      | none => simpa using ih
      | some v => simpa using ih

theorem exceptionValues_scrubEvent (event : ScrubbableEvent) :
    exceptionValues (scrubEvent event) = (exceptionValues event).map scrubText := by
  obtain ⟨_, exception, _, _, _, _, _⟩ := event
  rcases exception with _ | ⟨_ | values⟩
  · rfl
  · rfl
  · exact filterMap_scrubIfAny values

theorem leaves_filterMap (breadcrumbs : List ScrubbableBreadcrumb) :
    (breadcrumbs.filterMap scrubBreadcrumb).flatMap ScrubbableBreadcrumb.leaves =
      ((breadcrumbs.filter fun b => (scrubBreadcrumb b).isSome).flatMap
        ScrubbableBreadcrumb.texts).map scrubText := by
  induction breadcrumbs with
  | nil => rfl
  | cons b breadcrumbs ih =>
      cases hb : scrubBreadcrumb b with
      | none => simpa [List.filterMap_cons, List.filter_cons, hb] using ih
      | some b' =>
          simp only [List.filterMap_cons, List.filter_cons, hb, Option.isSome_some, if_pos,
            List.flatMap_cons, List.map_append, leaves_scrubBreadcrumb hb, ih]

theorem leaves_scrubEvent (event : ScrubbableEvent) :
    (scrubEvent event).leaves = event.texts.map scrubText := by
  have hbreadcrumbs : ((scrubEvent event).breadcrumbs.getD []).flatMap
      ScrubbableBreadcrumb.leaves = (((event.breadcrumbs.getD []).filter fun b =>
        (scrubBreadcrumb b).isSome).flatMap ScrubbableBreadcrumb.texts).map scrubText := by
    cases hb : event.breadcrumbs with
    | none => simp [scrubEvent, hb]
    | some breadcrumbs =>
        simp only [scrubEvent, hb, Option.map_some, Option.getD_some]
        exact leaves_filterMap breadcrumbs
  rw [ScrubbableEvent.leaves, ScrubbableEvent.texts, hbreadcrumbs, exceptionValues_scrubEvent,
    List.map_append, List.map_append, List.map_append, List.map_append, ← toList_scrubIfAny,
    ← elim_cleanRecord, ← elim_cleanRecord]
  rfl

theorem breadcrumbs_idem {breadcrumbs : List ScrubbableBreadcrumb}
    (h : Unchained ((breadcrumbs.filter fun b => (scrubBreadcrumb b).isSome).flatMap
      ScrubbableBreadcrumb.texts)) :
    (breadcrumbs.filterMap scrubBreadcrumb).filterMap scrubBreadcrumb =
      breadcrumbs.filterMap scrubBreadcrumb := by
  induction breadcrumbs with
  | nil => rfl
  | cons b breadcrumbs ih =>
      cases hb : scrubBreadcrumb b with
      | none =>
          simp only [List.filter_cons, hb, Option.isSome_none, Bool.false_eq_true, if_false] at h
          simpa [List.filterMap_cons, hb] using ih h
      | some b' =>
          simp only [List.filter_cons, hb, Option.isSome_some, if_pos, List.flatMap_cons,
            unchained_append] at h
          simp only [List.filterMap_cons, hb, scrubBreadcrumb_idem hb h.1, ih h.2]

theorem exceptions_idem {values : List ScrubbableException}
    (h : Unchained (values.filterMap (·.value))) :
    ∀ x ∈ values, scrubIfAny (scrubIfAny x.value) = scrubIfAny x.value := by
  intro x hx
  refine scrubIfAny_idem fun t ht => h t (List.mem_filterMap.2 ⟨x, hx, ?_⟩)
  simpa using ht

theorem scrubEvent_idem {event : ScrubbableEvent} (h : Unchained event.texts) :
    scrubEvent (scrubEvent event) = scrubEvent event := by
  rw [ScrubbableEvent.texts, unchained_append, unchained_append, unchained_append,
    unchained_append] at h
  obtain ⟨⟨⟨⟨hmessage, hvalues⟩, hcontexts⟩, hextra⟩, hbreadcrumbs⟩ := h
  obtain ⟨message, exception, request, user, contexts, extra, breadcrumbs⟩ := event
  have hexception : ((exception.map fun exceptions =>
      (⟨exceptions.values.map fun values => values.map fun x => ⟨scrubIfAny x.value⟩⟩ :
        ScrubbableExceptions)).map fun exceptions =>
      (⟨exceptions.values.map fun values => values.map fun x => ⟨scrubIfAny x.value⟩⟩ :
        ScrubbableExceptions)) = exception.map fun exceptions =>
      ⟨exceptions.values.map fun values => values.map fun x => ⟨scrubIfAny x.value⟩⟩ := by
    rcases exception with _ | ⟨_ | values⟩
    · rfl
    · rfl
    · have hsame := exceptions_idem hvalues
      simp only [Option.map_some, List.map_map, Option.some.injEq, ScrubbableExceptions.mk.injEq]
      exact List.map_congr_left fun x hx => by simp [hsame x hx]
  have hrequest : (request.map scrubRequest).map scrubRequest = request.map scrubRequest := by
    cases request with
    | none => rfl
    | some r => simp only [Option.map_some, scrubRequest_idem]
  have huser : (user.map scrubUser).map scrubUser = user.map scrubUser := by
    cases user <;> rfl
  have hkept : (breadcrumbs.map fun bs => bs.filterMap scrubBreadcrumb).map
      (fun bs => bs.filterMap scrubBreadcrumb) =
        breadcrumbs.map fun bs => bs.filterMap scrubBreadcrumb := by
    cases breadcrumbs with
    | none => rfl
    | some breadcrumbs => exact congrArg some (breadcrumbs_idem hbreadcrumbs)
  simp only [scrubEvent, scrubIfAny_idem hmessage, hexception, hrequest, huser,
    cleanRecords_idem hcontexts, cleanRecords_idem hextra, hkept]

/-- The event without the breadcrumbs that are dropped. -/
def ScrubbableEvent.kept (event : ScrubbableEvent) : ScrubbableEvent :=
  { event with
    breadcrumbs := event.breadcrumbs.map fun breadcrumbs =>
      breadcrumbs.filter fun b => (scrubBreadcrumb b).isSome }

def ScrubbableBreadcrumb.containers (b : ScrubbableBreadcrumb) : List JsValue :=
  b.data.elim [] recordContainers

def ScrubbableLog.containers (log : ScrubbableLog) : List JsValue :=
  log.attributes.elim [] recordContainers

def ScrubbableEvent.containers (event : ScrubbableEvent) : List JsValue :=
  event.contexts.elim [] recordContainers ++ event.extra.elim [] recordContainers ++
    (event.breadcrumbs.getD []).flatMap ScrubbableBreadcrumb.containers

theorem containers_cleanRecord (record : Option JsRecord) :
    (record.map cleanRecord).elim [] recordContainers = record.elim [] recordContainers := by
  cases record with
  | none => rfl
  | some record => exact containers_mapValues fun _ v => containers_cleanDeep MAX_DEPTH 0 rfl v

theorem containers_scrubBreadcrumb {b b' : ScrubbableBreadcrumb}
    (h : scrubBreadcrumb b = some b') : b'.containers = b.containers := by
  rw [scrubBreadcrumb] at h
  split at h
  · cases h
  · cases h
    rw [ScrubbableBreadcrumb.containers, ScrubbableBreadcrumb.containers]
    cases b.data with
    | none => rfl
    | some record => exact containers_mapValues containers_cleanBreadcrumbEntry

theorem containers_filterMap (breadcrumbs : List ScrubbableBreadcrumb) :
    (breadcrumbs.filterMap scrubBreadcrumb).flatMap ScrubbableBreadcrumb.containers =
      (breadcrumbs.filter fun b => (scrubBreadcrumb b).isSome).flatMap
        ScrubbableBreadcrumb.containers := by
  induction breadcrumbs with
  | nil => rfl
  | cons b breadcrumbs ih =>
      cases hb : scrubBreadcrumb b with
      | none => simpa [List.filterMap_cons, List.filter_cons, hb] using ih
      | some b' =>
          simp only [List.filterMap_cons, List.filter_cons, hb, Option.isSome_some, if_pos,
            List.flatMap_cons, containers_scrubBreadcrumb hb, ih]

theorem containers_scrubEvent (event : ScrubbableEvent) :
    (scrubEvent event).containers = event.kept.containers := by
  have hbreadcrumbs : ((scrubEvent event).breadcrumbs.getD []).flatMap
      ScrubbableBreadcrumb.containers =
        (event.kept.breadcrumbs.getD []).flatMap ScrubbableBreadcrumb.containers := by
    rw [scrubEvent, ScrubbableEvent.kept]
    cases event.breadcrumbs with
    | none => rfl
    | some breadcrumbs => exact containers_filterMap breadcrumbs
  rw [ScrubbableEvent.containers, ScrubbableEvent.containers, hbreadcrumbs]
  exact congrArg₂ (· ++ · ++ _) (containers_cleanRecord event.contexts)
    (containers_cleanRecord event.extra)

/-! ## What is reached -/

/-- The leaves are cleaned texts: none has a query left, and none has an address
left unless the run behind an address was followed by a further domain. -/
def Cleaned (texts leaves : List String) : Prop :=
  ∀ s ∈ leaves, ∃ t ∈ texts, s = scrubText t ∧ ¬HasQuery s.toList ∧
    (¬Chained (withoutQueries t) → ¬MatchesEmail s.toList)

theorem cleaned_map {texts leaves : List String} (h : leaves = texts.map scrubText) :
    Cleaned texts leaves := by
  intro s hs
  obtain ⟨t, ht, rfl⟩ := List.mem_map.1 (h ▸ hs)
  exact ⟨t, ht, rfl, scrubText_query t, scrubText_email⟩

/-- No query is left in what comes out of the three functions, as far down as
they reach. Where no run behind an address is followed by a further domain no
address is left either, and cleaning again changes nothing. What lies deeper
comes out as it went in. -/
theorem scrub_reaches :
    (∀ event, Cleaned event.texts (scrubEvent event).leaves ∧
      (Unchained event.texts → scrubEvent (scrubEvent event) = scrubEvent event) ∧
      (scrubEvent event).containers = event.kept.containers) ∧
    (∀ b b', scrubBreadcrumb b = some b' → Cleaned b.texts b'.leaves ∧
      (Unchained b.texts → scrubBreadcrumb b' = some b') ∧ b'.containers = b.containers) ∧
    ∀ log, Cleaned log.leaves (scrubLog log).leaves ∧
      (Unchained log.leaves → scrubLog (scrubLog log) = scrubLog log) ∧
      (scrubLog log).containers = log.containers :=
  ⟨fun event => ⟨cleaned_map (leaves_scrubEvent event), scrubEvent_idem,
      containers_scrubEvent event⟩,
    fun _ _ h => ⟨cleaned_map (leaves_scrubBreadcrumb h), scrubBreadcrumb_idem h,
      containers_scrubBreadcrumb h⟩,
    fun log => ⟨cleaned_map (leaves_scrubLog log), scrubLog_idem,
      containers_cleanRecord log.attributes⟩⟩

/-- An address inside this many arrays. -/
def nested : Nat → JsValue
  | 0 => .str "a@b.com"
  | n + 1 => .arr [nested n]

theorem matchesEmail_of {user name label : List Char} (hne : user ≠ [])
    (huser : user.all isMailChar = true) (hname : name.all isMailChar = true ∧ name ≠ [])
    (hlabel : label.all isLetter = true ∧ 2 ≤ label.length) :
    MatchesEmail (user ++ '@' :: (name ++ '.' :: label)) :=
  ⟨[], user, name ++ '.' :: label, rfl, endsOutside_nil, hne, List.all_eq_true.1 huser,
    name, label, [], by rw [List.append_nil], hname.2, List.all_eq_true.1 hname.1, hlabel.2,
    List.all_eq_true.1 hlabel.1⟩

/-- Eleven arrays down an address stays, and of two domains behind one address
the second makes an address of the mask, which the next pass takes. -/
theorem addresses_left :
    (scrubLog ⟨"", some [("note", nested 11)]⟩).attributes = some [("note", nested 11)] ∧
      leavesWithin 11 (nested 11) = ["a@b.com"] ∧ MatchesEmail "a@b.com".toList ∧
      scrubLog ⟨"a@b.com@c.org", none⟩ = ⟨"[email]@c.org", none⟩ ∧
      MatchesEmail "[email]@c.org".toList ∧
      scrubLog ⟨"[email]@c.org", none⟩ = ⟨"[email]", none⟩ := by
  have hfirst : scrubText "a@b.com@c.org" = "[email]@c.org" := by decide
  have hsecond : scrubText "[email]@c.org" = "[email]" := by decide
  have huser : MatchesEmail "a@b.com".toList :=
    @matchesEmail_of "a".toList "b".toList "com".toList (by decide) (by decide) (by decide)
      (by decide)
  have hmask : MatchesEmail "[email]@c.org".toList :=
    @matchesEmail_of "[email]".toList "c".toList "org".toList (by decide) (by decide) (by decide)
      (by decide)
  refine ⟨?_, ?_, huser, ?_, hmask, ?_⟩
  · simp [scrubLog, cleanRecord, mapValues, nested, cleanDeep, cleanItems, MAX_DEPTH]
  · simp [leavesWithin, itemLeaves, nested]
  · simp only [scrubLog, hfirst, Option.map_none]
  · simp only [scrubLog, hsecond, Option.map_none]

end CleanStack.SentryScrub

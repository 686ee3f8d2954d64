import CleanStack.Kit.CanonicalJson
import CleanStack.Notifications.Digest

/-!
# Digests and their keys

A digest holds the rows of one user and category, whole, because the text they are
grouped by can be read back: a category's name has no colon in it. Its idempotency
key is the digest of its ids, sorted and joined by a character no id has, so two
digests with one key hold the same ids.
-/

namespace CleanStack.Notifications

open CleanStack.Lib CleanStack.Kit CleanStack.Email CleanStack.Events

/-! ## Groups -/

theorem categoryText_colon (category : NotificationCategory) :
    (categoryText category).toList.reverse.all (fun c => c ≠ ':') = true := by
  cases category <;> decide

theorem categoryText_injective {a b : NotificationCategory}
    (h : categoryText a = categoryText b) : a = b := by
  revert h
  cases a <;> cases b <;> decide

theorem groupKey_injective {userId userId' : String} {category category' : NotificationCategory}
    (h : userId ++ ":" ++ categoryText category = userId' ++ ":" ++ categoryText category') :
    userId = userId' ∧ category = category' := by
  have hchars := congrArg (fun s => s.toList.reverse) h
  simp only [String.toList_append, List.reverse_append] at hchars
  obtain ⟨hcategory, hrest⟩ := run_unique (categoryText_colon category)
    (categoryText_colon category') (by simp) (by simp) hchars
  have huser := List.reverse_injective (List.append_cancel_left hrest)
  refine ⟨String.toList_injective huser, categoryText_injective ?_⟩
  exact String.toList_injective (List.reverse_injective hcategory)

/-- What is made of one row's group. -/
def GroupOf (rows : List PendingRow) (d : DigestGroup) : Prop :=
  d.notificationIds = (rows.filter fun r =>
      r.userId = d.userId && r.category = d.category).map PendingRow.id ∧
    d.notificationIds ≠ []

theorem digestOf_group {rows : List PendingRow} {group : String × List PendingRow}
    (h : group ∈ groupsOf groupKeyOf rows) :
    ∃ d, digestOf group.2 = some d ∧ d.userId ++ ":" ++ categoryText d.category = group.1 ∧
      d.notificationIds = group.2.map PendingRow.id ∧ GroupOf rows d := by
  obtain ⟨hfilter, hne⟩ := mem_groupsOf h
  obtain ⟨row, rest, hrows⟩ := List.exists_cons_of_ne_nil hne
  have hkey : ∀ r ∈ group.2, groupKeyOf r = group.1 := by
    intro r hr
    rw [hfilter] at hr
    exact of_decide_eq_true (List.mem_filter.1 hr).2
  have hrow : groupKeyOf row = group.1 := hkey row (hrows ▸ List.mem_cons_self)
  have hsame : (fun r : PendingRow => decide (groupKeyOf r = group.1)) =
      fun r => r.userId = row.userId && r.category = row.category := by
    funext r
    rw [Bool.eq_iff_iff, decide_eq_true_eq, Bool.and_eq_true, decide_eq_true_eq,
      decide_eq_true_eq]
    constructor
    · exact fun hr => groupKey_injective (hr.trans hrow.symm)
    · intro ⟨huser, hcategory⟩
      rw [← hrow, groupKeyOf, groupKeyOf, huser, hcategory]
  obtain ⟨d, hd, huser, hcategory, hids⟩ : ∃ d, digestOf group.2 = some d ∧
      d.userId = row.userId ∧ d.category = row.category ∧
      d.notificationIds = group.2.map PendingRow.id := by
    rw [hrows]
    exact ⟨_, rfl, rfl, rfl, rfl⟩
  refine ⟨d, hd, by rw [huser, hcategory]; exact hrow, hids, ?_, ?_⟩
  · rw [hids, huser, hcategory, hfilter, hsame]
  · rw [hids, hrows]
    exact List.cons_ne_nil _ _

theorem map_filterMap_eq {α β γ : Type} {f : α → Option β} {g : β → γ} {h : α → γ}
    {l : List α} (heq : ∀ a ∈ l, ∃ b, f a = some b ∧ g b = h a) :
    (l.filterMap f).map g = l.map h := by
  induction l with
  | nil => rfl
  | cons a l ih =>
      obtain ⟨b, hf, hg⟩ := heq a List.mem_cons_self
      rw [List.filterMap_cons_some hf, List.map_cons, List.map_cons, hg,
        ih fun x hx => heq x (List.mem_cons_of_mem _ hx)]

theorem mem_buildDigests {rows : List PendingRow} {d : DigestGroup}
    (h : d ∈ buildDigests rows) : GroupOf rows d := by
  obtain ⟨group, hgroup, hd⟩ := List.mem_filterMap.1 h
  obtain ⟨d', hd', -, -, hof⟩ := digestOf_group hgroup
  rw [hd] at hd'
  obtain rfl := Option.some.inj hd'
  exact hof

/-- One digest for each user and category. -/
theorem nodup_buildDigests (rows : List PendingRow) :
    ((buildDigests rows).map fun d => (d.userId, d.category)).Nodup := by
  have hkeys : (buildDigests rows).map (fun d => d.userId ++ ":" ++ categoryText d.category) =
      (groupsOf groupKeyOf rows).map Prod.fst :=
    map_filterMap_eq fun group hgroup => by
      obtain ⟨d, hd, hkey, -, -⟩ := digestOf_group hgroup
      exact ⟨d, hd, hkey⟩
  have hnodup := (groupsFor_groupsOf groupKeyOf rows).keys
  rw [← hkeys] at hnodup
  refine List.Nodup.of_map (fun p : String × NotificationCategory =>
    p.1 ++ ":" ++ categoryText p.2) ?_
  rw [List.map_map]
  exact hnodup

/-- The digests hold every row once. -/
theorem ids_buildDigests (rows : List PendingRow) :
    ((buildDigests rows).flatMap DigestGroup.notificationIds).Perm (rows.map PendingRow.id) := by
  have hids : (buildDigests rows).map DigestGroup.notificationIds =
      (groupsOf groupKeyOf rows).map fun group => group.2.map PendingRow.id :=
    map_filterMap_eq fun group hgroup => by
      obtain ⟨d, hd, -, hids, -⟩ := digestOf_group hgroup
      exact ⟨d, hd, hids⟩
  have hflat : (buildDigests rows).flatMap DigestGroup.notificationIds =
      ((groupsOf groupKeyOf rows).map Prod.snd).flatten.map PendingRow.id := by
    rw [List.flatMap_def, hids, List.map_flatten, List.map_map]
    rfl
  rw [hflat]
  exact (flatten_groupsOf groupKeyOf rows).map PendingRow.id

/-! ## Keys -/

theorem isHex_hexDigit :
    ∀ n < 16, ((hexDigit n).isDigit || ('a' ≤ hexDigit n && hexDigit n ≤ 'f')) = true := by
  decide

theorem hexDigit_injective : ∀ a < 16, ∀ b < 16, hexDigit a = hexDigit b → a = b := by
  decide

theorem byteText_injective {a b : UInt8} (h : byteText a = byteText b) : a = b := by
  have ha := a.toNat_lt
  have hb := b.toNat_lt
  obtain ⟨hhigh, hlow⟩ := List.cons.inj h
  have hdiv := hexDigit_injective _ (by omega) _ (by omega) hhigh
  have hmod := hexDigit_injective _ (by omega) _ (by omega) (List.cons.inj hlow).1
  exact UInt8.toNat_inj.1 (by omega)

theorem bytesText_injective {as : List UInt8} :
    ∀ {bs : List UInt8}, as.flatMap byteText = bs.flatMap byteText → as = bs := by
  induction as with
  | nil =>
      intro bs h
      cases bs with
      | nil => rfl
      | cons b bs => cases h
  | cons a as ih =>
      intro bs h
      cases bs with
      | nil => cases h
      | cons b bs =>
          rw [List.flatMap_cons, List.flatMap_cons] at h
          obtain ⟨hfirst, hrest⟩ := List.append_inj h rfl
          rw [byteText_injective hfirst, ih hrest]

section Keys

variable {sha256 : String → List UInt8}

theorem isHexText_key (ids : List String) :
    isHexText (digestIdempotencyKey sha256 ids) = true := by
  rw [isHexText, digestIdempotencyKey, String.toList_ofList, List.all_eq_true]
  intro c hc
  obtain ⟨b, -, hb⟩ := List.mem_flatMap.1 hc
  have hb256 := b.toNat_lt
  rcases List.mem_cons.1 hb with rfl | hb
  · exact isHex_hexDigit _ (by omega)
  · rw [List.mem_singleton.1 hb]
    exact isHex_hexDigit _ (by omega)

theorem key_ne_empty (hne : ∀ text, sha256 text ≠ []) (ids : List String) :
    digestIdempotencyKey sha256 ids ≠ "" := by
  intro h
  have hchars := congrArg String.toList h
  rw [digestIdempotencyKey, String.toList_ofList] at hchars
  obtain ⟨b, rest, hb⟩ := List.exists_cons_of_ne_nil (hne
    (joinWith "|" (ids.insertionSort fun a b => stringLe a b = true)))
  rw [hb, List.flatMap_cons] at hchars
  cases hchars

theorem joinWith_injective {as bs : List String} (has : ∀ a ∈ as, '|' ∉ a.toList)
    (hbs : ∀ b ∈ bs, '|' ∉ b.toList) (hne : as ≠ []) (hne' : bs ≠ [])
    (h : joinWith "|" as = joinWith "|" bs) : as = bs := by
  have hchars := congrArg String.toList h
  rw [show joinWith "|" = joinWith (String.ofList ['|']) from rfl, toList_joinWith,
    toList_joinWith] at hchars
  have hfree : ∀ {l : List String}, (∀ a ∈ l, '|' ∉ a.toList) →
      ∀ x ∈ l.map String.toList, '|' ∉ x := by
    intro l hl x hx
    obtain ⟨a, ha, rfl⟩ := List.mem_map.1 hx
    exact hl a ha
  have hmap := separated_injective (hfree has) (hfree hbs) (by simpa using hne)
    (by simpa using hne') hchars
  exact List.map_injective_iff.2 (fun _ _ h => String.toList_injective h) hmap

/-- Digests with one key hold the same ids. -/
theorem perm_of_key (hsha : Function.Injective sha256) {ids ids' : List String}
    (hplain : ∀ id ∈ ids, '|' ∉ id.toList) (hplain' : ∀ id ∈ ids', '|' ∉ id.toList)
    (hne : ids ≠ []) (hne' : ids' ≠ [])
    (h : digestIdempotencyKey sha256 ids = digestIdempotencyKey sha256 ids') :
    ids.Perm ids' := by
  have hperm := List.perm_insertionSort (fun a b : String => stringLe a b = true)
  have hfilled : ∀ l : List String, l ≠ [] →
      l.insertionSort (fun a b => stringLe a b = true) ≠ [] := by
    intro l hl hnil
    have hempty := hperm l
    rw [hnil] at hempty
    exact hl hempty.nil_eq.symm
  have hraw := hsha (bytesText_injective (String.ofList_injective h))
  have hsorted := joinWith_injective (fun id hid => hplain id ((hperm ids).mem_iff.1 hid))
    (fun id hid => hplain' id ((hperm ids').mem_iff.1 hid)) (hfilled ids hne)
    (hfilled ids' hne') hraw
  exact (hperm ids).symm.trans (hsorted ▸ hperm ids')

end Keys

end CleanStack.Notifications

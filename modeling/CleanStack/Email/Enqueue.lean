import CleanStack.Admin.StaffService
import CleanStack.Email.Queue

/-!
# Putting messages in the e-mail queue

`QueuedEmailService.sendTemplateBatch` and the `INSERT … ON CONFLICT
(idempotency_key) DO NOTHING` under it. A row whose key is taken is left out
without an error, a batch of which every row is left out is one.

What the database draws and what it answers with comes in as an `InsertAnswer`;
a template is only rendered for its subject here.
-/

namespace CleanStack.Email

open CleanStack.Lib CleanStack.Drizzle CleanStack.Kit
open CleanStack.Admin (AppError)

def Locale.text : Locale → String
  | .en => "en"
  | .fr => "fr"

def toLocale (value : Option String) : Locale := (value.bind toLocale?).getD DEFAULT_LOCALE

structure EmailMessageInsert where
  kind : MessageKind
  template : Option String
  toAddress : String
  subject : String
  locale : Locale
  payload : JsValue
  idempotencyKey : Option String

/-- The ids drawn for the rows, the date the column defaults to, and whether the
statement fails, with the message it would fail with. -/
structure InsertAnswer where
  ids : Nat → String
  createdAt : Time
  fails : Bool
  failure : String

def insertedRow (answer : InsertAnswer) (r : EmailMessageInsert) (index : Nat) : EmailRow where
  id := answer.ids index
  kind := r.kind
  template := r.template
  toAddress := r.toAddress
  subject := r.subject
  locale := some r.locale.text
  payload := r.payload
  status := .pending
  attempts := 0
  nextAttemptAt := none
  sentAt := none
  lastError := none
  providerMessageId := none
  idempotencyKey := r.idempotencyKey
  batchKey := none
  createdAt := answer.createdAt

/-- The unique index on `idempotency_key`; `NULL` is not in it. -/
def keyTaken (t : EmailTable) (key : Option String) : Bool :=
  key.isSome && t.rows.any fun r => r.idempotencyKey = key

/-- One row of the statement, and whether it was written. An id that is taken fails
the whole statement. -/
def insertRow (t : EmailTable) (row : EmailRow) : Option (EmailTable × Bool) :=
  if keyTaken t row.idempotencyKey then some (t, false)
  else (t.insert row).map fun t' => (t', true)

def insertRows : EmailTable → List EmailRow → Option (EmailTable × List Bool)
  | t, [] => some (t, [])
  | t, row :: rest => do
      let (t, written) ← insertRow t row
      let (t, more) ← insertRows t rest
      some (t, written :: more)

def enqueueFailed (message : String) : AppError := ⟨"EMAIL_QUEUE_WRITE_FAILED", message⟩

/-- `DrizzleEmailQueue.enqueue`. It returns how many rows were written; which ones is
kept here as well. -/
def enqueue (answer : InsertAnswer) (t : EmailTable) (rows : List EmailMessageInsert) :
    Except AppError (EmailTable × List Bool) :=
  if rows.isEmpty then .ok (t, [])
  else if answer.fails then .error (enqueueFailed answer.failure)
  else
    match insertRows t (rows.mapIdx fun index r => insertedRow answer r index) with
    | none => .error (enqueueFailed answer.failure)
    | some result => .ok result

/-- The service's `enqueue`. -/
def enqueueMessages (answer : InsertAnswer) (t : EmailTable) (rows : List EmailMessageInsert) :
    Except AppError (EmailTable × List Bool) :=
  match enqueue answer t rows with
  | .error e => .error ⟨"EMAIL_PROVIDER_FAILURE", e.message⟩
  | .ok (t', written) =>
      if 0 < rows.length && written.count true = 0 then
        .error ⟨"EMAIL_PROVIDER_FAILURE",
          "email enqueue fully suppressed: 0 of " ++ toString rows.length ++ " row(s) written"⟩
      else .ok (t', written)

structure EmailRecipient where
  address : String
  «variables» : JsValue
  locale : Option Locale
  idempotencyKey : Option String

structure SendTemplateOptions where
  idempotencyKey : Option String
  locale : Option Locale

/-- A key counts when it is there and not empty. -/
def truthyKey (key : Option String) : Option String := key.filter fun k => k ≠ ""

def batchRowKey (options : Option SendTemplateOptions) (index : Nat) : Option String :=
  (truthyKey (options.bind SendTemplateOptions.idempotencyKey)).map fun batchKey =>
    batchKey ++ "#" ++ toString index

def templateRow (subjectOf : String → JsValue → Locale → String) (template : String)
    (options : Option SendTemplateOptions) (index : Nat) (r : EmailRecipient) :
    EmailMessageInsert where
  kind := .template
  template := some template
  toAddress := r.address
  subject := subjectOf template r.«variables» (r.locale.getD DEFAULT_LOCALE)
  locale := r.locale.getD DEFAULT_LOCALE
  payload := r.«variables»
  idempotencyKey := (truthyKey r.idempotencyKey).or (batchRowKey options index)

def sendTemplateBatch (subjectOf : String → JsValue → Locale → String) (answer : InsertAnswer)
    (t : EmailTable) (template : String) (recipients : List EmailRecipient)
    (options : Option SendTemplateOptions) : Except AppError (EmailTable × List Bool) :=
  enqueueMessages answer t (recipients.mapIdx (templateRow subjectOf template options))

/-! ## What is written -/

theorem insertRow_cases {t m : EmailTable} {row : EmailRow} {w : Bool}
    (h : insertRow t row = some (m, w)) :
    (keyTaken t row.idempotencyKey = true ∧ m = t ∧ w = false) ∨
      (keyTaken t row.idempotencyKey = false ∧ t.insert row = some m ∧ w = true) := by
  unfold insertRow at h
  split at h
  · next htaken =>
      have heq := Prod.mk.inj (Option.some.inj h)
      exact .inl ⟨htaken, heq.1.symm, heq.2.symm⟩
  · next hfree =>
      obtain ⟨m', hins, heq⟩ := Option.map_eq_some_iff.1 h
      have heq := Prod.mk.inj heq
      exact .inr ⟨Bool.eq_false_iff.2 hfree, heq.1 ▸ hins, heq.2.symm⟩

theorem insertRows_cons {t t' : EmailTable} {row : EmailRow} {rows : List EmailRow}
    {written : List Bool} (h : insertRows t (row :: rows) = some (t', written)) :
    ∃ m w more, insertRow t row = some (m, w) ∧ insertRows m rows = some (t', more) ∧
      written = w :: more := by
  simp only [insertRows, Option.bind_eq_bind, Option.bind_eq_some_iff] at h
  obtain ⟨⟨m, w⟩, hm, ⟨u, more⟩, hu, heq⟩ := h
  have heq := Prod.mk.inj (Option.some.inj heq)
  exact ⟨m, w, more, hm, heq.1 ▸ hu, heq.2.symm⟩

theorem mem_insertRow {t m : EmailTable} {row r : EmailRow} {w : Bool}
    (h : insertRow t row = some (m, w)) (hr : r ∈ t.rows) : r ∈ m.rows := by
  obtain ⟨-, rfl, -⟩ | ⟨-, hins, -⟩ := insertRow_cases h
  · exact hr
  · exact (Table.mem_insert hins).2 (.inr hr)

theorem mem_insertRows {r : EmailRow} {rows : List EmailRow} :
    ∀ {t t' : EmailTable} {written : List Bool},
      insertRows t rows = some (t', written) → r ∈ t.rows → r ∈ t'.rows := by
  induction rows with
  | nil =>
      intro t t' written h hr
      have heq := Prod.mk.inj (Option.some.inj h)
      exact heq.1 ▸ hr
  | cons row rows ih =>
      intro t t' written h hr
      obtain ⟨m, w, more, hm, hrest, -⟩ := insertRows_cons h
      exact ih hrest (mem_insertRow hm hr)

/-- A row of the queue was in it, or is one of the rows. -/
theorem mem_of_insertRows {r : EmailRow} {rows : List EmailRow} :
    ∀ {t t' : EmailTable} {written : List Bool},
      insertRows t rows = some (t', written) → r ∈ t'.rows → r ∈ t.rows ∨ r ∈ rows := by
  induction rows with
  | nil =>
      intro t t' written h hr
      have heq := Prod.mk.inj (Option.some.inj h)
      exact .inl (heq.1 ▸ hr)
  | cons row rows ih =>
      intro t t' written h hr
      obtain ⟨m, w, more, hm, hrest, -⟩ := insertRows_cons h
      rcases ih hrest hr with hold | hnew
      · obtain ⟨-, rfl, -⟩ | ⟨-, hins, -⟩ := insertRow_cases hm
        · exact .inl hold
        · rcases (Table.mem_insert hins).1 hold with rfl | hold
          · exact .inr List.mem_cons_self
          · exact .inl hold
      · exact .inr (List.mem_cons_of_mem _ hnew)

theorem keyTaken_insert {t m : EmailTable} {row : EmailRow} {key : Option String}
    (hins : t.insert row = some m) (hfree : keyTaken t key = false)
    (hne : key ≠ row.idempotencyKey) : keyTaken m key = false := by
  rw [keyTaken, Bool.and_eq_false_iff] at hfree ⊢
  refine hfree.imp_right fun hnone => ?_
  rw [List.any_eq_false] at hnone ⊢
  intro x hx hkey
  rcases (Table.mem_insert hins).1 hx with rfl | hx
  · exact hne (of_decide_eq_true hkey).symm
  · exact hnone x hx hkey

/-- Rows with keys of their own that nobody has are all written. -/
theorem insertRows_fresh {rows : List EmailRow} :
    ∀ {t t' : EmailTable} {written : List Bool},
      insertRows t rows = some (t', written) →
      (∀ r ∈ rows, keyTaken t r.idempotencyKey = false) →
      (rows.map EmailRow.idempotencyKey).Nodup →
      written = rows.map (fun _ => true) ∧ ∀ r ∈ rows, r ∈ t'.rows := by
  induction rows with
  | nil =>
      intro t t' written h _ _
      exact ⟨(Prod.mk.inj (Option.some.inj h)).2.symm, fun r hr => absurd hr List.not_mem_nil⟩
  | cons row rows ih =>
      intro t t' written h hfree hnodup
      obtain ⟨m, w, more, hm, hrest, hwritten⟩ := insertRows_cons h
      rw [List.map_cons, List.nodup_cons] at hnodup
      rcases insertRow_cases hm with ⟨htaken, -⟩ | ⟨-, hins, hw⟩
      · rw [hfree row List.mem_cons_self] at htaken
        exact absurd htaken Bool.false_ne_true
      · have hothers : ∀ r ∈ rows, keyTaken m r.idempotencyKey = false := fun r hr =>
          keyTaken_insert hins (hfree r (List.mem_cons_of_mem _ hr)) fun hkey =>
            hnodup.1 (hkey ▸ List.mem_map_of_mem hr)
        obtain ⟨hmore, hmem⟩ := ih hrest hothers hnodup.2
        refine ⟨by rw [hwritten, hw, hmore, List.map_cons], fun r hr => ?_⟩
        rcases List.mem_cons.1 hr with rfl | hr
        · exact mem_insertRows hrest ((Table.mem_insert hins).2 (.inl rfl))
        · exact hmem r hr

/-! ## A batch whose recipients have keys of their own -/

theorem map_mapIdx_eq {α β γ : Type} {f : Nat → α → β} {g : β → γ} {h : α → γ} {l : List α}
    (heq : ∀ index, ∀ a ∈ l, g (f index a) = h a) : (l.mapIdx f).map g = l.map h := by
  apply List.ext_getElem?
  intro index
  rw [List.getElem?_map, List.getElem?_mapIdx, List.getElem?_map]
  cases ha : l[index]? with
  | none => rfl
  | some a =>
      show some (g (f index a)) = some (h a)
      rw [heq index a (List.mem_of_getElem? ha)]

def HasOwnKey (r : EmailRecipient) : Prop := ∃ key, r.idempotencyKey = some key ∧ key ≠ ""

section Batch

variable {subjectOf : String → JsValue → Locale → String} {answer : InsertAnswer}
  {t t' : EmailTable} {template : String} {recipients : List EmailRecipient}
  {options : Option SendTemplateOptions} {written : List Bool}

def batchRow (subjectOf : String → JsValue → Locale → String) (answer : InsertAnswer)
    (template : String) (options : Option SendTemplateOptions) (index : Nat)
    (r : EmailRecipient) : EmailRow :=
  insertedRow answer (templateRow subjectOf template options index r) index

theorem batchRow_key {r : EmailRecipient} (h : HasOwnKey r) (index : Nat) :
    (batchRow subjectOf answer template options index r).idempotencyKey = r.idempotencyKey := by
  obtain ⟨key, hkey, hne⟩ := h
  show (truthyKey r.idempotencyKey).or _ = r.idempotencyKey
  rw [hkey, truthyKey, Option.filter_some, if_pos (by simpa using hne), Option.some_or]

theorem sendTemplateBatch_rows
    (h : sendTemplateBatch subjectOf answer t template recipients options = .ok (t', written)) :
    insertRows t (recipients.mapIdx (batchRow subjectOf answer template options)) =
      some (t', written) := by
  unfold sendTemplateBatch enqueueMessages at h
  split at h
  · cases h
  · next u ws henqueue =>
      split at h
      · cases h
      · obtain ⟨rfl, rfl⟩ := Prod.mk.inj (Except.ok.inj h)
        unfold enqueue at henqueue
        split at henqueue
        · next hempty =>
            rw [List.isEmpty_iff, List.mapIdx_eq_nil_iff] at hempty
            rw [hempty]
            exact congrArg some (Except.ok.inj henqueue)
        · split at henqueue
          · cases henqueue
          · split at henqueue
            · cases henqueue
            · next result hrows =>
                rw [List.mapIdx_mapIdx] at hrows
                rw [← Except.ok.inj henqueue]
                exact hrows

variable (hkeys : ∀ r ∈ recipients, HasOwnKey r)
  (hsend : sendTemplateBatch subjectOf answer t template recipients options = .ok (t', written))

include hkeys hsend

/-- With keys nobody has, every row is written. -/
theorem sendTemplateBatch_fresh
    (hfree : ∀ r ∈ recipients, keyTaken t r.idempotencyKey = false)
    (hnodup : (recipients.map EmailRecipient.idempotencyKey).Nodup) :
    written = recipients.map (fun _ => true) ∧
      ∀ r ∈ recipients, ∃ m ∈ t'.rows,
        m.idempotencyKey = r.idempotencyKey ∧ m.toAddress = r.address := by
  have hrows : (recipients.mapIdx (batchRow subjectOf answer template options)).map
      EmailRow.idempotencyKey = recipients.map EmailRecipient.idempotencyKey :=
    map_mapIdx_eq fun index r hr => batchRow_key (hkeys r hr) index
  obtain ⟨hwritten, hmem⟩ := insertRows_fresh (sendTemplateBatch_rows hsend)
    (fun row hrow => by
      obtain ⟨index, hindex, rfl⟩ := List.mem_mapIdx.1 hrow
      have hr := List.getElem_mem hindex
      rw [batchRow_key (hkeys _ hr)]
      exact hfree _ hr)
    (hrows ▸ hnodup)
  refine ⟨?_, fun r hr => ?_⟩
  · rw [hwritten]
    exact map_mapIdx_eq fun _ _ _ => rfl
  · obtain ⟨index, hindex, rfl⟩ := List.getElem_of_mem hr
    exact ⟨_, hmem _ (List.mem_mapIdx.2 ⟨index, hindex, rfl⟩), batchRow_key (hkeys _ hr) index,
      rfl⟩

theorem key_of_sendTemplateBatch {m : EmailRow} (hm : m ∈ t'.rows) :
    m ∈ t.rows ∨ ∃ r ∈ recipients, m.idempotencyKey = r.idempotencyKey := by
  refine (mem_of_insertRows (sendTemplateBatch_rows hsend) hm).imp_right fun hrow => ?_
  obtain ⟨index, hindex, rfl⟩ := List.mem_mapIdx.1 hrow
  have hr := List.getElem_mem hindex
  exact ⟨_, hr, batchRow_key (hkeys _ hr) index⟩

end Batch

end CleanStack.Email

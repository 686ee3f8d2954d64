import CleanStack.Drizzle.TransactionManager
import Mathlib.Data.List.Nodup
import Mathlib.Data.List.Perm.Basic

/-!
# What becomes of the events of a unit of work

The first part reads off a piece of work, without transactions, scopes or
doom, what its pieces come to: how it settles (`verdict`), what its own scope
collects (`added`), whether a run outside every savepoint dooms the whole
(`doomed`), which such runs collected what, in the order they completed
(`collections`), what survives of the writes (`written`) and which of the
surviving events nobody drains (`unheard`).

`Work.eval_spec` says that `eval` computes exactly these, by induction on the
work; `Advances` is the part of it about the outermost run, and it composes.
The two main results follow by following one call of `complete` and `flush`.

The error a failed run is rolled back with dooms nothing where it passes: the
run that threw it has doomed the outermost run already. That is so unless the
run was inside a savepoint, whose transaction has no outermost run to doom. A
run that throws such an error on is the second way to lose events.
-/

namespace CleanStack.Drizzle

/-! ## Reading a piece of work -/

/-- How work settles; an error is the rollback of a failed run, or not. -/
inductive Verdict
  | ok
  | failed
  | threw (rollback : Bool)
  deriving DecidableEq

def Thrown.isRollback : Thrown → Bool
  | .failedResultRollback _ => true
  | _ => false

def Settled.verdict : Settled → Verdict
  | .value => .ok
  | .failedResult _ => .failed
  | .threw error => .threw error.isRollback

def Ends.verdict (caught : List Bool) : Ends → Verdict
  | .returns => .ok
  | .returnsFailed _ => .failed
  | .throws _ => .threw false
  | .rethrows i =>
      match caught[i]? with
      | some rollback => .threw rollback
      | none => .ok

/-- What a run whose work settles so throws. -/
def Verdict.ofRun : Verdict → List Bool
  | .ok => []
  | .failed => [true]
  | .threw rollback => [rollback]

/-- What a savepoint whose work settles so throws. -/
def Verdict.ofSavepoint : Verdict → List Bool
  | .threw rollback => [rollback]
  | _ => []

/-- How the work settles, with the errors `caught` of its calls at hand. -/
def Work.verdict (caught : List Bool) : Work → Verdict
  | .done ends => ends.verdict caught
  | .add _ rest => rest.verdict caught
  | .run _ work rest => rest.verdict ((work.verdict []).ofRun ++ caught)
  | .savepoint work rest => rest.verdict ((work.verdict []).ofSavepoint ++ caught)

/-- A run of the work dooms the outermost run: it returns a failed `Result`, or
throws an error that is not a rollback. -/
def Work.dooms (work : Work) : Bool :=
  work.verdict [] = .failed || work.verdict [] = .threw false

def Work.succeeds (work : Work) : Bool := work.verdict [] = .ok

/-- A savepoint of the work takes its writes back. -/
def Work.rolledBack (work : Work) : Bool := (work.verdict []).ofSavepoint ≠ []

/-- The events added in the scope of the work itself. -/
def Work.added : Work → List DomainEvent
  | .done _ => []
  | .add events rest => events ++ rest.added
  | .run _ _ rest => rest.added
  | .savepoint _ rest => rest.added

/-- A run outside every savepoint dooms the outermost run. -/
def Work.doomed : Work → Bool
  | .done _ => false
  | .add _ rest => rest.doomed
  | .run _ work rest => work.doomed || work.dooms || rest.doomed
  | .savepoint _ rest => rest.doomed

structure Collection where
  handler : Option FlushHandler
  events : List DomainEvent

/-- What the runs outside every savepoint collect, in the order they complete. -/
def Work.collections : Work → List Collection
  | .done _ => []
  | .add _ rest => rest.collections
  | .run service work rest =>
      work.collections ++
        (if work.succeeds then [⟨service.flushHandler, work.added⟩] else []) ++
        rest.collections
  | .savepoint _ rest => rest.collections

/-- The events whose writes no savepoint takes back. -/
def Work.written : Work → List DomainEvent
  | .done _ => []
  | .add events rest => events ++ rest.written
  | .run _ work rest => work.written ++ rest.written
  | .savepoint work rest => (if work.rolledBack then [] else work.written) ++ rest.written

/-- The events among them that no run collects: those added in a scope that a
savepoint opened, or a run inside a savepoint, or in the scope of a run that
does not succeed. -/
def Work.unheard : Work → List DomainEvent
  | .done _ => []
  | .add _ rest => rest.unheard
  | .run _ work rest =>
      work.unheard ++ (if work.succeeds then [] else work.added) ++ rest.unheard
  | .savepoint work rest => (if work.rolledBack then [] else work.written) ++ rest.unheard

def eventsOf (collections : List Collection) : List DomainEvent :=
  collections.flatMap Collection.events

theorem eventsOf_append (cs ds : List Collection) :
    eventsOf (cs ++ ds) = eventsOf cs ++ eventsOf ds :=
  List.flatMap_append

/-- Every surviving event is collected by the work's own scope, by a run in
it, or by nobody. -/
theorem Work.written_perm (w : Work) :
    w.written.Perm (w.added ++ eventsOf w.collections ++ w.unheard) := by
  rw [List.perm_iff_count]
  intro e
  induction w with
  | done ends => rfl
  | add events rest ih =>
      simp only [written, added, collections, unheard, List.count_append] at ih ⊢
      omega
  | run service work rest ihw ihr =>
      simp only [written, added, collections, unheard, eventsOf_append,
        List.count_append] at ihw ihr ⊢
      split
      · simp only [eventsOf, List.flatMap_cons, List.flatMap_nil, List.append_nil,
          List.count_nil] at ihw ihr ⊢
        omega
      · simp only [eventsOf, List.flatMap_nil, List.count_nil] at ihw ihr ⊢
        omega
  | savepoint work rest ihw ihr =>
      simp only [written, added, collections, unheard, List.count_append] at ihr ⊢
      omega

/-! ## The pending map -/

def eventsFor (key : Option FlushHandler) (pending : EventsByFlushHandler) :
    List DomainEvent :=
  (pending.lookup key).getD []

/-- The events a handler is owed by the collections. -/
def owed (key : Option FlushHandler) (cs : List Collection) : List DomainEvent :=
  eventsOf (cs.filter fun c => c.handler = key)

theorem eventsFor_append (key k : Option FlushHandler) (drained : List DomainEvent)
    (pending : EventsByFlushHandler) :
    eventsFor k (append key drained pending) =
      if k = key then eventsFor key pending ++ drained else eventsFor k pending := by
  induction pending with
  | nil =>
      by_cases hk : k = key
      · simp [append, eventsFor, hk]
      · have hne : (k == key) = false := beq_eq_false_iff_ne.2 hk
        simp [append, eventsFor, List.lookup_cons, hk, hne]
  | cons p rest ih =>
      obtain ⟨key₀, events⟩ := p
      by_cases hkey : key₀ = key
      · subst hkey
        by_cases hk : k = key₀
        · simp [append, eventsFor, hk]
        · have hne : (k == key₀) = false := beq_eq_false_iff_ne.2 hk
          simp [append, eventsFor, List.lookup_cons, hk, hne]
      · rw [append, if_neg hkey]
        simp only [eventsFor, List.lookup_cons] at ih ⊢
        by_cases hk : k = key₀
        · have hne : k ≠ key := fun h => hkey (hk.symm.trans h)
          simp [hk, hkey]
        · have hne : (k == key₀) = false := beq_eq_false_iff_ne.2 hk
          have hne' : (key == key₀) = false := beq_eq_false_iff_ne.2 (Ne.symm hkey)
          simp only [hne, hne']
          exact ih

/-- Keys are distinct and no key is kept without events. -/
structure Tidy (pending : EventsByFlushHandler) : Prop where
  nodup : (pending.map Prod.fst).Nodup
  nonempty : ∀ p ∈ pending, p.2 ≠ []

theorem mem_append_key {key k : Option FlushHandler} {drained : List DomainEvent}
    {pending : EventsByFlushHandler}
    (h : k ∈ (append key drained pending).map Prod.fst) :
    k = key ∨ k ∈ pending.map Prod.fst := by
  induction pending with
  | nil => simpa [append] using h
  | cons p rest ih =>
      obtain ⟨key₀, events⟩ := p
      rw [append] at h
      split at h
      · exact .inr h
      · simp only [List.map_cons, List.mem_cons] at h ⊢
        rcases h with h | h
        · exact .inr (.inl h)
        · rcases ih h with h | h
          · exact .inl h
          · exact .inr (.inr h)

theorem Tidy.append {key : Option FlushHandler} {drained : List DomainEvent}
    {pending : EventsByFlushHandler} (h : Tidy pending) (hd : drained ≠ []) :
    Tidy (append key drained pending) := by
  induction pending with
  | nil => exact ⟨List.nodup_singleton _, by simpa [Drizzle.append] using hd⟩
  | cons p rest ih =>
      obtain ⟨key₀, events⟩ := p
      have hrest : Tidy rest := ⟨(List.nodup_cons.1 h.nodup).2, fun p hp =>
        h.nonempty p (List.mem_cons_of_mem _ hp)⟩
      rw [Drizzle.append]
      split
      · refine ⟨h.nodup, fun p hp => ?_⟩
        rcases List.mem_cons.1 hp with rfl | hp
        · exact List.append_ne_nil_of_right_ne_nil _ hd
        · exact hrest.nonempty p hp
      · next hkey =>
          have ih := ih hrest
          refine ⟨List.nodup_cons.2 ⟨fun hmem => ?_, ih.nodup⟩, fun p hp => ?_⟩
          · rcases mem_append_key hmem with hk | hk
            · exact hkey hk
            · exact (List.nodup_cons.1 h.nodup).1 hk
          · rcases List.mem_cons.1 hp with rfl | hp
            · exact h.nonempty _ List.mem_cons_self
            · exact ih.nonempty p hp

def collectAll (pending : EventsByFlushHandler) (cs : List Collection) :
    EventsByFlushHandler :=
  cs.foldl (fun pending c => collect ⟨c.handler⟩ pending c.events) pending

theorem Tidy.collect {service : TransactionService} {drained : List DomainEvent}
    {pending : EventsByFlushHandler} (h : Tidy pending) :
    Tidy (collect service pending drained) := by
  unfold Drizzle.collect
  split
  · exact h
  · next hd => exact h.append (fun hnil => hd (by rw [hnil]; rfl))

theorem Tidy.collectAll {cs : List Collection} :
    ∀ {pending : EventsByFlushHandler}, Tidy pending → Tidy (collectAll pending cs) := by
  induction cs with
  | nil => exact fun h => h
  | cons c cs ih => exact fun h => ih h.collect

theorem eventsFor_collect (service : TransactionService) (k : Option FlushHandler)
    (drained : List DomainEvent) (pending : EventsByFlushHandler) :
    eventsFor k (collect service pending drained) =
      eventsFor k pending ++ owed k [⟨service.flushHandler, drained⟩] := by
  have howed : owed k [⟨service.flushHandler, drained⟩] =
      if k = service.flushHandler then drained else [] := by
    by_cases hk : k = service.flushHandler
    · simp [owed, eventsOf, hk]
    · simp [owed, eventsOf, hk, Ne.symm hk]
  rw [howed, collect]
  split
  · next hd =>
      rw [List.length_eq_zero_iff.1 hd]
      split <;> rw [List.append_nil]
  · rw [eventsFor_append]
    split
    · next hk => rw [hk]
    · rw [List.append_nil]

theorem eventsFor_collectAll (k : Option FlushHandler) (cs : List Collection) :
    ∀ pending : EventsByFlushHandler,
      eventsFor k (collectAll pending cs) = eventsFor k pending ++ owed k cs := by
  induction cs with
  | nil => intro pending; simp [collectAll, owed, eventsOf]
  | cons c cs ih =>
      intro pending
      have hcons : owed k (c :: cs) = owed k [c] ++ owed k cs := by
        simp only [owed, ← eventsOf_append, ← List.filter_append, List.singleton_append]
      have hfold : collectAll pending (c :: cs) =
          collectAll (collect ⟨c.handler⟩ pending c.events) cs := rfl
      rw [hfold, ih, eventsFor_collect, hcons, List.append_assoc]

/-! ## What evaluating work does -/

/-- Transactions yet to be opened have no outermost run. -/
def Fresh (s : Session) : Prop := ∀ id, s.nextTx ≤ id → s.outermostRuns id = none

/-- From `s` to `t` the outermost run of `tx` was doomed if `doomed`, and has
collected `cs` if it was not; nothing else happened to any outermost run. -/
structure Advances (tx : Transaction) (doomed : Bool) (cs : List Collection)
    (s t : Session) : Prop where
  others : ∀ id, id ≠ tx → t.outermostRuns id = s.outermostRuns id
  absent : s.outermostRuns tx = none → t.outermostRuns tx = none
  present : ∀ o, s.outermostRuns tx = some o → ∃ o', t.outermostRuns tx = some o' ∧
    o'.doom.isSome = (o.doom.isSome || doomed) ∧
    (doomed = false → o'.pending = collectAll o.pending cs)

theorem Advances.of_eq {tx : Transaction} {s t : Session}
    (h : t.outermostRuns = s.outermostRuns) : Advances tx false [] s t where
  others := by intro id _; rw [h]
  absent := by intro hn; rw [h]; exact hn
  present := by
    intro o ho
    rw [h]
    exact ⟨o, ho, by simp, fun _ => rfl⟩

theorem Advances.trans {tx : Transaction} {d e : Bool} {cs ds : List Collection}
    {s t u : Session} (h : Advances tx d cs s t) (h' : Advances tx e ds t u) :
    Advances tx (d || e) (cs ++ ds) s u where
  others := fun id hid => (h'.others id hid).trans (h.others id hid)
  absent := fun hn => h'.absent (h.absent hn)
  present := by
    intro o ho
    obtain ⟨o₁, ho₁, hd₁, hp₁⟩ := h.present o ho
    obtain ⟨o₂, ho₂, hd₂, hp₂⟩ := h'.present o₁ ho₁
    refine ⟨o₂, ho₂, by rw [hd₂, hd₁, Bool.or_assoc], fun hde => ?_⟩
    obtain ⟨hd, he⟩ := Bool.or_eq_false_iff.1 hde
    rw [hp₂ he, hp₁ hd]
    exact (List.foldl_append).symm

theorem Advances.doom {tx : Transaction} {cs : List Collection} (s : Session)
    (cause : Doom) : Advances tx true cs s (doom s tx cause) := by
  unfold Drizzle.doom
  cases ho : s.outermostRuns tx with
  | none =>
      exact ⟨fun _ _ => rfl, fun h => h, fun o h => nomatch ho.symm.trans h⟩
  | some o =>
      dsimp only
      split
      · next hd =>
          refine ⟨fun _ _ => rfl, fun h => h, fun o' ho' => ⟨o', ho', ?_, nofun⟩⟩
          rw [ho] at ho'
          cases ho'
          rw [hd, Bool.or_true]
      · refine ⟨fun id hid => if_neg hid, fun h => (nomatch ho.symm.trans h), ?_⟩
        intro o' ho'
        refine ⟨_, if_pos rfl, ?_, nofun⟩
        rw [Bool.or_true]
        rfl

theorem Advances.collect {tx : Transaction} {s : Session} {o : OutermostRun}
    (ho : s.outermostRuns tx = some o) (service : TransactionService)
    (drained : List DomainEvent) :
    Advances tx false [⟨service.flushHandler, drained⟩] s
      (s.setRun tx { o with pending := collect service o.pending drained }) where
  others := fun id hid => if_neg hid
  absent := fun hn => nomatch ho.symm.trans hn
  present := by
    intro o' ho'
    rw [ho] at ho'
    cases ho'
    exact ⟨_, if_pos rfl, by simp, fun _ => rfl⟩

theorem Advances.no_outermost {tx : Transaction} {cs : List Collection} {s : Session}
    (ho : s.outermostRuns tx = none) : Advances tx false cs s s where
  others := fun _ _ => rfl
  absent := fun h => h
  present := by
    intro o h
    rw [ho] at h
    cases h

/-- What `runNested` makes of work that settled with `settled`. -/
theorem runNested_spec (service : TransactionService) (tx : Transaction)
    (drained : List DomainEvent) (settled : Settled) (s : Session) :
    let out := runNested service tx drained settled s
    out.1.journal = s.journal ∧ out.1.nextTx = s.nextTx ∧
    out.2.thrown.map Thrown.isRollback = settled.verdict.ofRun ∧
    Advances tx (settled.verdict = .failed || settled.verdict = .threw false)
      (if settled.verdict = .ok then [⟨service.flushHandler, drained⟩] else []) s out.1 := by
  have hdoom : ∀ cause, (doom s tx cause).journal = s.journal ∧
      (doom s tx cause).nextTx = s.nextTx := by
    intro cause
    unfold doom
    split
    · exact ⟨rfl, rfl⟩
    · split <;> exact ⟨rfl, rfl⟩
  cases settled with
  | failedResult result =>
      exact ⟨(hdoom _).1, (hdoom _).2, rfl, Advances.doom s _⟩
  | value =>
      cases ho : s.outermostRuns tx with
      | none =>
          simp only [runNested, ho]
          exact ⟨trivial, trivial, rfl, Advances.no_outermost ho⟩
      | some o =>
          simp only [runNested, ho]
          exact ⟨rfl, rfl, rfl, Advances.collect ho service drained⟩
  | threw error =>
      cases error with
      | failedResultRollback result =>
          exact ⟨rfl, rfl, rfl, Advances.of_eq rfl⟩
      | eventsWithoutOutbox events | error message =>
          exact ⟨(hdoom _).1, (hdoom _).2, rfl, Advances.doom s _⟩

/-- What evaluating work does, in terms of what the work amounts to. -/
structure Evaluates (w : Work) (tx : Transaction) (events : List DomainEvent)
    (caught : List Thrown) (s : Session)
    (out : Session × List DomainEvent × Settled) : Prop where
  events_eq : out.2.1 = events ++ w.added
  verdict : out.2.2.verdict = w.verdict (caught.map Thrown.isRollback)
  journal : out.1.journal = s.journal ++ w.written.map .wrote
  nextTx : s.nextTx ≤ out.1.nextTx
  fresh : Fresh out.1
  advances : Advances tx w.doomed w.collections s out.1

theorem Settled.thrown_ofSavepoint (settled : Settled) :
    settled.thrown.map Thrown.isRollback = settled.verdict.ofSavepoint := by
  cases settled <;> rfl

theorem leaveSavepoint_journal (before : Session) (settled : Settled) (s : Session) :
    (leaveSavepoint before settled s).journal =
      if settled.verdict.ofSavepoint ≠ [] then before.journal else s.journal := by
  cases settled <;> rfl

theorem leaveSavepoint_rest (before : Session) (settled : Settled) (s : Session) :
    (leaveSavepoint before settled s).nextTx = s.nextTx ∧
      (leaveSavepoint before settled s).outermostRuns = s.outermostRuns := by
  cases settled <;> exact ⟨rfl, rfl⟩

theorem Fresh.advances {tx : Transaction} {d : Bool} {cs : List Collection}
    {s t : Session} (hs : Fresh s) (htx : tx < s.nextTx) (hle : s.nextTx ≤ t.nextTx)
    (h : Advances tx d cs s t) : Fresh t := by
  intro id hid
  have hlt : tx < id := Nat.lt_of_lt_of_le htx (Nat.le_trans hle hid)
  rw [h.others id (Nat.ne_of_gt hlt)]
  exact hs id (Nat.le_trans hle hid)

theorem Work.eval_spec (w : Work) :
    ∀ (tx : Transaction) (events : List DomainEvent) (caught : List Thrown)
      (s : Session), Fresh s → tx < s.nextTx →
      Evaluates w tx events caught s (w.eval tx events caught s) := by
  induction w with
  | done ends =>
      intro tx events caught s hfresh htx
      refine ⟨(List.append_nil _).symm, ?_, (List.append_nil _).symm, Nat.le_refl _,
        hfresh, Advances.of_eq rfl⟩
      cases ends with
      | rethrows i =>
          simp only [eval, Ends.settle, Work.verdict, Ends.verdict, List.getElem?_map]
          cases caught[i]? <;> rfl
      | _ => rfl
  | add added rest ih =>
      intro tx events caught s hfresh htx
      have h := ih tx (events ++ added) caught
        { s with journal := s.journal ++ added.map .wrote } hfresh htx
      refine ⟨?_, h.verdict, ?_, h.nextTx, h.fresh, ?_⟩
      · rw [eval, h.events_eq, Work.added, List.append_assoc]
      · rw [eval, h.journal, Work.written, List.map_append, List.append_assoc]
      · have h₀ : Advances tx false [] s
            { s with journal := s.journal ++ added.map .wrote } := Advances.of_eq rfl
        exact h₀.trans h.advances
  | run service work rest ihw ihr =>
      intro tx events caught s hfresh htx
      have hw := ihw tx [] [] s hfresh htx
      have hn := runNested_spec service tx (work.eval tx [] [] s).2.1
        (work.eval tx [] [] s).2.2 (work.eval tx [] [] s).1
      simp only [eval]
      generalize work.eval tx [] [] s = inner at hw hn ⊢
      obtain ⟨s₁, drained, settled⟩ := inner
      obtain ⟨hevents, hverdict, hjournal₁, hle₁, hfresh₁, hadv₁⟩ := hw
      dsimp only at hevents hverdict hjournal₁ hle₁ hfresh₁ hadv₁ hn ⊢
      generalize runNested service tx drained settled s₁ = nested at hn ⊢
      obtain ⟨s₂, thrown⟩ := nested
      obtain ⟨hjournal₂, hnext₂, hthrown, hadv₂⟩ := hn
      dsimp only at hjournal₂ hnext₂ hthrown hadv₂ ⊢
      rw [List.nil_append] at hevents
      rw [List.map_nil] at hverdict
      rw [hverdict, hevents] at hadv₂
      rw [hverdict] at hthrown
      have hadv := hadv₁.trans hadv₂
      have hle₂ : s.nextTx ≤ s₂.nextTx := hnext₂ ▸ hle₁
      have h := ihr tx events (thrown.thrown ++ caught) s₂
        (hfresh.advances htx hle₂ hadv) (Nat.lt_of_lt_of_le htx hle₂)
      refine ⟨h.events_eq, ?_, ?_, Nat.le_trans hle₂ h.nextTx, h.fresh, ?_⟩
      · rw [h.verdict, List.map_append, hthrown, Work.verdict]
      · rw [h.journal, hjournal₂, hjournal₁, Work.written, List.map_append,
          List.append_assoc]
      · simpa [Work.doomed, Work.dooms, Work.collections, Work.succeeds] using
          hadv.trans h.advances
  | savepoint work rest ihw ihr =>
      intro tx events caught s hfresh htx
      have hfresh₀ : Fresh { s with nextTx := s.nextTx + 1 } := fun id hid =>
        hfresh id (Nat.le_of_succ_le hid)
      have hw := ihw s.nextTx [] [] { s with nextTx := s.nextTx + 1 } hfresh₀
        (Nat.lt_succ_self _)
      simp only [eval]
      generalize work.eval s.nextTx [] [] { s with nextTx := s.nextTx + 1 } = inner at hw ⊢
      obtain ⟨s₁, drained, settled⟩ := inner
      obtain ⟨-, hverdict, hjournal₁, hle₁, hfresh₁, hadv₁⟩ := hw
      dsimp only at hverdict hjournal₁ hle₁ hfresh₁ hadv₁ ⊢
      rw [List.map_nil] at hverdict
      -- the new transaction has no outermost run, so no outermost run changed
      have hruns : (leaveSavepoint s settled s₁).outermostRuns = s.outermostRuns := by
        rw [(leaveSavepoint_rest s settled s₁).2]
        funext id
        by_cases hid : id = s.nextTx
        · rw [hid, hadv₁.absent (hfresh s.nextTx (Nat.le_refl _))]
          exact (hfresh s.nextTx (Nat.le_refl _)).symm
        · exact hadv₁.others id hid
      have hle₂ : s.nextTx ≤ (leaveSavepoint s settled s₁).nextTx := by
        rw [(leaveSavepoint_rest s settled s₁).1]
        exact Nat.le_of_succ_le hle₁
      have hfresh₂ : Fresh (leaveSavepoint s settled s₁) := fun id hid =>
        hruns ▸ hfresh id (Nat.le_trans hle₂ hid)
      have h := ihr tx events (settled.thrown ++ caught) (leaveSavepoint s settled s₁)
        hfresh₂ (Nat.lt_of_lt_of_le htx hle₂)
      refine ⟨h.events_eq, ?_, ?_, Nat.le_trans hle₂ h.nextTx, h.fresh, ?_⟩
      · rw [h.verdict, List.map_append, Settled.thrown_ofSavepoint, hverdict, Work.verdict]
      · rw [h.journal, leaveSavepoint_journal, hverdict, Work.written, Work.rolledBack]
        split
        · next hback => simp [hback]
        · next hback => simp [hback, hjournal₁]
      · have h₀ : Advances tx false [] s (leaveSavepoint s settled s₁) :=
          Advances.of_eq hruns
        exact h₀.trans h.advances

/-! ## Flushing -/

theorem eventsFor_of_mem {pending : EventsByFlushHandler}
    (hn : (pending.map Prod.fst).Nodup) {k : Option FlushHandler}
    {events : List DomainEvent} (hp : (k, events) ∈ pending) :
    eventsFor k pending = events := by
  induction pending with
  | nil => cases hp
  | cons p rest ih =>
      obtain ⟨key₀, events₀⟩ := p
      obtain ⟨hnot, hrest⟩ := List.nodup_cons.1 hn
      rcases List.mem_cons.1 hp with heq | hp
      · cases heq
        simp [eventsFor]
      · have hne : (k == key₀) = false := beq_eq_false_iff_ne.2 fun hk =>
          hnot (List.mem_map.2 ⟨_, hp, hk⟩)
        rw [eventsFor, List.lookup_cons, hne]
        exact ih hrest hp

theorem mem_of_eventsFor {pending : EventsByFlushHandler} {k : Option FlushHandler}
    (h : eventsFor k pending ≠ []) : (k, eventsFor k pending) ∈ pending := by
  induction pending with
  | nil => exact absurd rfl h
  | cons p rest ih =>
      obtain ⟨key₀, events₀⟩ := p
      by_cases hk : k = key₀
      · subst hk
        simp [eventsFor]
      · have hne : (k == key₀) = false := beq_eq_false_iff_ne.2 hk
        have heq : eventsFor k ((key₀, events₀) :: rest) = eventsFor k rest := by
          rw [eventsFor, List.lookup_cons, hne]
          rfl
        rw [heq] at h ⊢
        exact List.mem_cons_of_mem _ (ih h)

/-- Every entry of the pending map has a handler, and the handler accepts it. -/
def Accepted (flushes : FlushOutcome) (pending : EventsByFlushHandler) : Prop :=
  ∀ p ∈ pending, ∃ handler, p.1 = some handler ∧ flushes handler p.2 = none

def entriesOf (pending : EventsByFlushHandler) : List Entry :=
  pending.filterMap fun p => p.1.map fun handler => .flushed handler p.2

theorem flush_accepted {flushes : FlushOutcome} {pending : EventsByFlushHandler}
    (hne : ∀ p ∈ pending, p.2 ≠ []) (h : Accepted flushes pending) :
    flush flushes pending = (entriesOf pending, none) := by
  induction pending with
  | nil => rfl
  | cons p rest ih =>
      obtain ⟨key, events⟩ := p
      obtain ⟨handler, hkey, hok⟩ := h _ List.mem_cons_self
      have hevents : events.length ≠ 0 := fun h0 =>
        hne _ List.mem_cons_self (List.length_eq_zero_iff.1 h0)
      have ih := ih (fun p hp => hne p (List.mem_cons_of_mem _ hp))
        fun p hp => h p (List.mem_cons_of_mem _ hp)
      cases hkey
      simp only [flush, if_neg hevents, hok, ih]
      rfl

/-- A flush that some entry spoils throws, and not the rollback of a run. -/
theorem flush_refused {flushes : FlushOutcome} {pending : EventsByFlushHandler}
    (hne : ∀ p ∈ pending, p.2 ≠ []) (h : ¬ Accepted flushes pending) :
    ∃ error, (flush flushes pending).2 = some error ∧ error.isRollback = false := by
  induction pending with
  | nil => exact absurd (fun p hp => nomatch hp) h
  | cons p rest ih =>
      obtain ⟨key, events⟩ := p
      have hevents : events.length ≠ 0 := fun h0 =>
        hne _ List.mem_cons_self (List.length_eq_zero_iff.1 h0)
      cases key with
      | none =>
          simp only [flush, if_neg hevents]
          exact ⟨.eventsWithoutOutbox events, rfl, rfl⟩
      | some handler =>
          cases hok : flushes handler events with
          | some message =>
              simp only [flush, if_neg hevents, hok]
              exact ⟨.error message, rfl, rfl⟩
          | none =>
              simp only [flush, if_neg hevents, hok]
              refine ih (fun p hp => hne p (List.mem_cons_of_mem _ hp)) fun hrest => h ?_
              intro p hp
              rcases List.mem_cons.1 hp with rfl | hp
              · exact ⟨handler, rfl, hok⟩
              · exact hrest p hp

/-- Each flush handler can be given what the collections owe it, and nothing is
owed to a run without one. -/
def CanFlush (flushes : FlushOutcome) (cs : List Collection) : Prop :=
  owed none cs = [] ∧
    ∀ handler, owed (some handler) cs ≠ [] →
      flushes handler (owed (some handler) cs) = none

theorem tidy_collected (cs : List Collection) : Tidy (collectAll [] cs) :=
  Tidy.collectAll ⟨List.nodup_nil, nofun⟩

theorem eventsFor_collected (k : Option FlushHandler) (cs : List Collection) :
    eventsFor k (collectAll [] cs) = owed k cs := by
  rw [eventsFor_collectAll]
  rfl

theorem accepted_iff_canFlush (flushes : FlushOutcome) (cs : List Collection) :
    Accepted flushes (collectAll [] cs) ↔ CanFlush flushes cs := by
  have htidy := tidy_collected cs
  constructor
  · intro h
    constructor
    · by_contra hne
      rw [← eventsFor_collected none cs] at hne
      obtain ⟨handler, hkey, -⟩ := h _ (mem_of_eventsFor hne)
      cases hkey
    · intro handler hne
      rw [← eventsFor_collected] at hne ⊢
      obtain ⟨handler', hkey, hok⟩ := h _ (mem_of_eventsFor hne)
      cases hkey
      exact hok
  · rintro ⟨hnone, hall⟩ ⟨key, events⟩ hp
    have hevents := eventsFor_of_mem htidy.nodup hp
    rw [eventsFor_collected] at hevents
    have hne : owed key cs ≠ [] := hevents ▸ htidy.nonempty _ hp
    cases key with
    | none => exact absurd hnone hne
    | some handler => exact ⟨handler, rfl, hevents ▸ hall handler hne⟩

/-- What the entries of a journal hand to one flush handler, call by call. -/
def flushCalls (handler : FlushHandler) (journal : List Entry) :
    List (List DomainEvent) :=
  journal.filterMap fun
    | .flushed h events => if h = handler then some events else none
    | .wrote _ => none

/-- The events whose writes the journal holds. -/
def writtenIn (journal : List Entry) : List DomainEvent :=
  journal.filterMap fun
    | .wrote event => some event
    | .flushed _ _ => none

/-- The events the journal's flushes hand over. -/
def flushedIn (journal : List Entry) : List DomainEvent :=
  journal.flatMap fun
    | .flushed _ events => events
    | .wrote _ => []

theorem flushCalls_entriesOf {pending : EventsByFlushHandler} (h : Tidy pending)
    (handler : FlushHandler) :
    flushCalls handler (entriesOf pending) =
      if eventsFor (some handler) pending = [] then []
      else [eventsFor (some handler) pending] := by
  induction pending with
  | nil => rfl
  | cons p rest ih =>
      obtain ⟨key, events⟩ := p
      obtain ⟨hnot, hn⟩ := List.nodup_cons.1 h.nodup
      have hrest : Tidy rest := ⟨hn, fun p hp => h.nonempty p (List.mem_cons_of_mem _ hp)⟩
      have ih := ih hrest
      by_cases hkey : key = some handler
      · subst hkey
        have hevents : events ≠ [] := h.nonempty _ List.mem_cons_self
        have hnone : eventsFor (some handler) rest = [] := by
          by_contra hne
          exact hnot (List.mem_map.2 ⟨_, mem_of_eventsFor hne, rfl⟩)
        rw [hnone, if_pos rfl] at ih
        simp only [flushCalls, entriesOf] at ih ⊢
        simp [eventsFor, hevents, ih]
      · have hne : (some handler == key) = false := beq_eq_false_iff_ne.2 (Ne.symm hkey)
        have hfor : eventsFor (some handler) ((key, events) :: rest) =
            eventsFor (some handler) rest := by
          rw [eventsFor, List.lookup_cons, hne]
          rfl
        rw [hfor, ← ih]
        cases key with
        | none => rfl
        | some other =>
            have hother : other ≠ handler := fun ho => hkey (congrArg some ho)
            simp [flushCalls, entriesOf, hother]

theorem count_append_pending (key : Option FlushHandler) (drained : List DomainEvent)
    (pending : EventsByFlushHandler) (e : DomainEvent) :
    ((append key drained pending).flatMap Prod.snd).count e =
      (pending.flatMap Prod.snd).count e + drained.count e := by
  induction pending with
  | nil => simp [append]
  | cons p rest ih =>
      rw [append]
      split
      · simp only [List.flatMap_cons, List.count_append]
        omega
      · simp only [List.flatMap_cons, List.count_append, ih]
        omega

theorem count_collectAll (cs : List Collection) (e : DomainEvent) :
    ∀ pending : EventsByFlushHandler,
      ((collectAll pending cs).flatMap Prod.snd).count e =
        (pending.flatMap Prod.snd).count e + (eventsOf cs).count e := by
  induction cs with
  | nil => intro pending; simp [collectAll, eventsOf]
  | cons c cs ih =>
      intro pending
      have hfold : collectAll pending (c :: cs) =
          collectAll (collect ⟨c.handler⟩ pending c.events) cs := rfl
      have hcollect : ((collect ⟨c.handler⟩ pending c.events).flatMap Prod.snd).count e =
          (pending.flatMap Prod.snd).count e + c.events.count e := by
        rw [collect]
        split
        · next hd =>
            rw [List.length_eq_zero_iff.1 hd, List.count_nil, Nat.add_zero]
        · exact count_append_pending _ _ _ _
      have hcs : eventsOf (c :: cs) = c.events ++ eventsOf cs := List.flatMap_cons
      rw [hfold, ih, hcollect, hcs, List.count_append]
      omega

theorem flushedIn_entriesOf {flushes : FlushOutcome} {pending : EventsByFlushHandler}
    (h : Accepted flushes pending) :
    flushedIn (entriesOf pending) = pending.flatMap Prod.snd := by
  induction pending with
  | nil => rfl
  | cons p rest ih =>
      obtain ⟨key, events⟩ := p
      obtain ⟨handler, hkey, -⟩ := h _ List.mem_cons_self
      have ih := ih fun p hp => h p (List.mem_cons_of_mem _ hp)
      cases hkey
      simp only [flushedIn, entriesOf] at ih ⊢
      simp [ih]

/-! ## The outermost run -/

section Outermost

variable (flushes : FlushOutcome) (service : TransactionService) (w : Work)

/-- What an outermost run has collected when it completes. -/
def collected : List Collection := w.collections ++ [⟨service.flushHandler, w.added⟩]

/-- The session an outermost run leaves when its work is done, and its pending
events. -/
theorem complete_spec :
    ∃ s drained settled o,
      w.eval 0 [] [] (noTransaction.setRun 0 ⟨none, []⟩) = (s, drained, settled) ∧
      s.outermostRuns 0 = some o ∧ settled.verdict = w.verdict [] ∧
      s.journal = w.written.map .wrote ∧ o.doom.isSome = w.doomed ∧
      (w.doomed = false → collect service o.pending drained =
        collectAll [] (collected service w)) := by
  have hfresh : Fresh (noTransaction.setRun 0 ⟨none, []⟩) := fun id hid =>
    if_neg (Nat.ne_of_gt hid)
  have h := w.eval_spec 0 [] [] _ hfresh Nat.one_pos
  obtain ⟨o, ho, hdoom, hpending⟩ := h.advances.present ⟨none, []⟩ rfl
  refine ⟨_, _, _, o, rfl, ho, h.verdict, h.journal, by simpa using hdoom, fun hd => ?_⟩
  rw [h.events_eq, hpending hd, List.nil_append, collected, collectAll, collectAll,
    List.foldl_append]
  rfl

/-- A transaction whose callback throws is rolled back, and the call does not
return a value. -/
theorem openTransaction_of_throws {s : Session} {error : Thrown}
    (h : complete flushes service 0 noTransaction w = (s, .threw error)) :
    (openTransaction flushes service w).committed = none ∧
      (openTransaction flushes service w).settled ≠ .value := by
  simp only [openTransaction, h, transaction]
  cases error <;> exact ⟨rfl, nofun⟩

theorem complete_of_fails (h : w.succeeds = false ∨ w.doomed = true) :
    ∃ s error, complete flushes service 0 noTransaction w = (s, .threw error) := by
  obtain ⟨s, drained, settled, o, heval, ho, hverdict, -, hdoom, -⟩ :=
    complete_spec service w
  simp only [complete, heval, ho]
  cases settled with
  | threw error => exact ⟨_, _, rfl⟩
  | failedResult result => exact ⟨_, _, rfl⟩
  | value =>
      have hsucceeds : w.succeeds = true := by
        rw [Work.succeeds, ← hverdict]
        rfl
      have hdoomed : w.doomed = true := by
        rcases h with h | h
        · rw [hsucceeds] at h
          cases h
        · exact h
      rw [hdoomed] at hdoom
      obtain ⟨cause, pending⟩ := o
      cases cause with
      | none => cases hdoom
      | some cause => cases cause <;> exact ⟨_, _, rfl⟩

theorem complete_of_succeeds (hok : w.succeeds = true) (hd : w.doomed = false) :
    ∃ s : Session, s.journal = w.written.map .wrote ∧
      complete flushes service 0 noTransaction w =
        let (entries, error) := flush flushes (collectAll [] (collected service w))
        ({ s with journal := s.journal ++ entries },
          match error with
          | some error => .threw error
          | none => .value) := by
  obtain ⟨s, drained, settled, o, heval, ho, hverdict, hjournal, hdoom, hpending⟩ :=
    complete_spec service w
  refine ⟨s, hjournal, ?_⟩
  simp only [complete, heval, ho]
  cases settled with
  | threw error =>
      rw [Work.succeeds, ← hverdict] at hok
      cases hok
  | failedResult result =>
      rw [Work.succeeds, ← hverdict] at hok
      cases hok
  | value =>
      rw [hd] at hdoom
      obtain ⟨cause, pending⟩ := o
      cases cause with
      | some cause => cases hdoom
      | none =>
          have hpending := hpending hd
          dsimp only at hpending ⊢
          exact hpending ▸ rfl

theorem openTransaction_of_refused (hok : w.succeeds = true) (hd : w.doomed = false)
    (h : ¬ CanFlush flushes (collected service w)) :
    (openTransaction flushes service w).committed = none ∧
      ∃ error, (openTransaction flushes service w).settled = .threw error := by
  obtain ⟨s, -, hcomplete⟩ := complete_of_succeeds flushes service w hok hd
  obtain ⟨error, herror, hkind⟩ := flush_refused
    (tidy_collected (collected service w)).nonempty
    (fun hacc => h ((accepted_iff_canFlush _ _).1 hacc))
  simp only [openTransaction, hcomplete, herror, transaction]
  cases error with
  | failedResultRollback result => cases hkind
  | eventsWithoutOutbox events => exact ⟨rfl, _, rfl⟩
  | error message => exact ⟨rfl, _, rfl⟩

theorem openTransaction_of_flushed (hok : w.succeeds = true) (hd : w.doomed = false)
    (h : CanFlush flushes (collected service w)) :
    openTransaction flushes service w =
      ⟨.value, some (w.written.map .wrote ++
        entriesOf (collectAll [] (collected service w)))⟩ := by
  obtain ⟨s, hjournal, hcomplete⟩ := complete_of_succeeds flushes service w hok hd
  have hflush := flush_accepted (tidy_collected (collected service w)).nonempty
    ((accepted_iff_canFlush flushes _).2 h)
  simp only [openTransaction, hcomplete, hflush, transaction, hjournal]

end Outermost

/-! ## Nested runs -/

/-- No savepoint anywhere in the work. -/
def Work.savepointFree : Work → Bool
  | .done _ => true
  | .add _ rest => rest.savepointFree
  | .run _ work rest => work.savepointFree && rest.savepointFree
  | .savepoint _ _ => false

/-- A run the work makes, at any depth, throws or returns a failed `Result`. -/
def Work.nestedFailed : Work → Bool
  | .done _ => false
  | .add _ rest => rest.nestedFailed
  | .run _ work rest => work.nestedFailed || !work.succeeds || rest.nestedFailed
  | .savepoint work rest => work.nestedFailed || rest.nestedFailed

def Work.someRunFailed (w : Work) : Bool := !w.succeeds || w.nestedFailed

/-- Without savepoints a rollback that reaches the end of the work comes from a
run that doomed the outermost one, unless it was there to begin with. -/
theorem Work.doomed_of_rollback (w : Work) :
    ∀ caught, w.savepointFree = true → w.verdict caught = .threw true →
      true ∈ caught ∨ w.doomed = true := by
  induction w with
  | done ends =>
      intro caught _ h
      cases ends with
      | rethrows i =>
          simp only [verdict, Ends.verdict] at h
          split at h
          · next rollback hi =>
              cases h
              exact .inl (List.mem_of_getElem? hi)
          · cases h
      | _ => cases h
  | add events rest ih =>
      intro caught hfree h
      exact ih caught hfree h
  | run service work rest ihw ihr =>
      intro caught hfree h
      obtain ⟨hfreew, hfreer⟩ := Bool.and_eq_true_iff.1 hfree
      simp only [doomed, Bool.or_eq_true]
      rcases ihr _ hfreer h with hmem | hd
      · rcases List.mem_append.1 hmem with hmem | hmem
        · cases hv : work.verdict [] with
          | ok => rw [hv] at hmem; cases hmem
          | failed => exact .inr (.inl (.inr (by simp [dooms, hv])))
          | threw rollback =>
              rw [hv] at hmem
              have hroll : rollback = true := (List.mem_singleton.1 hmem).symm
              rw [hroll] at hv
              rcases ihw [] hfreew hv with hnil | hd
              · cases hnil
              · exact .inr (.inl (.inl hd))
        · exact .inl hmem
      · exact .inr (.inr hd)
  | savepoint work rest ihw ihr =>
      intro caught hfree h
      cases hfree

theorem Work.dooms_of_not_succeeds {w : Work} (hfree : w.savepointFree = true)
    (h : w.succeeds = false) : (w.doomed || w.dooms) = true := by
  rw [Bool.or_eq_true]
  cases hv : w.verdict [] with
  | ok =>
      rw [succeeds, hv] at h
      cases h
  | failed => exact .inr (by simp [dooms, hv])
  | threw rollback =>
      cases rollback with
      | false => exact .inr (by simp [dooms, hv])
      | true =>
          rcases w.doomed_of_rollback [] hfree hv with hnil | hd
          · cases hnil
          · exact .inl hd

theorem Work.nestedFailed_eq_doomed {w : Work} (hfree : w.savepointFree = true) :
    w.nestedFailed = w.doomed := by
  induction w with
  | done ends => rfl
  | add events rest ih => exact ih hfree
  | run service work rest ihw ihr =>
      obtain ⟨hfreew, hfreer⟩ := Bool.and_eq_true_iff.1 hfree
      rw [nestedFailed, doomed, ihw hfreew, ihr hfreer]
      congr 1
      cases hs : work.succeeds with
      | false => rw [dooms_of_not_succeeds hfreew hs, Bool.not_false, Bool.or_true]
      | true =>
          have hv : work.verdict [] = .ok := by simpa [succeeds] using hs
          simp [dooms, hv]
  | savepoint work rest ihw ihr => cases hfree

/-- Nested runs: a failure anywhere leaves nothing committed; otherwise a
commit hands each flush handler, in one call, the events the runs of its
services collected, run by run in the order they completed, and events owed to
no handler fail the outermost run. -/
theorem nested_runs_flushed_once (flushes : FlushOutcome) (service : TransactionService)
    (w : Work) (hfree : w.savepointFree = true) :
    let out := openTransaction flushes service w
    let cs := collected service w
    (w.someRunFailed = true → out.committed = none ∧ out.settled ≠ .value) ∧
    (w.someRunFailed = false →
      (owed none cs ≠ [] → out.committed = none ∧ ∃ error, out.settled = .threw error) ∧
      (∀ journal, out.committed = some journal →
        out.settled = .value ∧ ∀ handler, flushCalls handler journal =
          if owed (some handler) cs = [] then [] else [owed (some handler) cs]) ∧
      (owed none cs = [] → (∀ handler, owed (some handler) cs ≠ [] →
        flushes handler (owed (some handler) cs) = none) → out.committed.isSome = true)) := by
  dsimp only
  constructor
  · intro hfailed
    have hfails : w.succeeds = false ∨ w.doomed = true := by
      rw [Work.someRunFailed, Work.nestedFailed_eq_doomed hfree, Bool.or_eq_true,
        Bool.not_eq_true'] at hfailed
      exact hfailed
    obtain ⟨s, error, hthrow⟩ := complete_of_fails flushes service w hfails
    exact openTransaction_of_throws flushes service w hthrow
  · intro hfailed
    rw [Work.someRunFailed, Work.nestedFailed_eq_doomed hfree, Bool.or_eq_false_iff] at hfailed
    obtain ⟨hok, hd⟩ := hfailed
    have hok : w.succeeds = true := by simpa using hok
    refine ⟨fun hnone => ?_, fun journal hj => ?_, fun hnone hall => ?_⟩
    · exact openTransaction_of_refused flushes service w hok hd fun h => hnone h.1
    · by_cases hcan : CanFlush flushes (collected service w)
      · rw [openTransaction_of_flushed flushes service w hok hd hcan] at hj ⊢
        cases hj
        refine ⟨rfl, fun handler => ?_⟩
        have hwrote : flushCalls handler (w.written.map .wrote) = [] := by
          simp [flushCalls]
        rw [flushCalls, List.filterMap_append, ← flushCalls, ← flushCalls, hwrote,
          List.nil_append, flushCalls_entriesOf (tidy_collected _), eventsFor_collected]
      · rw [(openTransaction_of_refused flushes service w hok hd hcan).1] at hj
        cases hj
    · rw [openTransaction_of_flushed flushes service w hok hd ⟨hnone, hall⟩]
      rfl

def orderCreated : DomainEvent := ⟨"order.created", "o1"⟩
def mailQueued : DomainEvent := ⟨"mail.queued", "m1"⟩
def stockTaken : DomainEvent := ⟨"stock.taken", "s1"⟩

/-- A run that adds an event and makes two more runs, one of another service. -/
def checkout : Work :=
  .add [orderCreated] <|
  .run ⟨some 2⟩ (.add [mailQueued] (.done .returns)) <|
  .run ⟨some 1⟩ (.add [stockTaken] (.done .returns)) <|
  .done .returns

theorem nested_runs_checkout :
    ∃ journal, (openTransaction (fun _ _ => none) ⟨some 1⟩ checkout).committed =
        some journal ∧ flushCalls 1 journal = [[stockTaken, orderCreated]] ∧
      flushCalls 2 journal = [[mailQueued]] := by
  obtain ⟨-, hflushed, hcommits⟩ :=
    (nested_runs_flushed_once (fun _ _ => none) ⟨some 1⟩ checkout rfl).2 rfl
  obtain ⟨journal, hj⟩ := Option.isSome_iff_exists.1 (hcommits rfl fun _ _ => rfl)
  obtain ⟨-, hcalls⟩ := hflushed journal hj
  exact ⟨journal, hj, hcalls 1, hcalls 2⟩

/-! ## Lost events -/

/-- A call that returns a value and commits has flushed exactly the events whose
writes it commits, each once. -/
def NoSilentLoss (out : CallOutcome) : Prop :=
  out.settled = .value → ∀ journal, out.committed = some journal →
    (flushedIn journal).Perm (writtenIn journal)

/-- Every event that is not taken back has a run to collect it, or the call
fails: its own work or a run outside every savepoint does, or a flush. -/
def Heard (flushes : FlushOutcome) : Call → Prop
  | .run service w =>
      w.unheard = [] ∨ w.succeeds = false ∨ w.doomed = true ∨
        ¬ CanFlush flushes (collected service w)
  | .savepoint w => w.written = [] ∨ w.succeeds = false

theorem writtenIn_wrote (events : List DomainEvent) :
    writtenIn (events.map .wrote) = events := by
  simp [writtenIn, List.filterMap_map]

theorem flushedIn_wrote (events : List DomainEvent) :
    flushedIn (events.map .wrote) = [] := by
  simp [flushedIn]

theorem writtenIn_entriesOf (pending : EventsByFlushHandler) :
    writtenIn (entriesOf pending) = [] := by
  rw [writtenIn, entriesOf, List.filterMap_filterMap, List.filterMap_eq_nil_iff]
  rintro ⟨key, events⟩ -
  cases key <;> rfl

/-- What a commit flushes falls short of what it wrote by the unheard events. -/
theorem perm_iff_unheard (service : TransactionService) (w : Work) {flushes : FlushOutcome}
    (h : CanFlush flushes (collected service w)) :
    (flushedIn (entriesOf (collectAll [] (collected service w)))).Perm w.written ↔
      w.unheard = [] := by
  have hcount : ∀ e, (flushedIn (entriesOf (collectAll [] (collected service w)))).count e =
      (eventsOf w.collections).count e + w.added.count e := by
    intro e
    rw [flushedIn_entriesOf ((accepted_iff_canFlush flushes _).2 h), count_collectAll,
      collected, eventsOf_append, List.count_append]
    simp [eventsOf]
  have hwritten : ∀ e, w.written.count e =
      w.added.count e + (eventsOf w.collections).count e + w.unheard.count e := by
    intro e
    rw [w.written_perm.count_eq e, List.count_append, List.count_append]
  constructor
  · intro hperm
    refine List.eq_nil_iff_forall_not_mem.2 fun e he => ?_
    have h₁ := hperm.count_eq e
    have h₂ := hcount e
    have h₃ := hwritten e
    have h₄ : 0 < w.unheard.count e := List.count_pos_iff.2 he
    omega
  · intro hnil
    refine List.perm_iff_count.2 fun e => ?_
    have h₂ := hcount e
    have h₃ := hwritten e
    rw [hnil, List.count_nil] at h₃
    omega

theorem noSilentLoss_run_iff (flushes : FlushOutcome) (service : TransactionService)
    (w : Work) :
    NoSilentLoss (openTransaction flushes service w) ↔ Heard flushes (.run service w) := by
  by_cases hfails : w.succeeds = false ∨ w.doomed = true
  · obtain ⟨s, error, hthrow⟩ := complete_of_fails flushes service w hfails
    obtain ⟨-, hvalue⟩ := openTransaction_of_throws flushes service w hthrow
    refine iff_of_true (fun h => absurd h hvalue) ?_
    rcases hfails with h | h
    · exact .inr (.inl h)
    · exact .inr (.inr (.inl h))
  · obtain ⟨hok, hd⟩ := not_or.1 hfails
    have hok : w.succeeds = true := by simpa using hok
    have hd : w.doomed = false := by simpa using hd
    by_cases hcan : CanFlush flushes (collected service w)
    · rw [NoSilentLoss, openTransaction_of_flushed flushes service w hok hd hcan]
      have hjournal : ∀ journal,
          some (w.written.map .wrote ++ entriesOf (collectAll [] (collected service w))) =
            some journal → ((flushedIn journal).Perm (writtenIn journal) ↔ w.unheard = []) := by
        rintro journal ⟨rfl⟩
        rw [writtenIn, List.filterMap_append, ← writtenIn, ← writtenIn, writtenIn_wrote,
          writtenIn_entriesOf, List.append_nil, flushedIn, List.flatMap_append, ← flushedIn,
          ← flushedIn, flushedIn_wrote, List.nil_append]
        exact perm_iff_unheard service w hcan
      constructor
      · intro h
        exact .inl ((hjournal _ rfl).1 (h rfl _ rfl))
      · rintro (h | h | h | h) _ journal hj
        · exact (hjournal journal hj).2 h
        · rw [hok] at h
          cases h
        · rw [hd] at h
          cases h
        · exact absurd hcan h
    · obtain ⟨-, error, hthrow⟩ := openTransaction_of_refused flushes service w hok hd hcan
      refine iff_of_true (fun h => ?_) (.inr (.inr (.inr hcan)))
      rw [hthrow] at h
      cases h

theorem noSilentLoss_savepoint_iff (flushes : FlushOutcome) (w : Work) :
    NoSilentLoss (openSavepoint w) ↔ Heard flushes (.savepoint w) := by
  have h := w.eval_spec 0 [] [] noTransaction (fun _ _ => rfl) Nat.one_pos
  have hverdict := h.verdict
  have hjournal := h.journal
  simp only [openSavepoint]
  generalize w.eval 0 [] [] noTransaction = out at hverdict hjournal ⊢
  obtain ⟨s, drained, settled⟩ := out
  dsimp only at hverdict hjournal ⊢
  have hsucceeds : w.succeeds = decide (settled.verdict = .ok) := by
    rw [hverdict, Work.succeeds]
    rfl
  cases settled with
  | threw error => exact iff_of_true (fun h => nomatch h) (.inr hsucceeds)
  | failedResult result => exact iff_of_true (fun h => nomatch h) (.inr hsucceeds)
  | value =>
      have hflushed : flushedIn s.journal = [] := by
        rw [hjournal]
        exact flushedIn_wrote w.written
      have hwritten : writtenIn s.journal = w.written := by
        rw [hjournal]
        exact writtenIn_wrote w.written
      have hperm : (flushedIn s.journal).Perm (writtenIn s.journal) ↔ w.written = [] := by
        rw [hflushed, hwritten, List.nil_perm]
      constructor
      · intro h
        exact .inl (hperm.1 (h rfl _ rfl))
      · rintro (h | h) _ journal hj
        · cases hj
          exact hperm.2 h
        · rw [hsucceeds] at h
          cases h

theorem no_silent_loss_iff (flushes : FlushOutcome) (call : Call) :
    NoSilentLoss (call.outcome flushes) ↔ Heard flushes call := by
  cases call with
  | run service w => exact noSilentLoss_run_iff flushes service w
  | savepoint w => exact noSilentLoss_savepoint_iff flushes w

/-- A run in a savepoint of a run: its event is gone, its writes are kept. -/
theorem run_in_savepoint_loses_event :
    ¬ NoSilentLoss ((Call.run ⟨some 1⟩
      (.savepoint (.run ⟨some 1⟩ (.add [orderCreated] (.done .returns)) (.done .returns))
        (.done .returns))).outcome fun _ _ => none) := by
  intro h
  have hperm := h rfl _ rfl
  exact absurd hperm (by decide)

end CleanStack.Drizzle

import Mathlib.Algebra.Order.Monoid.Defs
import Mathlib.Algebra.Order.Monoid.Unbundled.Pow
import Mathlib.Data.List.Sort

/-!
# Lanes that share a list of tasks

Workers that take one task after the other from a shared list: whoever is free
first takes the next one. A worker may end with a task, and leaves what is left
to the others. The lanes of the ones that go on are kept as the times at which
they are free, in order.

How long this takes when no task lasts longer than a bound is a matter of rounds.
In a round every lane takes one task, and the lanes that do not end with theirs
make the next round. No span of a schedule ends later than its rounds allow, and
one ends exactly then when every task lasts as long as it may.
-/

namespace CleanStack.Lib

structure LaneTask (α : Type*) where
  lasts : α
  ends : Bool

structure LaneSpan (α : Type*) where
  start : α
  finish : α

/-- The spans of the tasks that are taken, in their order. -/
def runLanes {α : Type*} [LinearOrder α] [Add α] : List α → List (LaneTask α) → List (LaneSpan α)
  | t :: lanes, task :: tasks =>
      ⟨t, t + task.lasts⟩ ::
        runLanes (if task.ends then lanes else lanes.orderedInsert (· ≤ ·) (t + task.lasts)) tasks
  | _, _ => []

/-- The rounds that are begun for tasks of which it is known whether they end
their lane, when `inRound` lanes have not taken one in this round and `next` are
through with theirs. -/
def rounds : Nat → Nat → List Bool → Nat
  | inRound + 1, next, ends :: rest => rounds inRound (if ends then next else next + 1) rest
  | 0, next + 1, ends :: rest => 1 + rounds next (if ends then 0 else 1) rest
  | _, _, _ => 0

/-- The rounds that a number of lanes needs. -/
def roundsOf (lanes : Nat) (ends : List Bool) : Nat := rounds 0 lanes ends

section Bounds

variable {α : Type*} [LinearOrder α] [AddCommMonoid α] [IsOrderedAddMonoid α]

/-- In a round that began at `b`, of tasks that last at most `B`. -/
structure InRound (b B : α) (inRound next : Nat) (lanes : List α) : Prop where
  sorted : lanes.Pairwise (· ≤ ·)
  length : lanes.length = inRound + next
  waiting : inRound ≤ lanes.countP fun t => t ≤ b
  free : ∀ t ∈ lanes, t ≤ b + B

omit [IsOrderedAddMonoid α] in
theorem InRound.head_le {b B t : α} {inRound next : Nat} {lanes : List α}
    (h : InRound b B (inRound + 1) next (t :: lanes)) : t ≤ b := by
  have hpos : 0 < (t :: lanes).countP fun t => t ≤ b :=
    Nat.lt_of_lt_of_le (Nat.succ_pos inRound) h.waiting
  obtain ⟨first, hmem, hfirst⟩ := List.countP_pos_iff.1 hpos
  rcases List.mem_cons.1 hmem with rfl | hlater
  · exact of_decide_eq_true hfirst
  · exact le_trans (List.rel_of_pairwise_cons h.sorted hlater) (of_decide_eq_true hfirst)

/-- The lane that is free first takes a task, in the round it is in. -/
theorem InRound.take {b B t : α} {inRound next : Nat} {lanes : List α} {task : LaneTask α}
    (h : InRound b B (inRound + 1) next (t :: lanes)) (hlasts : task.lasts ≤ B) :
    InRound b B inRound (if task.ends then next else next + 1)
      (if task.ends then lanes else lanes.orderedInsert (· ≤ ·) (t + task.lasts)) := by
  have hsorted := List.Pairwise.of_cons h.sorted
  have hlength : lanes.length = inRound + next := by
    have := h.length
    rw [List.length_cons] at this
    omega
  have hwaiting : inRound ≤ lanes.countP fun t => t ≤ b := by
    have := h.waiting
    rw [List.countP_cons] at this
    split at this <;> omega
  have hfree : ∀ x ∈ lanes, x ≤ b + B := fun x hx => h.free x (List.mem_cons_of_mem t hx)
  split
  · exact ⟨hsorted, hlength, hwaiting, hfree⟩
  · refine ⟨List.Pairwise.orderedInsert _ _ hsorted, ?_, ?_, fun x hx => ?_⟩
    · rw [List.orderedInsert_length, hlength]
      omega
    · rw [(List.perm_orderedInsert _ _ _).countP_eq, List.countP_cons]
      omega
    · rcases (List.mem_orderedInsert _).1 hx with rfl | hold
      · exact add_le_add h.head_le hlasts
      · exact hfree x hold

/-- The lanes of a round that is over make the next one. -/
theorem InRound.next {b B : α} {next : Nat} {lanes : List α} (h : InRound b B 0 next lanes)
    (hB : 0 ≤ B) : InRound (b + B) B next 0 lanes := by
  refine ⟨h.sorted, by simpa using h.length, ?_, fun t ht => le_trans (h.free t ht) ?_⟩
  · have hall : (lanes.countP fun t => t ≤ b + B) = lanes.length :=
      List.countP_eq_length.2 fun t ht => decide_eq_true (h.free t ht)
    rw [hall, h.length]
    omega
  · exact le_add_of_nonneg_right hB

theorem finish_le_of_inRound {B : α} (hB : 0 ≤ B) {tasks : List (LaneTask α)} :
    ∀ {b : α} {inRound next : Nat} {lanes : List α}, InRound b B inRound next lanes →
      (∀ task ∈ tasks, task.lasts ≤ B) → ∀ span ∈ runLanes lanes tasks,
        span.finish ≤ b + B + rounds inRound next (tasks.map LaneTask.ends) • B := by
  induction tasks with
  | nil => intro b inRound next lanes _ _ span hspan; cases lanes <;> cases hspan
  | cons task tasks ih =>
      intro b inRound next lanes h hlasts span hspan
      have hlater : ∀ task ∈ tasks, task.lasts ≤ B := fun t ht =>
        hlasts t (List.mem_cons_of_mem task ht)
      have htask := hlasts task List.mem_cons_self
      cases lanes with
      | nil => cases hspan
      | cons t lanes =>
          cases inRound with
          | succ inRound =>
              rcases List.mem_cons.1 hspan with rfl | hrest
              · refine le_trans (add_le_add h.head_le htask) (le_add_of_nonneg_right ?_)
                exact nsmul_nonneg hB _
              · exact ih (h.take htask) hlater span hrest
          | zero =>
              obtain ⟨next, rfl⟩ : ∃ n, next = n + 1 := ⟨lanes.length, by simpa using h.length.symm⟩
              have hnext := h.next hB
              have hround : b + B + rounds 0 (next + 1) ((task :: tasks).map LaneTask.ends) • B =
                  b + B + B + rounds next (if task.ends then 0 else 1) (tasks.map LaneTask.ends) • B := by
                rw [List.map_cons, rounds, add_nsmul, one_nsmul, add_assoc (b + B)]
              rw [hround]
              rcases List.mem_cons.1 hspan with rfl | hrest
              · refine le_trans (add_le_add hnext.head_le htask) (le_add_of_nonneg_right ?_)
                exact nsmul_nonneg hB _
              · have := ih (hnext.take htask) hlater span hrest
                simpa using this

/-- The lanes of such a round when nothing ends early. -/
structure InStep (b B : α) (inRound next : Nat) (lanes : List α) : Prop where
  sorted : lanes.Pairwise (· ≤ ·)
  perm : lanes.Perm (List.replicate inRound b ++ List.replicate next (b + B))

omit [IsOrderedAddMonoid α] in
theorem InStep.take {b B t : α} {inRound next : Nat} {lanes : List α} {task : LaneTask α}
    (hB : b ≤ b + B) (h : InStep b B (inRound + 1) next (t :: lanes)) (hlasts : task.lasts = B) :
    t = b ∧ InStep b B inRound (if task.ends then next else next + 1)
      (if task.ends then lanes else lanes.orderedInsert (· ≤ ·) (t + task.lasts)) := by
  have hleast : b ≤ t := by
    have hmem := h.perm.subset (List.mem_cons_self (a := t))
    rcases List.mem_append.1 hmem with hnow | hlater
    · exact (List.eq_of_mem_replicate hnow).ge
    · exact (List.eq_of_mem_replicate hlater).symm ▸ hB
  have hthere : b ∈ t :: lanes := h.perm.symm.subset (by simp)
  have ht : t = b := by
    rcases List.mem_cons.1 hthere with hb | hb
    · exact hb.symm
    · exact le_antisymm (List.rel_of_pairwise_cons h.sorted hb) hleast
  subst ht
  have hperm : lanes.Perm (List.replicate inRound t ++ List.replicate next (t + B)) := by
    have hcons := h.perm
    rw [List.replicate_succ, List.cons_append] at hcons
    exact (List.perm_cons t).1 hcons
  have hsorted := List.Pairwise.of_cons h.sorted
  refine ⟨rfl, ?_⟩
  split
  · exact ⟨hsorted, hperm⟩
  · refine ⟨List.Pairwise.orderedInsert _ _ hsorted, ?_⟩
    rw [hlasts, List.replicate_succ]
    exact (List.perm_orderedInsert _ _ _).trans ((hperm.cons _).trans List.perm_middle.symm)

omit [IsOrderedAddMonoid α] in
theorem InStep.next {b B : α} {next : Nat} {lanes : List α} (h : InStep b B 0 next lanes) :
    InStep (b + B) B next 0 lanes :=
  ⟨h.sorted, by simpa using h.perm⟩

/-- When every task lasts as long as it may, the last round is not over earlier. -/
theorem exists_finish_of_inStep {B : α} (hB : 0 ≤ B) {tasks : List (LaneTask α)} :
    ∀ {b : α} {inRound next : Nat} {lanes : List α}, InStep b B inRound next lanes →
      (∀ task ∈ tasks, task.lasts = B) → 0 < rounds inRound next (tasks.map LaneTask.ends) →
      ∃ span ∈ runLanes lanes tasks,
        span.finish = b + B + rounds inRound next (tasks.map LaneTask.ends) • B := by
  induction tasks with
  | nil =>
      intro b inRound next lanes _ _ hrounds
      simp [rounds] at hrounds
  | cons task tasks ih =>
      intro b inRound next lanes h hlasts hrounds
      have hstep : ∀ c : α, c ≤ c + B := fun c => le_add_of_nonneg_right hB
      have hlater : ∀ task ∈ tasks, task.lasts = B := fun t ht =>
        hlasts t (List.mem_cons_of_mem task ht)
      have htask := hlasts task List.mem_cons_self
      cases inRound with
      | succ inRound =>
          obtain ⟨t, lanes, rfl⟩ : ∃ t rest, lanes = t :: rest := by
            have hlen := h.perm.length_eq
            rw [List.length_append, List.length_replicate] at hlen
            exact List.exists_cons_of_length_pos (by omega)
          obtain ⟨-, htake⟩ := h.take (hstep b) htask
          obtain ⟨span, hmem, hspan⟩ := ih htake hlater hrounds
          exact ⟨span, List.mem_cons_of_mem _ hmem, hspan⟩
      | zero =>
          cases next with
          | zero => simp [rounds] at hrounds
          | succ next =>
              obtain ⟨t, lanes, rfl⟩ : ∃ t rest, lanes = t :: rest := by
                refine List.exists_cons_of_length_pos ?_
                simp [h.perm.length_eq]
              obtain ⟨rfl, htake⟩ := h.next.take (hstep (b + B)) htask
              have hround : rounds 0 (next + 1) ((task :: tasks).map LaneTask.ends) =
                  1 + rounds next (if task.ends then 0 else 1) (tasks.map LaneTask.ends) := rfl
              rw [hround, add_nsmul, one_nsmul, ← add_assoc]
              by_cases hlast : rounds next (if task.ends then 0 else 1)
                  (tasks.map LaneTask.ends) = 0
              · refine ⟨_, List.mem_cons_self, ?_⟩
                rw [hlast, zero_nsmul, add_zero, htask]
              · obtain ⟨span, hmem, hspan⟩ := ih htake hlater (Nat.pos_of_ne_zero (by simpa using hlast))
                exact ⟨span, List.mem_cons_of_mem _ hmem, by simpa using hspan⟩

end Bounds

/-! ## From the start -/

section Start

variable {α : Type*} [LinearOrder α] [AddCommMonoid α] [IsOrderedAddMonoid α]

theorem rounds_start {lanes : Nat} {ends : List Bool} (h : ends ≠ []) (hlanes : 0 < lanes) :
    roundsOf lanes ends = 1 + rounds lanes 0 ends := by
  obtain ⟨e, rest, rfl⟩ := List.exists_cons_of_ne_nil h
  obtain ⟨n, rfl⟩ : ∃ n, lanes = n + 1 := ⟨lanes - 1, by omega⟩
  simp [roundsOf, rounds]

omit [AddCommMonoid α] [IsOrderedAddMonoid α] in
theorem pairwise_replicate_le (n : Nat) (t : α) : (List.replicate n t).Pairwise (· ≤ ·) :=
  List.pairwise_replicate.2 (.inr (le_refl t))

/-- Lanes that are all free at the start are done after their rounds. -/
theorem finish_le_roundsOf {B : α} (hB : 0 ≤ B) {lanes : Nat} {tasks : List (LaneTask α)}
    (hlasts : ∀ task ∈ tasks, task.lasts ≤ B) :
    ∀ span ∈ runLanes (List.replicate lanes 0) tasks,
      span.finish ≤ roundsOf lanes (tasks.map LaneTask.ends) • B := by
  intro span hspan
  have hlanes : 0 < lanes := by
    refine Nat.pos_of_ne_zero fun hzero => ?_
    subst hzero
    cases tasks <;> cases hspan
  have hne : tasks.map LaneTask.ends ≠ [] := by
    intro hnil
    obtain rfl := List.map_eq_nil_iff.1 hnil
    simp [runLanes] at hspan
  have hstart : InRound 0 B lanes 0 (List.replicate lanes (0 : α)) := by
    refine ⟨pairwise_replicate_le _ _, by simp, by simp [List.countP_replicate], fun t ht => ?_⟩
    rw [List.eq_of_mem_replicate ht, zero_add]
    exact hB
  have hle := finish_le_of_inRound hB hstart hlasts span hspan
  rw [zero_add] at hle
  rwa [rounds_start hne hlanes, add_nsmul, one_nsmul]

/-- And not earlier, when every task lasts as long as it may. -/
theorem exists_finish_roundsOf {B : α} (hB : 0 ≤ B) {lanes : Nat} {tasks : List (LaneTask α)}
    (hlasts : ∀ task ∈ tasks, task.lasts = B) (hlanes : 0 < lanes) (hne : tasks ≠ []) :
    ∃ span ∈ runLanes (List.replicate lanes 0) tasks,
      span.finish = roundsOf lanes (tasks.map LaneTask.ends) • B := by
  have hstart : InStep 0 B lanes 0 (List.replicate lanes (0 : α)) :=
    ⟨pairwise_replicate_le _ _, by simp⟩
  have hends : tasks.map LaneTask.ends ≠ [] := fun h => hne (List.map_eq_nil_iff.1 h)
  rw [rounds_start hends hlanes, add_nsmul, one_nsmul]
  by_cases hmore : 0 < rounds lanes 0 (tasks.map LaneTask.ends)
  · obtain ⟨span, hmem, hspan⟩ := exists_finish_of_inStep hB hstart hlasts hmore
    exact ⟨span, hmem, by rwa [zero_add] at hspan⟩
  · obtain ⟨task, tasks, rfl⟩ := List.exists_cons_of_ne_nil hne
    obtain ⟨n, rfl⟩ : ∃ n, lanes = n + 1 := ⟨lanes - 1, by omega⟩
    refine ⟨⟨0, 0 + task.lasts⟩, by rw [List.replicate_succ]; exact List.mem_cons_self, ?_⟩
    rw [hlasts task List.mem_cons_self, Nat.eq_zero_of_not_pos hmore, zero_nsmul, add_zero, zero_add]

omit [LinearOrder α] [AddCommMonoid α] [IsOrderedAddMonoid α] in
theorem rounds_le {ends : List Bool} : ∀ {inRound next n : Nat}, (∀ e ∈ ends, e = false) →
    ends.length ≤ inRound + n * (inRound + next) → rounds inRound next ends ≤ n := by
  induction ends with
  | nil =>
      intro inRound next n _ _
      simp [rounds]
  | cons e ends ih =>
      intro inRound next n h hlen
      obtain rfl : e = false := h e List.mem_cons_self
      have hrest : ∀ e ∈ ends, e = false := fun x hx => h x (List.mem_cons_of_mem _ hx)
      rw [List.length_cons] at hlen
      cases inRound with
      | succ inRound =>
          refine ih hrest ?_
          rw [show inRound + (if false = true then next else next + 1) = inRound + 1 + next by
            simp; omega]
          omega
      | zero =>
          cases next with
          | zero => simp [rounds]
          | succ next =>
              cases n with
              | zero => omega
              | succ n =>
                  have hround : rounds 0 (next + 1) (false :: ends) = 1 + rounds next 1 ends := rfl
                  have hle : rounds next 1 ends ≤ n := by
                    refine ih hrest ?_
                    rw [Nat.zero_add, Nat.zero_add, Nat.succ_mul] at hlen
                    omega
                  omega

omit [LinearOrder α] [AddCommMonoid α] [IsOrderedAddMonoid α] in
/-- Without early ends the lanes make full rounds. -/
theorem roundsOf_le {lanes n : Nat} {ends : List Bool} (h : ∀ e ∈ ends, e = false)
    (hlen : ends.length ≤ n * lanes) : roundsOf lanes ends ≤ n :=
  rounds_le h (by simpa using hlen)

end Start

end CleanStack.Lib

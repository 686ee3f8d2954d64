import Mathlib.Data.List.Basic
import Mathlib.Data.List.Induction

/-!
# Runs of a partial step function

Everything the development says about processes that interleave has one shape:
a state, an event that carries whatever the environment chose, and a step
function that refuses an event the state does not allow. A run is a list of
events the function accepted one after the other.

A few rules are proved once here and used by name everywhere else. `runs_inv`
carries an invariant along a run, `runs_trace_inv` one that speaks of the
events so far, and `runs_inv_meets` does the same when the
steps are only good under a condition on the state before them, which is how
the results about a defect are stated: the invariant survives every run whose
steps all avoid it; `meets_iff` says that nothing less would do, step by step.
`runs_once` is for what a run does once at most.
-/

namespace CleanStack.Lib

variable {σ ε : Type*}

/-- The state a list of events leads to, if every one of them is allowed. -/
def exec (step : σ → ε → Option σ) : σ → List ε → Option σ
  | s, [] => some s
  | s, e :: es => (step s e).bind fun s' => exec step s' es

/-- Every step of the run, taken from the state it is taken from, meets `C`. -/
def Meets (step : σ → ε → Option σ) (C : σ → ε → Prop) : σ → List ε → Prop
  | _, [] => True
  | s, e :: es => C s e ∧ ∀ s', step s e = some s' → Meets step C s' es

@[simp]
theorem exec_nil (step : σ → ε → Option σ) (s : σ) : exec step s [] = some s :=
  rfl

theorem exec_cons_iff {step : σ → ε → Option σ} {s t : σ} {e : ε} {es : List ε} :
    exec step s (e :: es) = some t ↔
      ∃ m, step s e = some m ∧ exec step m es = some t := by
  simp [exec, Option.bind_eq_some_iff]

theorem exec_append {step : σ → ε → Option σ} {s : σ} {es fs : List ε} :
    exec step s (es ++ fs) = (exec step s es).bind fun m => exec step m fs := by
  induction es generalizing s with
  | nil => rfl
  | cons e es ih =>
      simp only [List.cons_append, exec]
      cases step s e with
      | none => rfl
      | some m => exact ih

theorem exec_trans {step : σ → ε → Option σ} {s m t : σ} {es fs : List ε}
    (h : exec step s es = some m) (h' : exec step m fs = some t) :
    exec step s (es ++ fs) = some t := by
  rw [exec_append, h]
  exact h'

/-- A run followed by one more accepted step is a run. -/
theorem exec_snoc {step : σ → ε → Option σ} {s m t : σ} {e : ε} {es : List ε}
    (h : exec step s es = some m) (he : step m e = some t) :
    exec step s (es ++ [e]) = some t :=
  exec_trans h (by simp [exec, he])

theorem exec_snoc_iff {step : σ → ε → Option σ} {s t : σ} {e : ε} {es : List ε} :
    exec step s (es ++ [e]) = some t ↔
      ∃ m, exec step s es = some m ∧ step m e = some t := by
  rw [exec_append, Option.bind_eq_some_iff]
  simp [exec]

theorem meets_cons {step : σ → ε → Option σ} {C : σ → ε → Prop} {s s' : σ} {e : ε}
    {es : List ε} (hs : step s e = some s') (hC : C s e) (hrest : Meets step C s' es) :
    Meets step C s (e :: es) := by
  refine ⟨hC, fun m hm => ?_⟩
  rw [hs] at hm
  cases hm
  exact hrest

/-- A test run along with the steps, on the state before each. -/
def passes (step : σ → ε → Option σ) (test : σ → ε → Bool) : σ → List ε → Bool
  | _, [] => true
  | s, e :: es => test s e && (step s e).all fun s' => passes step test s' es

theorem meets_of_passes {step : σ → ε → Option σ} {C : σ → ε → Prop}
    {test : σ → ε → Bool} (htest : ∀ s e, test s e = true → C s e) {es : List ε} :
    ∀ {s : σ}, passes step test s es = true → Meets step C s es := by
  induction es with
  | nil => exact fun _ => trivial
  | cons e es ih =>
      intro s h
      obtain ⟨he, hrest⟩ := Bool.and_eq_true_iff.1 h
      refine ⟨htest s e he, fun s' hs => ih ?_⟩
      rw [hs] at hrest
      exact hrest

theorem meets_append {step : σ → ε → Option σ} {C : σ → ε → Prop} {s m : σ}
    {es fs : List ε} (hm : Meets step C s (es ++ fs))
    (h : exec step s es = some m) : Meets step C m fs := by
  induction es generalizing s with
  | nil =>
      cases h
      exact hm
  | cons e es ih =>
      obtain ⟨s', hs, hrest⟩ := exec_cons_iff.1 h
      exact ih (hm.2 s' hs) hrest

theorem meets_left {step : σ → ε → Option σ} {C : σ → ε → Prop} {es fs : List ε} :
    ∀ {s : σ}, Meets step C s (es ++ fs) → Meets step C s es := by
  induction es with
  | nil => exact fun _ => trivial
  | cons e es ih => exact fun hm => ⟨hm.1, fun s' hs => ih (hm.2 s' hs)⟩

theorem meets_and {step : σ → ε → Option σ} {C D : σ → ε → Prop} {es : List ε} :
    ∀ {s : σ}, Meets step C s es → Meets step D s es →
      Meets step (fun s e => C s e ∧ D s e) s es := by
  induction es with
  | nil => exact fun _ _ => trivial
  | cons e es ih =>
      exact fun hC hD => ⟨⟨hC.1, hD.1⟩, fun s' hs => ih (hC.2 s' hs) (hD.2 s' hs)⟩

theorem runs_inv_meets {step : σ → ε → Option σ} {C : σ → ε → Prop}
    {Inv : σ → Prop}
    (hstep : ∀ s e s', Inv s → C s e → step s e = some s' → Inv s')
    {es : List ε} : ∀ {s t : σ}, Inv s → Meets step C s es →
      exec step s es = some t → Inv t := by
  induction es with
  | nil =>
      intro s t hi _ h
      cases h
      exact hi
  | cons e es ih =>
      intro s t hi hm h
      obtain ⟨s', hs, hrest⟩ := exec_cons_iff.1 h
      exact ih (hstep s e s' hi hm.1 hs) (hm.2 s' hs) hrest

/-- Two conditions on the steps that are the same from the states an invariant
describes are the same for runs that start in one. -/
theorem meets_iff {step : σ → ε → Option σ} {P C : σ → ε → Prop} {Inv : σ → Prop}
    (hiff : ∀ s e, Inv s → (P s e ↔ C s e))
    (hstep : ∀ s e s', Inv s → C s e → step s e = some s' → Inv s') {es : List ε} :
    ∀ {s : σ}, Inv s → (Meets step P s es ↔ Meets step C s es) := by
  induction es with
  | nil => exact fun _ => Iff.rfl
  | cons e es ih =>
      intro s hi
      constructor
      · intro ⟨he, hrest⟩
        have hC := (hiff s e hi).1 he
        exact ⟨hC, fun s' hs => (ih (hstep s e s' hi hC hs)).1 (hrest s' hs)⟩
      · intro ⟨hC, hrest⟩
        exact ⟨(hiff s e hi).2 hC, fun s' hs => (ih (hstep s e s' hi hC hs)).2 (hrest s' hs)⟩

/-- What an invariant and one condition say of a step, a run whose steps all meet
the condition says of all of them. -/
theorem meets_imp {step : σ → ε → Option σ} {C P : σ → ε → Prop} {Inv : σ → Prop}
    (himp : ∀ s e, Inv s → C s e → P s e)
    (hstep : ∀ s e s', Inv s → C s e → step s e = some s' → Inv s') {es : List ε} :
    ∀ {s : σ}, Inv s → Meets step C s es → Meets step P s es := by
  induction es with
  | nil => exact fun _ _ => trivial
  | cons e es ih =>
      intro s hi ⟨hC, hrest⟩
      exact ⟨himp s e hi hC, fun s' hs => ih (hstep s e s' hi hC hs) (hrest s' hs)⟩

/-- A condition on the events alone goes with any other. -/
theorem meets_and_of_mem {step : σ → ε → Option σ} {C : σ → ε → Prop} {K : ε → Prop}
    {es : List ε} : ∀ {s : σ}, (∀ e ∈ es, K e) → Meets step C s es →
      Meets step (fun s e => K e ∧ C s e) s es := by
  induction es with
  | nil => exact fun _ _ => trivial
  | cons e es ih =>
      intro s hK ⟨hC, hrest⟩
      exact ⟨⟨hK e List.mem_cons_self, hC⟩, fun s' hs =>
        ih (fun e' he' => hK e' (List.mem_cons_of_mem e he')) (hrest s' hs)⟩

/-- The rule for a run without certain events. -/
theorem runs_inv_mem {step : σ → ε → Option σ} {Inv : σ → Prop} {K : ε → Prop}
    (hstep : ∀ s e s', Inv s → K e → step s e = some s' → Inv s') {es : List ε} :
    ∀ {s t : σ}, Inv s → (∀ e ∈ es, K e) → exec step s es = some t → Inv t := by
  induction es with
  | nil =>
      intro s t hi _ h
      cases h
      exact hi
  | cons e es ih =>
      intro s t hi hK h
      obtain ⟨s', hs, hrest⟩ := exec_cons_iff.1 h
      exact ih (hstep s e s' hi (hK e List.mem_cons_self) hs)
        (fun e' he' => hK e' (List.mem_cons_of_mem e he')) hrest

theorem meets_of_forall {step : σ → ε → Option σ} {C : σ → ε → Prop}
    (hC : ∀ s e, C s e) : ∀ (es : List ε) (s : σ), Meets step C s es
  | [], _ => trivial
  | e :: es, s => ⟨hC s e, fun s' _ => meets_of_forall hC es s'⟩

/-- A condition on the events alone. -/
theorem meets_of_mem {step : σ → ε → Option σ} {C : σ → ε → Prop} {es : List ε} :
    ∀ {s : σ}, (∀ e ∈ es, ∀ s, C s e) → Meets step C s es := by
  induction es with
  | nil => exact fun _ => trivial
  | cons e es ih =>
      exact fun hC => ⟨hC e List.mem_cons_self _, fun _ _ =>
        ih fun e' he' => hC e' (List.mem_cons_of_mem e he')⟩

theorem runs_inv {step : σ → ε → Option σ} {Inv : σ → Prop}
    (hstep : ∀ s e s', Inv s → step s e = some s' → Inv s')
    {es : List ε} {s t : σ} (hi : Inv s) (h : exec step s es = some t) :
    Inv t :=
  runs_inv_meets (C := fun _ _ => True)
    (fun s e s' hi _ hs => hstep s e s' hi hs) hi
    (meets_of_forall (fun _ _ => trivial) es s) h

/-- What is counted once on the way to a state that is never left is counted
once in a run. -/
theorem runs_once {step : σ → ε → Option σ} {C : σ → ε → Prop} {Inv gone : σ → Prop}
    {count : σ → Nat}
    (hinv : ∀ s e s', Inv s → C s e → step s e = some s' → Inv s')
    (hgone : ∀ s e s', Inv s → C s e → step s e = some s' → gone s → gone s')
    (hcount : ∀ s e s', Inv s → C s e → step s e = some s' →
      count s' = count s ∨ ¬ gone s ∧ gone s' ∧ count s' = count s + 1)
    {es : List ε} {s t : σ} (hi : Inv s) (hm : Meets step C s es)
    (h : exec step s es = some t) : count t ≤ count s + 1 := by
  have hstep : ∀ x e y, (Inv x ∧ (count x = count s ∨ gone x ∧ count x = count s + 1)) →
      C x e → step x e = some y →
      (Inv y ∧ (count y = count s ∨ gone y ∧ count y = count s + 1)) := by
    intro x e y hx he hs
    refine ⟨hinv x e y hx.1 he hs, ?_⟩
    obtain ⟨hx, hsame | ⟨hold, hmore⟩⟩ := hx
    · rcases hcount x e y hx he hs with hkept | ⟨-, hnew, hone⟩
      · exact .inl (hkept.trans hsame)
      · exact .inr ⟨hnew, by omega⟩
    · rcases hcount x e y hx he hs with hkept | ⟨hnot, -, -⟩
      · exact .inr ⟨hgone x e y hx he hs hold, hkept.trans hmore⟩
      · exact absurd hold hnot
  have hrun := runs_inv_meets hstep ⟨hi, .inl rfl⟩ hm h
  rcases hrun.2 with hsame | ⟨-, hmore⟩
  · omega
  · omega

/-- The rule for an invariant that also speaks of the events so far. -/
theorem runs_trace_inv {step : σ → ε → Option σ} {Inv : List ε → σ → Prop} {s : σ}
    (h0 : Inv [] s)
    (hstep : ∀ es m e t, exec step s es = some m → Inv es m → step m e = some t →
      Inv (es ++ [e]) t) {es : List ε} :
    ∀ {t : σ}, exec step s es = some t → Inv es t := by
  induction es using List.reverseRecOn with
  | nil =>
      intro t h
      cases h
      exact h0
  | append_singleton es e ih =>
      intro t h
      obtain ⟨m, hm, hs⟩ := exec_snoc_iff.1 h
      exact hstep es m e t hm (ih hm) hs

/-! ## Steps of one party of several -/

/-- Where one party has moved, the others are as they were. -/
theorem getElem?_set_cases {α : Type*} {parties : List α} {i j : Nat} {a b : α}
    (h : (parties.set i a)[j]? = some b) :
    (j = i ∧ b = a) ∨ (j ≠ i ∧ parties[j]? = some b) := by
  by_cases hji : j = i
  · subst hji
    obtain ⟨hlt, hget⟩ := List.getElem?_eq_some_iff.1 h
    rw [List.getElem_set_self] at hget
    exact .inl ⟨rfl, hget.symm⟩
  · rw [List.getElem?_set_ne (Ne.symm hji)] at h
    exact .inr ⟨hji, h⟩

end CleanStack.Lib

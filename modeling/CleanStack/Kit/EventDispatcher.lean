import Mathlib.Data.List.Nodup

/-!
# The event dispatcher

A dispatcher maps an event type to the handlers subscribed to it, in the order
they were subscribed. `subscribe` refuses a name that is not lower-case words
joined by dashes and a name the event type already has, so a `Dispatcher`
carries both facts.

Handlers are known by name only: what one does, and whether it succeeds, is up
to the environment.
-/

namespace CleanStack.Kit

def isWordChar (c : Char) : Bool := c.isLower || c.isDigit

/-- What may follow a word character: more of the word, or a dash and the next
word. -/
def restOfName : List Char → Bool
  | [] => true
  | c :: cs =>
      if c = '-' then
        match cs with
        | [] => false
        | d :: ds => isWordChar d && restOfName ds
      else isWordChar c && restOfName cs

/-- `/^[a-z0-9]+(-[a-z0-9]+)*$/`. -/
def HANDLER_NAME (name : String) : Bool :=
  match name.toList with
  | [] => false
  | c :: cs => isWordChar c && restOfName cs

structure Dispatcher where
  handlers : List (String × List String)
  named : ∀ h ∈ handlers, ∀ name ∈ h.2, HANDLER_NAME name = true
  distinct : ∀ h ∈ handlers, h.2.Nodup

namespace Dispatcher

def empty : Dispatcher := ⟨[], by simp, by simp⟩

def handlersOf (d : Dispatcher) (eventType : String) : List String :=
  (d.handlers.lookup eventType).getD []

theorem mem_of_lookup {α β : Type} [BEq α] [LawfulBEq α] {k : α} {v : β}
    {l : List (α × β)} (h : l.lookup k = some v) : (k, v) ∈ l := by
  induction l with
  | nil => cases h
  | cons p l ih =>
      rw [List.lookup_cons] at h
      split at h
      · next hk =>
          cases h
          rw [eq_of_beq hk]
          exact List.mem_cons_self
      · exact List.mem_cons_of_mem _ (ih h)

theorem lookup_filter_ne {β : Type} {k other : String} (ho : other ≠ k)
    (l : List (String × β)) :
    (l.filter fun p => p.1 ≠ k).lookup other = l.lookup other := by
  induction l with
  | nil => rfl
  | cons p l ih =>
      obtain ⟨name, v⟩ := p
      by_cases hk : name = k
      · have hne : (other == name) = false := by
          rw [hk]
          exact beq_eq_false_iff_ne.2 ho
        rw [List.filter_cons_of_neg (by simpa using hk), List.lookup_cons, hne, ih]
      · rw [List.filter_cons_of_pos (by simpa using hk), List.lookup_cons,
          List.lookup_cons, ih]

theorem handlersOf_eq_nil_or_mem (d : Dispatcher) (eventType : String) :
    d.handlersOf eventType = [] ∨ (eventType, d.handlersOf eventType) ∈ d.handlers := by
  unfold handlersOf
  cases h : d.handlers.lookup eventType with
  | none => exact .inl rfl
  | some names => exact .inr (mem_of_lookup h)

theorem handlerName_of_mem {d : Dispatcher} {eventType name : String}
    (h : name ∈ d.handlersOf eventType) : HANDLER_NAME name = true := by
  rcases d.handlersOf_eq_nil_or_mem eventType with hnil | hmem
  · rw [hnil] at h
    cases h
  · exact d.named _ hmem name h

theorem handlersOf_nodup (d : Dispatcher) (eventType : String) :
    (d.handlersOf eventType).Nodup := by
  rcases d.handlersOf_eq_nil_or_mem eventType with hnil | hmem
  · rw [hnil]
    exact List.nodup_nil
  · exact d.distinct _ hmem

def subscribe (d : Dispatcher) (eventType name : String) : Except String Dispatcher :=
  if hname : HANDLER_NAME name = true then
    if hdup : name ∈ d.handlersOf eventType then .error ("DUPLICATE_HANDLER: " ++ name)
    else .ok
      { handlers :=
          (eventType, d.handlersOf eventType ++ [name]) ::
            d.handlers.filter fun h => h.1 ≠ eventType
        named := by
          intro h hh n hn
          rcases List.mem_cons.1 hh with rfl | hh
          · rcases List.mem_append.1 hn with hn | hn
            · exact handlerName_of_mem hn
            · rw [List.mem_singleton.1 hn]
              exact hname
          · exact d.named h (List.mem_filter.1 hh).1 n hn
        distinct := by
          intro h hh
          rcases List.mem_cons.1 hh with rfl | hh
          · refine List.nodup_append.2 ⟨d.handlersOf_nodup eventType,
              List.nodup_singleton name, ?_⟩
            rintro a ha b hb rfl
            exact hdup (List.mem_singleton.1 hb ▸ ha)
          · exact d.distinct h (List.mem_filter.1 hh).1 }
  else .error ("INVALID_HANDLER_NAME: " ++ name)

theorem subscribe_handlersOf {d e : Dispatcher} {eventType name : String}
    (h : d.subscribe eventType name = .ok e) (other : String) :
    e.handlersOf other =
      if other = eventType then d.handlersOf eventType ++ [name]
      else d.handlersOf other := by
  unfold subscribe at h
  split at h
  · split at h
    · cases h
    · cases h
      by_cases ho : other = eventType
      · simp [handlersOf, ho]
      · rw [if_neg ho]
        have hne : (other == eventType) = false := beq_eq_false_iff_ne.2 ho
        simp only [handlersOf, List.lookup_cons, hne, lookup_filter_ne ho]
  · cases h

/-- Subscriptions of a handler to an event type, one after the other. -/
def subscribeAll (d : Dispatcher) : List (String × String) → Except String Dispatcher
  | [] => .ok d
  | (eventType, name) :: rest =>
      match d.subscribe eventType name with
      | .error error => .error error
      | .ok e => e.subscribeAll rest

/-- The handlers of a type are those subscribed to it, in that order. -/
theorem handlersOf_subscribeAll {subscriptions : List (String × String)} {d e : Dispatcher}
    (h : d.subscribeAll subscriptions = .ok e) (eventType : String) :
    e.handlersOf eventType = d.handlersOf eventType ++
      (subscriptions.filter fun s => s.1 = eventType).map Prod.snd := by
  induction subscriptions generalizing d with
  | nil =>
      cases h
      exact (List.append_nil _).symm
  | cons s rest ih =>
      obtain ⟨subscribed, name⟩ := s
      rw [subscribeAll] at h
      split at h
      · cases h
      · next next hnext =>
          rw [ih h, subscribe_handlersOf hnext]
          by_cases hsame : eventType = subscribed
          · rw [if_pos hsame, List.filter_cons_of_pos (by simp [hsame]), List.map_cons,
              List.append_assoc, hsame]
            rfl
          · rw [if_neg hsame, List.filter_cons_of_neg (by simpa using Ne.symm hsame)]

end Dispatcher

end CleanStack.Kit

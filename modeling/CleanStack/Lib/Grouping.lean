import Mathlib.Data.List.Basic
import Mathlib.Data.List.Induction
import Mathlib.Data.List.Nodup

/-!
# Grouping a list by a key

An insertion-ordered map from keys to the elements that have them, filled from
a list. The groups stand in the order their keys first appear, and a group
keeps the order of the list; `mem_groupsOf` says both at once, since a filter
does.
-/

namespace CleanStack.Lib

variable {α κ : Type*} [DecidableEq κ]

/-- One more element for the group of a key. A key without a group gets one at
the end. -/
def pushTo (k : κ) (a : α) : List (κ × List α) → List (κ × List α)
  | [] => [(k, [a])]
  | (j, group) :: rest =>
      if j = k then (j, group ++ [a]) :: rest else (j, group) :: pushTo k a rest

def groupsOf (f : α → κ) (l : List α) : List (κ × List α) :=
  l.foldl (fun groups a => pushTo (f a) a groups) []

theorem groupsOf_snoc (f : α → κ) (l : List α) (a : α) :
    groupsOf f (l ++ [a]) = pushTo (f a) a (groupsOf f l) := by
  simp [groupsOf, List.foldl_append]

theorem keys_pushTo (k : κ) (a : α) (groups : List (κ × List α)) :
    (pushTo k a groups).map Prod.fst =
      if k ∈ groups.map Prod.fst then groups.map Prod.fst
      else groups.map Prod.fst ++ [k] := by
  induction groups with
  | nil => rfl
  | cons p rest ih =>
      rw [pushTo]
      by_cases hk : p.1 = k
      · simp [hk]
      · rw [if_neg hk, List.map_cons, List.map_cons, ih]
        by_cases hmem : k ∈ rest.map Prod.fst
        · rw [if_pos hmem, if_pos (List.mem_cons_of_mem _ hmem)]
        · have hne : k ∉ p.1 :: rest.map Prod.fst := by
            rw [List.mem_cons, not_or]
            exact ⟨fun h => hk h.symm, hmem⟩
          rw [if_neg hmem, if_neg hne, List.cons_append]

/-- The group of the key grew by the element; the others are as before. -/
theorem mem_pushTo {k : κ} {a : α} {groups : List (κ × List α)}
    (hkeys : (groups.map Prod.fst).Nodup) {p : κ × List α} (h : p ∈ pushTo k a groups) :
    (p = (k, [a]) ∧ k ∉ groups.map Prod.fst) ∨
      (∃ group, (k, group) ∈ groups ∧ p = (k, group ++ [a])) ∨
      (p ∈ groups ∧ p.1 ≠ k) := by
  induction groups with
  | nil => exact .inl ⟨by simpa [pushTo] using h, by simp⟩
  | cons q rest ih =>
      rw [List.map_cons, List.nodup_cons] at hkeys
      rw [pushTo] at h
      by_cases hk : q.1 = k
      · rw [if_pos hk] at h
        rcases List.mem_cons.1 h with rfl | hrest
        · exact .inr (.inl ⟨q.2, hk ▸ List.mem_cons_self, by rw [hk]⟩)
        · refine .inr (.inr ⟨List.mem_cons_of_mem _ hrest, fun hp => hkeys.1 ?_⟩)
          rw [hk, ← hp]
          exact List.mem_map_of_mem hrest
      · rw [if_neg hk] at h
        rcases List.mem_cons.1 h with rfl | hrest
        · exact .inr (.inr ⟨List.mem_cons_self, hk⟩)
        · rcases ih hkeys.2 hrest with ⟨rfl, hnew⟩ | ⟨group, hgroup, rfl⟩ | ⟨hp, hne⟩
          · refine .inl ⟨rfl, ?_⟩
            rw [List.map_cons, List.mem_cons, not_or]
            exact ⟨fun h => hk h.symm, hnew⟩
          · exact .inr (.inl ⟨group, List.mem_cons_of_mem _ hgroup, rfl⟩)
          · exact .inr (.inr ⟨List.mem_cons_of_mem _ hp, hne⟩)

/-- What filling the map from a list has established. -/
structure GroupsFor (f : α → κ) (l : List α) (groups : List (κ × List α)) : Prop where
  keys : (groups.map Prod.fst).Nodup
  group : ∀ p ∈ groups, p.2 = l.filter (fun a => f a = p.1) ∧ p.2 ≠ []
  complete : ∀ a ∈ l, f a ∈ groups.map Prod.fst

theorem groupsFor_snoc {f : α → κ} {l : List α} {groups : List (κ × List α)}
    (h : GroupsFor f l groups) (a : α) :
    GroupsFor f (l ++ [a]) (pushTo (f a) a groups) := by
  have hsame : ∀ k, f a ≠ k →
      (l ++ [a]).filter (fun b => f b = k) = l.filter fun b => f b = k := by
    intro k hk
    simp [List.filter_append, hk]
  have hgrown : (l ++ [a]).filter (fun b => f b = f a) =
      l.filter (fun b => f b = f a) ++ [a] := by
    simp [List.filter_append]
  refine ⟨?_, fun p hp => ?_, fun b hb => ?_⟩
  · rw [keys_pushTo]
    split
    · exact h.keys
    · next hnew =>
        rw [List.nodup_append]
        refine ⟨h.keys, List.nodup_singleton _, fun j hj i hi heq => hnew ?_⟩
        rw [← List.mem_singleton.1 hi, ← heq]
        exact hj
  · rcases mem_pushTo h.keys hp with ⟨rfl, hnew⟩ | ⟨group, hgroup, rfl⟩ | ⟨hold, hne⟩
    · -- the first element of its key: nothing before it has the key
      have hnone : l.filter (fun b => f b = f a) = [] := by
        rw [List.filter_eq_nil_iff]
        intro b hb hfb
        exact hnew (of_decide_eq_true hfb ▸ h.complete b hb)
      exact ⟨by rw [hgrown, hnone]; rfl, List.cons_ne_nil _ _⟩
    · exact ⟨by rw [hgrown, ← (h.group _ hgroup).1], by simp⟩
    · rw [hsame p.1 (Ne.symm hne)]
      exact h.group p hold
  · rw [keys_pushTo]
    rcases List.mem_append.1 hb with hold | hnew
    · split
      · exact h.complete b hold
      · exact List.mem_append_left _ (h.complete b hold)
    · rw [List.mem_singleton.1 hnew]
      split
      · assumption
      · exact List.mem_append_right _ (List.mem_singleton_self _)

theorem groupsFor_groupsOf (f : α → κ) (l : List α) : GroupsFor f l (groupsOf f l) := by
  induction l using List.reverseRecOn with
  | nil => exact ⟨List.nodup_nil, nofun, nofun⟩
  | append_singleton l a ih =>
      rw [groupsOf_snoc]
      exact groupsFor_snoc ih a

theorem mem_groupsOf {f : α → κ} {l : List α} {p : κ × List α} (h : p ∈ groupsOf f l) :
    p.2 = l.filter (fun a => f a = p.1) ∧ p.2 ≠ [] :=
  (groupsFor_groupsOf f l).group p h

theorem flatten_pushTo (k : κ) (a : α) (groups : List (κ × List α)) :
    ((pushTo k a groups).map Prod.snd).flatten.Perm (a :: (groups.map Prod.snd).flatten) := by
  induction groups with
  | nil => exact List.Perm.refl _
  | cons p rest ih =>
      rw [pushTo]
      split
      · rw [List.map_cons, List.map_cons, List.flatten_cons, List.flatten_cons,
          List.append_assoc]
        exact List.perm_middle
      · rw [List.map_cons, List.map_cons, List.flatten_cons, List.flatten_cons]
        exact (ih.append_left p.2).trans List.perm_middle

/-- Grouping loses nothing and adds nothing. -/
theorem flatten_groupsOf (f : α → κ) (l : List α) :
    ((groupsOf f l).map Prod.snd).flatten.Perm l := by
  induction l using List.reverseRecOn with
  | nil => exact List.Perm.refl _
  | append_singleton l a ih =>
      rw [groupsOf_snoc]
      exact (flatten_pushTo _ _ _).trans ((ih.cons a).trans (List.perm_append_singleton a l).symm)

end CleanStack.Lib

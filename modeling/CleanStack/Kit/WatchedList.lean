import Mathlib.Data.List.Basic

/-!
# Watched lists

A list that remembers what it began with, so that what is new in it and what was
removed from it can be written back. Items are compared by the list's own rule,
`compareItems`.
-/

namespace CleanStack.Kit

structure WatchedList (T : Type*) where
  currentItems : List T
  initial : List T
  new : List T
  removed : List T

inductive ListCall (T : Type*)
  | add (item : T)
  | remove (item : T)

namespace WatchedList

variable {T : Type*}

def ofItems (initialItems : List T) : WatchedList T := ⟨initialItems, initialItems, [], []⟩

def hasChanges (l : WatchedList T) : Bool := decide (0 < l.new.length) || decide (0 < l.removed.length)

variable (compareItems : T → T → Bool) (l : WatchedList T) (item : T)

def isCurrentItem : Bool := l.currentItems.any fun v => compareItems item v

def isNewItem : Bool := l.new.any fun v => compareItems item v

def isRemovedItem : Bool := l.removed.any fun v => compareItems item v

def wasAddedInitially : Bool := l.initial.any fun v => compareItems item v

def removeFromNew : WatchedList T :=
  { l with new := l.new.filter fun v => !compareItems v item }

def removeFromCurrent : WatchedList T :=
  { l with currentItems := l.currentItems.filter fun v => !compareItems item v }

def removeFromRemoved : WatchedList T :=
  { l with removed := l.removed.filter fun v => !compareItems v item }

def add : WatchedList T :=
  let l := if l.isRemovedItem compareItems item then l.removeFromRemoved compareItems item else l
  let l :=
    if !l.isNewItem compareItems item && !l.wasAddedInitially compareItems item then
      { l with new := l.new ++ [item] }
    else l
  if !l.isCurrentItem compareItems item then { l with currentItems := l.currentItems ++ [item] }
  else l

def remove : WatchedList T :=
  let l := l.removeFromCurrent compareItems item
  if l.isNewItem compareItems item then l.removeFromNew compareItems item
  else if !l.isRemovedItem compareItems item then { l with removed := l.removed ++ [item] }
  else l

def apply : ListCall T → WatchedList T
  | .add item => l.add compareItems item
  | .remove item => l.remove compareItems item

/-- The list after some calls. -/
def after (calls : List (ListCall T)) : WatchedList T :=
  calls.foldl (fun l call => l.apply compareItems call) l

end WatchedList

end CleanStack.Kit

import LemonDB.Lib.FiniteMap
import LemonDB.Lib.SharedMutex

/-!
# LemonDB.Runtime.LockManager

The locks of the tables: one shared mutex for each table id, made when the table
is locked for the first time.
-/

namespace LemonDB

structure LockManager where
  map : FiniteMap String SharedMutex := ∅

namespace LockManager

/-- The mutex of a table. -/
def entry (lm : LockManager) (id : String) : SharedMutex × LockManager :=
  match lm.map.get? id with
  | some entry => (entry, lm)
  | none => (.unlocked, { lm with map := lm.map.set id .unlocked })

/-- Change the mutex of a table. -/
def setEntry (lm : LockManager) (id : String) (entry : SharedMutex) : LockManager :=
  { lm with map := lm.map.set id entry }

/-- Lock a table in a mode; none while the call blocks. -/
def lockIn (lm : LockManager) (mode : LockMode) (id : String) : Option LockManager :=
  ((lm.entry id).1.lock mode).map ((lm.entry id).2.setEntry id)

/-- Unlock a table in a mode; none if the caller does not own it. -/
def unlockIn (lm : LockManager) (mode : LockMode) (id : String) : Option LockManager :=
  ((lm.entry id).1.unlock mode).map ((lm.entry id).2.setEntry id)

def lockS (lm : LockManager) (id : String) : Option LockManager := lm.lockIn .shared id

def unlockS (lm : LockManager) (id : String) : Option LockManager := lm.unlockIn .shared id

def lockX (lm : LockManager) (id : String) : Option LockManager := lm.lockIn .exclusive id

def unlockX (lm : LockManager) (id : String) : Option LockManager := lm.unlockIn .exclusive id

/-! ## the owners of the locks -/

/-- How a table is locked. -/
def owners (lm : LockManager) (id : String) : Multiset LockMode := (lm.entry id).1.owners

variable {lm lm' : LockManager} {mode : LockMode} {id : String} {rest : Multiset LockMode}

@[simp] theorem owners_empty (id : String) : ({} : LockManager).owners id = 0 := rfl

theorem entry_fst (lm : LockManager) (id : String) :
    (lm.entry id).1 = (lm.map.get? id).getD .unlocked := by
  unfold entry
  cases lm.map.get? id <;> rfl

/-- Making the mutex of a table changes none. -/
@[simp] theorem entry_entry (lm : LockManager) (id id' : String) :
    ((lm.entry id).2.entry id').1 = (lm.entry id').1 := by
  rw [entry_fst, entry_fst, entry]
  cases hid : lm.map.get? id with
  | some entry => rfl
  | none =>
      dsimp only
      rw [FiniteMap.get?_set]
      split
      · next h => rw [h, hid]; rfl
      · rfl

theorem entry_setEntry (lm : LockManager) (id : String) (entry : SharedMutex) (id' : String) :
    ((lm.setEntry id entry).entry id').1 = if id' = id then entry else (lm.entry id').1 := by
  rw [entry_fst, entry_fst, setEntry, FiniteMap.get?_set]
  split <;> rfl

/-- Whoever locks a table owns it then. -/
theorem owners_lockIn (h : lm.lockIn mode id = some lm') (id' : String) :
    lm'.owners id' = if id' = id then mode ::ₘ lm.owners id else lm.owners id' := by
  obtain ⟨entry, hlock, rfl⟩ := Option.map_eq_some_iff.mp h
  rw [owners, entry_setEntry, entry_entry]
  split
  · exact SharedMutex.owners_lock hlock
  · rfl

/-- A table that nobody owns can be locked. -/
theorem lockIn_of_unlocked (mode : LockMode) (h : lm.owners id = 0) :
    ∃ lm', lm.lockIn mode id = some lm' := by
  obtain ⟨entry, hlock⟩ := SharedMutex.lock_of_unlocked mode h
  exact ⟨_, Option.map_eq_some_iff.mpr ⟨entry, hlock, rfl⟩⟩

/-- Whoever owns a table can unlock it. -/
theorem unlockIn_of_owners (h : lm.owners id = mode ::ₘ rest) :
    ∃ lm', lm.unlockIn mode id = some lm' ∧
      ∀ id', lm'.owners id' = if id' = id then rest else lm.owners id' := by
  obtain ⟨entry, hunlock, howners⟩ := SharedMutex.unlock_of_owners h
  refine ⟨_, Option.map_eq_some_iff.mpr ⟨entry, hunlock, rfl⟩, fun id' => ?_⟩
  rw [owners, entry_setEntry, entry_entry]
  split
  · exact howners
  · rfl

end LockManager

end LemonDB

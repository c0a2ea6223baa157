import Mathlib.Data.Multiset.Replicate
import Mathlib.Data.Multiset.ZeroCons

/-!
# LemonDB.Lib.SharedMutex

A mutex with shared and exclusive ownership.  Its state says how it is owned
(`owners`), and `lock` and `unlock` change that by one owner.  So a system whose
threads keep track of what they own can compare: as long as the owners of the
mutex are the threads that have it, one of them that has it exclusively is alone
(`eq_shared_of_owners`), and each of them can unlock it (`unlock_of_owners`).
-/

inductive LockMode where
  | shared | exclusive
  deriving DecidableEq, Repr

/-- The state of a mutex; without owners it is `shared 0`. -/
inductive SharedMutex where
  | shared (owners : Nat)
  | exclusive
  deriving DecidableEq, Repr

namespace SharedMutex

def unlocked : SharedMutex := .shared 0

/-- One more owner; none if the call blocks. -/
def lock : LockMode → SharedMutex → Option SharedMutex
  | .shared, .shared n => some (.shared (n + 1))
  | .exclusive, .shared 0 => some .exclusive
  | _, _ => none

/-- One owner less; none if there is no such owner. -/
def unlock : LockMode → SharedMutex → Option SharedMutex
  | .shared, .shared (n + 1) => some (.shared n)
  | .exclusive, .exclusive => some unlocked
  | _, _ => none

/-- The modes in which it is owned. -/
def owners : SharedMutex → Multiset LockMode
  | .shared n => .replicate n .shared
  | .exclusive => {.exclusive}

variable {m m' : SharedMutex} {mode mode' : LockMode} {rest : Multiset LockMode}

@[simp] theorem owners_unlocked : unlocked.owners = 0 := rfl

theorem owners_lock (h : m.lock mode = some m') : m'.owners = mode ::ₘ m.owners := by
  unfold lock at h
  split at h
  · rw [← Option.some.inj h]
    exact Multiset.replicate_succ _ _
  · rw [← Option.some.inj h]
    rfl
  · contradiction

/-- A mutex without owners can be locked. -/
theorem lock_of_unlocked (mode : LockMode) (h : m.owners = 0) : ∃ m', m.lock mode = some m' := by
  cases m with
  | exclusive => exact absurd h (Multiset.singleton_ne_zero _)
  | shared n =>
      obtain rfl : n = 0 := by simpa [owners] using congrArg Multiset.card h
      cases mode <;> exact ⟨_, rfl⟩

/-- An owner can unlock. -/
theorem unlock_of_owners (h : m.owners = mode ::ₘ rest) :
    ∃ m', m.unlock mode = some m' ∧ m'.owners = rest := by
  have hmem : mode ∈ m.owners := h ▸ Multiset.mem_cons_self _ _
  cases m with
  | exclusive =>
      obtain rfl := Multiset.mem_singleton.mp hmem
      refine ⟨unlocked, rfl, ?_⟩
      rw [owners, ← Multiset.cons_zero, Multiset.cons_inj_right] at h
      rw [← h, owners_unlocked]
  | shared n =>
      obtain rfl := Multiset.eq_of_mem_replicate hmem
      obtain ⟨k, rfl⟩ : ∃ k, n = k + 1 :=
        Nat.exists_eq_succ_of_ne_zero (Multiset.mem_replicate.mp hmem).1
      refine ⟨.shared k, rfl, ?_⟩
      rw [owners, Multiset.replicate_succ, Multiset.cons_inj_right] at h
      exact h

/-- An exclusive owner is alone. -/
theorem eq_shared_of_owners (h : m.owners = mode ::ₘ mode' ::ₘ rest) :
    mode = .shared ∧ mode' = .shared := by
  have hmem : ∀ a ∈ mode ::ₘ mode' ::ₘ rest, a ∈ m.owners := fun a ha => h ▸ ha
  cases m with
  | exclusive =>
      have hcard := congrArg Multiset.card h
      simp [owners] at hcard
  | shared n =>
      exact ⟨Multiset.eq_of_mem_replicate (hmem _ (by simp)),
        Multiset.eq_of_mem_replicate (hmem _ (by simp))⟩

end SharedMutex

import Mathlib.Data.List.Basic
import Mathlib.Logic.Function.Basic

/-!
# Files and interrupted operations

Named files, and sequences of operations on them. `stopAt ops i n` is what is left when `ops` stop
at operation number `i`: the operations before it are done, and of a write the first `n` items.

To replace a file, its new content is written under another name, which is then renamed. Wherever
that stops, the file has its content from before or the one from after (`stopAt_replace`).
-/

namespace Resilience

/-- The content of every name that is a file. -/
abbrev Files (π α : Type) := π → Option (List α)

namespace Files

variable {π α : Type}

/-- An operation on files; directories, permissions and caches are not part of their contents. -/
inductive Op (π α : Type)
  | mkdir
  /-- A new file, without content. -/
  | create (p : π)
  | write (p : π) (data : List α)
  | fsync (p : π)
  | chmod (p : π) (mode : ℕ)
  | rename (p q : π)
  | unlink (p : π)

variable [DecidableEq π]

namespace Op

def exec (files : Files π α) : Op π α → Files π α
  | mkdir => files
  | create p => Function.update files p (some [])
  | write p data => Function.update files p ((files p).map (· ++ data))
  | fsync _ => files
  | chmod _ _ => files
  | rename p q => Function.update (Function.update files q (files p)) p none
  | unlink p => Function.update files p none

/-- What is left of an operation that stops after `n` items. -/
def partly (n : ℕ) (files : Files π α) : Op π α → Files π α
  | write p data => (write p (data.take n)).exec files
  | _ => files

/-- The operation leaves the content of `q` alone. -/
def Avoids (q : π) : Op π α → Prop
  | create p => q ≠ p
  | write p _ => q ≠ p
  | rename p p' => q ≠ p ∧ q ≠ p'
  | unlink p => q ≠ p
  | _ => True

theorem exec_of_avoids {q : π} {op : Op π α} (h : op.Avoids q) (files : Files π α) :
    op.exec files q = files q := by
  cases op with
  | create p => exact Function.update_of_ne h _ _
  | write p data => exact Function.update_of_ne h _ _
  | rename p p' =>
    obtain ⟨hp, hp'⟩ := h
    rw [exec, Function.update_of_ne hp, Function.update_of_ne hp']
  | unlink p => exact Function.update_of_ne h _ _
  | _ => rfl

theorem partly_of_avoids {q : π} {op : Op π α} (h : op.Avoids q) (n : ℕ) (files : Files π α) :
    op.partly n files q = files q := by
  cases op with
  | write p data => exact Function.update_of_ne h _ _
  | _ => rfl

end Op

/-- The operations one after the other. -/
def execAll (ops : List (Op π α)) (files : Files π α) : Files π α := ops.foldl Op.exec files

/-- What is left when the operations stop at number `i`, after `n` items of a write. -/
def stopAt : List (Op π α) → ℕ → ℕ → Files π α → Files π α
  | [], _, _, files => files
  | op :: _, 0, n, files => op.partly n files
  | op :: ops, i + 1, n, files => stopAt ops i n (op.exec files)

@[simp] theorem execAll_nil (files : Files π α) : execAll [] files = files := rfl

@[simp] theorem execAll_cons (op : Op π α) (ops : List (Op π α)) (files : Files π α) :
    execAll (op :: ops) files = execAll ops (op.exec files) := rfl

theorem execAll_append (ops ops' : List (Op π α)) (files : Files π α) :
    execAll (ops ++ ops') files = execAll ops' (execAll ops files) := List.foldl_append ..

/-- Operations that are all done have not been stopped. -/
theorem stopAt_of_length_le {ops : List (Op π α)} {i : ℕ} (h : ops.length ≤ i) (n : ℕ)
    (files : Files π α) : stopAt ops i n files = execAll ops files := by
  induction ops generalizing i files with
  | nil => rfl
  | cons op ops ih =>
    cases i with
    | zero => exact absurd h (Nat.not_succ_le_zero _)
    | succ i => exact ih (Nat.le_of_succ_le_succ h) _

theorem execAll_of_avoids {q : π} {ops : List (Op π α)} (h : ∀ op ∈ ops, op.Avoids q)
    (files : Files π α) : execAll ops files q = files q := by
  induction ops generalizing files with
  | nil => rfl
  | cons op ops ih =>
    obtain ⟨hop, hops⟩ := List.forall_mem_cons.1 h
    rw [execAll_cons, ih hops, Op.exec_of_avoids hop]

theorem stopAt_of_avoids {q : π} {ops : List (Op π α)} (h : ∀ op ∈ ops, op.Avoids q) (i n : ℕ)
    (files : Files π α) : stopAt ops i n files q = files q := by
  induction ops generalizing i files with
  | nil => rfl
  | cons op ops ih =>
    obtain ⟨hop, hops⟩ := List.forall_mem_cons.1 h
    cases i with
    | zero => exact Op.partly_of_avoids hop n files
    | succ i => rw [stopAt, ih hops, Op.exec_of_avoids hop]

/-- Operations that stop before the last one have stopped without it. -/
theorem stopAt_concat_of_lt {ops : List (Op π α)} {i : ℕ} (h : i < ops.length) (op : Op π α) (n : ℕ)
    (files : Files π α) : stopAt (ops ++ [op]) i n files = stopAt ops i n files := by
  induction ops generalizing i files with
  | nil => exact absurd h (Nat.not_lt_zero _)
  | cons op' ops ih =>
    cases i with
    | zero => rfl
    | succ i => exact ih (Nat.lt_of_succ_lt_succ h) _

theorem stopAt_concat_length (ops : List (Op π α)) (op : Op π α) (n : ℕ) (files : Files π α) :
    stopAt (ops ++ [op]) ops.length n files = op.partly n (execAll ops files) := by
  induction ops generalizing files with
  | nil => rfl
  | cons op' ops ih => exact ih _

/-! ## Replacing a file -/

section Replace

variable {p q : π} {ops : List (Op π α)}

theorem exec_rename (files : Files π α) (h : q ≠ p) : (Op.rename p q).exec files q = files p := by
  rw [Op.exec, Function.update_of_ne h, Function.update_self]

theorem execAll_replace (hpq : q ≠ p) (files : Files π α) :
    execAll (ops ++ [.rename p q]) files q = execAll ops files p := by
  rw [execAll_append, execAll_cons, execAll_nil, exec_rename _ hpq]

/-- **A file is replaced at once**, by the last of the operations. -/
theorem stopAt_replace (hpq : q ≠ p) (h : ∀ op ∈ ops, op.Avoids q) (i n : ℕ) (files : Files π α) :
    stopAt (ops ++ [.rename p q]) i n files q =
      if i ≤ ops.length then files q else execAll ops files p := by
  split_ifs with hi
  · rcases Nat.lt_or_eq_of_le hi with hlt | rfl
    · rw [stopAt_concat_of_lt hlt, stopAt_of_avoids h]
    · rw [stopAt_concat_length]
      exact execAll_of_avoids h files
  · rw [stopAt_of_length_le (by simp; omega), execAll_replace hpq]

end Replace

end Files

end Resilience

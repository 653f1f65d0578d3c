import Mathlib.Algebra.Order.Group.Defs
import Mathlib.Data.List.Count

/-!
# Sliding windows

The times that a limiter has admitted, on a clock that does not go back. At the time `now`, the
times after `now - w` still count (`recent`), and it is enough to keep those (`recent_recent`). A
limiter that admits only while fewer than `n` times count admits at most `n` in every half-open
window of length `w` (`atMost_append`).
-/

namespace Resilience.SlidingWindow

variable {α : Type*} [AddCommGroup α] [LinearOrder α] {w now later : α}

/-- The times that count at `now`. -/
def recent (w now : α) (times : List α) : List α := times.filter (now - w < ·)

/-- The number of times in the window from `a` on. -/
def countFrom (w a : α) (times : List α) : ℕ := times.countP fun t => a ≤ t ∧ t < a + w

/-- Every window holds at most `n` of the times. -/
def AtMost (w : α) (n : ℕ) (times : List α) : Prop := ∀ a, countFrom w a times ≤ n

@[simp] theorem recent_nil : recent w now [] = [] := rfl

theorem recent_eq_self_iff {times : List α} :
    recent w now times = times ↔ ∀ t ∈ times, now - w < t := by
  simp [recent]

theorem countFrom_le_length (a : α) (times : List α) : countFrom w a times ≤ times.length :=
  List.countP_le_length

theorem atMost_nil (n : ℕ) : AtMost w n [] := fun _ => Nat.zero_le n

variable [IsOrderedAddMonoid α]

/-- What does not count any more will not count later. -/
theorem recent_recent (h : now ≤ later) (times : List α) :
    recent w later (recent w now times) = recent w later times := by
  rw [recent, recent, List.filter_filter]
  refine List.filter_congr fun t _ => ?_
  have hle : now - w ≤ later - w := sub_le_sub_right h w
  rw [Bool.eq_iff_iff, Bool.and_eq_true, decide_eq_true_iff, decide_eq_true_iff]
  exact ⟨And.left, fun hlater => ⟨hlater, hle.trans_lt hlater⟩⟩

/-- When one of the times stops to count, fewer do. -/
theorem length_recent_lt {times : List α} {t : α} (ht : t ∈ times) (h : t + w ≤ now) :
    (recent w now times).length < times.length := by
  refine List.length_filter_lt_length_iff_exists.2 ⟨t, ht, ?_⟩
  simpa [not_lt] using le_sub_iff_add_le.2 h

theorem recent_append_self (hw : 0 < w) (times : List α) :
    recent w now (times ++ [now]) = recent w now times ++ [now] := by
  rw [recent, List.filter_append, List.filter_cons_of_pos (by simpa using hw), List.filter_nil,
    recent]

/-- Times that are all now count. -/
theorem recent_replicate_self (hw : 0 < w) (k : ℕ) :
    recent w now (List.replicate k now) = List.replicate k now := by
  rw [recent, List.filter_replicate, if_pos (by simpa using hw)]

theorem countFrom_replicate_self (hw : 0 < w) (k : ℕ) :
    countFrom w now (List.replicate k now) = k := by
  rw [countFrom, List.countP_replicate, if_pos (by simpa using hw)]

/-- The times in a window that holds `now` all count at `now`. -/
theorem countFrom_le_recent {a : α} (hnow : now < a + w) (times : List α) :
    countFrom w a times ≤ (recent w now times).length := by
  rw [recent, ← List.countP_eq_length_filter]
  refine List.countP_mono_left fun t _ ht => ?_
  rw [decide_eq_true_iff] at ht ⊢
  exact (sub_lt_iff_lt_add.2 hnow).trans_le ht.1

/-- **Admitting while fewer than `n` times count** keeps at most `n` in every window. -/
theorem atMost_append {n : ℕ} {times : List α} (h : AtMost w n times)
    (hroom : (recent w now times).length < n) : AtMost w n (times ++ [now]) := by
  intro a
  rw [countFrom, List.countP_append, List.countP_singleton]
  split_ifs with hin
  · rw [decide_eq_true_iff] at hin
    exact (Nat.succ_le_succ (countFrom_le_recent hin.2 times)).trans hroom
  · exact h a

end Resilience.SlidingWindow

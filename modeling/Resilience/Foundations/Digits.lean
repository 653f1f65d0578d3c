import Mathlib.Data.String.Basic

/-!
# Numbers of a fixed width

A number is written in decimal digits and filled up with zeros to a width. Texts that begin with
numbers of the same width are in the order of the numbers.
-/

namespace Resilience.Digits

/-- The digits of a number after zeros up to the width. -/
def padded (width n : ℕ) : List Char := (Nat.toDigits 10 n).leftpad width '0'

@[simp] theorem ofDigitChars_padded (width n : ℕ) :
    Nat.ofDigitChars 10 (padded width n) 0 = n := by
  rw [padded, List.leftpad, Nat.ofDigitChars_append, Nat.ofDigitChars_replicate_zero]
  simp

theorem padded_injective (width : ℕ) : Function.Injective (padded width) := by
  intro n k h
  rw [← ofDigitChars_padded width n, h, ofDigitChars_padded]

theorem length_padded {width n : ℕ} (hwidth : 0 < width) (hn : n < 10 ^ width) :
    (padded width n).length = width := by
  have hlength := (Nat.length_toDigits_le_iff (by decide) hwidth).2 hn
  rw [padded, List.length_leftpad, max_eq_left hlength]

theorem isDigit_of_mem_padded {width n : ℕ} {c : Char} (h : c ∈ padded width n) :
    c.isDigit = true := by
  rcases List.mem_append.1 h with hzero | hdigit
  · rw [List.eq_of_mem_replicate hzero]
    rfl
  · exact Nat.isDigit_of_mem_toDigits (by decide) (by decide) hdigit

theorem ofDigitChars_cons_zero (c : Char) (l : List Char) :
    Nat.ofDigitChars 10 (c :: l) 0 =
      10 ^ l.length * (c.toNat - 48) + Nat.ofDigitChars 10 l 0 := by
  rw [Nat.ofDigitChars_cons, Nat.ofDigitChars_eq_ofDigitChars_zero]
  simp

theorem ofDigitChars_lt (l : List Char) (hl : ∀ c ∈ l, c.isDigit = true) :
    Nat.ofDigitChars 10 l 0 < 10 ^ l.length := by
  induction l with
  | nil => simp
  | cons c l ih =>
    have hc := (Char.isDigit_iff_toNat.1 (hl c List.mem_cons_self)).2
    have hdigit : c.toNat - 48 ≤ 9 := Nat.sub_le_sub_right hc 48
    have hhead := Nat.mul_le_mul_left (10 ^ l.length) hdigit
    have hrest := ih fun d hd => hl d (List.mem_cons_of_mem c hd)
    rw [ofDigitChars_cons_zero, List.length_cons, pow_succ]
    omega

/-- The first digit that differs decides, for the numbers and for the texts. -/
theorem lt_of_ofDigitChars_lt {l l' : List Char} (hl : ∀ c ∈ l, c.isDigit = true)
    (hl' : ∀ c ∈ l', c.isDigit = true) (hlength : l.length = l'.length)
    (h : Nat.ofDigitChars 10 l 0 < Nat.ofDigitChars 10 l' 0) (r r' : List Char) :
    l ++ r < l' ++ r' := by
  induction l generalizing l' with
  | nil =>
    obtain rfl : l' = [] := List.length_eq_zero_iff.1 hlength.symm
    exact absurd h (lt_irrefl _)
  | cons c l ih =>
    cases l' with
    | nil => cases hlength
    | cons c' l' =>
      have hlength' : l.length = l'.length := Nat.succ_inj.1 hlength
      have hrest' : ∀ d ∈ l', d.isDigit = true := fun d hd => hl' d (List.mem_cons_of_mem c' hd)
      rw [ofDigitChars_cons_zero, ofDigitChars_cons_zero, hlength'] at h
      rw [List.cons_append, List.cons_append, List.cons_lt_cons_iff]
      rcases lt_trichotomy c c' with hlt | rfl | hgt
      · exact .inl hlt
      · have hrest := fun d hd => hl d (List.mem_cons_of_mem c hd)
        exact .inr ⟨rfl, ih hrest hrest' hlength' (Nat.lt_of_add_lt_add_left h)⟩
      · have hc := (Char.isDigit_iff_toNat.1 (hl' c' List.mem_cons_self)).1
        have hdigit : c'.toNat - 48 + 1 ≤ c.toNat - 48 := by
          have hnat : c'.toNat < c.toNat := hgt
          simp only [Char.reduceToNat] at hc
          omega
        have hhead := Nat.mul_le_mul_left (10 ^ l'.length) hdigit
        have hsmall := ofDigitChars_lt l' hrest'
        rw [Nat.mul_add, Nat.mul_one] at hhead
        omega

theorem padded_append_lt {width n k : ℕ} {r r' : List Char} (hn : n < 10 ^ width)
    (hk : k < 10 ^ width) (hwidth : 0 < width) (h : n < k ∨ n = k ∧ r < r') :
    padded width n ++ r < padded width k ++ r' := by
  rcases h with hlt | ⟨rfl, hr⟩
  · apply lt_of_ofDigitChars_lt (fun _ => isDigit_of_mem_padded) (fun _ => isDigit_of_mem_padded)
    · rw [length_padded hwidth hn, length_padded hwidth hk]
    · rwa [ofDigitChars_padded, ofDigitChars_padded]
  · exact List.append_left_lt hr

theorem padded_append_inj {width n k : ℕ} {r r' : List Char} (hn : n < 10 ^ width)
    (hk : k < 10 ^ width) (hwidth : 0 < width) (h : padded width n ++ r = padded width k ++ r') :
    n = k ∧ r = r' := by
  obtain ⟨hpadded, hr⟩ :=
      List.append_inj h (by rw [length_padded hwidth hn, length_padded hwidth hk])
  exact ⟨padded_injective width hpadded, hr⟩

end Resilience.Digits

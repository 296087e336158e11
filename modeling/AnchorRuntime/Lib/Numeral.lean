import Mathlib

/-!
# Padded numerals

The numeral of a number in a base up to 16, with zeros before it up to a width. `read` takes a
numeral back to its number, whatever zeros stand before it.

Results: `padded_inj`, a numeral determines its number; `mem_padded`, it is made of
digits.
-/

namespace Numeral

variable {base width m n : Nat}

/-- The value of a digit. -/
def value (c : Char) : Nat := if c.toNat < 58 then c.toNat - 48 else c.toNat - 87

/-- The number of a numeral. -/
def read (base : Nat) (l : List Char) : Nat := l.foldl (fun n c => n * base + value c) 0

/-- The numeral of `n`, with zeros before it. -/
def padded (base width n : Nat) : List Char :=
  List.replicate (width - (Nat.toDigits base n).length) '0' ++ Nat.toDigits base n

theorem value_digitChar {d : Nat} (small : d < 16) : value d.digitChar = d := by
  interval_cases d <;> rfl

theorem read_concat (l : List Char) (c : Char) :
    read base (l ++ [c]) = read base l * base + value c := by
  unfold read
  rw [List.foldl_append]
  rfl

theorem read_zeros (k : Nat) (l : List Char) :
    read base (List.replicate k '0' ++ l) = read base l := by
  have zero : 0 * base + value '0' = 0 := Nat.zero_mul base
  induction k with
  | zero => rfl
  | succ k ih =>
    unfold read at ih ⊢
    rw [List.replicate_succ, List.cons_append, List.foldl_cons, zero]
    exact ih

theorem read_toDigits (two : 1 < base) (hex : base ≤ 16) (n : Nat) :
    read base (Nat.toDigits base n) = n := by
  induction n using Nat.strong_induction_on with
  | _ n ih =>
    rw [Nat.toDigits_eq_if two]
    split
    · next small =>
      show 0 * base + value n.digitChar = n
      rw [value_digitChar (by omega)]
      omega
    · next large =>
      have last : n % base < base := Nat.mod_lt n (by omega)
      rw [read_concat, ih (n / base) (Nat.div_lt_self (by omega) two),
        value_digitChar (by omega), Nat.mul_comm]
      exact Nat.div_add_mod n base

theorem read_padded (two : 1 < base) (hex : base ≤ 16) : read base (padded base width n) = n := by
  unfold padded
  rw [read_zeros, read_toDigits two hex]

theorem padded_inj (two : 1 < base) (hex : base ≤ 16)
    (same : padded base width m = padded base width n) : m = n := by
  have numbers := congrArg (read base) same
  rwa [read_padded two hex, read_padded two hex] at numbers

theorem mem_toDigits (two : 1 < base) {c : Char} (mem : c ∈ Nat.toDigits base n) :
    ∃ d < base, c = d.digitChar := by
  induction n using Nat.strong_induction_on with
  | _ n ih =>
    rw [Nat.toDigits_eq_if two] at mem
    split at mem
    · next small => exact ⟨n, small, List.mem_singleton.mp mem⟩
    · next large =>
      rcases List.mem_append.mp mem with front | last
      · exact ih (n / base) (Nat.div_lt_self (by omega) two) front
      · exact ⟨n % base, Nat.mod_lt n (by omega), List.mem_singleton.mp last⟩

theorem mem_padded (two : 1 < base) {c : Char} (mem : c ∈ padded base width n) :
    ∃ d < base, c = d.digitChar := by
  rcases List.mem_append.mp mem with zero | digit
  · exact ⟨0, by omega, (List.mem_replicate.mp zero).2⟩
  · exact mem_toDigits two digit

end Numeral

import Mathlib

/-!
# UTF-16

Strings are sequences of code points, surrogates among them. A code point beyond the basic plane is
written as two units, a high and a low surrogate; a reader takes every such pair for one code point,
also where the two were written for two.

Results: `decode_encode_iff`, a string is read as it was written if and only if no high surrogate
comes directly before a low one in it.
-/

namespace Utf16

abbrev CodePoint := Fin 0x110000

abbrev CodeUnit := Fin 0x10000

/-- The surrogates that begin a pair. -/
def High (n : Nat) : Prop := 0xD800 ≤ n ∧ n < 0xDC00

/-- The surrogates that end a pair. -/
def Low (n : Nat) : Prop := 0xDC00 ≤ n ∧ n < 0xE000

instance (n : Nat) : Decidable (High n) := inferInstanceAs (Decidable (_ ∧ _))

instance (n : Nat) : Decidable (Low n) := inferInstanceAs (Decidable (_ ∧ _))

/-- The units of a code point. -/
def units (c : CodePoint) : List CodeUnit :=
  if h : c.val < 0x10000 then [⟨c, h⟩]
  else [⟨0xD800 + (c - 0x10000) / 0x400, by omega⟩, ⟨0xDC00 + (c - 0x10000) % 0x400, by omega⟩]

/-- The number of the code point of a pair. -/
def join (h l : Nat) : Nat := 0x10000 + (h - 0xD800) * 0x400 + (l - 0xDC00)

theorem join_beyond (h l : Nat) : 0x10000 ≤ join h l := by
  unfold join
  omega

theorem join_bound {h l : Nat} (high : High h) (low : Low l) : join h l < 0x110000 := by
  obtain ⟨-, hh⟩ := high
  obtain ⟨-, hl⟩ := low
  unfold join
  omega

theorem join_split {n : Nat} (beyond : 0x10000 ≤ n) :
    join (0xD800 + (n - 0x10000) / 0x400) (0xDC00 + (n - 0x10000) % 0x400) = n := by
  unfold join
  omega

/-- The code point of a pair. -/
def pair (h l : CodeUnit) (high : High h) (low : Low l) : CodePoint :=
  ⟨join h l, join_bound high low⟩

theorem pair_beyond {h l : CodeUnit} (high : High h) (low : Low l) :
    0x10000 ≤ (pair h l high low).val :=
  join_beyond h l

/-- A unit that is none of a pair stands for itself. -/
def single (u : CodeUnit) : CodePoint := ⟨u, by omega⟩

def encode (s : List CodePoint) : List CodeUnit := s.flatMap units

def decode : List CodeUnit → List CodePoint
  | [] => []
  | [u] => [single u]
  | h :: l :: rest =>
    if is : High h ∧ Low l then pair h l is.1 is.2 :: decode rest
    else single h :: decode (l :: rest)

/-- No high surrogate comes directly before a low one. -/
def unpaired : List CodePoint → Bool
  | c :: d :: rest => !(High c && Low d) && unpaired (d :: rest)
  | _ => true

theorem decode_pair {h l : CodeUnit} (high : High h) (low : Low l) (rest : List CodeUnit) :
    decode (h :: l :: rest) = pair h l high low :: decode rest := by
  rw [decode, dif_pos ⟨high, low⟩]

theorem decode_single {h : CodeUnit} {rest : List CodeUnit}
    (alone : ∀ l ∈ rest.head?, ¬ (High h ∧ Low l)) :
    decode (h :: rest) = single h :: decode rest := by
  cases rest with
  | nil => rfl
  | cons l rest => rw [decode, dif_neg (alone l rfl)]

/-- The units of a code point beyond the basic plane. -/
theorem units_pair {c : CodePoint} (beyond : ¬ c.val < 0x10000) : ∃ (h l : CodeUnit) (high : High h)
    (low : Low l), units c = [h, l] ∧ pair h l high low = c := by
  have bound := c.isLt
  have high : High (0xD800 + (c.val - 0x10000) / 0x400) := ⟨by omega, by omega⟩
  have low : Low (0xDC00 + (c.val - 0x10000) % 0x400) := ⟨by omega, by omega⟩
  refine ⟨⟨0xD800 + (c - 0x10000) / 0x400, by omega⟩, ⟨0xDC00 + (c - 0x10000) % 0x400, by omega⟩,
    high, low, ?_, Fin.ext (join_split (Nat.le_of_not_lt beyond))⟩
  rw [units, dif_neg beyond]

/-- What a string is written with begins with a low surrogate only if the string does. -/
theorem head_encode {s : List CodePoint} {u : CodeUnit} (first : (encode s).head? = some u)
    (low : Low u) : ∃ d rest, s = d :: rest ∧ Low d := by
  cases s with
  | nil => cases first
  | cons d rest =>
    refine ⟨d, rest, rfl, ?_⟩
    by_cases basic : d.val < 0x10000
    · have is : units d = [⟨d, basic⟩] := by rw [units, dif_pos basic]
      rw [encode, List.flatMap_cons, is] at first
      obtain rfl : (⟨d, basic⟩ : CodeUnit) = u := Option.some.inj first
      exact low
    · obtain ⟨h, l, high, -, is, -⟩ := units_pair basic
      rw [encode, List.flatMap_cons, is] at first
      obtain rfl : h = u := Option.some.inj first
      obtain ⟨-, hh⟩ := high
      obtain ⟨hl, -⟩ := low
      omega

theorem decode_encode {s : List CodePoint} (whole : unpaired s = true) :
    decode (encode s) = s := by
  induction s with
  | nil => rfl
  | cons c rest ih =>
    have tail : unpaired rest = true := by
      cases rest with
      | nil => rfl
      | cons d rest => exact (Bool.and_eq_true _ _ ▸ whole).2
    rw [encode, List.flatMap_cons]
    by_cases basic : c.val < 0x10000
    · have is : units c = [⟨c, basic⟩] := by rw [units, dif_pos basic]
      rw [is, List.singleton_append, decode_single, ← encode, ih tail]
      · rfl
      · rintro u first ⟨high, low⟩
        obtain ⟨d, rest, rfl, low⟩ := head_encode first low
        have apart := (Bool.and_eq_true _ _ ▸ whole).1
        have both : High c ∧ Low d := ⟨high, low⟩
        simp [both] at apart
    · obtain ⟨h, l, high, low, is, same⟩ := units_pair basic
      rw [is, List.cons_append, List.singleton_append, decode_pair high low, ← encode, ih tail,
        same]

/-- What is read has no pair left in it. -/
theorem unpaired_decode : ∀ us : List CodeUnit, unpaired (decode us) = true
  | [] => rfl
  | [_] => rfl
  | h :: l :: rest => by
    by_cases is : High h ∧ Low l
    · have ih := unpaired_decode rest
      rw [decode_pair is.1 is.2]
      cases hd : decode rest with
      | nil => rfl
      | cons d ds =>
        rw [hd] at ih
        have above : ¬ High (pair h l is.1 is.2) := by
          rintro ⟨-, small⟩
          have large := pair_beyond is.1 is.2
          omega
        simp [unpaired, above, ih]
    · have ih := unpaired_decode (l :: rest)
      rw [decode, dif_neg is]
      cases hd : decode (l :: rest) with
      | nil => rfl
      | cons d ds =>
        rw [hd] at ih
        have apart : ¬ (High (single h) ∧ Low d) := by
          rintro ⟨high, low⟩
          -- the next code point is the next unit, or too large for a surrogate
          have next : Low l ∨ ¬ Low d := by
            cases rest with
            | nil =>
              obtain ⟨rfl, -⟩ := List.cons.inj hd
              exact .inl low
            | cons l' rest =>
              rw [decode] at hd
              split at hd
              · next is' =>
                obtain ⟨rfl, -⟩ := List.cons.inj hd
                refine .inr ?_
                rintro ⟨-, small⟩
                have large := pair_beyond is'.1 is'.2
                omega
              · obtain ⟨rfl, -⟩ := List.cons.inj hd
                exact .inl low
          exact next.elim (fun low => is ⟨high, low⟩) fun absent => absent low
        simp [unpaired, ih, not_and_or.mp apart]

/-- A string is read as it was written if and only if it has no pair of surrogates in it. -/
theorem decode_encode_iff (s : List CodePoint) : decode (encode s) = s ↔ unpaired s = true :=
  ⟨fun same => same ▸ unpaired_decode (encode s), decode_encode⟩

end Utf16

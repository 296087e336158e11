import AnchorRuntime.Lib.Utf16

/-!
# Python strings

A Python string is a sequence of code points, surrogates among them, and a surrogate is no `Char`.
In a `String` that stands for a Python string U+FFFF is a mark: with U+n behind it, n below 0x800,
it stands for the surrogate U+D800 + n, and with another U+FFFF behind it for U+FFFF. All other
characters stand for themselves.

Results: `pyStr_spelled`, every Python string has a `String` that stands for it; `pyRepr_verbatim`,
what `repr` writes of a string can be held anywhere, whatever the string is.
-/

namespace AnchorRuntime

open Utf16

abbrev PyStr := List CodePoint

/-- Half of a pair of UTF-16. -/
def surrogate (c : CodePoint) : Bool := 0xD800 ≤ c.val && c.val < 0xE000

def codePoint (c : Char) : CodePoint := Fin.ofNat 0x110000 c.toNat

/-- The code points that characters stand for. -/
def pyChars : List Char → PyStr
  | [] => []
  | [c] => [codePoint c]
  | c :: d :: rest =>
    if c = '\uffff' ∧ d = '\uffff' then codePoint c :: pyChars rest
    else if c = '\uffff' ∧ d.toNat < 0x800 then
      Fin.ofNat 0x110000 (0xD800 + d.toNat) :: pyChars rest
    else codePoint c :: pyChars (d :: rest)

def pyStr (s : String) : PyStr := pyChars s.toList

/-- The characters that stand for a code point. -/
def spell (c : CodePoint) : List Char :=
  if surrogate c then ['\uffff', Char.ofNat (c - 0xD800)]
  else if c.val = 0xFFFF then ['\uffff', '\uffff']
  else [Char.ofNat c]

/-- A string that stands for these code points. -/
def spelled (p : PyStr) : String := String.ofList (p.flatMap spell)

/-! ## What Postgres holds -/

/-- Code points that UTF-8 writes, and no NUL. -/
def held (p : PyStr) : Bool := p.all fun c => c.val ≠ 0 && !surrogate c

/-- UTF-8 writes the string. -/
def utf8 (s : String) : Bool := (pyStr s).all fun c => !surrogate c

/-- A `text` column holds the string. -/
def pgText (s : String) : Bool := held (pyStr s)

/-- A `jsonb` column holds the string as `json.dumps` writes it: what is escaped as a pair is
read as one code point. -/
def jsonText (s : String) : Bool := held (decode (encode (pyStr s)))

/-- Every character stands for itself, and none is NUL. -/
def verbatim (s : String) : Bool := s.toList.all fun c => c ≠ '\x00' && c ≠ '\uffff'

/-! ## repr -/

/-- `str.isprintable`. Unassigned code points and those that only format are not told from the
printable ones here, but for the ranges that hold nothing else. -/
def printable (c : CodePoint) : Bool :=
  (0x20 ≤ c.val && c.val < 0x7F) || (0xA0 < c.val && c.val ≠ 0xAD && c.val < 0xD800) ||
    (0xF900 ≤ c.val && c.val < 0xFFFE) || (0x10000 ≤ c.val && c.val < 0xE0000)

/-- The last `k` hexadecimal digits of `n`. -/
def hexDigits : Nat → Nat → List Char
  | 0, _ => []
  | k + 1, n => hexDigits k (n / 16) ++ [Nat.digitChar (n % 16)]

/-- A code point that is not printable. -/
def hexEscape (c : CodePoint) : List Char :=
  if c.val < 0x100 then '\\' :: 'x' :: hexDigits 2 c
  else if c.val < 0x10000 then '\\' :: 'u' :: hexDigits 4 c
  else '\\' :: 'U' :: hexDigits 8 c

/-- A code point as `repr` writes it between these quotes. -/
def reprChar (quote : Char) (c : CodePoint) : List Char :=
  if c = codePoint '\\' then ['\\', '\\']
  else if c = codePoint quote then ['\\', quote]
  else if c = codePoint '\n' then ['\\', 'n']
  else if c = codePoint '\r' then ['\\', 'r']
  else if c = codePoint '\t' then ['\\', 't']
  else if printable c then [Char.ofNat c]
  else hexEscape c

/-- `repr` of a string: single quotes unless only double quotes avoid an escape. -/
def pyRepr (s : String) : String :=
  let p := pyStr s
  let quote := if p.contains (codePoint '\'') && !p.contains (codePoint '"') then '"' else '\''
  String.ofList (quote :: p.flatMap (reprChar quote) ++ [quote])

namespace TextLemmas

/-! ## Reading what is written -/

theorem codePoint_val (c : Char) : (codePoint c).val = c.toNat := by
  have valid : c.toNat < 0x110000 := by
    rcases c.valid with low | ⟨-, high⟩
    · exact Nat.lt_trans low (by decide)
    · exact high
  exact Nat.mod_eq_of_lt valid

/-- No character is a surrogate. -/
theorem surrogate_codePoint (c : Char) : surrogate (codePoint c) = false := by
  have valid : c.toNat < 0xD800 ∨ 0xDFFF < c.toNat := by
    rcases c.valid with low | ⟨high, -⟩
    · exact .inl low
    · exact .inr high
  simp only [surrogate, codePoint_val, Bool.and_eq_false_iff, decide_eq_false_iff_not]
  omega

theorem codePoint_ofNat {c : CodePoint} (char : surrogate c = false) :
    codePoint (Char.ofNat c) = c := by
  have valid : Nat.isValidChar c := by
    have bound := c.isLt
    simp only [surrogate, Bool.and_eq_false_iff, decide_eq_false_iff_not] at char
    unfold Nat.isValidChar
    omega
  apply Fin.ext
  rw [codePoint_val, Char.toNat_ofNat, if_pos valid]

theorem pyChars_cons {c : Char} (plain : c ≠ '\uffff') (rest : List Char) :
    pyChars (c :: rest) = codePoint c :: pyChars rest := by
  cases rest with
  | nil => rfl
  | cons d rest => simp [pyChars, plain]

/-- A code point is read as it was written, whatever follows. -/
theorem pyChars_spell (c : CodePoint) (rest : List Char) :
    pyChars (spell c ++ rest) = c :: pyChars rest := by
  unfold spell
  split
  · next half =>
    have small : (Char.ofNat (c - 0xD800)).toNat = c - 0xD800 := by
      simp only [surrogate, Bool.and_eq_true, decide_eq_true_eq] at half
      rw [Char.toNat_ofNat, if_pos (by unfold Nat.isValidChar; omega)]
    simp only [surrogate, Bool.and_eq_true, decide_eq_true_eq] at half
    have other : Char.ofNat (c - 0xD800) ≠ '\uffff' := fun same => by
      have top : (Char.ofNat (c - 0xD800)).toNat = 0xFFFF := by rw [same]; rfl
      omega
    have back : (0xD800 + (c.val - 0xD800)) % 0x110000 = c.val := by omega
    rw [List.cons_append, List.cons_append, List.nil_append, pyChars,
      if_neg fun both => other both.2, if_pos ⟨rfl, by omega⟩, small]
    exact congrArg (· :: _) (Fin.ext back)
  · next char =>
    have char : surrogate c = false := by simpa using char
    split
    · next mark =>
      rw [List.cons_append, List.cons_append, List.nil_append, pyChars, if_pos ⟨rfl, rfl⟩]
      exact congrArg (· :: _) (Fin.ext mark.symm)
    · next other =>
      have same := codePoint_ofNat char
      have plain : Char.ofNat c ≠ '\uffff' := fun is => other (by rw [← same, is]; rfl)
      rw [List.singleton_append, pyChars_cons plain, same]

/-! ## Strings that are held -/

theorem pyChars_verbatim {cs : List Char} (plain : ∀ c ∈ cs, c ≠ '\uffff') :
    pyChars cs = cs.map codePoint := by
  induction cs with
  | nil => rfl
  | cons c cs ih =>
    rw [pyChars_cons (plain c List.mem_cons_self),
      ih fun d hd => plain d (List.mem_cons_of_mem _ hd), List.map_cons]

theorem verbatim_iff {s : String} :
    verbatim s = true ↔ ∀ c ∈ s.toList, c ≠ '\x00' ∧ c ≠ '\uffff' := by
  simp [verbatim]

@[simp] theorem verbatim_append (s t : String) :
    verbatim (s ++ t) = (verbatim s && verbatim t) := by
  simp [verbatim, List.all_append]

theorem pgText_verbatim {s : String} (plain : verbatim s = true) : pgText s = true := by
  have each := verbatim_iff.mp plain
  rw [pgText, pyStr, pyChars_verbatim fun c hc => (each c hc).2, held, List.all_map,
    List.all_eq_true]
  intro c hc
  have char : (codePoint c).val ≠ 0 := fun zero =>
    (each c hc).1 (Char.toNat_inj.mp ((codePoint_val c).symm.trans zero))
  rw [Function.comp_apply, surrogate_codePoint, decide_eq_true char]
  rfl

theorem utf8_verbatim {s : String} (plain : verbatim s = true) : utf8 s = true := by
  rw [utf8, pyStr, pyChars_verbatim fun c hc => (verbatim_iff.mp plain c hc).2, List.all_map,
    List.all_eq_true]
  intro c _
  rw [Function.comp_apply, surrogate_codePoint]
  rfl

/-- Without surrogates a string is read as it was written. -/
theorem unpaired_held {p : PyStr} (h : held p = true) : unpaired p = true := by
  induction p with
  | nil => rfl
  | cons c p ih =>
    obtain ⟨first, rest⟩ := (Bool.and_eq_true _ _).mp h
    cases p with
    | nil => rfl
    | cons d p =>
      have alone : ¬ High c := by
        rintro ⟨low, high⟩
        simp [surrogate, low, Nat.lt_trans high] at first
      simp [unpaired, alone, ih rest]

theorem jsonText_pgText {s : String} (h : pgText s = true) : jsonText s = true := by
  rw [jsonText, decode_encode (unpaired_held h)]
  exact h

theorem jsonText_verbatim {s : String} (plain : verbatim s = true) : jsonText s = true :=
  jsonText_pgText (pgText_verbatim plain)

theorem digitChar_plain : ∀ d < 16, Nat.digitChar d ≠ '\x00' ∧ Nat.digitChar d ≠ '\uffff' := by
  decide

theorem hexDigits_plain {k n : Nat} {c : Char} (h : c ∈ hexDigits k n) :
    c ≠ '\x00' ∧ c ≠ '\uffff' := by
  induction k generalizing n with
  | zero => cases h
  | succ k ih =>
    rcases List.mem_append.mp h with before | last
    · exact ih before
    · obtain rfl := List.mem_singleton.mp last
      exact digitChar_plain _ (Nat.mod_lt _ (by decide))

theorem hexEscape_plain {c : CodePoint} {d : Char} (h : d ∈ hexEscape c) :
    d ≠ '\x00' ∧ d ≠ '\uffff' := by
  have digits : ∃ m k, (m = 'x' ∨ m = 'u' ∨ m = 'U') ∧ d ∈ '\\' :: m :: hexDigits k c := by
    unfold hexEscape at h
    split at h
    · exact ⟨'x', 2, by simp, h⟩
    · split at h
      · exact ⟨'u', 4, by simp, h⟩
      · exact ⟨'U', 8, by simp, h⟩
  obtain ⟨m, k, mark, h⟩ := digits
  rcases List.mem_cons.mp h with rfl | h
  · decide
  · rcases List.mem_cons.mp h with rfl | h
    · rcases mark with rfl | rfl | rfl <;> decide
    · exact hexDigits_plain h

theorem printable_plain {c : CodePoint} (h : printable c = true) :
    Char.ofNat c ≠ '\x00' ∧ Char.ofNat c ≠ '\uffff' := by
  have bound := c.isLt
  simp only [printable, Bool.or_eq_true, Bool.and_eq_true, decide_eq_true_eq] at h
  have char : (Char.ofNat c).toNat = c := by
    rw [Char.toNat_ofNat, if_pos (by unfold Nat.isValidChar; omega)]
  constructor
  · intro same
    have zero : (Char.ofNat c).toNat = 0 := by rw [same]; rfl
    omega
  · intro same
    have mark : (Char.ofNat c).toNat = 0xFFFF := by rw [same]; rfl
    omega

theorem reprChar_plain {quote : Char} (q : quote ≠ '\x00' ∧ quote ≠ '\uffff') {c : CodePoint}
    {d : Char} (h : d ∈ reprChar quote c) : d ≠ '\x00' ∧ d ≠ '\uffff' := by
  have escaped : ∀ e : Char, e ≠ '\x00' ∧ e ≠ '\uffff' → d ∈ ['\\', e] →
      d ≠ '\x00' ∧ d ≠ '\uffff' := by
    intro e he hd
    rcases List.mem_pair.mp hd with rfl | rfl
    · decide
    · exact he
  unfold reprChar at h
  split at h
  · exact escaped _ (by decide) h
  split at h
  · exact escaped _ q h
  split at h
  · exact escaped _ (by decide) h
  split at h
  · exact escaped _ (by decide) h
  split at h
  · exact escaped _ (by decide) h
  split at h
  · next shown =>
    obtain rfl := List.mem_singleton.mp h
    exact printable_plain shown
  · exact hexEscape_plain h

theorem toString_verbatim (n : Int) : verbatim (toString n) = true := by
  have digits : ∀ m : Nat, verbatim (toString m) = true := by
    intro m
    refine verbatim_iff.mpr fun c hc => ?_
    rw [Nat.toString_eq_repr, Nat.toList_repr] at hc
    have digit : c.isDigit = true := Nat.isDigit_of_mem_toDigits (by decide) (by decide) hc
    constructor <;> rintro rfl <;> cases digit
  cases n with
  | ofNat m => exact digits m
  | negSucc m =>
    show verbatim ("-" ++ toString (m + 1)) = true
    rw [verbatim_append, digits]
    rfl

end TextLemmas

open TextLemmas

/-- Every Python string has a `String` that stands for it. -/
theorem pyStr_spelled (p : PyStr) : pyStr (spelled p) = p := by
  rw [pyStr, spelled, String.toList_ofList]
  induction p with
  | nil => rfl
  | cons c p ih => rw [List.flatMap_cons, pyChars_spell, ih]

example : pyStr "a\uffff\u0000" = [0x61, 0xD800] := by decide

/-- What `repr` writes of a string is held anywhere. -/
theorem pyRepr_verbatim (s : String) : verbatim (pyRepr s) = true := by
  rw [verbatim_iff, pyRepr, String.toList_ofList]
  generalize is : (if (pyStr s).contains (codePoint '\'') && !(pyStr s).contains (codePoint '"')
    then '"' else '\'') = quote
  have q : quote ≠ '\x00' ∧ quote ≠ '\uffff' := by
    rw [← is]
    split <;> decide
  intro d hd
  simp only [List.cons_append, List.mem_cons, List.mem_append, List.mem_flatMap,
    List.not_mem_nil, or_false] at hd
  rcases hd with rfl | ⟨c, -, hd⟩ | rfl
  · exact q
  · exact reprChar_plain q hd
  · exact q

example : pyRepr "a\x00" = "'a\\x00'" := by decide

end AnchorRuntime

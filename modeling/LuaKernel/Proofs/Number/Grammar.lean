import LuaKernel.Proofs.Number.Written
import Mathlib.Computability.RegularExpressions
import Mathlib.Data.List.Chain
import Mathlib.Data.List.TakeWhile

/-!
# The grammar of numerals

A text is read as a number exactly if it is a word of a regular expression (`literal`): blanks, then
an integer, a hexadecimal integer or a decimal, each with at most one sign, then blanks
(`read_iff_literal`).

The reader takes a text apart from the left: it trims it, splits off the sign, looks for the mark of
a hexadecimal integer, and else takes digits, a point, digits and an exponent.  Each of these parts
has its own regular expression, and each of the lemmas here says of one part that it accepts the
words of its expression.  No part has a choice, since what may follow a part begins with a character
that cannot belong to it.
-/

namespace LuaKernel.Numeral

open RegularExpression

/-! ### Regular expressions -/

/-- One of some characters. -/
def oneOf (cs : List Char) : RegularExpression Char := cs.foldr (fun c r => char c + r) 0

/-- A word, or nothing. -/
def optional (r : RegularExpression Char) : RegularExpression Char := 1 + r

/-- One word after the other, at least one. -/
def many1 (r : RegularExpression Char) : RegularExpression Char := r * r.star

/-- The characters of a regular expression. -/
def letters : RegularExpression Char → List Char
  | .zero | .epsilon => []
  | .char c => [c]
  | .plus r s | .comp r s => letters r ++ letters s
  | .star r => letters r

/-- Whether a regular expression has none of some characters. -/
def lacks (r : RegularExpression Char) (cs : List Char) : Bool :=
  (letters r).all fun c => !cs.contains c

section

variable {cs x : List Char} {r s : RegularExpression Char}

theorem mem_char {c : Char} : x ∈ (char c).matches' ↔ x = [c] := Iff.rfl

/-- The words of a choice of characters are those of one of them. -/
theorem mem_oneOf : x ∈ (oneOf cs).matches' ↔ ∃ c ∈ cs, x = [c] := by
  induction cs with
  | nil => simp [oneOf, matches'_zero]
  | cons c cs ih =>
      have hcons : oneOf (c :: cs) = char c + oneOf cs := rfl
      rw [hcons, matches'_add, Language.mem_add, mem_char, ih, List.exists_mem_cons_iff]

/-- The words of an optional part are the empty one and those of the part. -/
theorem mem_optional : x ∈ (optional r).matches' ↔ x = [] ∨ x ∈ r.matches' := by
  rw [optional, matches'_add, matches'_epsilon, Language.mem_add, Language.mem_one]

theorem mem_mul' : x ∈ (r * s).matches' ↔ ∃ y ∈ r.matches', ∃ z ∈ s.matches', y ++ z = x := by
  rw [matches'_mul, Language.mem_mul]

theorem mem_add' : x ∈ (r + s).matches' ↔ x ∈ r.matches' ∨ x ∈ s.matches' := by
  rw [matches'_add, Language.mem_add]

/-- A word that has to begin with a character is the character and a word behind it. -/
theorem mem_char_mul {c : Char} : x ∈ (char c * r).matches' ↔ ∃ y ∈ r.matches', c :: y = x := by
  simp only [mem_mul', mem_char, exists_eq_left, List.singleton_append]

/-- A word that has to begin with one of some characters is one of them and a word behind it. -/
theorem mem_oneOf_mul :
    x ∈ (oneOf cs * r).matches' ↔ ∃ c ∈ cs, ∃ y ∈ r.matches', c :: y = x := by
  simp only [mem_mul', mem_oneOf]
  constructor
  · rintro ⟨_, ⟨c, hc, rfl⟩, y, hy, rfl⟩
    exact ⟨c, hc, y, hy, rfl⟩
  · rintro ⟨c, hc, y, hy, rfl⟩
    exact ⟨[c], ⟨c, hc, rfl⟩, y, hy, rfl⟩

/-- The words of repeated choices are the texts of these characters. -/
theorem mem_star_oneOf : x ∈ (oneOf cs).star.matches' ↔ ∀ c ∈ x, c ∈ cs := by
  rw [matches'_star, Language.mem_kstar]
  constructor
  · rintro ⟨words, rfl, hwords⟩ c hc
    obtain ⟨word, hword, hc⟩ := List.mem_flatten.1 hc
    obtain ⟨d, hd, rfl⟩ := mem_oneOf.1 (hwords word hword)
    rwa [List.mem_singleton.1 hc]
  · intro h
    refine ⟨x.map fun c => [c], (List.flatMap_singleton' x).symm, fun word hword => ?_⟩
    obtain ⟨c, hc, rfl⟩ := List.mem_map.1 hword
    exact mem_oneOf.2 ⟨c, h c hc, rfl⟩

/-- The words of choices that are made at least once are the texts of these characters but the empty
one. -/
theorem mem_many1_oneOf : x ∈ (many1 (oneOf cs)).matches' ↔ x ≠ [] ∧ ∀ c ∈ x, c ∈ cs := by
  simp only [many1, mem_oneOf_mul, mem_star_oneOf]
  constructor
  · rintro ⟨c, hc, y, hy, rfl⟩
    exact ⟨List.cons_ne_nil c y, List.forall_mem_cons.2 ⟨hc, hy⟩⟩
  · rintro ⟨hne, hx⟩
    obtain ⟨c, y, rfl⟩ := List.exists_cons_of_ne_nil hne
    obtain ⟨hc, hy⟩ := List.forall_mem_cons.1 hx
    exact ⟨c, hc, y, hy, rfl⟩

/-- A word has no other characters than its expression. -/
theorem mem_letters {c : Char} (hx : x ∈ r.matches') (hc : c ∈ x) : c ∈ letters r := by
  induction r generalizing x with
  | zero => exact absurd hx (Language.notMem_zero x)
  | epsilon =>
      obtain rfl : x = [] := hx
      exact absurd hc List.not_mem_nil
  | char a =>
      obtain rfl : x = [a] := hx
      exact hc
  | plus r s hr hs =>
      rcases mem_add'.1 hx with hx | hx
      · exact List.mem_append_left _ (hr hx hc)
      · exact List.mem_append_right _ (hs hx hc)
  | comp r s hr hs =>
      obtain ⟨y, hy, z, hz, rfl⟩ := mem_mul'.1 hx
      rcases List.mem_append.1 hc with hc | hc
      · exact List.mem_append_left _ (hr hy hc)
      · exact List.mem_append_right _ (hs hz hc)
  | star r hr =>
      obtain ⟨words, rfl, hwords⟩ := Language.mem_kstar.1 hx
      obtain ⟨word, hword, hc⟩ := List.mem_flatten.1 hc
      exact hr (hwords word hword) hc

/-- A word has none of the characters that its expression lacks. -/
theorem not_mem_of_lacks (h : lacks r cs = true) {c : Char} (hx : x ∈ r.matches') (hc : c ∈ x) :
    c ∉ cs := by
  simpa using List.all_eq_true.1 h c (mem_letters hx hc)

end

/-! ### The grammar -/

def blankChars : List Char := [' ', '\t', '\n', '\r', '\x0b', '\x0c']

def signChars : List Char := ['+', '-']

def digitChars : List Char := ['0', '1', '2', '3', '4', '5', '6', '7', '8', '9']

def hexDigitChars : List Char :=
  digitChars ++ ['a', 'b', 'c', 'd', 'e', 'f'] ++ ['A', 'B', 'C', 'D', 'E', 'F']

def blanks : RegularExpression Char := (oneOf blankChars).star

def sign : RegularExpression Char := optional (oneOf signChars)

def digits : RegularExpression Char := many1 (oneOf digitChars)

def exponent : RegularExpression Char := optional (oneOf ['e', 'E'] * (sign * digits))

def mantissa : RegularExpression Char :=
  digits * optional (char '.' * (oneOf digitChars).star) + char '.' * digits

/-- An integer. -/
def integer : RegularExpression Char := sign * digits

/-- A hexadecimal integer without its sign. -/
def hexDigits : RegularExpression Char :=
  char '0' * (oneOf ['x', 'X'] * many1 (oneOf hexDigitChars))

/-- A hexadecimal integer. -/
def hexInteger : RegularExpression Char := sign * hexDigits

/-- A decimal: digits with an optional point, at least one digit beside it, and an optional
exponent. -/
def decimal : RegularExpression Char := sign * (mantissa * exponent)

def numeral : RegularExpression Char := integer + hexInteger + decimal

/-- A numeral between blanks. -/
def literal : RegularExpression Char := blanks * (numeral * blanks)

/-! ### Characters -/

/-- The blanks of the reader are the six of the grammar. -/
theorem isBlank_iff {c : Char} : isBlank c = true ↔ c ∈ blankChars := by
  simp [isBlank, blankChars, or_assoc]

/-- A character with its code between two codes is the character of one of them. -/
theorem mem_ofNat_of_bounds {c a b : Char} (ha : a ≤ c) (hb : c ≤ b) :
    c ∈ (List.range' a.toNat (b.toNat + 1 - a.toNat)).map Char.ofNat := by
  have ha' : a.toNat ≤ c.toNat := ha
  have hb' : c.toNat ≤ b.toNat := hb
  exact List.mem_map.2 ⟨c.toNat, List.mem_range'_1.2 (by omega), Char.ofNat_toNat c⟩

/-- The digits of the reader are the ten of the grammar. -/
theorem isDigit_iff {c : Char} : c.isDigit = true ↔ c ∈ digitChars := by
  constructor
  · intro h
    simp only [Char.isDigit, Bool.and_eq_true, decide_eq_true_eq] at h
    exact mem_ofNat_of_bounds (a := '0') (b := '9') h.1 h.2
  · have hdigits : digitChars.all Char.isDigit = true := rfl
    exact List.all_eq_true.1 hdigits c

/-- What the reader takes for a hexadecimal digit is one in the grammar. -/
theorem isSome_hexDigit?_iff {c : Char} : (hexDigit? c).isSome = true ↔ c ∈ hexDigitChars := by
  constructor
  · intro h
    simp only [hexDigitChars, List.mem_append, ← isDigit_iff]
    unfold hexDigit? at h
    split at h
    · next hd => exact .inl (.inl hd)
    · split at h
      · next hc => exact .inl (.inr (mem_ofNat_of_bounds (a := 'a') (b := 'f') hc.1 hc.2))
      · split at h
        · next hc => exact .inr (mem_ofNat_of_bounds (a := 'A') (b := 'F') hc.1 hc.2)
        · cases h
  · have hdigits : hexDigitChars.all (fun d => (hexDigit? d).isSome) = true := rfl
    exact List.all_eq_true.1 hdigits c

/-- The digits of a numeral are any text of digits but the empty one. -/
theorem mem_digits {x : List Char} :
    x ∈ digits.matches' ↔ x ≠ [] ∧ ∀ c ∈ x, c.isDigit = true := by
  simp only [digits, mem_many1_oneOf, isDigit_iff]

/-! ### Hexadecimal integers -/

/-- A text is read as hexadecimal digits if it has no other characters. -/
theorem isSome_hexFrom_iff {x : Binary64} {cs : List Char} :
    (hexFrom x cs).isSome = true ↔ ∀ c ∈ cs, c ∈ hexDigitChars := by
  induction cs generalizing x with
  | nil => simp [hexFrom]
  | cons c cs ih =>
      rw [List.forall_mem_cons, ← isSome_hexDigit?_iff, hexFrom]
      cases hexDigit? c with
      | none => simp
      | some d => simp [ih]

/-- A text is read as a hexadecimal integer if it is one in the grammar. -/
theorem isSome_hex?_iff {cs : List Char} : (hex? cs).isSome = true ↔ cs ∈ hexDigits.matches' := by
  simp only [hexDigits, mem_char_mul, mem_oneOf_mul, mem_many1_oneOf]
  constructor
  · intro h
    unfold hex? at h
    split at h
    · next mark d rest =>
        split at h
        · next hmark =>
            refine ⟨mark :: d :: rest, ⟨mark, by simpa using hmark, d :: rest, ⟨?_, ?_⟩, rfl⟩, rfl⟩
            · exact List.cons_ne_nil d rest
            · exact isSome_hexFrom_iff.1 h
        · cases h
    · cases h
  · rintro ⟨_, ⟨mark, hmark, ds, ⟨hne, hds⟩, rfl⟩, rfl⟩
    obtain ⟨d, rest, rfl⟩ := List.exists_cons_of_ne_nil hne
    have hmark' : (mark == 'x' || mark == 'X') = true := by simpa using hmark
    rw [hex?, if_pos hmark']
    exact isSome_hexFrom_iff.2 hds

/-! ### Signs -/

/-- No sign is split off where there is none. -/
theorem splitSign_of_not_mem {c : Char} {cs : List Char} (h : c ∉ signChars) :
    splitSign (c :: cs) = (false, c :: cs) := by
  unfold splitSign
  split
  · next hc => cases hc; exact absurd (by decide) h
  · next hc => cases hc; exact absurd (by decide) h
  · rfl

/-- A regular expression whose words do not begin with a sign. -/
def Unsigned (r : RegularExpression Char) : Prop := ∀ x ∈ r.matches', (splitSign x).2 = x

/-- The words of an expression do not begin with a sign if those of its first part do not, and are
not empty. -/
theorem unsigned_mul {r s : RegularExpression Char} (hne : [] ∉ r.matches')
    (hr : lacks r signChars = true) : Unsigned (r * s) := by
  intro x hx
  obtain ⟨y, hy, z, -, rfl⟩ := mem_mul'.1 hx
  obtain ⟨c, cs, rfl⟩ := List.exists_cons_of_ne_nil fun h => hne (h ▸ hy)
  rw [List.cons_append, splitSign_of_not_mem (not_mem_of_lacks hr hy List.mem_cons_self)]

theorem nil_not_mem_oneOf (cs : List Char) : [] ∉ (oneOf cs).matches' := by
  rintro h
  obtain ⟨c, -, hc⟩ := mem_oneOf.1 h
  cases hc

/-- There is at least one digit in a mantissa. -/
theorem nil_not_mem_mantissa : [] ∉ mantissa.matches' := by
  intro h
  rcases mem_add'.1 h with h | h
  · obtain ⟨y, hy, z, -, hyz⟩ := mem_mul'.1 h
    exact (mem_digits.1 hy).1 (List.append_eq_nil_iff.1 hyz).1
  · obtain ⟨y, -, hy⟩ := mem_char_mul.1 h
    cases hy

theorem unsigned_digits : Unsigned digits := unsigned_mul (nil_not_mem_oneOf _) rfl

theorem unsigned_hexDigits : Unsigned hexDigits := unsigned_mul nofun rfl

theorem unsigned_decimal : Unsigned (mantissa * exponent) :=
  unsigned_mul nil_not_mem_mantissa rfl

/-- The sign of a word is the one that the reader splits off. -/
theorem mem_sign_mul {r : RegularExpression Char} (hr : Unsigned r) {x : List Char} :
    x ∈ (sign * r).matches' ↔ (splitSign x).2 ∈ r.matches' := by
  simp only [sign, mem_mul', mem_optional, mem_oneOf]
  constructor
  · rintro ⟨_, rfl | ⟨c, hc, rfl⟩, y, hy, rfl⟩
    · rwa [List.nil_append, hr y hy]
    · simp only [signChars, List.mem_cons, List.not_mem_nil, or_false] at hc
      rcases hc with rfl | rfl
      · exact hy
      · exact hy
  · intro h
    unfold splitSign at h
    split at h
    · exact ⟨['-'], .inr ⟨'-', by decide, rfl⟩, _, h, rfl⟩
    · exact ⟨['+'], .inr ⟨'+', by decide, rfl⟩, _, h, rfl⟩
    · exact ⟨[], .inl rfl, _, h, rfl⟩

/-! ### Decimals -/

/-- A text is read as an exponent, or as none, if it is one in the grammar. -/
theorem isSome_exponent?_iff {cs : List Char} :
    (exponent? cs).isSome = true ↔ cs ∈ exponent.matches' := by
  simp only [exponent, mem_optional, mem_oneOf_mul, mem_sign_mul unsigned_digits, mem_digits]
  cases cs with
  | nil => simp [exponent?]
  | cons mark rest =>
      constructor
      · intro h
        simp only [exponent?] at h
        split at h
        · next hmark =>
            split at h
            · next hds =>
                exact .inr ⟨mark, by simpa using hmark, rest,
                  ⟨hds.1, List.all_eq_true.1 hds.2⟩, rfl⟩
            · cases h
        · cases h
      · rintro (h | ⟨_, hmark, _, ⟨hne, hds⟩, rfl, rfl⟩)
        · cases h
        · have hmark' : (mark == 'e' || mark == 'E') = true := by simpa using hmark
          simp only [exponent?]
          rw [if_pos hmark', if_pos ⟨hne, List.all_eq_true.2 hds⟩]
          rfl

/-- What an exponent begins with is neither a digit nor a point. -/
theorem head_exponent {c : Char} {rest : List Char} (h : c :: rest ∈ exponent.matches') :
    c.isDigit = false ∧ c ≠ '.' := by
  rcases mem_optional.1 h with h | h
  · cases h
  · obtain ⟨mark, hmark, y, -, hy⟩ := mem_oneOf_mul.1 h
    cases hy
    simp only [List.mem_cons, List.not_mem_nil, or_false] at hmark
    rcases hmark with rfl | rfl <;> decide

/-- Before an exponent there is no fraction to split off. -/
theorem splitFraction_exponent {cs : List Char} (h : cs ∈ exponent.matches') :
    splitFraction cs = ([], cs) := by
  unfold splitFraction
  split
  · exact absurd rfl (head_exponent h).2
  · rfl

/-- The fraction that is split off reaches up to the exponent. -/
theorem splitFraction_point {ds cs : List Char} (hds : ∀ c ∈ ds, c.isDigit = true)
    (h : cs ∈ exponent.matches') : splitFraction ('.' :: (ds ++ cs)) = (ds, cs) := by
  have hhead : ∀ c rest, cs = c :: rest → c.isDigit = false := by
    rintro c rest rfl
    exact (head_exponent h).1
  obtain ⟨htake, hdrop⟩ := takeWhile_digits hds hhead
  exact Prod.ext htake hdrop

/-- A decimal is read if it has a digit, and an exponent or nothing after its digits. -/
theorem isSome_decimal?_iff_split {negative : Bool} {cs whole fraction rest : List Char}
    (hwhole : cs.takeWhile Char.isDigit = whole)
    (hrest : splitFraction (cs.dropWhile Char.isDigit) = (fraction, rest)) :
    (decimal? negative cs).isSome = true ↔
      (whole ≠ [] ∨ fraction ≠ []) ∧ rest ∈ exponent.matches' := by
  rw [← isSome_exponent?_iff]
  simp only [decimal?, hwhole, hrest]
  split
  · next hnone => simp [hnone]
  · next hsome =>
      have hdigit : whole ≠ [] ∨ fraction ≠ [] := not_and_or.1 hsome
      cases exponent? rest with
      | none => simp
      | some e => simp [hdigit]

/-- The digits behind a point may be missing. -/
theorem mem_digitChars_star {x : List Char} :
    x ∈ (oneOf digitChars).star.matches' ↔ ∀ c ∈ x, c.isDigit = true := by
  simp only [mem_star_oneOf, isDigit_iff]

/-- What is read as a decimal is one: the parts that the reader splits it into are those of the
grammar. -/
theorem mem_decimal_of_isSome {negative : Bool} {cs : List Char}
    (h : (decimal? negative cs).isSome = true) : cs ∈ (mantissa * exponent).matches' := by
  have hparts : cs.takeWhile Char.isDigit ++ cs.dropWhile Char.isDigit = cs :=
    List.takeWhile_append_dropWhile
  have hwhole : ∀ c ∈ cs.takeWhile Char.isDigit, c.isDigit = true := fun _ => List.mem_takeWhile_imp
  generalize htake : cs.takeWhile Char.isDigit = whole at hparts hwhole
  generalize hdrop : cs.dropWhile Char.isDigit = tail at hparts
  subst hparts
  obtain ⟨⟨fraction, rest⟩, hsplit⟩ : ∃ p, splitFraction tail = p := ⟨_, rfl⟩
  obtain ⟨hdigit, hrest⟩ := (isSome_decimal?_iff_split htake (hdrop ▸ hsplit)).1 h
  unfold splitFraction at hsplit
  split at hsplit
  · next tail =>
      obtain ⟨rfl, rfl⟩ := Prod.mk.inj hsplit
      have hfraction : ∀ c ∈ tail.takeWhile Char.isDigit, c.isDigit = true :=
        fun _ => List.mem_takeWhile_imp
      have htail : tail.takeWhile Char.isDigit ++ tail.dropWhile Char.isDigit = tail :=
        List.takeWhile_append_dropWhile
      refine mem_mul'.2 ⟨whole ++ '.' :: tail.takeWhile Char.isDigit, mem_add'.2 ?_, _, hrest, ?_⟩
      · by_cases hnil : whole = []
        · subst hnil
          exact .inr
            (mem_char_mul.2 ⟨_, mem_digits.2 ⟨hdigit.resolve_left (· rfl), hfraction⟩, rfl⟩)
        · refine .inl
            (mem_mul'.2 ⟨whole, mem_digits.2 ⟨hnil, hwhole⟩, _, mem_optional.2 (.inr ?_), rfl⟩)
          exact mem_char_mul.2 ⟨_, mem_digitChars_star.2 hfraction, rfl⟩
      · rw [List.append_assoc, List.cons_append, htail]
  · obtain ⟨rfl, rfl⟩ := Prod.mk.inj hsplit
    have hnil : whole ≠ [] := hdigit.resolve_right (· rfl)
    refine mem_mul'.2 ⟨whole, mem_add'.2 (.inl ?_), tail, hrest, rfl⟩
    exact mem_mul'.2 ⟨whole, mem_digits.2 ⟨hnil, hwhole⟩, [], mem_optional.2 (.inl rfl),
      List.append_nil whole⟩

/-- The decimals of the grammar are read. -/
theorem isSome_decimal?_of_mem (negative : Bool) {cs : List Char}
    (h : cs ∈ (mantissa * exponent).matches') : (decimal? negative cs).isSome = true := by
  obtain ⟨_, hmantissa, e, he, rfl⟩ := mem_mul'.1 h
  rcases mem_add'.1 hmantissa with hmantissa | hmantissa
  · obtain ⟨whole, hwhole, point, hpoint, rfl⟩ := mem_mul'.1 hmantissa
    obtain ⟨hne, hwhole⟩ := mem_digits.1 hwhole
    obtain ⟨fraction, hhead, hsplit⟩ : ∃ fraction,
        (∀ c rest, point ++ e = c :: rest → c.isDigit = false) ∧
          splitFraction (point ++ e) = (fraction, e) := by
      rcases mem_optional.1 hpoint with rfl | hpoint
      · refine ⟨[], fun c rest hc => ?_, splitFraction_exponent he⟩
        exact (head_exponent (hc ▸ he : c :: rest ∈ exponent.matches')).1
      · obtain ⟨ds, hds, rfl⟩ := mem_char_mul.1 hpoint
        refine ⟨ds, fun c rest hc => ?_, splitFraction_point (mem_digitChars_star.1 hds) he⟩
        cases hc
        rfl
    obtain ⟨htake, hdrop⟩ := takeWhile_digits hwhole hhead
    rw [List.append_assoc]
    exact (isSome_decimal?_iff_split htake (hdrop ▸ hsplit)).2 ⟨.inl hne, he⟩
  · obtain ⟨ds, hds, rfl⟩ := mem_char_mul.1 hmantissa
    obtain ⟨hne, hds⟩ := mem_digits.1 hds
    have hsplit : splitFraction (('.' :: ds ++ e).dropWhile Char.isDigit) = (ds, e) :=
      splitFraction_point hds he
    exact (isSome_decimal?_iff_split rfl hsplit).2 ⟨.inr hne, he⟩

/-! ### Blanks -/

/-- A text is its numeral between blanks. -/
theorem exists_trim (cs : List Char) :
    ∃ before after, (∀ c ∈ before, isBlank c = true) ∧ (∀ c ∈ after, isBlank c = true) ∧
      before ++ (trim cs ++ after) = cs := by
  refine ⟨cs.takeWhile isBlank, ((cs.dropWhile isBlank).reverse.takeWhile isBlank).reverse,
    fun _ => List.mem_takeWhile_imp, fun _ hc => List.mem_takeWhile_imp (List.mem_reverse.1 hc), ?_⟩
  rw [trim, ← List.reverse_append, List.takeWhile_append_dropWhile, List.reverse_reverse,
    List.takeWhile_append_dropWhile]

/-- Nothing is trimmed from a text without blanks. -/
theorem dropWhile_isBlank {cs : List Char} (h : ∀ c ∈ cs, isBlank c = false) :
    cs.dropWhile isBlank = cs := by
  cases cs with
  | nil => rfl
  | cons c cs =>
      simp only [List.dropWhile_cons, h c List.mem_cons_self, Bool.false_eq_true, if_false]

/-- Blanks around a text without blanks are trimmed. -/
theorem trim_append {before cs after : List Char} (hbefore : ∀ c ∈ before, isBlank c = true)
    (hcs : ∀ c ∈ cs, isBlank c = false) (hafter : ∀ c ∈ after, isBlank c = true) :
    trim (before ++ (cs ++ after)) = cs := by
  rw [trim, List.dropWhile_append_of_pos hbefore]
  cases hnil : cs with
  | nil => rw [List.nil_append, List.dropWhile_eq_nil_iff.2 hafter]; rfl
  | cons c rest =>
      have hc : isBlank c = false := hcs c (hnil ▸ List.mem_cons_self)
      have hkeep : (cs ++ after).dropWhile isBlank = cs ++ after := by
        simp only [hnil, List.cons_append, List.dropWhile_cons, hc, Bool.false_eq_true, if_false]
      rw [← hnil, hkeep, List.reverse_append,
        List.dropWhile_append_of_pos fun d hd => hafter d (List.mem_reverse.1 hd),
        dropWhile_isBlank fun d hd => hcs d (List.mem_reverse.1 hd), List.reverse_reverse]

/-- Trimming from the left stops inside of a text that has another character than blanks. -/
theorem dropWhile_isBlank_append {cs ds : List Char} (h : ∃ c ∈ cs, isBlank c = false) :
    (cs ++ ds).dropWhile isBlank = cs.dropWhile isBlank ++ ds := by
  obtain ⟨c, hc, hblank⟩ := h
  rw [List.dropWhile_append, if_neg]
  rw [List.isEmpty_iff, List.dropWhile_eq_nil_iff]
  exact fun hall => absurd (hall c hc) (Bool.eq_false_iff.1 hblank)

/-- What has characters other than blanks on both of its sides is not trimmed. -/
theorem mem_trim {before after : List Char} (c : Char) (hbefore : ∃ d ∈ before, isBlank d = false)
    (hafter : ∃ d ∈ after, isBlank d = false) : c ∈ trim (before ++ c :: after) := by
  have hafter' : ∃ d ∈ after.reverse, isBlank d = false :=
    hafter.imp fun d hd => ⟨List.mem_reverse.2 hd.1, hd.2⟩
  rw [trim, dropWhile_isBlank_append hbefore, List.reverse_append, List.reverse_cons,
    List.append_assoc, dropWhile_isBlank_append hafter']
  simp

/-! ### Whole texts -/

/-- The reader looks for the numerals of the grammar, once a sign is split off.  An integer is a
decimal without a point. -/
theorem mem_numeral_iff {x : List Char} :
    x ∈ numeral.matches' ↔
      (splitSign x).2 ∈ hexDigits.matches' ∨ (splitSign x).2 ∈ (mantissa * exponent).matches' := by
  have hinteger : ∀ y ∈ digits.matches', y ∈ (mantissa * exponent).matches' := fun y hy =>
    mem_mul'.2 ⟨y, mem_add'.2 (.inl (mem_mul'.2 ⟨y, hy, [], mem_optional.2 (.inl rfl),
      List.append_nil y⟩)), [], mem_optional.2 (.inl rfl), List.append_nil y⟩
  rw [numeral, mem_add', mem_add', integer, hexInteger, decimal, mem_sign_mul unsigned_digits,
    mem_sign_mul unsigned_hexDigits, mem_sign_mul unsigned_decimal]
  constructor
  · rintro ((h | h) | h)
    · exact .inr (hinteger _ h)
    · exact .inl h
    · exact .inr h
  · rintro (h | h)
    · exact .inl (.inr h)
    · exact .inr h

/-- A text is read if what is left of it when it is trimmed is a numeral. -/
theorem isSome_readChars?_iff {cs : List Char} :
    (readChars? cs).isSome = true ↔ trim cs ∈ numeral.matches' := by
  rw [mem_numeral_iff, ← isSome_hex?_iff]
  unfold readChars?
  generalize splitSign (trim cs) = p
  obtain ⟨negative, unsigned⟩ := p
  cases hhex : hex? unsigned with
  | some x => simp [hhex]
  | none =>
      simp only [hhex, Option.isSome_none, Bool.false_eq_true, false_or]
      exact ⟨mem_decimal_of_isSome, isSome_decimal?_of_mem negative⟩

/-- No numeral has a blank in it. -/
theorem isBlank_of_mem_numeral {x : List Char} (hx : x ∈ numeral.matches') {c : Char} (hc : c ∈ x) :
    isBlank c = false := by
  have hlacks : lacks numeral blankChars = true := by decide +kernel
  exact Bool.eq_false_iff.2 fun h => not_mem_of_lacks hlacks hx hc (isBlank_iff.1 h)

/-- A text is a numeral between blanks if trimming leaves a numeral of it. -/
theorem mem_literal_iff {x : List Char} : x ∈ literal.matches' ↔ trim x ∈ numeral.matches' := by
  have hblanks : ∀ {w : List Char}, w ∈ blanks.matches' ↔ ∀ c ∈ w, isBlank c = true := by
    intro w
    simp only [blanks, mem_star_oneOf, isBlank_iff]
  simp only [literal, mem_mul', hblanks]
  constructor
  · rintro ⟨before, hbefore, _, ⟨cs, hcs, after, hafter, rfl⟩, rfl⟩
    rwa [trim_append hbefore (fun _ => isBlank_of_mem_numeral hcs) hafter]
  · intro h
    obtain ⟨before, after, hbefore, hafter, heq⟩ := exists_trim x
    exact ⟨before, hbefore, _, ⟨trim x, h, after, hafter, rfl⟩, heq⟩

/-- A text that is read has blanks only at its ends. -/
theorem isBlank_before_or_after {before after : List Char} {c : Char}
    (h : before ++ c :: after ∈ literal.matches') (hc : isBlank c = true) :
    (∀ d ∈ before, isBlank d = true) ∨ ∀ d ∈ after, isBlank d = true := by
  by_contra hinner
  simp only [not_or, not_forall, exists_prop, Bool.not_eq_true] at hinner
  have hmem : c ∈ trim (before ++ c :: after) := mem_trim c hinner.1 hinner.2
  exact Bool.false_ne_true ((isBlank_of_mem_numeral (mem_literal_iff.1 h) hmem).symm.trans hc)

/-! ### Signs do not meet -/

/-- Not both of two characters are signs. -/
def Apart (c d : Char) : Prop := c ∉ signChars ∨ d ∉ signChars

/-- No signs meet where there are none. -/
theorem isChain_apart {x : List Char} (h : ∀ c ∈ x, c ∉ signChars) : x.IsChain Apart :=
  (List.pairwise_of_forall_mem_list fun c hc _ _ => .inl (h c hc)).isChain

/-- Two texts are put together without signs that meet if one of the places at the seam is not a
sign. -/
theorem isChain_apart_append {x y : List Char} (hx : x.IsChain Apart) (hy : y.IsChain Apart)
    (h : (∀ c ∈ x, c ∉ signChars) ∨ ∀ c ∈ y.head?, c ∉ signChars) : (x ++ y).IsChain Apart := by
  refine hx.append hy fun c hc d hd => ?_
  rcases h with h | h
  · exact .inl (h c (List.mem_of_mem_getLast? hc))
  · exact .inr (h d hd)

/-- The words of a regular expression without signs. -/
theorem isChain_apart_of_lacks {r : RegularExpression Char} (hr : lacks r signChars = true)
    {x : List Char} (hx : x ∈ r.matches') : x.IsChain Apart :=
  isChain_apart fun _ => not_mem_of_lacks hr hx

/-- The words of a regular expression whose signs can only be in its second part. -/
theorem isChain_apart_mul {r s : RegularExpression Char} (hr : lacks r signChars = true)
    (hs : ∀ y ∈ s.matches', y.IsChain Apart) {x : List Char} (hx : x ∈ (r * s).matches') :
    x.IsChain Apart := by
  obtain ⟨y, hy, z, hz, rfl⟩ := mem_mul'.1 hx
  exact isChain_apart_append (isChain_apart_of_lacks hr hy) (hs z hz)
    (.inl fun _ => not_mem_of_lacks hr hy)

/-- What no sign is split off from does not begin with one. -/
theorem not_mem_signChars_of_splitSign {c : Char} {cs : List Char}
    (h : (splitSign (c :: cs)).2 = c :: cs) : c ∉ signChars := by
  intro hc
  simp only [signChars, List.mem_cons, List.not_mem_nil, or_false] at hc
  rcases hc with rfl | rfl
  · exact List.cons_ne_self _ _ h.symm
  · exact List.cons_ne_self _ _ h.symm

/-- A sign may be put before the words that do not begin with one. -/
theorem isChain_apart_sign_mul {r : RegularExpression Char} (hunsigned : Unsigned r)
    (hr : ∀ y ∈ r.matches', y.IsChain Apart) {x : List Char} (hx : x ∈ (sign * r).matches') :
    x.IsChain Apart := by
  obtain ⟨_, hsign, y, hy, rfl⟩ := mem_mul'.1 hx
  rcases mem_optional.1 hsign with rfl | hsign
  · exact hr y hy
  · obtain ⟨c, -, rfl⟩ := mem_oneOf.1 hsign
    refine isChain_apart_append (.singleton c) (hr y hy) (.inr fun d hd => ?_)
    obtain ⟨rest, rfl⟩ := List.head?_eq_some_iff.1 hd
    exact not_mem_signChars_of_splitSign (hunsigned _ hy)

/-- The sign of an exponent stands behind its mark. -/
theorem isChain_apart_exponent {x : List Char} (hx : x ∈ exponent.matches') : x.IsChain Apart := by
  rcases mem_optional.1 hx with rfl | hx
  · exact .nil
  · refine isChain_apart_mul rfl (fun y hy => ?_) hx
    exact isChain_apart_sign_mul unsigned_digits (fun _ => isChain_apart_of_lacks rfl) hy

/-- A numeral has a sign at its front, and one in its exponent, and these do not meet. -/
theorem isChain_apart_numeral {x : List Char} (hx : x ∈ numeral.matches') : x.IsChain Apart := by
  rcases mem_add'.1 hx with hx | hx
  · rcases mem_add'.1 hx with hx | hx
    · exact isChain_apart_sign_mul unsigned_digits (fun _ => isChain_apart_of_lacks rfl) hx
    · exact isChain_apart_sign_mul unsigned_hexDigits
        (fun _ => isChain_apart_of_lacks rfl) hx
  · refine isChain_apart_sign_mul unsigned_decimal (fun y hy => ?_) hx
    exact isChain_apart_mul rfl (fun _ => isChain_apart_exponent) hy

theorem isChain_apart_literal {x : List Char} (hx : x ∈ literal.matches') : x.IsChain Apart := by
  have hblank : lacks blanks signChars = true := rfl
  refine isChain_apart_mul hblank (fun y hy => ?_) hx
  obtain ⟨cs, hcs, after, hafter, rfl⟩ := mem_mul'.1 hy
  refine isChain_apart_append (isChain_apart_numeral hcs) (isChain_apart_of_lacks hblank hafter)
    (.inr fun c hc => ?_)
  exact not_mem_of_lacks hblank hafter (List.mem_of_mem_head? hc)

/-! ### Texts that are read -/

/-- The characters of numerals and the blanks around them. -/
def literalChars : List Char := blankChars ++ signChars ++ hexDigitChars ++ ['.', 'x', 'X']

/-- A text that is read has only characters of numerals, and blanks. -/
theorem mem_literalChars {x : List Char} (hx : x ∈ literal.matches') {c : Char} (hc : c ∈ x) :
    c ∈ literalChars := by
  have hletters : (letters literal).all literalChars.contains = true := by decide +kernel
  simpa using List.all_eq_true.1 hletters c (mem_letters hx hc)

/-- Between the blanks of a text that is read stands a hexadecimal integer, or an integer or a
decimal. -/
theorem mem_hexInteger_or {x : List Char} (hx : x ∈ literal.matches') :
    x ∈ (blanks * (hexInteger * blanks)).matches' ∨
      x ∈ (blanks * ((integer + decimal) * blanks)).matches' := by
  obtain ⟨before, hbefore, _, h, rfl⟩ := mem_mul'.1 hx
  obtain ⟨cs, hcs, after, hafter, rfl⟩ := mem_mul'.1 h
  have hbetween : ∀ {r : RegularExpression Char}, cs ∈ r.matches' →
      before ++ (cs ++ after) ∈ (blanks * (r * blanks)).matches' := fun hr =>
    mem_mul'.2 ⟨before, hbefore, _, mem_mul'.2 ⟨cs, hr, after, hafter, rfl⟩, rfl⟩
  rcases mem_add'.1 hcs with hcs | hdecimal
  · rcases mem_add'.1 hcs with hinteger | hhex
    · exact .inr (hbetween (mem_add'.2 (.inl hinteger)))
    · exact .inl (hbetween hhex)
  · exact .inr (hbetween (mem_add'.2 (.inr hdecimal)))

/-- A text with the mark of a hexadecimal integer has no point. -/
theorem point_not_mem_of_mark {x : List Char} (hx : x ∈ literal.matches')
    (hmark : 'x' ∈ x ∨ 'X' ∈ x) : '.' ∉ x := by
  rcases mem_hexInteger_or hx with hx | hx
  · have hlacks : lacks (blanks * (hexInteger * blanks)) ['.'] = true := rfl
    exact fun hpoint => not_mem_of_lacks hlacks hx hpoint List.mem_cons_self
  · have hlacks : lacks (blanks * ((integer + decimal) * blanks)) ['x', 'X'] = true := rfl
    rcases hmark with hmark | hmark
    · exact absurd (by simp) (not_mem_of_lacks hlacks hx hmark)
    · exact absurd (by simp) (not_mem_of_lacks hlacks hx hmark)

/-- **The grammar of numerals.**  A text is read as a number if and only if it is a numeral between
blanks: an integer, a hexadecimal integer or a decimal, each with at most one sign.  In particular
no other characters are read, as those of the names of infinity and NaN, and blanks and digits of
other scripts; no blanks inside a numeral; no two signs in a row; and no point in a hexadecimal
numeral. -/
theorem read_iff_literal (s : String) :
    ((read? s).isSome = true ↔ s.toList ∈ literal.matches') ∧
    ((read? s).isSome = true →
      (∀ c ∈ s.toList, c ∈ literalChars) ∧
      (∀ before c after, s.toList = before ++ c :: after → isBlank c = true →
        (∀ d ∈ before, isBlank d = true) ∨ ∀ d ∈ after, isBlank d = true) ∧
      s.toList.IsChain Apart ∧ ('x' ∈ s.toList ∨ 'X' ∈ s.toList → '.' ∉ s.toList)) := by
  have hread : (read? s).isSome = true ↔ s.toList ∈ literal.matches' :=
    isSome_readChars?_iff.trans mem_literal_iff.symm
  refine ⟨hread, fun h => ?_⟩
  have hs := hread.1 h
  refine ⟨fun c => mem_literalChars hs, fun before c after heq hc => ?_, isChain_apart_literal hs,
    point_not_mem_of_mark hs⟩
  rw [heq] at hs
  exact isBlank_before_or_after hs hc

/-- A negative hexadecimal integer is read between blanks, and has no point. -/
theorem hexadecimal_between_blanks :
    (read? " -0x1F\n").isSome = true ∧ " -0x1F\n".toList ∈ literal.matches' ∧
      " -0x1F\n".toList.IsChain Apart ∧ '.' ∉ " -0x1F\n".toList := by
  have hread : (read? " -0x1F\n").isSome = true := by decide +kernel
  obtain ⟨hiff, hin⟩ := read_iff_literal " -0x1F\n"
  obtain ⟨-, -, hsigns, hpoint⟩ := hin hread
  exact ⟨hread, hiff.1 hread, hsigns, hpoint (.inl (by decide))⟩

end LuaKernel.Numeral

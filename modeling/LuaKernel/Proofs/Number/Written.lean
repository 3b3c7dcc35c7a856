import LuaKernel.Number.Layout
import LuaKernel.Number.Numeral
import LuaKernel.Proofs.Number.Integers

/-!
# Written decimals are read back

A decimal numeral has parts: digits before the point, digits after it, and an exponent
(`Numeral.Parts`).  Put together, with a sign in front or without, they are read as the number
nearest to their digits at their exponent (`Numeral.Parts.readChars?_chars`).

Every layout of a decimal has such parts, whichever side of the digits the point falls on, and their
digits and exponent denote the decimal (`Layout.exists_parts`).  So a decimal is read back from its
text (`Layout.readChars?_decimal`).
-/

namespace LuaKernel

namespace Numeral

/-! ### Characters -/

/-- The characters of decimal numerals. -/
def isDecimalChar (c : Char) : Bool :=
  c.isDigit || c == '.' || c == 'e' || c == 'E' || c == '+' || c == '-'

theorem isDecimalChar_of_isDigit {c : Char} (h : c.isDigit = true) : isDecimalChar c = true := by
  simp only [isDecimalChar, h, Bool.true_or]

theorem isBlank_of_isDecimalChar {c : Char} (h : isDecimalChar c = true) : isBlank c = false := by
  cases hb : isBlank c with
  | false => rfl
  | true =>
      simp only [isBlank, Bool.or_eq_true, beq_iff_eq] at hb
      rcases hb with ((((rfl | rfl) | rfl) | rfl) | rfl) | rfl <;> exact absurd h (by decide)

/-- There are no blanks to trim. -/
theorem trim_of_isDecimalChar {cs : List Char} (h : ∀ c ∈ cs, isDecimalChar c = true) :
    trim cs = cs := by
  have hkeep : ∀ {ds : List Char}, (∀ c ∈ ds, c ∈ cs) → ds.dropWhile isBlank = ds := by
    intro ds hds
    cases ds with
    | nil => rfl
    | cons c rest =>
        have hc : isBlank c = false := isBlank_of_isDecimalChar (h c (hds c List.mem_cons_self))
        simp only [List.dropWhile_cons, hc, Bool.false_eq_true, if_false]
  rw [trim, hkeep fun _ => id, hkeep fun _ => List.mem_reverse.1, List.reverse_reverse]

/-- There is no mark of a hexadecimal numeral. -/
theorem hex?_of_isDecimalChar {cs : List Char} (h : ∀ c ∈ cs, isDecimalChar c = true) :
    hex? cs = none := by
  unfold hex?
  split
  · next mark d rest =>
      have hmark : isDecimalChar mark = true := h mark (by simp)
      split
      · next hx =>
          simp only [Bool.or_eq_true, beq_iff_eq] at hx
          rcases hx with rfl | rfl <;> exact absurd hmark (by decide)
      · rfl
  · rfl

/-- A text that begins with a digit has no sign. -/
theorem splitSign_of_isDigit {c : Char} {cs : List Char} (h : c.isDigit = true) :
    splitSign (c :: cs) = (false, c :: cs) := by
  unfold splitSign
  split
  · next hc => cases hc; exact absurd h (by decide)
  · next hc => cases hc; exact absurd h (by decide)
  · rfl

theorem mem_splitSign {cs : List Char} {c : Char} (h : c ∈ cs) :
    c = '-' ∨ c = '+' ∨ c ∈ (splitSign cs).2 := by
  unfold splitSign
  split
  · exact (List.mem_cons.1 h).imp_right .inr
  · exact .inr (List.mem_cons.1 h)
  · exact .inr (.inr h)

/-! ### Digits -/

theorem natOfDigits_append (ds es : List Char) :
    natOfDigits (ds ++ es) = 10 ^ es.length * natOfDigits ds + natOfDigits es := by
  change Nat.ofDigitChars 10 (ds ++ es) 0 = 10 ^ es.length * Nat.ofDigitChars 10 ds 0 +
    Nat.ofDigitChars 10 es 0
  rw [Nat.ofDigitChars_append, Nat.ofDigitChars_eq_ofDigitChars_zero]

theorem natOfDigits_zeros (k : Nat) : natOfDigits (List.replicate k '0') = 0 := by
  change Nat.ofDigitChars 10 (List.replicate k '0') 0 = 0
  rw [Nat.ofDigitChars_replicate_zero, Nat.mul_zero]

theorem isDigit_of_mem_zeros {k : Nat} {c : Char} (h : c ∈ List.replicate k '0') :
    c.isDigit = true := by
  rw [List.eq_of_mem_replicate h]
  rfl

/-- Digits, at least one, that denote a natural number. -/
structure Spells (digits : List Char) (n : Nat) : Prop where
  ne_nil : digits ≠ []
  isDigit : ∀ c ∈ digits, c.isDigit = true
  value : natOfDigits digits = n

theorem spells_toDigits (n : Nat) : Spells (Nat.toDigits 10 n) n where
  ne_nil := Nat.toDigits_ne_nil
  isDigit _ := Nat.isDigit_of_mem_toDigits (by decide) (by decide)
  value := Nat.ofDigitChars_ten_toDigits

/-- The digits at the beginning of a text, up to what is no digit. -/
theorem takeWhile_digits {ds cs : List Char} (hds : ∀ c ∈ ds, c.isDigit = true)
    (hcs : ∀ c rest, cs = c :: rest → c.isDigit = false) :
    (ds ++ cs).takeWhile Char.isDigit = ds ∧ (ds ++ cs).dropWhile Char.isDigit = cs := by
  rw [List.takeWhile_append_of_pos hds, List.dropWhile_append_of_pos hds]
  cases cs with
  | nil => simp
  | cons c rest => simp [hcs c rest rfl]

/-! ### Parts of a numeral -/

/-- The parts of a decimal numeral: the digits before the point, at least one, those after it, and
the exponent with its mark. -/
structure Parts where
  whole : List Char
  fraction : List Char
  tail : List Char
  exponent : Int
  whole_ne_nil : whole ≠ []
  isDigit_whole : ∀ c ∈ whole, c.isDigit = true
  isDigit_fraction : ∀ c ∈ fraction, c.isDigit = true
  exponent?_tail : exponent? tail = some exponent

/-- Digits after a point; without digits, there is no point. -/
def afterPoint : List Char → List Char
  | [] => []
  | d :: ds => '.' :: d :: ds

theorem afterPoint_of_ne_nil {ds : List Char} (h : ds ≠ []) : afterPoint ds = '.' :: ds := by
  cases ds with
  | nil => exact absurd rfl h
  | cons d ds => rfl

/-- A text with a minus in front, or without. -/
def signed (negative : Bool) (cs : List Char) : List Char := if negative then '-' :: cs else cs

/-- What begins an exponent, and what may follow. -/
theorem exponent?_cons {c : Char} {rest : List Char} {e : Int}
    (h : exponent? (c :: rest) = some e) :
    (c = 'e' ∨ c = 'E') ∧ ∀ d ∈ rest, isDecimalChar d = true := by
  simp only [exponent?] at h
  split at h
  · next hmark =>
      split at h
      · next hds =>
          refine ⟨by simpa using hmark, fun d hd => ?_⟩
          rcases mem_splitSign hd with rfl | rfl | hd
          · rfl
          · rfl
          · exact isDecimalChar_of_isDigit (List.all_eq_true.1 hds.2 d hd)
      · cases h
  · cases h

namespace Parts

variable (p : Parts)

/-- The text of a numeral. -/
def chars : List Char := p.whole ++ (afterPoint p.fraction ++ p.tail)

/-- The number that is nearest to a numeral, with a sign. -/
def toBinary64 (negative : Bool) : Binary64 :=
  Binary64.ofDecimal negative (natOfDigits (p.whole ++ p.fraction)) (p.exponent - p.fraction.length)

/-- What follows the digits begins with no digit. -/
theorem isDigit_head_tail {c : Char} {rest : List Char} (h : p.tail = c :: rest) :
    c.isDigit = false ∧ c ≠ '.' := by
  have he := p.exponent?_tail
  rw [h] at he
  rcases (exponent?_cons he).1 with rfl | rfl <;> decide

theorem isDecimalChar_of_mem {c : Char} (h : c ∈ p.chars) : isDecimalChar c = true := by
  rcases List.mem_append.1 h with h | h
  · exact isDecimalChar_of_isDigit (p.isDigit_whole c h)
  rcases List.mem_append.1 h with h | h
  · have hfraction := p.isDigit_fraction
    cases hf : p.fraction with
    | nil => rw [hf] at h; cases h
    | cons d ds =>
        rw [hf] at h hfraction
        rcases List.mem_cons.1 h with rfl | h
        · rfl
        · exact isDecimalChar_of_isDigit (hfraction c h)
  · have he := p.exponent?_tail
    cases ht : p.tail with
    | nil => rw [ht] at h; cases h
    | cons mark rest =>
        rw [ht] at h he
        obtain ⟨hmark, hrest⟩ := exponent?_cons he
        rcases List.mem_cons.1 h with rfl | h
        · rcases hmark with rfl | rfl <;> rfl
        · exact hrest c h

theorem splitFraction_afterPoint :
    splitFraction (afterPoint p.fraction ++ p.tail) = (p.fraction, p.tail) := by
  have htail : ∀ c rest, p.tail = c :: rest → c.isDigit = false := fun _ _ h =>
    (p.isDigit_head_tail h).1
  cases hf : p.fraction with
  | nil =>
      change splitFraction p.tail = ([], p.tail)
      unfold splitFraction
      split
      · next h => exact absurd rfl (p.isDigit_head_tail h).2
      · rfl
  | cons d ds =>
      have hdigits := takeWhile_digits p.isDigit_fraction htail
      rw [hf] at hdigits
      exact Prod.ext hdigits.1 hdigits.2

/-- A numeral without a sign is read as the number nearest to it. -/
theorem decimal?_chars (negative : Bool) :
    decimal? negative p.chars = some (p.toBinary64 negative) := by
  have hhead : ∀ c rest, afterPoint p.fraction ++ p.tail = c :: rest → c.isDigit = false := by
    intro c rest h
    cases hf : p.fraction with
    | nil => rw [hf] at h; exact (p.isDigit_head_tail h).1
    | cons d ds => rw [hf] at h; cases h; rfl
  obtain ⟨hwhole, hrest⟩ := takeWhile_digits p.isDigit_whole hhead
  unfold decimal? chars
  rw [hwhole, hrest, p.splitFraction_afterPoint]
  simp only [p.whole_ne_nil, false_and, if_false, p.exponent?_tail]
  rfl

/-- A numeral is read as the number nearest to it. -/
theorem readChars?_chars (negative : Bool) :
    readChars? (signed negative p.chars) = some (p.toBinary64 negative) := by
  have hchars : ∀ c ∈ signed negative p.chars, isDecimalChar c = true := by
    intro c hc
    cases negative with
    | false => exact p.isDecimalChar_of_mem hc
    | true =>
        rcases List.mem_cons.1 hc with rfl | hc
        · rfl
        · exact p.isDecimalChar_of_mem hc
  have hsign : splitSign (signed negative p.chars) = (negative, p.chars) := by
    cases negative with
    | true => rfl
    | false =>
        obtain ⟨d, ds, hd⟩ := List.exists_cons_of_ne_nil p.whole_ne_nil
        have hdigit : d.isDigit = true := p.isDigit_whole d (hd ▸ List.mem_cons_self)
        change splitSign p.chars = (false, p.chars)
        rw [chars, hd]
        exact splitSign_of_isDigit hdigit
  have hhex : hex? p.chars = none := hex?_of_isDecimalChar fun c => p.isDecimalChar_of_mem
  simp only [readChars?, trim_of_isDecimalChar hchars, hsign, hhex, p.decimal?_chars negative]

end Parts

end Numeral

/-! ### Layouts -/

theorem Binary64.ofDecimal_natCast (negative : Bool) {n k : Nat} (hn : n ≠ 0) (hk : k < 310) :
    ofDecimal negative n k = ofRatio negative (n * 10 ^ k * one) 1 := by
  unfold ofDecimal
  rw [if_neg hn, if_neg (by omega), if_neg (by omega), if_pos (by omega)]
  rfl

/-- The number nearest to a decimal stays when zeros are moved from its exponent to its digits. -/
theorem Binary64.ofDecimal_mul_pow (negative : Bool) (n : Nat) {k : Nat} (hk : k < 310) :
    ofDecimal negative (10 ^ k * n) 0 = ofDecimal negative n k := by
  by_cases hn : n = 0
  · rw [hn, Nat.mul_zero, ofDecimal, if_pos rfl, ofDecimal, if_pos rfl]
  · have hmul : 10 ^ k * n ≠ 0 := Nat.mul_ne_zero (Nat.ne_of_gt (Nat.pow_pos (by decide))) hn
    have hzero := ofDecimal_natCast negative hmul (k := 0) (by decide)
    rw [Nat.pow_zero, Nat.mul_one] at hzero
    rw [ofDecimal_natCast negative hn hk, Nat.mul_comm n]
    exact hzero

namespace Layout

open Numeral

/-- An exponent is read back with its sign. -/
theorem exponent?_written (e : Int) :
    exponent? ('e' :: (if e < 0 then '-' else '+') :: Nat.toDigits 10 e.natAbs) = some e := by
  have hdigits := spells_toDigits e.natAbs
  have hall : (Nat.toDigits 10 e.natAbs).all Char.isDigit = true :=
    List.all_eq_true.2 hdigits.isDigit
  have hok : Nat.toDigits 10 e.natAbs ≠ [] ∧ (Nat.toDigits 10 e.natAbs).all Char.isDigit = true :=
    ⟨hdigits.ne_nil, hall⟩
  have hmark : ('e' == 'e' || 'e' == 'E') = true := rfl
  rcases Int.lt_or_le e 0 with he | he
  · simp only [exponent?, hmark, if_true, if_pos he, splitSign, if_pos hok, hdigits.value]
    rw [Int.ofNat_natAbs_of_nonpos (Int.le_of_lt he), Int.neg_neg]
  · simp only [exponent?, hmark, if_true, if_neg (Int.not_lt.2 he), splitSign, if_pos hok,
      hdigits.value, Bool.false_eq_true, if_false]
    rw [Int.natAbs_of_nonneg he]

/-- A text is a numeral for the digits `n` at the exponent `e`. -/
def Denotes (cs : List Char) (n : Nat) (e : Int) : Prop :=
  ∃ p : Parts, cs = p.chars ∧ ∀ negative, p.toBinary64 negative = Binary64.ofDecimal negative n e

section

variable {digits : List Char} {n : Nat} {e point : Int} (h : Spells digits n)
  (hpoint : point = digits.length + e)

include h hpoint

/-- The point stands before all digits, after a zero. -/
theorem denotes_of_point_nonpos (hle : point ≤ 0) :
    Denotes ('0' :: '.' :: List.replicate (-point).toNat '0' ++ digits) n e := by
  let fraction := List.replicate (-point).toNat '0' ++ digits
  have hfraction : fraction ≠ [] := List.append_ne_nil_of_right_ne_nil _ h.ne_nil
  have hdigits : ∀ c ∈ fraction, c.isDigit = true := fun c hc =>
    (List.mem_append.1 hc).elim isDigit_of_mem_zeros (h.isDigit c)
  refine ⟨⟨['0'], fraction, [], 0, List.cons_ne_nil _ _, fun c => isDigit_of_mem_zeros (k := 1),
    hdigits, rfl⟩, ?_, fun negative => ?_⟩
  · simp only [Parts.chars, afterPoint_of_ne_nil hfraction, List.append_nil]
    rfl
  · have hn : natOfDigits (['0'] ++ fraction) = n := by
      change natOfDigits (List.replicate ((-point).toNat + 1) '0' ++ digits) = n
      rw [natOfDigits_append, natOfDigits_zeros, h.value, Nat.mul_zero, Nat.zero_add]
    have he : (0 : Int) - fraction.length = e := by
      simp only [fraction, List.length_append, List.length_replicate]
      omega
    simp only [Parts.toBinary64, hn, he]

/-- The point stands among the digits. -/
theorem denotes_of_point_lt (hpos : 0 < point) (hlt : point < digits.length) :
    Denotes (digits.take point.toNat ++ '.' :: digits.drop point.toNat) n e := by
  have hwhole : digits.take point.toNat ≠ [] := by
    simp only [ne_eq, List.take_eq_nil_iff, h.ne_nil, or_false]
    omega
  have hfraction : digits.drop point.toNat ≠ [] := by
    simp only [ne_eq, List.drop_eq_nil_iff]
    omega
  refine ⟨⟨digits.take point.toNat, digits.drop point.toNat, [], 0, hwhole,
    fun c hc => h.isDigit c (List.mem_of_mem_take hc),
    fun c hc => h.isDigit c (List.mem_of_mem_drop hc), rfl⟩, ?_, fun negative => ?_⟩
  · simp only [Parts.chars, afterPoint_of_ne_nil hfraction, List.append_nil]
  · have he : (0 : Int) - (digits.drop point.toNat).length = e := by
      rw [List.length_drop]
      omega
    simp only [Parts.toBinary64, List.take_append_drop, h.value, he]

/-- The point would stand after the digits, and zeros fill the gap. -/
theorem denotes_of_length_le_point (hle : digits.length ≤ point) (hlt : point < 310) :
    Denotes (digits ++ List.replicate (point - digits.length).toNat '0') n e := by
  obtain ⟨k, rfl⟩ : ∃ k : Nat, e = k := ⟨e.toNat, by omega⟩
  have hk : (point - digits.length).toNat = k := by omega
  refine ⟨⟨digits ++ List.replicate k '0', [], [], 0, List.append_ne_nil_of_left_ne_nil h.ne_nil _,
    fun c hc => (List.mem_append.1 hc).elim (h.isDigit c) isDigit_of_mem_zeros, nofun, rfl⟩, ?_,
    fun negative => ?_⟩
  · simp only [Parts.chars, afterPoint, List.append_nil, hk]
  · simp only [Parts.toBinary64, List.append_nil, natOfDigits_append, natOfDigits_zeros, h.value,
      List.length_replicate, Nat.add_zero]
    exact Binary64.ofDecimal_mul_pow negative n (by omega)

theorem denotes_positional (hlt : point < 310) : Denotes (positional digits point) n e := by
  unfold positional
  split
  · next hle => exact denotes_of_point_nonpos h hpoint hle
  · split
    · next hpos hwithin => exact denotes_of_point_lt h hpoint (by omega) hwithin
    · next hbeyond => exact denotes_of_length_le_point h hpoint (by omega) hlt

theorem denotes_exponential : Denotes (exponential digits point) n e := by
  obtain ⟨d, rest, rfl⟩ := List.exists_cons_of_ne_nil h.ne_nil
  refine ⟨⟨[d], rest, _, point - 1, List.cons_ne_nil _ _, ?_, ?_, exponent?_written (point - 1)⟩,
    ?_, fun negative => ?_⟩
  · exact fun c hc => h.isDigit c (List.mem_singleton.1 hc ▸ List.mem_cons_self)
  · exact fun c hc => h.isDigit c (List.mem_cons_of_mem _ hc)
  · cases rest with
    | nil => rfl
    | cons d' rest => rfl
  · have he : point - 1 - rest.length = e := by
      rw [List.length_cons] at hpoint
      omega
    simp only [Parts.toBinary64, List.singleton_append, h.value, he]

end

/-- The text of a decimal is a numeral for it. -/
theorem denotes_decimal (d : Decimal) : Denotes (standard.decimal d) d.digits d.exponent := by
  unfold decimal
  dsimp only
  split
  · next h =>
      have hlt : ((Nat.toDigits 10 d.digits).length : Int) + d.exponent < 310 :=
        Int.lt_of_le_of_lt h.2 (by decide)
      exact denotes_positional (spells_toDigits d.digits) rfl hlt
  · exact denotes_exponential (spells_toDigits d.digits) rfl

/-- A decimal is read back from its text, with a sign or without. -/
theorem readChars?_decimal (negative : Bool) (d : Decimal) :
    readChars? (signed negative (standard.decimal d)) = some (d.toBinary64 negative) := by
  obtain ⟨p, hchars, hp⟩ := denotes_decimal d
  rw [hchars, p.readChars?_chars, hp]
  rfl

end Layout

end LuaKernel

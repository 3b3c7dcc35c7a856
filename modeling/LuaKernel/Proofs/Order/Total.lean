import LuaKernel.Proofs.Order.Converse

/-!
# The order of numbers and of strings

Two numbers that are no NaN, and two strings, are in one of three relations: the first is before the
second, or they are equal, or the second is before the first (`comparisons_order_totally`).  So the
order of numbers and the order of strings are total, and each of them agrees with equality, although
the two ask different questions: strings are ordered by their bytes, and are equal if they have the
same characters.

A comparison like these has an answer of its own (`Decides`).  The answer is the same whatever
functions do, so no handler is asked, and the machine stays as it is.

Both orders come about in one way.  A number has its value for a rank, and a string has its bytes;
ranks are in a linear order, and all three comparisons go by them (`RankedBy.totallyOrdered`).  Two
strings of one rank are the same, since no two strings have the same bytes.  Two numbers of one rank
can still be two, the zeros, but count as equal.
-/

namespace LuaKernel

/-- A comparison has an answer of its own: on every machine, which it leaves as it is, and whatever
functions do. -/
def Decides (comparison : Engine → Action Bool) (answer : Bool) : Prop :=
  ∀ E m, comparison E m = (.ok answer, m)

/-- There is one answer only. -/
theorem Decides.unique {comparison : Engine → Action Bool} {c c' : Bool} (h : Decides comparison c)
    (h' : Decides comparison c') : c = c' :=
  Except.ok.inj (congrArg Prod.fst ((h .idle {}).symm.trans (h' .idle {})))

theorem Decides.congr {comparison : Engine → Action Bool} {c c' : Bool} (h : Decides comparison c)
    (hc : c = c') : Decides comparison c' := hc ▸ h

/-! ### Ranks -/

/-- The comparisons order some values totally. -/
structure TotallyOrdered {α : Type} (value : α → Value) : Prop where
  /-- Of two values, one is before the other, or they are equal, and just one of these is so.  The
  first is not after the second if it is before it or equal to it. -/
  trichotomy : ∀ a b, ∃ before same after,
    Decides (·.less (value a) (value b)) before ∧
    Decides (·.equal (value a) (value b)) same ∧
    Decides (·.less (value b) (value a)) after ∧
    Decides (·.lessEqual (value a) (value b)) (before || same) ∧
    [before, same, after].count true = 1
  trans : ∀ a b c, Decides (·.less (value a) (value b)) true →
    Decides (·.less (value b) (value c)) true → Decides (·.less (value a) (value c)) true

section

variable {α β : Type} [LE β] [LT β] [DecidableLT β] [DecidableEq β]

/-- Values are compared by their ranks. -/
structure RankedBy (value : α → Value) (rank : α → β) : Prop where
  less : ∀ a b, Decides (·.less (value a) (value b)) (decide (rank a < rank b))
  equal : ∀ a b, Decides (·.equal (value a) (value b)) (decide (rank a = rank b))
  lessEqual : ∀ a b, Decides (·.lessEqual (value a) (value b))
    (decide (rank a < rank b) || decide (rank a = rank b))

variable [Std.IsLinearOrder β] [Std.LawfulOrderLT β]

/-- Two ranks are in one of three relations. -/
theorem count_relations (a b : β) :
    [decide (a < b), decide (a = b), decide (b < a)].count true = 1 := by
  rcases Std.lt_trichotomy a b with hlt | rfl | hgt
  · have hne : a ≠ b := fun h => Std.lt_irrefl (h ▸ hlt)
    have hnot : ¬b < a := fun h => Std.lt_irrefl (Std.lt_trans hlt h)
    simp [hlt, hne, hnot]
  · simp [Std.lt_irrefl]
  · have hne : a ≠ b := fun h => Std.lt_irrefl (h ▸ hgt)
    have hnot : ¬a < b := fun h => Std.lt_irrefl (Std.lt_trans hgt h)
    simp [hgt, hne, hnot]

/-- **What is compared by ranks in a linear order is totally ordered.** -/
theorem RankedBy.totallyOrdered {value : α → Value} {rank : α → β} (h : RankedBy value rank) :
    TotallyOrdered value where
  trichotomy a b :=
    ⟨_, _, _, h.less a b, h.equal a b, h.less b a, h.lessEqual a b, count_relations _ _⟩
  trans a b c hab hbc := by
    have hab' : rank a < rank b := of_decide_eq_true ((h.less a b).unique hab)
    have hbc' : rank b < rank c := of_decide_eq_true ((h.less b c).unique hbc)
    exact (h.less a c).congr (decide_eq_true (Std.lt_trans hab' hbc'))

end

/-! ### Equality -/

/-- Only for two tables is equality not raw equality. -/
theorem decides_equal {a b : Value} (h : (a.isTable && b.isTable) = false) :
    Decides (·.equal a b) (a.rawEqual b) := by
  intro E m
  change E.equal a b m = _
  unfold Engine.equal
  cases a.rawEqual b with
  | true => rfl
  | false =>
      rw [if_neg Bool.false_ne_true, h]
      rfl

/-! ### Strings -/

section

variable (s t : String)

theorem decides_less_string : Decides (·.less (.string s) (.string t)) (Utf8.less s t) :=
  fun _ _ => rfl

theorem decides_lessEqual_string :
    Decides (·.lessEqual (.string s) (.string t)) (Utf8.lessEqual s t) :=
  fun _ _ => rfl

end

/-- Strings are compared by their bytes. -/
theorem rankedBy_bytes : RankedBy Value.string Utf8.bytes where
  less := decides_less_string
  equal s t := (decides_equal rfl).congr (by simp only [Utf8.bytes_injective.eq_iff]; rfl)
  lessEqual s t := (decides_lessEqual_string s t).congr (by
    rw [Utf8.lessEqual_eq_less_or_eq, Utf8.less]
    simp only [Utf8.bytes_injective.eq_iff])

/-! ### Numbers -/

section

variable (x y : Binary64)

theorem decides_less_number : Decides (·.less (.number x) (.number y)) (x.less y) := fun _ _ => rfl

theorem decides_lessEqual_number : Decides (·.lessEqual (.number x) (.number y)) (x.lessEqual y) :=
  fun _ _ => rfl

theorem decides_equal_number : Decides (·.equal (.number x) (.number y)) (x.equal y) :=
  decides_equal rfl

end

/-- A number that is no NaN, as a value. -/
def Value.ofRegular (x : { x : Binary64 // x.isNaN = false }) : Value := .number x

/-- Numbers are compared by their values, if they are no NaN. -/
theorem rankedBy_value : RankedBy Value.ofRegular (fun x => x.1.value) where
  less x y := (decides_less_number x y).congr (by
    simp only [Binary64.less, x.2, y.2, Bool.not_false, Bool.true_and])
  equal x y := (decides_equal_number x y).congr (by
    simp only [Binary64.equal, x.2, y.2, Bool.not_false, Bool.true_and])
  lessEqual x y := (decides_lessEqual_number x y).congr (by
    simp only [Binary64.lessEqual, x.2, y.2, Bool.not_false, Bool.true_and, Int.le_iff_lt_or_eq,
      Bool.decide_or])

/-- A NaN is in no relation. -/
theorem decides_of_isNaN {x y : Binary64} (h : x.isNaN = true ∨ y.isNaN = true) :
    Decides (·.less (.number x) (.number y)) false ∧
    Decides (·.lessEqual (.number x) (.number y)) false ∧
    Decides (·.equal (.number x) (.number y)) false := by
  have hnan : (!x.isNaN && !y.isNaN) = false := by
    rcases h with hx | hy
    · rw [hx, Bool.not_true, Bool.false_and]
    · rw [hy, Bool.not_true, Bool.and_false]
  refine ⟨(decides_less_number x y).congr ?_, (decides_lessEqual_number x y).congr ?_,
    (decides_equal_number x y).congr ?_⟩
  · rw [Binary64.less, hnan, Bool.false_and]
  · rw [Binary64.lessEqual, hnan, Bool.false_and]
  · rw [Binary64.equal, hnan, Bool.false_and]

/-! ### Total orders -/

/-- **Numbers and strings are totally ordered, in agreement with equality.**  That is so for all
strings, and for all numbers but NaNs, the infinities and both zeros among them; to a NaN, every
comparison says no.  Values that are not two tables are equal if they are raw-equal.  In all these
cases a comparison calls no function and leaves the machine as it is. -/
theorem comparisons_order_totally :
    TotallyOrdered Value.string ∧
    TotallyOrdered Value.ofRegular ∧
    (∀ x y : Binary64, x.isNaN = true ∨ y.isNaN = true →
      Decides (·.less (.number x) (.number y)) false ∧
      Decides (·.lessEqual (.number x) (.number y)) false ∧
      Decides (·.equal (.number x) (.number y)) false) ∧
    ∀ a b : Value, (a.isTable && b.isTable) = false → Decides (·.equal a b) (a.rawEqual b) :=
  ⟨rankedBy_bytes.totallyOrdered, rankedBy_value.totallyOrdered, fun _ _ => decides_of_isNaN,
    fun _ _ => decides_equal⟩

/-- A letter of one byte, one of two bytes, and a character of four bytes; the least number, the
greatest negative one, and the least positive one; a NaN; and a table beside a string. -/
theorem orders_at_extremes :
    Decides (·.less (.string "z") (.string "😀")) true ∧
    Decides (·.less (.number (.infinity true)) (.number (.ofIndex false 1))) true ∧
    Decides (·.equal (.number .nan) (.number .nan)) false ∧
    Decides (·.equal (.table ⟨1⟩) (.string "table")) false := by
  obtain ⟨hstrings, hnumbers, hnan, hequal⟩ := comparisons_order_totally
  refine ⟨hstrings.trans "z" "é" "😀" ?_ ?_, ?_, (hnan .nan .nan (.inl (by decide))).2.2,
    hequal _ _ rfl⟩
  · exact (decides_less_string _ _).congr (by decide +kernel)
  · exact (decides_less_string _ _).congr (by decide +kernel)
  · refine hnumbers.trans ⟨.infinity true, by decide⟩ ⟨.ofIndex true 1, by decide⟩
      ⟨.ofIndex false 1, by decide⟩ ?_ ?_
    · exact (decides_less_number _ _).congr (by decide +kernel)
    · exact (decides_less_number _ _).congr (by decide +kernel)

end LuaKernel

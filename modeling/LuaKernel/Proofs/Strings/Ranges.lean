import LuaKernel.Library.Strings
import LuaKernel.Proofs.Cache.Unobserved
import LuaKernel.Proofs.Number.Integers

/-!
# Ranges of bytes

Which bytes of a string a range has.  A position counts from one, and a negative one from the end
(`position`); the range from `i` to `j` has the bytes at the positions of the string that lie
between the two, in their order (`between`).

The library cuts a range out by two offsets, which it brings into the string first.  They cut out
the bytes between the positions, for all integers (`slice_eq_between`).  So `byte` gives the numbers
of these bytes, `sub` the text of them, and `sub` does what `char` does with the results of `byte`
(`byte_and_sub_by_positions`).

The offsets can be computed in words of sixty-four bits: every intermediate result fits into a word,
if the positions do and the number of bytes is below the greatest word (`startOffset?_eq`,
`endOffset?_eq`).
-/

namespace LuaKernel

namespace Library

/-! ### Positions and offsets -/

/-- The position that an integer stands for in a sequence: a negative one counts from the end. -/
def position (size : Nat) (p : Int) : Int := if p < 0 then p + size + 1 else p

/-- The bytes at the positions from `i` to `j`, in their order.  Positions count from one. -/
def between (bytes : List UInt8) (i j : Int) : List UInt8 :=
  ((bytes.zipIdx 1).filter fun e =>
    decide (position bytes.length i ≤ e.2 ∧ e.2 ≤ position bytes.length j)).map Prod.fst

theorem startOffset_le (i : Int) (size : Nat) : startOffset i size ≤ size := by
  unfold startOffset
  split <;> omega

theorem endOffset_le (j : Int) (size : Nat) : endOffset j size ≤ size := by
  unfold endOffset
  split <;> omega

/-- A start offset lies before a position if the position it is made from is not behind it. -/
theorem startOffset_lt_iff {size p : Nat} (hp : 1 ≤ p) (hp' : p ≤ size) (i : Int) :
    startOffset i size < p ↔ position size i ≤ p := by
  unfold startOffset position
  split <;> omega

/-- An end offset reaches a position if the position it is made from does. -/
theorem le_endOffset_iff {size p : Nat} (hp : 1 ≤ p) (hp' : p ≤ size) (j : Int) :
    p ≤ endOffset j size ↔ p ≤ position size j := by
  unfold endOffset position
  split <;> omega

/-- The positions after one offset and up to another are those that dropping and taking leaves; `k`
bytes stand before the sequence. -/
theorem filter_zipIdx (bytes : List UInt8) (k first last : Nat) :
    ((bytes.zipIdx (k + 1)).filter fun e => decide (first < e.2 ∧ e.2 ≤ last)).map Prod.fst =
      (bytes.drop (first - k)).take (last - max first k) := by
  induction bytes generalizing k with
  | nil => simp
  | cons b bytes ih =>
      rw [List.zipIdx_cons, List.filter_cons]
      -- The first byte stands before the range, in it, or after it.
      by_cases hbefore : k < first
      · have hskip : first - k = first - (k + 1) + 1 := by omega
        have hmax : max first k = max first (k + 1) := by omega
        rw [if_neg (by simp; omega), ih, hskip, List.drop_succ_cons, hmax]
      · have hstart : first - k = 0 := by omega
        have hstart' : first - (k + 1) = 0 := by omega
        by_cases hin : k < last
        · have hcount : last - max first k = last - max first (k + 1) + 1 := by omega
          rw [if_pos (by simp; omega), List.map_cons, ih, hstart, hstart', hcount]
          rfl
        · have hnone : last - max first k = 0 := by omega
          have hnone' : last - max first (k + 1) = 0 := by omega
          rw [if_neg (by simp; omega), ih, hnone, hnone', List.take_zero, List.take_zero]

/-- **A slice has the bytes between two positions.** -/
theorem slice_eq_between (bytes : List UInt8) (i j : Int) :
    slice bytes i j = between bytes i j := by
  have hrange : ∀ e ∈ bytes.zipIdx 1, 1 ≤ e.2 ∧ e.2 ≤ bytes.length := by
    intro e he
    have := List.mem_zipIdx he
    omega
  have hoffsets : between bytes i j = ((bytes.zipIdx 1).filter fun e =>
      decide (startOffset i bytes.length < e.2 ∧ e.2 ≤ endOffset j bytes.length)).map Prod.fst := by
    unfold between
    congr 1
    refine List.filter_congr fun e he => ?_
    obtain ⟨hp, hp'⟩ := hrange e he
    exact decide_eq_decide.2
      (and_congr (startOffset_lt_iff hp hp' i).symm (le_endOffset_iff hp hp' j).symm)
  have hcut := filter_zipIdx bytes 0 (startOffset i bytes.length) (endOffset j bytes.length)
  rw [Nat.zero_add, Nat.sub_zero, Nat.max_zero] at hcut
  rw [hoffsets, hcut]
  rfl

/-- The bytes up to a position. -/
theorem between_upTo (bytes : List UInt8) (k : Nat) : between bytes 1 k = bytes.take k := by
  have hstart : startOffset 1 bytes.length = 0 := by simp [startOffset]
  have hend : endOffset k bytes.length = min k bytes.length := by simp [endOffset]
  rw [← slice_eq_between, slice, hstart, hend, List.drop_zero, Nat.sub_zero, ← List.take_take,
    List.take_length]

/-- The bytes behind a position. -/
theorem between_behind (bytes : List UInt8) (k : Nat) :
    between bytes (k + 1) (-1) = bytes.drop k := by
  have hstart : startOffset (k + 1) bytes.length = min k bytes.length := by
    unfold startOffset
    rw [if_neg (by omega)]
    congr 1
    omega
  have hend : endOffset (-1) bytes.length = bytes.length := by simp [endOffset]
  rw [← slice_eq_between, slice, hstart, hend, List.take_of_length_le (by rw [List.length_drop])]
  exact List.drop_eq_drop_iff.2 (by omega)

/-! ### Offsets in words -/

/-- An integer, if it fits into a word of sixty-four bits. -/
def word? (n : Int) : Option Int := if Binary64.fitsWord n then some n else none

/-- The offset of the first position, if all that is computed on the way fits into words. -/
def startOffset? (i : Int) (size : Nat) : Option Int := do
  let size ← word? size
  if i < 0 then return max (← word? (i + size)) 0
  else if i = 0 then return 0
  else return min (← word? (i - 1)) size

/-- The offset of the last position, if all that is computed on the way fits into words. -/
def endOffset? (j : Int) (size : Nat) : Option Int := do
  let size ← word? size
  if j < 0 then return max (← word? (j + (← word? (size + 1)))) 0
  else return min j size

theorem fitsWord_iff {n : Int} :
    Binary64.fitsWord n = true ↔ -0x8000000000000000 ≤ n ∧ n < 0x8000000000000000 := by
  simp only [Binary64.fitsWord, Bool.and_eq_true, decide_eq_true_eq]

theorem word?_eq_some {n : Int} (h : -0x8000000000000000 ≤ n) (h' : n < 0x8000000000000000) :
    word? n = some n := if_pos (fitsWord_iff.2 ⟨h, h'⟩)

/-- The start offset does not overflow where positions and sizes are words. -/
theorem startOffset?_eq {i : Int} {size : Nat} (hi : Binary64.fitsWord i = true)
    (hsize : Binary64.fitsWord (size + 1) = true) :
    startOffset? i size = some (startOffset i size : Int) := by
  rw [fitsWord_iff] at hi hsize
  unfold startOffset? startOffset
  rw [word?_eq_some (by omega) (by omega)]
  simp only [Option.bind_eq_bind, Option.bind_some]
  split
  · rw [word?_eq_some (by omega) (by omega)]
    simp
  · split
    · simp
      omega
    · rw [word?_eq_some (by omega) (by omega)]
      simp
      omega

/-- The end offset does not overflow where positions and sizes are words. -/
theorem endOffset?_eq {j : Int} {size : Nat} (hj : Binary64.fitsWord j = true)
    (hsize : Binary64.fitsWord (size + 1) = true) :
    endOffset? j size = some (endOffset j size : Int) := by
  rw [fitsWord_iff] at hj hsize
  unfold endOffset? endOffset
  rw [word?_eq_some (by omega) (by omega)]
  simp only [Option.bind_eq_bind, Option.bind_some]
  split
  · rw [word?_eq_some (by omega) (by omega), Option.bind_some, word?_eq_some (by omega) (by omega)]
    simp
  · simp
    omega

/-! ### The functions -/

/-- Arguments denote a string and a range of positions.  A range begins at one if its beginning is
not given, and `last` is where it ends if its end is not given. -/
structure Denotes (args : List Value) (last : Int) (s : String) (i j : Int) : Prop where
  string : (argument args 0).checkString = .ok s
  start : (argument args 1).optInteger 1 = .ok i
  stop : (argument args 2).optInteger last = .ok j

/-- A value denotes a byte. -/
def DenotesByte (v : Value) (b : UInt8) : Prop := v.checkInteger = .ok (b.toNat : Int)

section

variable {args : List Value} {s : String} {i j : Int}

theorem byte_eq (h : Denotes args i s i j) :
    byte args = do return .many ((slice (← Action.bytes s) i j).map fun b => .ofNat b.toNat) := by
  unfold byte
  rw [h.string, h.start]
  simp only [atArgument, Action.ofExcept, pure_bind, h.stop]

theorem sub_eq (h : Denotes args (-1) s i j) :
    sub args =
      do return .single (.string (Utf8.decodeString (slice (← Action.bytes s) i j))) := by
  unfold sub
  rw [h.string, h.start, h.stop]
  simp only [atArgument, Action.ofExcept, pure_bind]

/-- The bytes that arguments denote stand before what the others stand for. -/
theorem charBytes_append {bs : List UInt8} (h : List.Forall₂ DenotesByte args bs)
    (rest : List Value) (first : Nat) :
    charBytes first (args ++ rest) = (charBytes (first + args.length) rest).map (bs ++ ·) := by
  induction h generalizing first with
  | nil => cases hrest : charBytes first rest <;> simp [hrest, Except.map]
  | @cons v b vs bs hv _ ih =>
      have hb := b.toNat_lt
      have hrange : (0 : Int) ≤ b.toNat ∧ (b.toNat : Int) < 256 := by omega
      have hv' : v.checkInteger = .ok (b.toNat : Int) := hv
      have hlast : first + (v :: vs).length = first + 1 + vs.length := by
        rw [List.length_cons]
        omega
      rw [List.cons_append, hlast]
      simp only [charBytes, hv', atArgument, if_pos hrange, ih, Int.toNat_natCast,
        UInt8.ofNat_toNat]
      cases charBytes (first + 1 + vs.length) rest <;> rfl

/-- `char` gives the text of the bytes that its arguments denote. -/
theorem char_eq {bs : List UInt8} (h : List.Forall₂ DenotesByte args bs) :
    char args = pure (.single (.string (Utf8.decodeString bs))) := by
  have hbytes := charBytes_append h [] 1
  simp only [List.append_nil, charBytes, Except.map] at hbytes
  simp only [char, hbytes, Action.ofExcept, pure_bind]

/-- A number that is an integer denotes it. -/
theorem checkInteger_number {x : Binary64} {n : Int} (h : x.toInteger? = some n) :
    (Value.number x).checkInteger = .ok n := by
  simp only [Value.checkInteger, Value.checkNumber, Value.toNumber?, h]

theorem optInteger_number {x : Binary64} {n : Int} (h : x.toInteger? = some n) (default : Int) :
    (Value.number x).optInteger default = .ok n :=
  (if_neg nofun).trans (checkInteger_number h)

theorem denotesByte_ofNat (b : UInt8) : DenotesByte (.ofNat b.toNat) b := by
  have hb : b.toNat ≤ 2 ^ 53 := Nat.le_trans (Nat.le_of_lt b.toNat_lt) (by decide)
  exact checkInteger_number (Binary64.toInteger?_ofNat hb)

theorem denotesBytes_ofNat (bs : List UInt8) :
    List.Forall₂ DenotesByte (bs.map fun b => .ofNat b.toNat) bs := by
  rw [List.forall₂_map_left_iff, List.forall₂_same]
  exact fun b _ => denotesByte_ofNat b

/-- `sub` does what `char` does with the results of `byte`. -/
theorem char_byte_eq_sub {args' : List Value} (h : Denotes args i s i j)
    (h' : Denotes args' (-1) s i j) : (do char (← byte args).toList) = sub args' := by
  rw [byte_eq h, sub_eq h']
  simp only [bind_assoc, pure_bind, Ret.toList, char_eq (denotesBytes_ofNat _)]

/-- `byte` on a machine whose cache has the right bytes. -/
theorem byte_apply {m : Machine} (hm : m.cache.Faithful) (h : Denotes args i s i j) :
    ∃ log, byte args m = (.ok (.many ((between (Utf8.bytes s) i j).map fun b => .ofNat b.toNat)),
      { m with cache := (m.cache.get s).cache, log }) := by
  obtain ⟨log, -, hbytes⟩ := Action.bytes_apply hm s
  refine ⟨log, ?_⟩
  rw [byte_eq h, Action.bind_of_ok _ hbytes, slice_eq_between]
  rfl

/-- `sub` on a machine whose cache has the right bytes. -/
theorem sub_apply {m : Machine} (hm : m.cache.Faithful) (h : Denotes args (-1) s i j) :
    ∃ log, sub args m =
      (.ok (.single (.string (Utf8.decodeString (between (Utf8.bytes s) i j)))),
        { m with cache := (m.cache.get s).cache, log }) := by
  obtain ⟨log, -, hbytes⟩ := Action.bytes_apply hm s
  refine ⟨log, ?_⟩
  rw [sub_eq h, Action.bind_of_ok _ hbytes, slice_eq_between]
  rfl

end

/-- **Ranges of bytes by positions.**  A slice has the bytes between two positions.  On every
machine whose cache has the right bytes, as it has at every point of a run, `byte` gives the numbers
of these bytes and `sub` the text of them, with all that is no UTF-8 replaced; and `sub` does what
`char` does with the results of `byte`.  The offsets of a slice lie in the string.  In words of
sixty-four bits they are computed without overflow, and come out the same; that the number of bytes
has a successor among the words is so for every string that fits into memory. -/
theorem byte_and_sub_by_positions (s : String) (i j : Int) :
    slice (Utf8.bytes s) i j = between (Utf8.bytes s) i j ∧
    (∀ args m, m.cache.Faithful → Denotes args i s i j →
      ∃ log, byte args m = (.ok (.many ((between (Utf8.bytes s) i j).map fun b => .ofNat b.toNat)),
        { m with cache := (m.cache.get s).cache, log })) ∧
    (∀ args m, m.cache.Faithful → Denotes args (-1) s i j →
      ∃ log, sub args m =
        (.ok (.single (.string (Utf8.decodeString (between (Utf8.bytes s) i j)))),
          { m with cache := (m.cache.get s).cache, log })) ∧
    (∀ args args', Denotes args i s i j → Denotes args' (-1) s i j →
      (do char (← byte args).toList) = sub args') ∧
    startOffset i (Utf8.bytes s).length ≤ (Utf8.bytes s).length ∧
    endOffset j (Utf8.bytes s).length ≤ (Utf8.bytes s).length ∧
    (Binary64.fitsWord i = true → Binary64.fitsWord j = true →
      Binary64.fitsWord ((Utf8.bytes s).length + 1) = true →
      startOffset? i (Utf8.bytes s).length = some (startOffset i (Utf8.bytes s).length : Int) ∧
      endOffset? j (Utf8.bytes s).length = some (endOffset j (Utf8.bytes s).length : Int)) :=
  ⟨slice_eq_between _ i j, fun _ _ => byte_apply, fun _ _ => sub_apply, fun _ _ => char_byte_eq_sub,
    startOffset_le i _, endOffset_le j _,
    fun hi hj hsize => ⟨startOffset?_eq hi hsize, endOffset?_eq hj hsize⟩⟩

/-- The last two of the three bytes of a string, and the least and the greatest word
as positions. -/
theorem last_two_bytes_by_positions :
    Denotes [.string "aé", .ofInt 2, .ofInt (-1)] 2 "aé" 2 (-1) ∧
    (byte [.string "aé", .ofInt 2, .ofInt (-1)] {}).1 = .ok (.many [.ofNat 0xC3, .ofNat 0xA9]) ∧
    (sub [.string "aé", .ofInt 2, .ofInt (-1)] {}).1 = .ok (.single (.string "é")) ∧
    startOffset? (-0x8000000000000000) (Utf8.bytes "aé").length = some 0 ∧
    endOffset? 0x7FFFFFFFFFFFFFFF (Utf8.bytes "aé").length = some 3 := by
  have hstart : (Binary64.ofInt 2).toInteger? = some 2 := by decide +kernel
  have hstop : (Binary64.ofInt (-1)).toInteger? = some (-1) := by decide +kernel
  have hbyte : Denotes [.string "aé", .ofInt 2, .ofInt (-1)] 2 "aé" 2 (-1) :=
    ⟨rfl, optInteger_number hstart 1, optInteger_number hstop _⟩
  have hsub : Denotes [.string "aé", .ofInt 2, .ofInt (-1)] (-1) "aé" 2 (-1) :=
    ⟨rfl, optInteger_number hstart 1, optInteger_number hstop _⟩
  have hempty : (ByteCache.empty 16).Faithful := (ByteCache.sound_empty 16).faithful
  obtain ⟨-, hb, hs, -⟩ := byte_and_sub_by_positions "aé" 2 (-1)
  obtain ⟨_, hb⟩ := hb _ {} hempty hbyte
  obtain ⟨_, hs⟩ := hs _ {} hempty hsub
  have hw := byte_and_sub_by_positions "aé" (-0x8000000000000000) 0x7FFFFFFFFFFFFFFF
  obtain ⟨hfirst, hlast⟩ := hw.2.2.2.2.2.2 (by decide) (by decide) (by decide +kernel)
  have hbytes : between (Utf8.bytes "aé") 2 (-1) = [0xC3, 0xA9] := by decide +kernel
  rw [hbytes] at hb hs
  have htext : Utf8.decodeString [0xC3, 0xA9] = "é" := by decide +kernel
  rw [htext] at hs
  exact ⟨hbyte, congrArg Prod.fst hb, congrArg Prod.fst hs, hfirst.trans (by decide +kernel),
    hlast.trans (by decide +kernel)⟩

end Library

end LuaKernel

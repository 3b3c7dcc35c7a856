import LuaKernel.Text.Utf8

/-!
# The sequences of UTF-8

What decoding does to a whole sequence of bytes, to the beginning of one, and to the rest of one.

The first byte of a sequence says how many bytes follow and what they may be (`Lead.Allows`).  If
all of them are there, decoding gives their character and goes on behind them (`decode_sequence`).
If the text ends before they are all there, it gives one replacement character (`decode_truncated`).
And bytes that can only follow begin nothing: they are replaced one by one (`decode_orphans`).

The encoding of a character is such a sequence, and it denotes the character
(`spells_utf8EncodeChar`).  So decoding undoes encoding (`decode_encode_append`), also in front of
bytes that are no UTF-8, and encoding undoes decoding exactly on UTF-8
(`bytes_decodeString_eq_iff`).  It is also known what becomes of a character that is cut in two
(`decode_take_utf8EncodeChar`, `decode_drop_utf8EncodeChar`).
-/

namespace LuaKernel.Utf8

/-! ### First bytes -/

theorem isContinuation_iff {b : UInt8} :
    isContinuation b = true ↔ 0x80 ≤ b.toNat ∧ b.toNat ≤ 0xBF := by
  simp [isContinuation, UInt8.le_iff_toNat_le]

theorem lead?_of_one {a : UInt8} (h : a.toNat < 0x80) : lead? a = some ⟨0, 0, 0⟩ := by
  have ha : a < 0x80 := UInt8.lt_iff_toNat_lt.2 h
  simp [lead?, ha]

/-- A byte that continues a character begins none. -/
theorem lead?_of_isContinuation {b : UInt8} (h : isContinuation b = true) : lead? b = none := by
  rw [isContinuation_iff] at h
  simp only [lead?, UInt8.lt_iff_toNat_lt, UInt8.reduceToNat]
  rw [if_neg (by omega), if_pos (by omega)]

/-- The byte that a sequence of two bytes begins with. -/
theorem lead?_of_two {a : UInt8} (h : 0xC2 ≤ a.toNat) (h' : a.toNat < 0xE0) :
    lead? a = some ⟨1, 0x80, 0xBF⟩ := by
  simp only [lead?, UInt8.lt_iff_toNat_lt, UInt8.reduceToNat]
  rw [if_neg (by omega), if_neg (by omega), if_pos h']

/-- The byte that a sequence of three bytes begins with, and what may follow it. -/
theorem lead?_of_three {a : UInt8} (h : 0xE0 ≤ a.toNat) (h' : a.toNat < 0xF0) :
    lead? a =
      some ⟨2, if a = 0xE0 then 0xA0 else 0x80, if a = 0xED then 0x9F else 0xBF⟩ := by
  simp only [lead?, UInt8.lt_iff_toNat_lt, UInt8.reduceToNat]
  rw [if_neg (by omega), if_neg (by omega), if_neg (by omega)]
  by_cases hlow : a = 0xE0
  · subst hlow
    rfl
  · by_cases hhigh : a = 0xED
    · subst hhigh
      rfl
    · simp [hlow, hhigh, h']

/-- The byte that a sequence of four bytes begins with, and what may follow it. -/
theorem lead?_of_four {a : UInt8} (h : 0xF0 ≤ a.toNat) (h' : a.toNat ≤ 0xF4) :
    lead? a =
      some ⟨3, if a = 0xF0 then 0x90 else 0x80, if a = 0xF4 then 0x8F else 0xBF⟩ := by
  have hne : ∀ b : UInt8, b.toNat < 0xF0 → a ≠ b := fun b hb e => by
    rw [e] at h
    omega
  simp only [lead?, UInt8.lt_iff_toNat_lt, UInt8.reduceToNat, hne 0xE0 (by decide),
    hne 0xED (by decide), if_false]
  rw [if_neg (by omega), if_neg (by omega), if_neg (by omega), if_neg (by omega)]
  by_cases hlow : a = 0xF0
  · subst hlow
    rfl
  · by_cases hhigh : a = 0xF4
    · subst hhigh
      rfl
    · have hlt : a.toNat < 0xF4 :=
        Nat.lt_of_le_of_ne h' fun e => hhigh (UInt8.toNat_inj.1 e)
      simp [hlow, hhigh, hlt]

/-- At most three bytes follow a first byte, and the second byte is one that continues
a character. -/
theorem lead?_cases {a : UInt8} {l : Lead} (h : lead? a = some l) :
    l.more = 0 ∨ l.more ≤ 3 ∧ 0x80 ≤ l.least ∧ l.greatest ≤ 0xBF := by
  have hall : (lead? a).all fun l =>
      decide (l.more = 0 ∨ l.more ≤ 3 ∧ 0x80 ≤ l.least ∧ l.greatest ≤ 0xBF) := by
    unfold lead?
    repeat' split
    all_goals decide
  rw [h] at hall
  exact of_decide_eq_true hall

theorem more_le_of_lead? {a : UInt8} {l : Lead} (h : lead? a = some l) : l.more ≤ 3 := by
  rcases lead?_cases h with h0 | ⟨h3, -⟩
  · omega
  · exact h3

/-! ### The bytes that follow -/

/-- A first byte allows these bytes behind it, as far as they go: the second one in its range, and
then such as continue a character. -/
def Lead.Allows (l : Lead) : List UInt8 → Prop
  | [] => True
  | b :: bs => (l.least ≤ b ∧ b ≤ l.greatest) ∧ ∀ c ∈ bs, isContinuation c = true

/-- What is allowed is also allowed as far as it goes earlier. -/
theorem Lead.Allows.take {l : Lead} {tail : List UInt8} (h : l.Allows tail) (r : Nat) :
    l.Allows (tail.take r) := by
  cases tail with
  | nil => rwa [List.take_nil]
  | cons b bs =>
      cases r with
      | zero => trivial
      | succ r => exact ⟨h.1, fun c hc => h.2 c (List.mem_of_mem_take hc)⟩

/-- All bytes that follow a first byte continue a character. -/
theorem Lead.Allows.isContinuation {a : UInt8} {l : Lead} {tail : List UInt8}
    (hl : lead? a = some l) (hlen : tail.length ≤ l.more) (h : l.Allows tail) :
    ∀ b ∈ tail, isContinuation b = true := by
  cases tail with
  | nil => exact nofun
  | cons b bs =>
      obtain ⟨⟨hleast, hgreatest⟩, hbs⟩ := h
      rcases lead?_cases hl with h0 | ⟨-, hlow, hhigh⟩
      · simp [h0] at hlen
      · intro c hc
        rcases List.mem_cons.1 hc with rfl | hc
        · simp only [Utf8.isContinuation, Bool.and_eq_true, decide_eq_true_eq]
          exact ⟨UInt8.le_trans hlow hleast, UInt8.le_trans hgreatest hhigh⟩
        · exact hbs c hc

/-- The character of a first byte and the bytes that follow it. -/
def assemble (a : UInt8) : List UInt8 → Char
  | [] => Char.ofNat a.toNat
  | [b] => char2 a b
  | [b, c] => char3 a b c
  | b :: c :: d :: _ => char4 a b c d

/-! ### Decoding sequences -/

/-- A whole sequence is decoded to its character. -/
theorem decode_sequence {a : UInt8} {l : Lead} {tail : List UInt8} (hl : lead? a = some l)
    (hlen : tail.length = l.more) (hallows : l.Allows tail) (rest : List UInt8) :
    decode (a :: (tail ++ rest)) = assemble a tail :: decode rest := by
  have hmore := more_le_of_lead? hl
  obtain ⟨more, least, greatest⟩ := l
  obtain rfl : tail.length = more := hlen
  match tail, hallows with
  | [], _ =>
    rw [List.nil_append, decode]
    simp only [hl, List.length_nil, assemble]
  | [b], ⟨hb, _⟩ =>
    rw [List.cons_append, List.nil_append, decode]
    simp only [hl, List.length_singleton]
    exact if_pos hb
  | [b, c], ⟨hb, hcs⟩ =>
    have hc : isContinuation c = true := hcs c (by simp)
    simp only [List.length_cons, List.length_nil] at hl
    rw [List.cons_append, List.cons_append, List.nil_append, decode]
    simp only [hl, hc]
    exact if_pos hb
  | [b, c, d], ⟨hb, hcs⟩ =>
    have hc : isContinuation c = true := hcs c (by simp)
    have hd : isContinuation d = true := hcs d (by simp)
    simp only [List.length_cons, List.length_nil] at hl
    rw [List.cons_append, List.cons_append, List.cons_append, List.nil_append, decode]
    simp only [hl, hc, hd]
    exact if_pos hb
  | _ :: _ :: _ :: _ :: _, _ =>
    simp only [List.length_cons] at hmore
    omega

/-- A sequence that breaks off at the end of the text is replaced once. -/
theorem decode_truncated {a : UInt8} {l : Lead} {tail : List UInt8} (hl : lead? a = some l)
    (hlen : tail.length < l.more) (hallows : l.Allows tail) :
    decode (a :: tail) = [replacement] := by
  have hmore := more_le_of_lead? hl
  obtain ⟨more, least, greatest⟩ := l
  match tail, more, hlen with
  | [], more + 1, _ =>
    rw [decode]
    simp only [hl]
  | [b], more + 2, _ =>
    rw [decode]
    simp only [hl]
    exact if_pos hallows.1
  | [b, c], more + 3, _ =>
    have hc : isContinuation c = true := hallows.2 c (by simp)
    rw [decode]
    simp only [hl, hc]
    exact if_pos hallows.1
  | _ :: _ :: _ :: _, more, hlen =>
    simp only [List.length_cons] at hlen hmore
    omega

/-- Bytes that can only continue a character are replaced one by one. -/
theorem decode_orphans {bs : List UInt8} (h : ∀ b ∈ bs, isContinuation b = true)
    (rest : List UInt8) :
    decode (bs ++ rest) = List.replicate bs.length replacement ++ decode rest := by
  induction bs with
  | nil => rfl
  | cons b bs ih =>
      have hb := lead?_of_isContinuation (h b List.mem_cons_self)
      rw [List.cons_append, decode]
      simp only [hb]
      rw [ih fun c hc => h c (List.mem_cons_of_mem b hc)]
      rfl

/-! ### Encoding a character -/

/-- A first byte and the bytes that follow it are the sequence of a character. -/
structure Spells (a : UInt8) (tail : List UInt8) (c : Char) : Prop where
  whole : ∃ l, lead? a = some l ∧ tail.length = l.more ∧ l.Allows tail
  denotes : assemble a tail = c

theorem isContinuation_ofNat (n : Nat) : isContinuation (UInt8.ofNat (n % 0x40 + 0x80)) = true := by
  rw [isContinuation_iff, UInt8.toNat_ofNat_of_lt' (show _ < 256 by omega)]
  omega

theorem spells_one {n : Nat} (h : n ≤ 0x7F) : Spells (UInt8.ofNat n) [] (Char.ofNat n) := by
  have ha : (UInt8.ofNat n).toNat = n := UInt8.toNat_ofNat_of_lt' (show n < 256 by omega)
  refine ⟨⟨_, lead?_of_one (by omega), rfl, trivial⟩, ?_⟩
  rw [assemble, ha]

theorem spells_two {n : Nat} (h : 0x7F < n) (h' : n ≤ 0x7FF) :
    Spells (UInt8.ofNat (n / 64 % 0x20 + 0xC0)) [UInt8.ofNat (n % 0x40 + 0x80)] (Char.ofNat n) := by
  have ha := UInt8.toNat_ofNat_of_lt' (show n / 64 % 0x20 + 0xC0 < 256 by omega)
  have hb := UInt8.toNat_ofNat_of_lt' (show n % 0x40 + 0x80 < 256 by omega)
  refine ⟨⟨_, lead?_of_two (by omega) (by omega), rfl, ?_, nofun⟩, ?_⟩
  · simp only [UInt8.le_iff_toNat_le, UInt8.reduceToNat, hb]
    omega
  · rw [assemble, char2, ha, hb]
    congr 1
    omega

/-- The surrogates are left out: they would need a second byte above the range that the first byte
gives. -/
theorem spells_three {n : Nat} (h : 0x7FF < n) (h' : n ≤ 0xFFFF) (hs : n < 0xD800 ∨ 0xDFFF < n) :
    Spells (UInt8.ofNat (n / 4096 % 0x10 + 0xE0))
      [UInt8.ofNat (n / 64 % 0x40 + 0x80), UInt8.ofNat (n % 0x40 + 0x80)] (Char.ofNat n) := by
  have ha := UInt8.toNat_ofNat_of_lt' (show n / 4096 % 0x10 + 0xE0 < 256 by omega)
  have hb := UInt8.toNat_ofNat_of_lt' (show n / 64 % 0x40 + 0x80 < 256 by omega)
  have hc := UInt8.toNat_ofNat_of_lt' (show n % 0x40 + 0x80 < 256 by omega)
  refine ⟨⟨_, lead?_of_three (by omega) (by omega), rfl, ?_, ?_⟩, ?_⟩
  · simp only [UInt8.le_iff_toNat_le, ← UInt8.toNat_inj, ha, hb, apply_ite UInt8.toNat,
      UInt8.reduceToNat]
    constructor <;> split <;> omega
  · simp only [List.mem_singleton, forall_eq]
    exact isContinuation_ofNat n
  · rw [assemble, char3, ha, hb, hc]
    congr 1
    omega

theorem spells_four {n : Nat} (h : 0xFFFF < n) (h' : n < 0x110000) :
    Spells (UInt8.ofNat (n / 262144 % 0x08 + 0xF0))
      [UInt8.ofNat (n / 4096 % 0x40 + 0x80), UInt8.ofNat (n / 64 % 0x40 + 0x80),
        UInt8.ofNat (n % 0x40 + 0x80)] (Char.ofNat n) := by
  have ha := UInt8.toNat_ofNat_of_lt' (show n / 262144 % 0x08 + 0xF0 < 256 by omega)
  have hb := UInt8.toNat_ofNat_of_lt' (show n / 4096 % 0x40 + 0x80 < 256 by omega)
  have hc := UInt8.toNat_ofNat_of_lt' (show n / 64 % 0x40 + 0x80 < 256 by omega)
  have hd := UInt8.toNat_ofNat_of_lt' (show n % 0x40 + 0x80 < 256 by omega)
  refine ⟨⟨_, lead?_of_four (by omega) (by omega), rfl, ?_, ?_⟩, ?_⟩
  · simp only [UInt8.le_iff_toNat_le, ← UInt8.toNat_inj, ha, hb, apply_ite UInt8.toNat,
      UInt8.reduceToNat]
    constructor <;> split <;> omega
  · simp only [List.mem_cons, List.not_mem_nil, or_false, forall_eq_or_imp, forall_eq]
    exact ⟨isContinuation_ofNat _, isContinuation_ofNat n⟩
  · rw [assemble, char4, ha, hb, hc, hd]
    congr 1
    omega

/-- The bytes of a character are a sequence that denotes it. -/
theorem spells_utf8EncodeChar (c : Char) :
    ∃ a tail, String.utf8EncodeChar c = a :: tail ∧ Spells a tail c := by
  have hvalid : c.val.toNat < 0xD800 ∨ 0xDFFF < c.val.toNat ∧ c.val.toNat < 0x110000 := c.valid
  have hself : Char.ofNat c.val.toNat = c := Char.ofNat_toNat c
  by_cases h1 : c.val.toNat ≤ 0x7F
  · have hs := spells_one h1
    rw [hself] at hs
    exact ⟨_, _, if_pos h1, hs⟩
  by_cases h2 : c.val.toNat ≤ 0x7FF
  · have hs := spells_two (Nat.lt_of_not_le h1) h2
    rw [hself] at hs
    exact ⟨_, _, (if_neg h1).trans (if_pos h2), hs⟩
  by_cases h3 : c.val.toNat ≤ 0xFFFF
  · have hs := spells_three (Nat.lt_of_not_le h2) h3 (by omega)
    rw [hself] at hs
    exact ⟨_, _, (if_neg h1).trans ((if_neg h2).trans (if_pos h3)), hs⟩
  · have hs := spells_four (Nat.lt_of_not_le h3) (by omega)
    rw [hself] at hs
    exact ⟨_, _, (if_neg h1).trans ((if_neg h2).trans (if_neg h3)), hs⟩

/-! ### Decoding what was encoded -/

theorem encode_append (p q : List Char) : encode (p ++ q) = encode p ++ encode q :=
  List.flatMap_append

theorem encode_cons (c : Char) (q : List Char) :
    encode (c :: q) = String.utf8EncodeChar c ++ encode q :=
  List.flatMap_cons

/-- **Decoding undoes encoding**, whatever follows. -/
theorem decode_encode_append (p : List Char) (rest : List UInt8) :
    decode (encode p ++ rest) = p ++ decode rest := by
  induction p with
  | nil => rfl
  | cons c p ih =>
      obtain ⟨a, tail, hbytes, ⟨l, hl, hlen, hallows⟩, hc⟩ := spells_utf8EncodeChar c
      rw [encode_cons, hbytes, List.append_assoc, List.cons_append,
        decode_sequence hl hlen hallows, hc, ih]
      rfl

/-- What is encoded is decoded again. -/
theorem decode_encode (cs : List Char) : decode (encode cs) = cs := by
  have h := decode_encode_append cs []
  rwa [List.append_nil, decode, List.append_nil] at h

/-- Bytes are well-formed UTF-8 if they encode some text. -/
theorem isValidUTF8_iff {bs : List UInt8} :
    bs.toByteArray.IsValidUTF8 ↔ ∃ cs, bs = encode cs := by
  constructor
  · rintro ⟨cs, h⟩
    exact ⟨cs, List.toByteArray_inj.1 h⟩
  · rintro ⟨cs, rfl⟩
    exact ⟨cs, rfl⟩

theorem decodeString_bytes (s : String) : decodeString (bytes s) = s := by
  rw [decodeString, bytes, decode_encode, String.ofList_toList]

/-- **Encoding undoes decoding** on well-formed UTF-8, and on nothing else. -/
theorem bytes_decodeString_eq_iff {bs : List UInt8} :
    bytes (decodeString bs) = bs ↔ bs.toByteArray.IsValidUTF8 := by
  rw [isValidUTF8_iff, bytes, decodeString, String.toList_ofList]
  constructor
  · intro h
    exact ⟨decode bs, h.symm⟩
  · rintro ⟨cs, rfl⟩
    rw [decode_encode]

/-! ### Characters cut in two -/

/-- The beginning of a character is replaced once. -/
theorem decode_take_utf8EncodeChar (c : Char) {r : Nat} (h : 0 < r)
    (h' : r < (String.utf8EncodeChar c).length) :
    decode ((String.utf8EncodeChar c).take r) = [replacement] := by
  obtain ⟨a, tail, hbytes, ⟨l, hl, hlen, hallows⟩, -⟩ := spells_utf8EncodeChar c
  obtain ⟨r, rfl⟩ := Nat.exists_eq_add_of_lt h
  rw [hbytes, List.length_cons] at h'
  rw [hbytes, Nat.zero_add, List.take_succ_cons]
  refine decode_truncated hl ?_ (hallows.take r)
  rw [List.length_take]
  omega

/-- The rest of a character is replaced byte by byte. -/
theorem decode_drop_utf8EncodeChar (c : Char) {r : Nat} (h : 0 < r) (rest : List UInt8) :
    decode ((String.utf8EncodeChar c).drop r ++ rest) =
      List.replicate ((String.utf8EncodeChar c).length - r) replacement ++ decode rest := by
  obtain ⟨a, tail, hbytes, ⟨l, hl, hlen, hallows⟩, -⟩ := spells_utf8EncodeChar c
  obtain ⟨r, rfl⟩ := Nat.exists_eq_add_of_lt h
  have hcontinue := hallows.isContinuation hl (Nat.le_of_eq hlen)
  rw [hbytes, Nat.zero_add, List.drop_succ_cons,
    decode_orphans fun b hb => hcontinue b (List.mem_of_mem_drop hb), List.length_drop,
    List.length_cons, Nat.add_sub_add_right]

end LuaKernel.Utf8

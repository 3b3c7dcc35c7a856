import LuaKernel.Proofs.Strings.Ranges
import LuaKernel.Proofs.Text.Sequences

/-!
# Splitting strings

A string that `sub` cuts at some number of bytes.  Between two characters the parts are texts of the
string, and together they are the string again.  Inside a character neither part has a whole one:
the left part ends with one replacement character, and the right part begins with as many as it has
bytes of the character.  So the parts together are longer than the string, also if it has
replacement characters of its own.

Every number of bytes is one of the two (`boundary_or_inside`).
-/

namespace LuaKernel

namespace Utf8

/-! ### Boundaries -/

/-- Up to any number of its bytes, a text has whole characters, or whole ones and a part of one. -/
theorem boundary_or_inside (cs : List Char) {k : Nat} (h : k ≤ (encode cs).length) :
    (∃ p q, cs = p ++ q ∧ (encode p).length = k) ∨
      ∃ p c q d, cs = p ++ c :: q ∧ 0 < d ∧ d < (String.utf8EncodeChar c).length ∧
        (encode p).length + d = k := by
  induction cs generalizing k with
  | nil => exact .inl ⟨[], [], rfl, (Nat.le_zero.1 h).symm⟩
  | cons c cs ih =>
      rw [encode_cons, List.length_append] at h
      rcases Nat.eq_zero_or_pos k with rfl | hk
      · exact .inl ⟨[], c :: cs, rfl, rfl⟩
      by_cases hc : k < (String.utf8EncodeChar c).length
      · exact .inr ⟨[], c, cs, k, rfl, hk, hc, Nat.zero_add k⟩
      -- The first character is whole, and the rest decides.
      obtain ⟨k, rfl⟩ := Nat.exists_eq_add_of_le (Nat.le_of_not_lt hc)
      rcases ih (Nat.le_of_add_le_add_left h) with ⟨p, q, rfl, hp⟩ | ⟨p, b, q, d, rfl, hd, hb, hp⟩
      · refine .inl ⟨c :: p, q, rfl, ?_⟩
        rw [encode_cons, List.length_append, hp]
      · refine .inr ⟨c :: p, b, q, d, rfl, hd, hb, ?_⟩
        rw [encode_cons, List.length_append, Nat.add_assoc, hp]

theorem length_bytes (s : String) : (bytes s).length = s.utf8ByteSize := by
  have hsize : s.toList.utf8Encode.size = (bytes s).length := List.size_toByteArray
  rw [← hsize, String.utf8Encode_toList, String.size_toByteArray]

/-- The boundaries of a string are the sizes of its beginnings. -/
theorem isValid_iff {s : String} {k : Nat} :
    String.Pos.Raw.IsValid s ⟨k⟩ ↔ ∃ p q, s.toList = p ++ q ∧ (encode p).length = k := by
  rw [String.Pos.Raw.isValid_iff_exists_append]
  constructor
  · rintro ⟨p, q, rfl, hk⟩
    refine ⟨p.toList, q.toList, String.toList_append, ?_⟩
    exact (length_bytes p).trans (String.Pos.Raw.mk.inj hk).symm
  · rintro ⟨p, q, hs, rfl⟩
    refine ⟨String.ofList p, String.ofList q, ?_, ?_⟩
    · rw [← String.ofList_append, ← hs, String.ofList_toList]
    · have hp := length_bytes (String.ofList p)
      rw [bytes, String.toList_ofList] at hp
      exact String.Pos.Raw.ext hp

/-! ### The two parts -/

/-- The text of the first bytes of a string. -/
def upTo (s : String) (k : Nat) : String := decodeString ((bytes s).take k)

/-- The text of the other bytes. -/
def behind (s : String) (k : Nat) : String := decodeString ((bytes s).drop k)

theorem upTo_zero (s : String) : upTo s 0 = "" := rfl

theorem behind_length (s : String) : behind s (bytes s).length = "" := by
  rw [behind, List.drop_length]
  rfl

/-- At a boundary the parts are the string. -/
theorem upTo_append_behind {s : String} {k : Nat} (h : String.Pos.Raw.IsValid s ⟨k⟩) :
    upTo s k ++ behind s k = s := by
  obtain ⟨p, q, hs, rfl⟩ := isValid_iff.1 h
  rw [upTo, behind, bytes, hs, encode_append, List.take_left, List.drop_left, decodeString,
    decodeString, decode_encode, decode_encode, ← String.ofList_append, ← hs, String.ofList_toList]

/-- A string is cut inside a character: some bytes of it are on the left, the others on
the right. -/
structure CutInside (s : String) (k : Nat) (p : List Char) (c : Char) (q : List Char) (d : Nat) :
    Prop where
  text : s.toList = p ++ c :: q
  pos : 0 < d
  lt : d < (String.utf8EncodeChar c).length
  size : (encode p).length + d = k

theorem exists_cutInside {s : String} {k : Nat} (hk : k ≤ (bytes s).length)
    (h : ¬String.Pos.Raw.IsValid s ⟨k⟩) : ∃ p c q d, CutInside s k p c q d := by
  rcases boundary_or_inside s.toList hk with hbound | ⟨p, c, q, d, hs, hd, hd', hp⟩
  · exact absurd (isValid_iff.2 hbound) h
  · exact ⟨p, c, q, d, hs, hd, hd', hp⟩

namespace CutInside

variable {s : String} {k d : Nat} {p q : List Char} {c : Char}

/-- The beginning of the character is replaced once. -/
theorem toList_upTo (h : CutInside s k p c q d) : (upTo s k).toList = p ++ [replacement] := by
  obtain ⟨hs, hd, hd', rfl⟩ := h
  rw [upTo, decodeString, String.toList_ofList, bytes, hs, encode_append, encode_cons,
    List.take_length_add_append, List.take_append_of_le_length (Nat.le_of_lt hd'),
    decode_encode_append, decode_take_utf8EncodeChar c hd hd']

/-- The rest of the character is replaced byte by byte. -/
theorem toList_behind (h : CutInside s k p c q d) :
    (behind s k).toList =
      List.replicate ((String.utf8EncodeChar c).length - d) replacement ++ q := by
  obtain ⟨hs, hd, hd', rfl⟩ := h
  rw [behind, decodeString, String.toList_ofList, bytes, hs, encode_append, encode_cons,
    List.drop_length_add_append, List.drop_append_of_le_length (Nat.le_of_lt hd'),
    decode_drop_utf8EncodeChar c hd, decode_encode]

/-- Both parts have a replacement character for the one that is split. -/
theorem length_lt (h : CutInside s k p c q d) : s.length < (upTo s k ++ behind s k).length := by
  have hlt := h.lt
  rw [← String.length_toList, ← String.length_toList, String.toList_append, h.toList_upTo,
    h.toList_behind, h.text]
  simp only [List.length_append, List.length_cons, List.length_nil, List.length_replicate]
  omega

end CutInside

end Utf8

namespace Library

/-- **Splitting a string.**  The parts up to some byte and behind it are together the string, if and
only if a character ends there.  If none does, then the character that is split is replaced, once in
the left part and for every byte in the right one, so that the parts together have more characters
than the string. -/
theorem sub_splits (s : String) (k : Nat) (hk : k ≤ (Utf8.bytes s).length) :
    ∃ left right,
      (∀ args m, m.cache.Faithful → Denotes args (-1) s 1 k →
        ∃ log, sub args m =
          (.ok (.single (.string left)), { m with cache := (m.cache.get s).cache, log })) ∧
      (∀ args m, m.cache.Faithful → Denotes args (-1) s (k + 1) (-1) →
        ∃ log, sub args m =
          (.ok (.single (.string right)), { m with cache := (m.cache.get s).cache, log })) ∧
      (left ++ right = s ↔ String.Pos.Raw.IsValid s ⟨k⟩) ∧
      (k = 0 → left = "") ∧ (k = (Utf8.bytes s).length → right = "") ∧
      (¬String.Pos.Raw.IsValid s ⟨k⟩ →
        s.length < (left ++ right).length ∧
        ∃ p c q d, Utf8.CutInside s k p c q d ∧
          left.toList = p ++ [Utf8.replacement] ∧
          right.toList =
            List.replicate ((String.utf8EncodeChar c).length - d) Utf8.replacement ++ q) := by
  refine ⟨Utf8.upTo s k, Utf8.behind s k, fun args m hm h => ?_, fun args m hm h => ?_,
    ⟨fun h => ?_, Utf8.upTo_append_behind⟩, ?_, ?_, fun h => ?_⟩
  · rw [Utf8.upTo, ← between_upTo]
    exact sub_apply hm h
  · rw [Utf8.behind, ← between_behind]
    exact sub_apply hm h
  · by_contra hinside
    obtain ⟨p, c, q, d, hcut⟩ := Utf8.exists_cutInside hk hinside
    have hlonger := hcut.length_lt
    rw [h] at hlonger
    exact Nat.lt_irrefl _ hlonger
  · rintro rfl
    exact Utf8.upTo_zero s
  · rintro rfl
    exact Utf8.behind_length s
  · obtain ⟨p, c, q, d, hcut⟩ := Utf8.exists_cutInside hk h
    exact ⟨hcut.length_lt, p, c, q, d, hcut, hcut.toList_upTo, hcut.toList_behind⟩

/-- A string of one character of two bytes, split in the middle. -/
theorem split_of_two_bytes :
    1 ≤ (Utf8.bytes "é").length ∧
    ∃ left right,
      (sub [.string "é", .ofInt 1, .ofInt 1] {}).1 = .ok (.single (.string left)) ∧
      (sub [.string "é", .ofInt 2] {}).1 = .ok (.single (.string right)) ∧
      ¬String.Pos.Raw.IsValid "é" ⟨1⟩ ∧ left ++ right ≠ "é" ∧ 1 < (left ++ right).length := by
  have hone : (Binary64.ofInt 1).toInteger? = some 1 := by decide +kernel
  have htwo : (Binary64.ofInt 2).toInteger? = some 2 := by decide +kernel
  have hempty : (ByteCache.empty 16).Faithful := (ByteCache.sound_empty 16).faithful
  have hk : 1 ≤ (Utf8.bytes "é").length := by decide +kernel
  have hinside : ¬String.Pos.Raw.IsValid "é" ⟨1⟩ := by decide +kernel
  obtain ⟨left, right, hleft, hright, hiff, -, -, hlonger⟩ := sub_splits "é" 1 hk
  obtain ⟨_, hleft⟩ := hleft [.string "é", .ofInt 1, .ofInt 1] {} hempty
    ⟨rfl, optInteger_number hone 1, optInteger_number hone (-1)⟩
  obtain ⟨_, hright⟩ := hright [.string "é", .ofInt 2] {} hempty
    ⟨rfl, optInteger_number htwo 1, rfl⟩
  exact ⟨hk, left, right, congrArg Prod.fst hleft, congrArg Prod.fst hright, hinside,
    fun h => hinside (hiff.1 h), (hlonger hinside).1⟩

end Library

end LuaKernel

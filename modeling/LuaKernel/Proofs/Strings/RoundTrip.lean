import LuaKernel.Proofs.Strings.Ranges
import LuaKernel.Proofs.Text.Sequences

/-!
# Strings to bytes and back

`byte` and `char` undo each other where a text is there to begin with.  The bytes of a string make
the string again.  Numbers of bytes always make a string, but its bytes are these numbers only if
they are well-formed UTF-8; everything else was replaced in decoding.

`char` stops at the first argument that denotes no byte, and its error says which one it was
(`char_of_denotesNoByte`).
-/

namespace LuaKernel.Library

/-! ### All bytes of a string -/

/-- The range from the first position to the last has everything. -/
theorem between_all (bytes : List UInt8) : between bytes 1 (-1) = bytes :=
  between_behind bytes 0

/-- Different bytes have different numbers. -/
theorem ofNat_toNat_injective : Function.Injective fun b : UInt8 => Value.ofNat b.toNat := by
  intro b c h
  have hsame : (Value.ofNat b.toNat).checkInteger = (Value.ofNat c.toNat).checkInteger :=
    congrArg Value.checkInteger h
  have hok : (.ok (b.toNat : Int) : Except Fault Int) = .ok (c.toNat : Int) :=
    (denotesByte_ofNat b).symm.trans (hsame.trans (denotesByte_ofNat c))
  exact UInt8.toNat_inj.1 (Int.ofNat_inj.1 (Except.ok.inj hok))

/-- The string that `char` makes has the bytes it was made of, if and only if they are UTF-8. -/
theorem byte_eq_iff {args : List Value} {bs : List UInt8} {m : Machine} (hm : m.cache.Faithful)
    (h : Denotes args 1 (Utf8.decodeString bs) 1 (-1)) :
    (byte args m).1 = .ok (.many (bs.map fun b => .ofNat b.toNat)) ↔
      bs.toByteArray.IsValidUTF8 := by
  obtain ⟨log, hbyte⟩ := byte_apply hm h
  rw [hbyte, between_all, ← Utf8.bytes_decodeString_eq_iff, Except.ok.injEq, Ret.many.injEq,
    ofNat_toNat_injective.list_map.eq_iff]

/-! ### Arguments that denote no byte -/

/-- A value denotes no byte, for a reason: it is no integer, or it is one that is out of range. -/
inductive DenotesNoByte (v : Value) : Fault → Prop where
  | noInteger {f : Fault} (h : v.checkInteger = .error f) : DenotesNoByte v f
  | outOfRange {n : Int} (h : v.checkInteger = .ok n) (hn : ¬(0 ≤ n ∧ n ≤ 255)) :
      DenotesNoByte v .valueOutOfRange

theorem denotesByte_or_not (v : Value) : (∃ b, DenotesByte v b) ∨ ∃ f, DenotesNoByte v f := by
  rcases hv : v.checkInteger with f | n
  · exact .inr ⟨f, .noInteger hv⟩
  · by_cases hn : 0 ≤ n ∧ n ≤ 255
    · refine .inl ⟨UInt8.ofNat n.toNat, ?_⟩
      rw [DenotesByte, hv, UInt8.toNat_ofNat_of_lt' (show n.toNat < 256 by omega),
        Int.toNat_of_nonneg hn.1]
    · exact .inr ⟨_, .outOfRange hv hn⟩

theorem DenotesNoByte.not_denotesByte {v : Value} {f : Fault} (h : DenotesNoByte v f) (b : UInt8) :
    ¬DenotesByte v b := by
  intro hb
  have hb' : v.checkInteger = .ok (b.toNat : Int) := hb
  have hlt := b.toNat_lt
  cases h with
  | noInteger h =>
      rw [h] at hb'
      exact nomatch hb'
  | outOfRange h hn =>
      rw [h] at hb'
      injection hb' with hb'
      omega

/-- Each of several arguments that denote bytes denotes one. -/
theorem exists_denotesByte {args : List Value} {bs : List UInt8}
    (h : List.Forall₂ DenotesByte args bs) : ∀ v ∈ args, ∃ b, DenotesByte v b := by
  induction h with
  | nil => exact nofun
  | @cons v b _ _ hv _ ih => exact List.forall_mem_cons.2 ⟨⟨b, hv⟩, ih⟩

/-- All arguments denote bytes, or there is a first one that does not. -/
theorem denotesBytes_or_first (args : List Value) :
    (∃ bs, List.Forall₂ DenotesByte args bs) ∨
      ∃ pre bs v f post, args = pre ++ v :: post ∧ List.Forall₂ DenotesByte pre bs ∧
        DenotesNoByte v f := by
  induction args with
  | nil => exact .inl ⟨[], .nil⟩
  | cons v args ih =>
      rcases denotesByte_or_not v with ⟨b, hb⟩ | ⟨f, hf⟩
      · rcases ih with ⟨bs, hbs⟩ | ⟨pre, bs, u, f, post, rfl, hpre, hu⟩
        · exact .inl ⟨b :: bs, .cons hb hbs⟩
        · exact .inr ⟨v :: pre, b :: bs, u, f, post, rfl, .cons hb hpre, hu⟩
      · exact .inr ⟨[], [], v, f, args, rfl, .nil, hf⟩

/-- `char` fails at the first argument that denotes no byte. -/
theorem char_of_denotesNoByte {pre post : List Value} {bs : List UInt8} {v : Value} {f : Fault}
    (hpre : List.Forall₂ DenotesByte pre bs) (hv : DenotesNoByte v f) :
    char (pre ++ v :: post) = Action.fault (.badArgument (pre.length + 1) "char" f) := by
  have hfirst : charBytes (1 + pre.length) (v :: post) =
      .error (.badArgument (1 + pre.length) "char" f) := by
    cases hv with
    | noInteger h => simp only [charBytes, h, atArgument]
    | outOfRange h hn =>
        simp only [charBytes, h, atArgument]
        exact if_neg fun hn' => hn ⟨hn'.1, by omega⟩
  rw [char, charBytes_append hpre, hfirst, Nat.add_comm]
  rfl

theorem message_badArgument_char (position : Nat) (f : Fault) :
    (Fault.badArgument position "char" f).message =
      "bad argument #" ++ position.repr ++ " to 'char' (" ++ f.message ++ ")" := by
  have hword : " to 'char' (" = " to '" ++ "char" ++ "' (" := by decide +kernel
  have hmessage : (Fault.badArgument position "char" f).message =
      "bad argument #" ++ position.repr ++ " to '" ++ "char" ++ "' (" ++ f.message ++ ")" := rfl
  rw [hmessage, hword]
  simp only [String.append_assoc]

/-! ### The round trip -/

/-- **The bytes of a string, and the string of some bytes.**  `char` of the bytes of a string is the
string.  `char` of any bytes is some string, and the bytes of that string are the same if and only
if they are well-formed UTF-8.  If some argument is no integer, or an integer that is no byte, then
`char` fails with an error that can be caught, and it names the first such argument. -/
theorem byte_and_char_roundTrip :
    (∀ s args m, m.cache.Faithful → Denotes args 1 s 1 (-1) →
      ∃ log, (do char (← byte args).toList) m =
        (.ok (.single (.string s)), { m with cache := (m.cache.get s).cache, log })) ∧
    (∀ bs args, List.Forall₂ DenotesByte args bs →
      ∃ t, (∀ m, char args m = (.ok (.single (.string t)), m)) ∧
        ∀ args' m, m.cache.Faithful → Denotes args' 1 t 1 (-1) →
          ((byte args' m).1 = .ok (.many (bs.map fun b => .ofNat b.toNat)) ↔
            bs.toByteArray.IsValidUTF8)) ∧
    ∀ args, (∃ v ∈ args, ∃ f, DenotesNoByte v f) →
      ∃ pre v f post, args = pre ++ v :: post ∧ (∀ u ∈ pre, ∃ b, DenotesByte u b) ∧
        DenotesNoByte v f ∧
        ∀ m, char args m = (.error (.error (.runtime (.string
          ("bad argument #" ++ (pre.length + 1).repr ++ " to 'char' (" ++ f.message ++ ")")))),
          m) := by
  refine ⟨fun s args m hm h => ?_, fun bs args h => ?_, fun args h => ?_⟩
  · obtain ⟨log, hbyte⟩ := byte_apply hm h
    refine ⟨log, ?_⟩
    rw [Action.bind_of_ok _ hbyte, Ret.toList, char_eq (denotesBytes_ofNat _), between_all,
      Utf8.decodeString_bytes]
    rfl
  · refine ⟨Utf8.decodeString bs, fun m => ?_, fun args' m hm h' => byte_eq_iff hm h'⟩
    rw [char_eq h]
    rfl
  · obtain ⟨v, hv, f, hf⟩ := h
    rcases denotesBytes_or_first args with ⟨bs, hbs⟩ | ⟨pre, bs, u, g, post, rfl, hpre, hu⟩
    · obtain ⟨b, hb⟩ := exists_denotesByte hbs v hv
      exact absurd hb (hf.not_denotesByte b)
    · refine ⟨pre, u, g, post, rfl, exists_denotesByte hpre, hu, fun m => ?_⟩
      rw [char_of_denotesNoByte hpre hu, ← message_badArgument_char]
      rfl

/-- A string of two characters, a byte that is no UTF-8, and an argument that is too large for a
byte. -/
theorem roundTrip_of_two_characters :
    (∃ log, (do char (← byte [.string "aé", .ofNat 1, .ofInt (-1)]).toList) {} =
      (.ok (.single (.string "aé")),
        { ({} : Machine) with cache := ((ByteCache.empty 16).get "aé").cache, log })) ∧
    (∃ t, (∀ m, char [.ofNat (0xC3 : UInt8).toNat] m = (.ok (.single (.string t)), m)) ∧
      ¬(byte [.string t, .ofNat 1, .ofInt (-1)] {}).1 = .ok (.many [.ofNat (0xC3 : UInt8).toNat])) ∧
    ∀ m, char [.ofNat 256] m =
      (.error (.error (.runtime (.string "bad argument #1 to 'char' (value out of range)"))),
        m) := by
  have hone : (Binary64.ofNat 1).toInteger? = some 1 := Binary64.toInteger?_ofNat (by decide)
  have hlast : (Binary64.ofInt (-1)).toInteger? = some (-1) := by decide +kernel
  have hwhole : ∀ s, Denotes [.string s, .ofNat 1, .ofInt (-1)] 1 s 1 (-1) := fun s =>
    ⟨rfl, optInteger_number hone 1, optInteger_number hlast 1⟩
  have hempty : (ByteCache.empty 16).Faithful := (ByteCache.sound_empty 16).faithful
  have hlarge : (Value.ofNat 256).checkInteger = .ok 256 :=
    checkInteger_number (Binary64.toInteger?_ofNat (by decide))
  obtain ⟨hback, hmake, hfail⟩ := byte_and_char_roundTrip
  refine ⟨hback "aé" _ {} hempty (hwhole "aé"), ?_, ?_⟩
  · obtain ⟨t, ht, hiff⟩ := hmake [0xC3] _ (denotesBytes_ofNat [0xC3])
    refine ⟨t, ht, fun h => ?_⟩
    have hvalid := (hiff _ {} hempty (hwhole t)).1 h
    rw [← Utf8.bytes_decodeString_eq_iff] at hvalid
    exact absurd hvalid (by decide +kernel)
  · obtain ⟨pre, v, f, post, hargs, -, hv, hchar⟩ :=
      hfail [.ofNat 256] ⟨_, List.mem_singleton.2 rfl, _, .outOfRange hlarge (by decide)⟩
    -- There is only one argument, so it is the first that denotes no byte.
    obtain ⟨rfl, hrest⟩ : pre = [] ∧ v :: post = [.ofNat 256] := by
      rcases List.append_eq_singleton_iff.1 hargs.symm with h | ⟨-, h⟩
      · exact h
      · cases h
    obtain ⟨rfl, -⟩ := List.cons.inj hrest
    cases hv with
    | noInteger h => cases hlarge.symm.trans h
    | outOfRange _ _ => exact hchar

end LuaKernel.Library

import LuaKernel.ByteCache
import Mathlib.Data.Finset.Card
import Mathlib.Data.List.Dedup
import Mathlib.Data.List.DropRight

/-!
# The byte cache holds the strings asked for last

A cache that was asked for the bytes of strings holds those of them that were asked for last, as
many as its capacity allows, in the order in which they were last asked for
(`after_holds_most_recent`).  So what a cache holds is a function of the history of its requests:
the strings asked for without repetition, each at the place of its last request, and of these a
final segment.  Therefore a larger cache always holds what a smaller one does.

One request moves its string to the end and drops the first one if there are too many now
(`keys_get`).  The run follows by induction on the history, taken from its end.
-/

namespace LuaKernel.ByteCache

/-- A request to a cache. -/
inductive Request where
  /-- Asks for the bytes of a string. -/
  | get (s : String)
  /-- Asks whether a string is cached. -/
  | contains (s : String)

/-- The cache after a request. -/
def serve (c : ByteCache) : Request → ByteCache
  | .get s => (c.get s).cache
  | .contains _ => c

/-- The cache after a history of requests, from one without entries. -/
def after (capacity : Nat) (history : List Request) : ByteCache :=
  history.foldl serve (empty capacity)

/-- The string whose bytes a request asks for. -/
def Request.asked? : Request → Option String
  | .get s => some s
  | .contains _ => none

/-- The strings whose bytes a history asks for, the first one first. -/
def asked (history : List Request) : List String := history.filterMap Request.asked?

/-- How many requests for bytes came after the last one for a string. -/
def age (history : List Request) (s : String) : Nat := (asked history).reverse.idxOf s

/-! ### Strings in the order of their last request -/

section

variable {α : Type} [DecidableEq α]

/-- One more element of a list moves to the end, if its repetitions are left out. -/
theorem dedup_concat (l : List α) (a : α) : (l ++ [a]).dedup = l.dedup.erase a ++ [a] := by
  induction l with
  | nil => simp
  | cons b l ih =>
      rw [List.cons_append]
      by_cases hb : b ∈ l
      · rw [List.dedup_cons_of_mem (List.mem_append_left _ hb), List.dedup_cons_of_mem hb, ih]
      · rw [List.dedup_cons_of_notMem hb]
        by_cases hba : b = a
        · subst hba
          have hdedup : b ∉ l.dedup := fun h => hb (List.mem_dedup.1 h)
          rw [List.dedup_cons_of_mem (by simp), ih, List.erase_of_not_mem hdedup,
            List.erase_cons_head]
        · have hconcat : b ∉ l ++ [a] := by simp [hb, hba]
          rw [List.dedup_cons_of_notMem hconcat, ih, List.erase_cons_tail (by simpa using hba),
            List.cons_append]

omit [DecidableEq α] in
/-- The last elements of two lists are those of the second one, if it has enough of them. -/
theorem rtake_append_of_le {l₁ l₂ : List α} {n : Nat} (h : n ≤ l₂.length) :
    (l₁ ++ l₂).rtake n = l₂.rtake n := by
  rw [List.rtake, List.rtake, List.length_append, Nat.add_sub_assoc h, List.drop_append]
  simp

omit [DecidableEq α] in
theorem rtake_of_length_le {l : List α} {n : Nat} (h : l.length ≤ n) : l.rtake n = l := by
  rw [List.rtake, Nat.sub_eq_zero_of_le h, List.drop_zero]

omit [DecidableEq α] in
theorem length_rtake (l : List α) (n : Nat) : (l.rtake n).length = min n l.length := by
  rw [List.rtake, List.length_drop]
  omega

/-- Erasing from the last `n + 1` elements keeps enough to know the last `n` of all the others. -/
theorem rtake_erase_rtake {l : List α} (hl : l.Nodup) (a : α) (n : Nat) :
    ((l.rtake (n + 1)).erase a).rtake n = (l.erase a).rtake n := by
  rcases Nat.lt_or_ge n l.length with hn | hn
  · -- The list is a beginning and its last `n + 1` elements; only one of the two has the element.
    obtain ⟨front, hfront⟩ : ∃ front, front ++ l.rtake (n + 1) = l := ⟨_, List.take_append_drop _ l⟩
    have hlen : (l.rtake (n + 1)).length = n + 1 := by rw [length_rtake, Nat.min_eq_left hn]
    generalize l.rtake (n + 1) = back at hfront hlen ⊢
    subst hfront
    by_cases ha : a ∈ front
    · have hback : a ∉ back := fun h => (List.nodup_append.1 hl).2.2 a ha a h rfl
      rw [List.erase_of_not_mem hback, List.erase_append_left _ ha, rtake_append_of_le (by omega)]
    · have hle : n ≤ (back.erase a).length := by
        rw [← Nat.add_sub_cancel (n := n) (m := 1), ← hlen]
        exact List.le_length_erase
      rw [List.erase_append_right _ ha, rtake_append_of_le hle]
  · rw [rtake_of_length_le (Nat.le_succ_of_le hn)]

end

/-! ### One request -/

section

variable {c : ByteCache} {s : String}

/-- Every string is cached with its own bytes. -/
def Faithful (c : ByteCache) : Prop :=
  ∀ s bytes, c.entries.get? s = some bytes → bytes = Utf8.bytes s

/-- A cache with the bytes of its strings, and with no more of them than its capacity. -/
structure Sound (c : ByteCache) : Prop where
  faithful : c.Faithful
  size_le : c.size ≤ c.capacity

theorem sound_empty (capacity : Nat) : (empty capacity).Sound :=
  ⟨nofun, Nat.zero_le _⟩

/-- The keys of a cache are as many as its entries. -/
theorem length_keys (c : ByteCache) : c.keys.length = c.size := List.length_map _

/-- A cache contains a string if it is one of its keys. -/
theorem contains_iff : c.contains s = true ↔ s ∈ c.keys := by
  rw [contains, Assoc.contains, Option.isSome_iff_exists]
  exact (Assoc.mem_keys_iff c.entries s).symm

/-- The entries once a string was made the most recent one, before one is dropped. -/
def refreshed (c : ByteCache) (s : String) : Assoc String (List UInt8) :=
  c.entries.insert s (Utf8.bytes s)

/-- When a string is refreshed, it comes behind all others. -/
theorem keys_refreshed (c : ByteCache) (s : String) :
    (c.refreshed s).keys = c.keys.erase s ++ [s] := by
  have h := Assoc.keys_erase c.entries s
  simp only [refreshed, Assoc.insert, Assoc.keys, List.map_append, List.map_cons, List.map_nil]
  exact congrArg (· ++ [s]) h

theorem size_refreshed (c : ByteCache) (s : String) :
    (c.refreshed s).size = (c.keys.erase s ++ [s]).length := by
  rw [← keys_refreshed]
  exact (List.length_map _).symm

/-- To refresh a string makes at most one entry more. -/
theorem size_refreshed_le (c : ByteCache) (s : String) : (c.refreshed s).size ≤ c.size + 1 :=
  Assoc.size_insert_le c.entries s _

/-- **A request does one of two things.**  A string gets its own bytes, whether it was cached or
not, and becomes the most recent one; where there are too many strings then, the first one is
dropped. -/
theorem Faithful.get_cases (h : c.Faithful) (s : String) :
    ((c.refreshed s).size ≤ c.capacity ∧
      c.get s = ⟨Utf8.bytes s, { c with entries := c.refreshed s }, none⟩) ∨
    (c.capacity < (c.refreshed s).size ∧
      c.get s = ⟨Utf8.bytes s, { c with entries := (c.refreshed s).dropFirst },
        (c.refreshed s).keys.head?⟩) := by
  have hbytes : (c.entries.get? s).getD (Utf8.bytes s) = Utf8.bytes s := by
    cases hs : c.entries.get? s with
    | none => rfl
    | some bytes => exact h s bytes hs
  simp only [get, hbytes]
  rcases Nat.lt_or_ge c.capacity (c.refreshed s).size with hlt | hge
  · exact .inr ⟨hlt, if_pos hlt⟩
  · exact .inl ⟨hge, if_neg (Nat.not_lt.2 hge)⟩

/-- A faithful cache gives the bytes of the string that it is asked for. -/
theorem Faithful.bytes_get (h : c.Faithful) (s : String) : (c.get s).bytes = Utf8.bytes s := by
  obtain ⟨-, heq⟩ | ⟨-, heq⟩ := h.get_cases s <;> rw [heq]

/-- No request changes the capacity. -/
theorem Faithful.capacity_get (h : c.Faithful) (s : String) :
    (c.get s).cache.capacity = c.capacity := by
  obtain ⟨-, heq⟩ | ⟨-, heq⟩ := h.get_cases s <;> rw [heq]

/-- A cache stays faithful when a string of it is refreshed. -/
theorem Faithful.refreshed (h : c.Faithful) (s : String) :
    Faithful { c with entries := c.refreshed s } := by
  intro t bytes ht
  rw [ByteCache.refreshed, Assoc.get?_insert] at ht
  split at ht
  · next hts =>
      cases ht
      rw [hts]
  · exact h t bytes ht

/-- A cache stays faithful when it is asked for a string, and drops one. -/
theorem Faithful.get (h : c.Faithful) (s : String) : (c.get s).cache.Faithful := by
  obtain ⟨-, heq⟩ | ⟨-, heq⟩ := h.get_cases s
  · rw [heq]
    exact h.refreshed s
  · rw [heq]
    exact fun t bytes ht => h.refreshed s t bytes (Assoc.get?_of_get?_dropFirst ht)

/-- **What one request does to the strings.**  The string asked for moves to the end, and of all of
them the last ones stay. -/
theorem Sound.keys_get (h : c.Sound) (s : String) :
    (c.get s).cache.keys = (c.keys.erase s ++ [s]).rtake c.capacity := by
  have hlen := size_refreshed c s
  obtain ⟨hle, heq⟩ | ⟨hlt, heq⟩ := h.faithful.get_cases s
  · rw [heq, rtake_of_length_le (hlen ▸ hle)]
    exact keys_refreshed c s
  · -- There is just one string too many, so dropping the first leaves the last ones.
    have hone : (c.keys.erase s ++ [s]).length - c.capacity = 1 := by
      have := size_refreshed_le c s
      have := h.size_le
      omega
    rw [heq, List.rtake, hone, List.drop_one, ← keys_refreshed]
    exact List.map_tail

/-- Exactly the dropped string is no longer there after a request. -/
theorem Faithful.not_mem_keys_get_iff (h : c.Faithful) {k : String} (hk : k ∈ c.keys ∨ k = s) :
    k ∉ (c.get s).cache.keys ↔ (c.get s).dropped = some k := by
  have hmem : k ∈ (c.refreshed s).keys := by
    rw [keys_refreshed]
    by_cases hks : k = s
    · simp [hks]
    · exact List.mem_append_left _ ((List.mem_erase_of_ne hks).2 (hk.resolve_right hks))
  obtain ⟨-, heq⟩ | ⟨-, heq⟩ := h.get_cases s
  · rw [heq]
    exact ⟨fun hnot => absurd hmem hnot, nofun⟩
  · have hkeys : (c.get s).cache.keys = (c.refreshed s).keys.tail := by
      rw [heq]
      exact List.map_tail
    rw [hkeys, heq]
    have hnodup : (c.refreshed s).keys.Nodup := (c.refreshed s).nodup
    obtain ⟨first, rest, hcons⟩ := List.exists_cons_of_ne_nil (List.ne_nil_of_mem hmem)
    rw [hcons] at hmem hnodup ⊢
    obtain ⟨hfirst, -⟩ := List.nodup_cons.1 hnodup
    constructor
    · intro hnot
      exact congrArg some ((List.mem_cons.1 hmem).resolve_right hnot).symm
    · intro hhead
      obtain rfl := Option.some.inj hhead
      exact hfirst

/-- A string is dropped just when the one asked for was not there and the cache was full. -/
theorem Sound.dropped_eq_some_iff (h : c.Sound) {k : String} :
    (c.get s).dropped = some k ↔
      s ∉ c.keys ∧ c.size = c.capacity ∧ (c.keys ++ [s]).head? = some k := by
  have hsize : (c.refreshed s).size = (c.keys.erase s).length + 1 := by
    rw [size_refreshed, List.length_append, List.length_singleton]
  have hle := h.size_le
  by_cases hs : s ∈ c.keys
  · -- The string moves, and there are as many as before.
    have hroom : (c.refreshed s).size ≤ c.capacity := by
      rw [hsize, List.length_erase_of_mem hs, Nat.sub_add_cancel (List.length_pos_of_mem hs),
        length_keys]
      exact hle
    obtain ⟨-, heq⟩ | ⟨hlt, -⟩ := h.faithful.get_cases s
    · rw [heq]
      exact ⟨nofun, fun hmiss => absurd hs hmiss.1⟩
    · exact absurd hroom (Nat.not_le.2 hlt)
  · rw [List.erase_of_not_mem hs, length_keys] at hsize
    have hkeys := keys_refreshed c s
    rw [List.erase_of_not_mem hs] at hkeys
    obtain ⟨hroom, heq⟩ | ⟨hlt, heq⟩ := h.faithful.get_cases s
    · rw [heq]
      refine ⟨nofun, fun hmiss => ?_⟩
      rw [hsize, hmiss.2.1] at hroom
      exact absurd hroom (Nat.not_succ_le_self _)
    · have hfull : c.size = c.capacity :=
        Nat.le_antisymm hle (Nat.le_of_lt_succ (hlt.trans_eq hsize))
      rw [heq, hkeys]
      exact ⟨fun hhead => ⟨hs, hfull, hhead⟩, fun hmiss => hmiss.2.2⟩

/-- A sound cache stays sound: what is too much when a string is put in is dropped. -/
theorem Sound.get (h : c.Sound) (s : String) : (c.get s).cache.Sound where
  faithful := h.faithful.get s
  size_le := by
    rw [h.faithful.capacity_get, ← length_keys, h.keys_get, length_rtake]
    exact Nat.min_le_left _ _

end

/-! ### Histories of requests -/

section

variable {capacity : Nat} {history : List Request} {s : String}

theorem after_concat (capacity : Nat) (history : List Request) (r : Request) :
    after capacity (history ++ [r]) = (after capacity history).serve r := List.foldl_concat _ _ _ _

theorem asked_concat_get (history : List Request) (s : String) :
    asked (history ++ [.get s]) = asked history ++ [s] := List.filterMap_append

/-- To ask whether a string is contained is not to ask for its bytes. -/
theorem asked_concat_contains (history : List Request) (s : String) :
    asked (history ++ [.contains s]) = asked history := by
  rw [asked, List.filterMap_append]
  exact List.append_nil _

/-- After any requests a cache is sound, and has the capacity that it began with. -/
theorem sound_after (capacity : Nat) (history : List Request) :
    (after capacity history).Sound ∧ (after capacity history).capacity = capacity := by
  induction history using List.reverseRecOn with
  | nil => exact ⟨sound_empty capacity, rfl⟩
  | append_singleton history r ih =>
      obtain ⟨hsound, hcapacity⟩ := ih
      rw [after_concat]
      cases r with
      | get s => exact ⟨hsound.get s, (hsound.faithful.capacity_get s).trans hcapacity⟩
      | contains s => exact ⟨hsound, hcapacity⟩

/-- **What a history leaves in the cache**: the last of the strings asked for, each counted where it
was asked for last. -/
theorem keys_after (capacity : Nat) (history : List Request) :
    (after capacity history).keys = (asked history).dedup.rtake capacity := by
  induction history using List.reverseRecOn with
  | nil => simp [after, asked, empty, keys, Assoc.empty, Assoc.keys]
  | append_singleton history r ih =>
      obtain ⟨hsound, hcapacity⟩ := sound_after capacity history
      rw [after_concat]
      cases r with
      | get s =>
          rw [asked_concat_get, dedup_concat, serve, hsound.keys_get, hcapacity, ih]
          cases capacity with
          | zero => simp only [List.rtake_zero]
          | succ n =>
              rw [List.rtake_concat_succ, List.rtake_concat_succ,
                rtake_erase_rtake (List.nodup_dedup _)]
      | contains s => rw [asked_concat_contains, serve, ih]

/-- Strings without repetition stand in the order of their last request. -/
theorem pairwise_age (history : List Request) :
    (asked history).dedup.Pairwise fun s t => age history t < age history s := by
  simp only [age]
  induction asked history using List.reverseRecOn with
  | nil => simp
  | append_singleton l a ih =>
      have hage : ∀ s, s ≠ a → (l ++ [a]).reverse.idxOf s = l.reverse.idxOf s + 1 := by
        intro s hs
        rw [List.reverse_concat, List.idxOf_cons_ne _ (Ne.symm hs)]
      have hlast : (l ++ [a]).reverse.idxOf a = 0 := by
        rw [List.reverse_concat, List.idxOf_cons_self]
      rw [dedup_concat, List.pairwise_append]
      have hne : ∀ {s}, s ∈ l.dedup.erase a → s ≠ a := fun hs =>
        ((List.nodup_dedup l).mem_erase_iff.1 hs).1
      refine ⟨?_, List.pairwise_singleton _ _, ?_⟩
      · refine (ih.sublist List.erase_sublist).imp_of_mem fun hs ht hlt => ?_
        rw [hage _ (hne hs), hage _ (hne ht)]
        exact Nat.succ_lt_succ hlt
      · intro s hs t ht
        obtain rfl := List.mem_singleton.1 ht
        rw [hage s (hne hs), hlast]
        exact Nat.succ_pos _

/-- A larger cache holds what a smaller one does. -/
theorem keys_after_subset (capacity : Nat) (history : List Request) :
    (after capacity history).keys ⊆ (after (capacity + 1) history).keys := by
  rw [keys_after, keys_after]
  exact List.drop_subset_drop_left _ (Nat.sub_le_sub_left (Nat.le_succ capacity) _)

end

/-- **The byte cache holds the strings asked for last.**  After any history of requests the cached
strings are the last of the strings asked for, without repetition and in the order of their last
request, as many as there are and the capacity allows.  Every request for bytes gives the bytes of
its string.  Asking whether a string is cached says just that, and changes nothing.  A string that
is there before a request and not afterwards was dropped by a request for the bytes of a string that
was not there while the cache was full; with no capacity at all, every request drops its own string.
And a larger cache holds what a smaller one does. -/
theorem after_holds_most_recent (capacity : Nat) (history : List Request) :
    (after capacity history).keys = (asked history).dedup.rtake capacity ∧
    (after capacity history).keys.Nodup ∧
    (after capacity history).keys.Pairwise (fun s t => age history t < age history s) ∧
    (after capacity history).size = min capacity (asked history).toFinset.card ∧
    (∀ s, ((after capacity history).get s).bytes = Utf8.bytes s) ∧
    (∀ s, after capacity (history ++ [.contains s]) = after capacity history ∧
      ((after capacity history).contains s = true ↔ s ∈ (after capacity history).keys)) ∧
    (∀ r k, k ∈ (after capacity history).keys → k ∉ (after capacity (history ++ [r])).keys →
      ∃ s, r = .get s ∧ s ∉ (after capacity history).keys ∧
        (after capacity history).size = capacity ∧
        ((after capacity history).get s).dropped = some k) ∧
    (capacity = 0 → ∀ s, ((after capacity history).get s).dropped = some s) ∧
    (after capacity history).keys ⊆ (after (capacity + 1) history).keys := by
  obtain ⟨hsound, hcapacity⟩ := sound_after capacity history
  have hkeys := keys_after capacity history
  have hsize : (after capacity history).size = min capacity (asked history).toFinset.card := by
    rw [← length_keys, hkeys, length_rtake, List.card_toFinset]
  refine ⟨hkeys, (after capacity history).entries.nodup, ?_, hsize, hsound.faithful.bytes_get, ?_,
    ?_, ?_, keys_after_subset capacity history⟩
  · rw [hkeys]
    exact (pairwise_age history).sublist (List.drop_sublist _ _)
  · intro s
    exact ⟨after_concat capacity history (.contains s), contains_iff⟩
  · intro r k hk hnot
    rw [after_concat] at hnot
    cases r with
    | contains s => exact absurd hk hnot
    | get s =>
        have hdropped := (hsound.faithful.not_mem_keys_get_iff (.inl hk)).1 hnot
        obtain ⟨hmiss, hfull, -⟩ := hsound.dropped_eq_some_iff.1 hdropped
        exact ⟨s, rfl, hmiss, hfull.trans hcapacity, hdropped⟩
  · rintro rfl s
    rw [Nat.zero_min] at hsize
    have hnil : (after 0 history).keys = [] :=
      List.length_eq_zero_iff.1 ((length_keys _).trans hsize)
    rw [hsound.dropped_eq_some_iff, hnil]
    exact ⟨List.not_mem_nil, hsize.trans hcapacity.symm, rfl⟩

/-- A history in which a string is asked for once more before the cache is full. -/
def refreshing : List Request := [.get "a", .get "b", .contains "b", .get "a"]

/-- The string that is asked for again comes behind the other one, which is dropped in its place. -/
theorem refreshing_drops_the_other :
    (after 2 refreshing).keys = ["b", "a"] ∧
    "b" ∈ (after 2 refreshing).keys ∧ "b" ∉ (after 2 (refreshing ++ [.get "c"])).keys ∧
    ∃ s, Request.get "c" = .get s ∧ ((after 2 refreshing).get s).dropped = some "b" := by
  have hbefore : "b" ∈ (after 2 refreshing).keys := by decide
  have hafter : "b" ∉ (after 2 (refreshing ++ [.get "c"])).keys := by decide
  obtain ⟨hkeys, -, -, -, -, -, hevicted, -⟩ := after_holds_most_recent 2 refreshing
  obtain ⟨s, hs, -, -, hdropped⟩ := hevicted (.get "c") "b" hbefore hafter
  exact ⟨by rw [hkeys]; decide, hbefore, hafter, s, hs, hdropped⟩

end LuaKernel.ByteCache

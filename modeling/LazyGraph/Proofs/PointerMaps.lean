import LazyGraph.PointerMap
import Mathlib.Data.Nat.Bitwise

/-!
# Pointer maps

A pointer map is a size with a row of bits. The map built from a list of slots answers with that
list, and a map is the one built from its own answers if it has the words that its size needs, and
no bit set past its size.
-/

namespace LazyGraph

namespace PointerMap

/-- The bit at a position of the words, counted through all of them. -/
def bit (m : PointerMap) (position : Nat) : Bool :=
  (m.words[position / 32]?).any fun word => word.toNat.testBit (position % 32)

theorem isPointer_eq (m : PointerMap) (slot : Nat) :
    m.isPointer slot = (decide (slot < m.size) && m.bit slot) :=
  rfl

theorem testBit_pack (bits : List Bool) (b : Nat) :
    (pack bits).toNat.testBit b = (decide (b < 32) && bits.getD b false) := by
  induction bits generalizing b with
  | nil => simp [pack]
  | cons bit bits ih =>
    have word : (pack (bit :: bits)).toNat =
        (pack bits).toNat <<< 1 % 2 ^ 32 ||| if bit then 1 else 0 := by
      cases bit <;> simp [pack]
    rw [word, Nat.testBit_or, Nat.testBit_mod_two_pow, Nat.testBit_shiftLeft, ih]
    cases b with
    | zero => cases bit <;> simp
    | succ b =>
      have first : (if bit then 1 else 0 : Nat).testBit (b + 1) = false := by
        cases bit <;> simp [Nat.testBit_succ]
      rw [first]
      by_cases inside : b + 1 < 32
      · simp [inside, Nat.lt_of_succ_lt inside]
      · simp [inside]

theorem length_words_ofSlots (slots : List Bool) :
    (ofSlots slots).words.length = (slots.length + 31) / 32 := by
  simp [ofSlots]

theorem bit_ofSlots (slots : List Bool) (position : Nat) :
    (ofSlots slots).bit position = slots.getD position false := by
  have small : position % 32 < 32 := Nat.mod_lt _ (by decide)
  have split : 32 * (position / 32) + position % 32 = position := Nat.div_add_mod _ _
  by_cases inside : position / 32 < (slots.length + 31) / 32
  · have word : (ofSlots slots).words[position / 32]? =
        some (pack ((slots.drop (32 * (position / 32))).take 32)) := by
      simp [ofSlots, inside]
    rw [bit, word, Option.any_some, testBit_pack]
    simp [small, split]
  · have none : (ofSlots slots).words[position / 32]? = none := by
      rw [List.getElem?_eq_none_iff, length_words_ofSlots]
      exact Nat.le_of_not_lt inside
    have past : slots.length ≤ position := by omega
    simp [bit, none, past]

/-- The words and their bits are all that there is to a map of a given size. -/
theorem eq_of_bits {m m' : PointerMap} (size : m.size = m'.size)
    (length : m.words.length = m'.words.length) (bits : ∀ position, m.bit position = m'.bit position) :
    m = m' := by
  obtain ⟨size₁, words⟩ := m
  obtain ⟨size₂, words'⟩ := m'
  obtain rfl : size₁ = size₂ := size
  suffices words = words' by rw [this]
  refine List.ext_getElem length fun w left right => ?_
  refine UInt32.toNat_inj.1 (Nat.eq_of_testBit_eq fun b => ?_)
  by_cases small : b < 32
  · have here := bits (32 * w + b)
    have word : (32 * w + b) / 32 = w := by omega
    have place : (32 * w + b) % 32 = b := by omega
    simpa [bit, word, place, left, right] using here
  · have large : 2 ^ 32 ≤ 2 ^ b := Nat.pow_le_pow_right (by decide) (Nat.le_of_not_lt small)
    have past : ∀ word : UInt32, word.toNat.testBit b = false := fun word =>
      Nat.testBit_lt_two_pow (Nat.lt_of_lt_of_le word.toNat_lt large)
    rw [past, past]

theorem getD_slots (m : PointerMap) (n position : Nat) :
    (m.slots n).getD position false = (decide (position < n) && m.isPointer position) := by
  by_cases inside : position < n
  · simp [slots, inside]
  · simp [slots, inside]

theorem isPointer_ofSlots_iff (slots : List Bool) (slot : Nat) :
    (ofSlots slots).isPointer slot = true ↔ slots[slot]? = some true := by
  rw [isPointer_eq, bit_ofSlots, show (ofSlots slots).size = slots.length from rfl]
  by_cases inside : slot < slots.length
  · simp [inside]
  · simp [inside]

theorem ofSlots_slots_iff (m : PointerMap) :
    ofSlots (m.slots m.size) = m ↔
      m.words.length = (m.size + 31) / 32 ∧
        ∀ position, m.size ≤ position → m.bit position = false := by
  have size : (ofSlots (m.slots m.size)).size = m.size := by simp [ofSlots, slots]
  have bits : ∀ position, (ofSlots (m.slots m.size)).bit position =
      (decide (position < m.size) && m.bit position) := by
    intro position
    rw [bit_ofSlots, getD_slots, isPointer_eq, ← Bool.and_assoc, Bool.and_self]
  have length : (ofSlots (m.slots m.size)).words.length = (m.size + 31) / 32 := by
    rw [length_words_ofSlots, show (m.slots m.size).length = m.size by simp [slots]]
  constructor
  · intro same
    refine ⟨by rw [← length, same], fun position past => ?_⟩
    rw [← same, bits, decide_eq_false (Nat.not_lt.2 past), Bool.false_and]
  · rintro ⟨words, clear⟩
    refine eq_of_bits size (length.trans words.symm) fun position => ?_
    rw [bits]
    by_cases inside : position < m.size
    · simp [inside]
    · simp [inside, clear position (Nat.le_of_not_lt inside)]

/-- Slots that are packed into a map are read back as they were, each position past them as no
pointer. A map with any words at all is the one packed from its own answers exactly when it has as
many words as its size takes and all bits past its size are clear. -/
theorem round_trip :
    (∀ (slots : List Bool) (slot : Nat),
      (ofSlots slots).isPointer slot = true ↔ slots[slot]? = some true) ∧
    ∀ m : PointerMap, ofSlots (m.slots m.size) = m ↔
      m.words.length = (m.size + 31) / 32 ∧
        ∀ position, m.size ≤ position → m.bit position = false :=
  ⟨isPointer_ofSlots_iff, ofSlots_slots_iff⟩

example : ofSlots ((PointerMap.mk 33 [5, 3]).slots 33) ≠ PointerMap.mk 33 [5, 3] := by decide

end PointerMap

end LazyGraph

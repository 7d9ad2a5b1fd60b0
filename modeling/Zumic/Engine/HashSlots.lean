/- What the slot of a key is (`slot_manager.rs`): the checksum of its tag or of the whole key. -/

import Zumic.Engine.Balancing
import Zumic.Lib.Crc

namespace Zumic.Engine.SlotManager

open Lib Lib.ByteString Lib.Utf8

/-- CRC-16/XMODEM -/
def xmodem : Bytes → UInt16 := Crc16.checksum 0x1021

theorem length_crc16Tab : crc16Tab.length = 256 := by decide +kernel

theorem words : ∀ i : Fin 256,
    crc16Tab.getD i.val 0 = Crc16.tableWord 0x1021 (UInt16.ofNat i.val) := by decide +kernel

theorem crc16_index_lt (crc : UInt16) (byte : UInt8) :
    ((crc >>> 8) ^^^ byte.toUInt16).toNat < crc16Tab.length := by
  rw [length_crc16Tab]
  exact Crc16.index_lt crc byte

theorem crc16_eq_xmodem (data : Bytes) : crc16 data = xmodem data := by
  have turn : (fun (crc : UInt16) (byte : UInt8) =>
      (crc <<< 8) ^^^ crc16Tab.getD ((crc >>> 8) ^^^ byte.toUInt16).toNat 0) =
        Crc16.step 0x1021 := by
    funext crc byte
    have word := words ⟨_, Crc16.index_lt crc byte⟩
    dsimp only at word
    rw [UInt16.ofNat_toNat] at word
    rw [Crc16.step_eq, word]
  rw [crc16, turn]
  rfl

/-- The text between the first `{` and the first `}` behind it. -/
structure Tagged (key tag : Bytes) : Prop where
  some' : tag ≠ []
  between : ∃ front rest, key = front ++ 123 :: (tag ++ 125 :: rest) ∧ 123 ∉ front ∧ 125 ∉ tag

section

theorem idxOf?_append {a : UInt8} {front : Bytes} (absent : a ∉ front) (rest : Bytes) :
    (front ++ a :: rest).idxOf? a = some front.length := by
  induction front with
  | nil => simp [List.idxOf?_cons]
  | cons b front ih =>
      rw [List.mem_cons, not_or] at absent
      rw [List.cons_append, List.idxOf?_cons, ih absent.2]
      simp [Ne.symm absent.1]

theorem split_of_idxOf? {a : UInt8} {l : Bytes} {i : Nat} (found : l.idxOf? a = some i) :
    i < l.length ∧ l = l.take i ++ a :: l.drop (i + 1) ∧ a ∉ l.take i := by
  obtain ⟨inRange, here, before⟩ := List.idxOf?_eq_some_iff.mp found
  refine ⟨inRange, ?_, fun early => ?_⟩
  · rw [← here, List.getElem_cons_drop, List.take_append_drop]
  · obtain ⟨j, bound, there⟩ := List.getElem_of_mem early
    rw [List.length_take] at bound
    rw [List.getElem_take] at there
    exact before j (by omega) there

variable {key tag : Bytes}

theorem hashKey_of_tagged (tagged : Tagged key tag) : hashKey key = tag := by
  obtain ⟨front, rest, rfl, outside, inside⟩ := tagged.between
  have behind : (front ++ 123 :: (tag ++ 125 :: rest)).drop (front.length + 1) =
      tag ++ 125 :: rest := by
    rw [List.drop_append]
    simp
  have long : tag.length ≠ 0 := fun none' => tagged.some' (List.length_eq_zero_iff.mp none')
  rw [hashKey, idxOf?_append outside]
  dsimp only
  rw [behind, idxOf?_append inside]
  dsimp only
  rw [if_neg long, List.take_left]

theorem hashKey_of_not_tagged (untagged : ¬ ∃ tag, Tagged key tag) : hashKey key = key := by
  rw [hashKey]
  cases opened : key.idxOf? 123 with
  | none => rfl
  | some start =>
      dsimp only
      cases closed : (key.drop (start + 1)).idxOf? 125 with
      | none => rfl
      | some stop =>
          dsimp only
          by_cases nothing : stop = 0
          · rw [if_pos nothing]
          · obtain ⟨_, parts, outside⟩ := split_of_idxOf? opened
            obtain ⟨inRange, parts', inside⟩ := split_of_idxOf? closed
            have long : ((key.drop (start + 1)).take stop).length = stop := by
              rw [List.length_take]
              omega
            refine absurd ⟨(key.drop (start + 1)).take stop, fun none' => ?_,
              key.take start, (key.drop (start + 1)).drop (stop + 1), ?_, outside, inside⟩ untagged
            · rw [none'] at long
              exact nothing long.symm
            · rw [← parts']
              exact parts

end

/-- The table gives the checksum taken bit by bit, and what is hashed is the tag where the key has
one, so that keys of one tag share their slot. -/
theorem calculateSlot_spec :
    (∀ data : Bytes, crc16 data = xmodem data) ∧
    (∀ (crc : UInt16) (byte : UInt8),
      ((crc >>> 8) ^^^ byte.toUInt16).toNat < crc16Tab.length) ∧
    (∀ (key : Str) (tag : Bytes), Tagged key.bytes tag →
      calculateSlot key = xmodem tag % UInt16.ofNat totalSlots) ∧
    (∀ key : Str, (¬ ∃ tag, Tagged key.bytes tag) →
      calculateSlot key = xmodem key.bytes % UInt16.ofNat totalSlots) ∧
    (∀ (key other : Str) (tag : Bytes), Tagged key.bytes tag → Tagged other.bytes tag →
      calculateSlot key = calculateSlot other) ∧
    ∀ key : Str, (calculateSlot key).toNat < 16384 := by
  have tagSlot : ∀ (key : Str) (tag : Bytes), Tagged key.bytes tag →
      calculateSlot key = xmodem tag % UInt16.ofNat totalSlots := by
    intro key tag tagged
    rw [calculateSlot, hashKey_of_tagged tagged, crc16_eq_xmodem]
  refine ⟨crc16_eq_xmodem, crc16_index_lt, tagSlot, ?_, ?_, calculateSlot_lt⟩
  · intro key untagged
    rw [calculateSlot, hashKey_of_not_tagged untagged, crc16_eq_xmodem]
  · intro key other tag tagged tagged'
    exact (tagSlot key tag tagged).trans (tagSlot other tag tagged').symm

/-- `{ab}` and `x{ab}y` -/
theorem calculateSlot_spec_ab :
    calculateSlot (.lit "\x7bab\x7d") = calculateSlot (.lit "x\x7bab\x7dy") :=
  calculateSlot_spec.2.2.2.2.1 _ _ [97, 98]
    ⟨by decide, [], [], by decide +kernel, by decide, by decide⟩
    ⟨by decide, [120], [121], by decide +kernel, by decide, by decide⟩

end Zumic.Engine.SlotManager

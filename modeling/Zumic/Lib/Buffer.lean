/- Buffers whose accesses are checked: an index or a range outside of them stops the program. -/

import Mathlib.Algebra.Ring.Nat
import Mathlib.Data.List.Basic

namespace Zumic.Lib.Buffer

/-- What can stop a program: an access out of bounds, a subtraction below zero, a loop without
end, an allocation of more bytes than a signed word counts. -/
inductive Fault where
  | outOfBounds
  | underflow
  | endless
  | capacityOverflow
  deriving DecidableEq

variable {α : Type}

/-- One allocation can hold `n` items of a size. -/
def Fits (size n : Nat) : Prop := n * size ≤ 2 ^ 63 - 1

instance (size n : Nat) : Decidable (Fits size n) := inferInstanceAs (Decidable (_ ≤ _))

/-- An empty buffer with room for `n` items. -/
def allocate (size n : Nat) : Except Fault (List α) :=
  if Fits size n then .ok [] else .error .capacityOverflow

def sub (a b : Nat) : Except Fault Nat := if b ≤ a then .ok (a - b) else .error .underflow

def index (data : List α) (i : Nat) : Except Fault α :=
  match data[i]? with
  | some x => .ok x
  | none => .error .outOfBounds

/-- The items from `lo` up to `hi`. -/
def slice (data : List α) (lo hi : Nat) : Except Fault (List α) :=
  if lo ≤ hi ∧ hi ≤ data.length then .ok ((data.drop lo).take (hi - lo)) else .error .outOfBounds

/-- The items from `lo` on. -/
def sliceFrom (data : List α) (lo : Nat) : Except Fault (List α) :=
  if lo ≤ data.length then .ok (data.drop lo) else .error .outOfBounds

/-- Copies items into the buffer. -/
def write (data : List α) (place : Nat) (items : List α) : Except Fault (List α) :=
  if place + items.length ≤ data.length then
    .ok (data.take place ++ items ++ data.drop (place + items.length))
  else .error .outOfBounds

/-- Moves a range to another place; the two may overlap. -/
def copyWithin (data : List α) (lo hi place : Nat) : Except Fault (List α) := do
  let items ← slice data lo hi
  write data place items

theorem ok_bind {ε β γ : Type} (a : β) (f : β → Except ε γ) :
    ((Except.ok a : Except ε β) >>= f) = f a := rfl

theorem bind_of_ok {β γ : Type} {x : Except Fault β} {a : β} (done : x = .ok a)
    (f : β → Except Fault γ) : (x >>= f) = f a := by
  rw [done]
  rfl

theorem bind_eq_ok {ε β γ : Type} {x : Except ε β} {f : β → Except ε γ} {c : γ}
    (done : (x >>= f) = .ok c) : ∃ b, x = .ok b ∧ f b = .ok c := by
  cases x with
  | error e => cases done
  | ok b => exact ⟨b, rfl, done⟩

theorem map_eq_ok {β γ : Type} {x : Except Fault β} {f : β → γ} {c : γ}
    (done : x.map f = .ok c) : ∃ b, x = .ok b ∧ f b = c := by
  cases x with
  | error e => cases done
  | ok b => exact ⟨b, rfl, Except.ok.inj done⟩

theorem allocate_of_fits {size n : Nat} (fits : Fits size n) :
    (allocate size n : Except Fault (List α)) = .ok [] := if_pos fits

theorem sub_of_le {a b : Nat} (enough : b ≤ a) : sub a b = .ok (a - b) := if_pos enough

theorem write_of_le {data items : List α} {place : Nat}
    (inside : place + items.length ≤ data.length) :
    write data place items = .ok (data.take place ++ items ++ data.drop (place + items.length)) :=
  if_pos inside

theorem write_eq_ok {data data' items : List α} {place : Nat}
    (done : write data place items = .ok data') : place + items.length ≤ data.length ∧
      data' = data.take place ++ items ++ data.drop (place + items.length) := by
  rw [write] at done
  split at done
  · rename_i inside
    exact ⟨inside, (Except.ok.inj done).symm⟩
  · cases done

theorem sub_eq_ok {a b c : Nat} (done : sub a b = .ok c) : b ≤ a ∧ c = a - b := by
  rw [sub] at done
  split at done
  · rename_i enough
    exact ⟨enough, (Except.ok.inj done).symm⟩
  · cases done

theorem slice_middle {front items back : List α} {lo hi : Nat} (low : lo = front.length)
    (high : hi = lo + items.length) : slice (front ++ items ++ back) lo hi = .ok items := by
  subst low high
  have within : front.length ≤ front.length + items.length ∧
      front.length + items.length ≤ (front ++ items ++ back).length := by
    simp only [List.length_append]
    omega
  rw [slice, if_pos within, List.append_assoc, List.drop_left, Nat.add_sub_cancel_left,
    List.take_left]

theorem sliceFrom_right {front rest : List α} {lo : Nat} (low : lo = front.length) :
    sliceFrom (front ++ rest) lo = .ok rest := by
  subst low
  have within : front.length ≤ (front ++ rest).length := by
    rw [List.length_append]
    omega
  rw [sliceFrom, if_pos within, List.drop_left]

theorem length_of_slice {data items : List α} {lo hi : Nat} (read : slice data lo hi = .ok items) :
    items.length = hi - lo := by
  rw [slice] at read
  split at read
  · obtain rfl := Except.ok.inj read
    rw [List.length_take, List.length_drop]
    omega
  · cases read

theorem write_middle {front old items back : List α} {place : Nat} (low : place = front.length)
    (sized : old.length = items.length) :
    write (front ++ old ++ back) place items = .ok (front ++ items ++ back) := by
  subst low
  have within : front.length + items.length ≤ (front ++ old ++ back).length := by
    simp only [List.length_append]
    omega
  have kept : (front ++ old ++ back).drop (front.length + items.length) = back := by
    rw [← sized, ← List.length_append, List.drop_left]
  rw [write_of_le within, kept, List.append_assoc front old, List.take_left]

theorem write_then (front a b back : List α) {old old' : List α} {place next : Nat}
    (low : place = front.length) (follows : next = place + a.length) (sized : old.length = a.length)
    (sized' : old'.length = b.length) :
    write (front ++ (old ++ old') ++ back) place a = .ok (front ++ a ++ (old' ++ back)) ∧
      write (front ++ a ++ (old' ++ back)) next b = .ok (front ++ (a ++ b) ++ back) := by
  constructor
  · rw [← List.append_assoc front, List.append_assoc (front ++ old)]
    exact write_middle low sized
  · rw [← List.append_assoc (front ++ a), ← List.append_assoc front]
    refine write_middle ?_ sized'
    rw [List.length_append, follows, low]

theorem index_middle {front back : List α} {x : α} {i : Nat} (low : i = front.length) :
    index (front ++ x :: back) i = .ok x := by
  subst low
  simp [index]

/-- Copying item by item from the last one on, to a place further right. -/
def copyRight (place source : Nat) : Nat → List α → Except Fault (List α)
  | 0, data => .ok data
  | n + 1, data => do
      let x ← index data (source + n)
      let data ← write data (place + n) [x]
      copyRight place source n data

theorem write_one {data : List α} {place : Nat} {x : α} (inside : place < data.length) :
    write data place [x] = .ok (data.set place x) := by
  have within : place + [x].length ≤ data.length := inside
  rw [write_of_le within, List.set_eq_take_append_cons_drop, if_pos inside]
  simp

theorem copyRight_ok {place source n : Nat} {data : List α} (right : source < place)
    (inside : place + n ≤ data.length) :
    copyRight place source n data =
      .ok (data.take place ++ (data.drop source).take n ++ data.drop (place + n)) := by
  induction n generalizing data with
  | zero => simp [copyRight]
  | succ n ih =>
      have readable : source + n < data.length := by omega
      have writable : place + n < data.length := by omega
      have read : index data (source + n) = .ok data[source + n] := by
        rw [index, List.getElem?_eq_getElem readable]
      rw [copyRight, read]
      show (write data (place + n) [data[source + n]] >>= _) = _
      rw [write_one writable]
      show copyRight place source n (data.set (place + n) data[source + n]) = _
      rw [ih (by rw [List.length_set]; omega)]
      have front : (data.set (place + n) data[source + n]).take place = data.take place :=
        List.take_set_of_le (by omega)
      have middle : ((data.set (place + n) data[source + n]).drop source).take n =
          (data.drop source).take n := by
        rw [List.drop_set, if_neg (by omega), List.take_set_of_le (by omega)]
      have back : (data.set (place + n) data[source + n]).drop (place + n) =
          data[source + n] :: data.drop (place + n + 1) := by
        rw [List.drop_set, if_neg (by omega), Nat.sub_self, List.drop_eq_getElem_cons writable]
        rfl
      have last : (data.drop source).take (n + 1) =
          (data.drop source).take n ++ [data[source + n]] := by
        rw [List.take_add_one, List.getElem?_drop, List.getElem?_eq_getElem readable]
        rfl
      rw [front, middle, back, last, ← Nat.add_assoc]
      simp only [List.append_assoc, List.singleton_append]

/-- No item is overwritten before it is copied. -/
theorem copyRight_eq {place source n : Nat} {data : List α} (right : source < place)
    (inside : place + n ≤ data.length) :
    copyRight place source n data = copyWithin data source (source + n) place := by
  have bounds : source ≤ source + n ∧ source + n ≤ data.length := by omega
  have sized : ((data.drop source).take n).length = n := by
    rw [List.length_take, List.length_drop]
    omega
  have read : slice data source (source + n) = .ok ((data.drop source).take n) := by
    rw [slice, if_pos bounds, Nat.add_sub_cancel_left]
  rw [copyRight_ok right inside, copyWithin, read]
  show _ = write data place ((data.drop source).take n)
  rw [write, sized, if_pos inside]

end Zumic.Lib.Buffer

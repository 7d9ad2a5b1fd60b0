/- The wire format of frames, and the encoder as the function that writes it. -/

import Zumic.Lib.Buffer
import Zumic.Zsp.Frame

namespace Zumic.Zsp

open Lib.ByteString Lib.Decimal Lib.Utf8

mutual

/-- The bytes of a frame on the wire, whether or not the encoder accepts it. -/
def wire : ZspFrame → Bytes
  | .inlineString s => line 43 s.bytes
  | .frameError s => line 45 s.bytes
  | .integer i => line 58 (renderInt i.toInt)
  | .float f => line 44 (floatText f)
  | .bool b => line 35 [if b then 116 else 102]
  | .binaryString (some b) => bulk b
  | .binaryString none => line 36 (bytesOf "-1")
  | .array items => line 42 (renderNat items.length) ++ wireItems items
  | .dictionary items => line 37 (renderNat items.length) ++ wireEntries items
  | .set members => line 126 (renderNat members.length) ++ wireItems members
  | .push items => line 62 (renderNat items.length) ++ wireItems items
  | .zset entries => line 94 (renderNat entries.length) ++ encodeScores entries
  | .null => line 95 []

def wireItems : List ZspFrame → Bytes
  | [] => []
  | f :: l => wire f ++ wireItems l

def wireEntries : List (Str × ZspFrame) → Bytes
  | [] => []
  | (k, v) :: l => bulk k.bytes ++ wire v ++ wireEntries l

end

/-- What the encoder checks of a node, its depth aside. -/
def sendableNode : ZspFrame → Bool
  | .inlineString s => !hasLineBreak s
  | .frameError s => !hasLineBreak s
  | .binaryString (some b) => b.length ≤ maxBinaryLength
  | _ => true

theorem validate_ok {s : Str} {e : ZspEncodeError} {u : Unit}
    (run : (if hasLineBreak s then .error e else .ok () : Except ZspEncodeError Unit) = .ok u) :
    hasLineBreak s = false := by
  cases clean : hasLineBreak s with
  | false => rfl
  | true => simp [clean] at run

theorem counted_ok {x : Except ZspEncodeError Bytes} {head b : Bytes}
    (run : (do pure (head ++ (← x)) : Except ZspEncodeError Bytes) = .ok b) :
    ∃ tail, x = .ok tail ∧ b = head ++ tail := by
  obtain ⟨tail, first, second⟩ := Lib.Buffer.bind_eq_ok run
  exact ⟨tail, first, (Except.ok.inj second).symm⟩

theorem encodeItems_ok {items : List ZspFrame} {depth : Nat} {b : Bytes}
    (each : ∀ f ∈ items, ∀ c, encodeFrame f depth = .ok c →
      c = wire f ∧ f.all sendableNode = true)
    (run : encodeItems items depth = .ok b) :
    b = wireItems items ∧ ZspFrame.allItems sendableNode items = true := by
  induction items generalizing b with
  | nil =>
      rw [encodeItems] at run
      exact ⟨(Except.ok.inj run).symm, rfl⟩
  | cons f l ih =>
      rw [encodeItems] at run
      obtain ⟨head, runHead, rest⟩ := Lib.Buffer.bind_eq_ok run
      obtain ⟨tail, runTail, last⟩ := Lib.Buffer.bind_eq_ok rest
      obtain ⟨rfl, sendHead⟩ := each f (by simp) head runHead
      obtain ⟨rfl, sendTail⟩ := ih (fun g hg => each g (List.mem_cons_of_mem _ hg)) runTail
      refine ⟨?_, by simp [ZspFrame.allItems, sendHead, sendTail]⟩
      rw [wireItems]
      exact (Except.ok.inj last).symm

theorem encodeEntries_ok {items : List (Str × ZspFrame)} {depth : Nat} {b : Bytes}
    (each : ∀ e ∈ items, ∀ c, encodeFrame e.2 depth = .ok c →
      c = wire e.2 ∧ e.2.all sendableNode = true)
    (run : encodeEntries items depth = .ok b) :
    b = wireEntries items ∧ ZspFrame.allEntries sendableNode items = true := by
  induction items generalizing b with
  | nil =>
      rw [encodeEntries] at run
      exact ⟨(Except.ok.inj run).symm, rfl⟩
  | cons e l ih =>
      obtain ⟨k, v⟩ := e
      rw [encodeEntries] at run
      obtain ⟨head, runHead, rest⟩ := Lib.Buffer.bind_eq_ok run
      obtain ⟨tail, runTail, last⟩ := Lib.Buffer.bind_eq_ok rest
      obtain ⟨rfl, sendHead⟩ := each (k, v) (by simp) head runHead
      obtain ⟨rfl, sendTail⟩ := ih (fun g hg => each g (List.mem_cons_of_mem _ hg)) runTail
      refine ⟨?_, by simp [ZspFrame.allEntries, sendHead, sendTail]⟩
      rw [wireEntries]
      exact (Except.ok.inj last).symm

theorem depth_ok {f : ZspFrame} {depth : Nat} {b : Bytes}
    (run : encodeFrame f depth = .ok b) : ¬ maxArrayDepth < depth := by
  intro deep
  rw [encodeFrame.eq_def, if_pos deep] at run
  exact absurd run (by simp)

theorem encodeFrame_ok {f : ZspFrame} {depth : Nat} {b : Bytes}
    (run : encodeFrame f depth = .ok b) : b = wire f ∧ f.all sendableNode = true := by
  have shallow := depth_ok run
  induction f using ZspFrame.induct generalizing depth b with
  | inlineString s =>
      rw [encodeFrame, if_neg shallow] at run
      obtain ⟨_, valid, last⟩ := Lib.Buffer.bind_eq_ok run
      refine ⟨?_, by simp [ZspFrame.all, sendableNode, validate_ok valid]⟩
      rw [wire]
      exact (Except.ok.inj last).symm
  | frameError s =>
      rw [encodeFrame, if_neg shallow] at run
      obtain ⟨_, valid, last⟩ := Lib.Buffer.bind_eq_ok run
      refine ⟨?_, by simp [ZspFrame.all, sendableNode, validate_ok valid]⟩
      rw [wire]
      exact (Except.ok.inj last).symm
  | integer i =>
      rw [encodeFrame, if_neg shallow] at run
      exact ⟨(Except.ok.inj run).symm.trans (by rw [wire]), rfl⟩
  | float f =>
      rw [encodeFrame, if_neg shallow] at run
      exact ⟨(Except.ok.inj run).symm.trans (by rw [wire]), rfl⟩
  | bool v =>
      rw [encodeFrame, if_neg shallow] at run
      refine ⟨(Except.ok.inj run).symm.trans ?_, rfl⟩
      cases v <;> rfl
  | binaryString o =>
      cases o with
      | none =>
          rw [encodeFrame, if_neg shallow] at run
          exact ⟨(Except.ok.inj run).symm.trans (by rw [wire]), rfl⟩
      | some b =>
          rw [encodeFrame, if_neg shallow] at run
          by_cases long : maxBinaryLength < b.length
          · simp only [if_pos long] at run
            exact absurd run (by simp)
          · simp only [if_neg long] at run
            refine ⟨(Except.ok.inj run).symm.trans (by rw [wire]), ?_⟩
            simpa [ZspFrame.all, sendableNode] using long
  | array items ih =>
      rw [encodeFrame, if_neg shallow] at run
      obtain ⟨tail, inner, rfl⟩ := counted_ok run
      obtain ⟨rfl, sendable⟩ := encodeItems_ok (fun f hf c hc => ih f hf hc (depth_ok hc)) inner
      exact ⟨by rw [wire], by simp [ZspFrame.all, sendableNode, sendable]⟩
  | dictionary items ih =>
      rw [encodeFrame, if_neg shallow] at run
      obtain ⟨tail, inner, rfl⟩ := counted_ok run
      obtain ⟨rfl, sendable⟩ := encodeEntries_ok (fun f hf c hc => ih f hf hc (depth_ok hc)) inner
      exact ⟨by rw [wire], by simp [ZspFrame.all, sendableNode, sendable]⟩
  | set members ih =>
      rw [encodeFrame, if_neg shallow] at run
      obtain ⟨tail, inner, rfl⟩ := counted_ok run
      obtain ⟨rfl, sendable⟩ := encodeItems_ok (fun f hf c hc => ih f hf hc (depth_ok hc)) inner
      exact ⟨by rw [wire], by simp [ZspFrame.all, sendableNode, sendable]⟩
  | push items ih =>
      rw [encodeFrame, if_neg shallow] at run
      obtain ⟨tail, inner, rfl⟩ := counted_ok run
      obtain ⟨rfl, sendable⟩ := encodeItems_ok (fun f hf c hc => ih f hf hc (depth_ok hc)) inner
      exact ⟨by rw [wire], by simp [ZspFrame.all, sendableNode, sendable]⟩
  | zset entries =>
      rw [encodeFrame, if_neg shallow] at run
      exact ⟨(Except.ok.inj run).symm.trans (by rw [wire]), rfl⟩
  | null =>
      rw [encodeFrame, if_neg shallow] at run
      exact ⟨(Except.ok.inj run).symm.trans (by rw [wire]), rfl⟩

/-- A frame without frames inside it. -/
def isScalar : ZspFrame → Bool
  | .array _ => false
  | .dictionary _ => false
  | .set _ => false
  | .push _ => false
  | _ => true

theorem encodeFrame_scalar {f : ZspFrame} (scalar : isScalar f = true)
    (sendable : sendableNode f = true) {depth : Nat} (shallow : depth ≤ maxArrayDepth) :
    encodeFrame f depth = .ok (wire f) := by
  have within : ¬ maxArrayDepth < depth := by omega
  cases f with
  | inlineString s =>
      have clean : hasLineBreak s = false := by simpa [sendableNode] using sendable
      rw [encodeFrame, if_neg within, validateSimpleString, clean, wire]
      rfl
  | frameError s =>
      have clean : hasLineBreak s = false := by simpa [sendableNode] using sendable
      rw [encodeFrame, if_neg within, validateErrorString, clean, wire]
      rfl
  | binaryString o =>
      cases o with
      | none =>
          rw [encodeFrame, if_neg within, wire]
          rfl
      | some b =>
          have fits : ¬ maxBinaryLength < b.length := by simpa [sendableNode] using sendable
          rw [encodeFrame, if_neg within, wire]
          simp only [if_neg fits]
          rfl
  | bool v =>
      rw [encodeFrame, if_neg within, wire]
      cases v <;> rfl
  | array items => exact absurd scalar (by simp [isScalar])
  | dictionary items => exact absurd scalar (by simp [isScalar])
  | set members => exact absurd scalar (by simp [isScalar])
  | push items => exact absurd scalar (by simp [isScalar])
  | _ =>
      rw [encodeFrame, if_neg within, wire]
      rfl

theorem encode_scalar {f : ZspFrame} (scalar : isScalar f = true) (sendable : sendableNode f = true) :
    encode f = .ok (wire f) :=
  encodeFrame_scalar scalar sendable (Nat.zero_le _)

theorem encodeItems_scalars {l : List ZspFrame} {depth : Nat} (shallow : depth ≤ maxArrayDepth)
    (each : ∀ f ∈ l, isScalar f = true ∧ sendableNode f = true) :
    encodeItems l depth = .ok (wireItems l) := by
  induction l with
  | nil => rw [encodeItems, wireItems]; rfl
  | cons f l ih =>
      obtain ⟨scalar, sendable⟩ := each f (by simp)
      rw [encodeItems, encodeFrame_scalar scalar sendable shallow,
        ih fun g hg => each g (List.mem_cons_of_mem _ hg), wireItems]
      rfl

theorem encode_array_scalars {l : List ZspFrame}
    (each : ∀ f ∈ l, isScalar f = true ∧ sendableNode f = true) :
    encode (.array l) = .ok (wire (.array l)) := by
  rw [encode, encodeFrame, if_neg (by decide), encodeItems_scalars (by decide) each, wire]
  rfl

theorem wireItems_eq_flatMap (l : List ZspFrame) : wireItems l = l.flatMap wire := by
  induction l with
  | nil => rfl
  | cons f l ih => rw [wireItems, ih, List.flatMap_cons]

theorem wireItems_append (l m : List ZspFrame) :
    wireItems (l ++ m) = wireItems l ++ wireItems m := by
  rw [wireItems_eq_flatMap, wireItems_eq_flatMap, wireItems_eq_flatMap, List.flatMap_append]

theorem wireEntries_eq_flatMap (l : List (Str × ZspFrame)) :
    wireEntries l = l.flatMap fun e => bulk e.1.bytes ++ wire e.2 := by
  induction l with
  | nil => rfl
  | cons e l ih =>
      obtain ⟨k, v⟩ := e
      rw [wireEntries, ih, List.flatMap_cons]

theorem wire_ne_nil (f : ZspFrame) : wire f ≠ [] := by
  cases f with
  | binaryString o => cases o <;> simp [wire, line, bulk]
  | _ => simp [wire, line]

end Zumic.Zsp

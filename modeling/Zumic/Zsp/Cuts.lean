/- Where a frame may be cut: the decoder keeps a frame together across chunks only at the pieces
of its outermost container. -/

import Zumic.Zsp.Append
import Zumic.Zsp.Budget
import Zumic.Zsp.Chunks

namespace Zumic.Zsp

open Lib.ByteString Lib.Decimal Lib.Reader Lib.Resume Lib.Utf8

theorem cost_le_of_finishes {state : ZspDecodeState} {chunks : List Bytes} {n : Nat} {f : ZspFrame}
    (fair : state.Fair) (run : decodeChunks state chunks = finishesAfter n f) :
    cost f ≤ state.credit + chunks.flatten.length := by
  induction n generalizing state chunks with
  | zero =>
      obtain ⟨chunk, next, rest, rfl, answer⟩ := feed_eq_finishesAfter_zero run
      obtain ⟨spent, -⟩ := spends_decode fair chunk _ rest answer
      simp only [weight] at spent
      simp only [List.flatten_cons, List.flatten_nil, List.append_nil]
      omega
  | succ n ih =>
      obtain ⟨chunk, later, next, rest, rfl, answer, continued⟩ := feed_eq_finishesAfter_succ run
      obtain ⟨spent, fair'⟩ := spends_decode fair chunk _ rest answer
      have paid : cost f ≤ next.credit + later.flatten.length := ih fair' continued
      simp only [weight] at spent
      simp only [List.flatten_cons, List.length_append]
      omega

/-- A length line that is cut is refused, so the first chunk holds it whole. -/
theorem header_whole {marker : UInt8} {digits tail c rest left : Bytes} {n : Int64}
    {message : String} {p : Int64 → FrameReader Decoded} {r : Decoded}
    (parser : ∀ s, decode .initial (marker :: s) = (readNumber message >>= p) s)
    (reads : Reads (readNumber message) (digits ++ crlf) n)
    (whole : c ++ rest = line marker digits ++ tail) (some' : c ≠ [])
    (run : decode .initial c = .ok (r, left)) :
    ∃ q, c = line marker digits ++ q ∧ q ++ rest = tail := by
  rcases List.append_eq_append_iff.mp whole with ⟨t, cut, more⟩ | ⟨q, rfl, more⟩
  · by_cases ends : t = []
    · subst ends
      rw [List.append_nil] at cut
      exact ⟨[], by rw [List.append_nil, cut], more⟩
    · obtain ⟨b, s, rfl⟩ := List.exists_cons_of_ne_nil some'
      simp only [line, List.cons_append, List.cons.injEq] at cut
      obtain ⟨rfl, cut⟩ := cut
      rw [parser] at run
      obtain ⟨value, middle, first, -⟩ := bind_eq_ok run
      exact absurd trivial (StableOn.not_of_cut (stable_readNumber message) reads cut ends first)
  · exact ⟨q, rfl, more.symm⟩

section

variable {c : Container} {len : Nat}

/-- A container that waits for bytes holds the items it has read whole. The bytes of an item that
is cut are in no state. -/
theorem stops_between {l : List ZspFrame} (deliverable : ∀ f ∈ l, Deliverable f)
    {items : List ZspFrame} {p rest left : Bytes} {state : ZspDecodeState}
    (whole : p ++ rest = wireItems l)
    (run : continueItems decode c len items l.length .initial p = .ok ((none, state), left)) :
    ∃ read todo lost, l = read ++ todo ∧ p = wireItems read ++ lost ∧
      lost ++ rest = wireItems todo ∧
      state = c.hold len (read.foldl c.add items) todo.length := by
  induction l generalizing items p with
  | nil =>
      have finished : continueItems decode c len items 0 .initial p =
          .ok ((some (c.build items), .initial), p) := rfl
      rw [List.length_nil, finished] at run
      exact absurd run (by simp)
  | cons g l ih =>
      have d := deliverable g (by simp)
      have later : ∀ f ∈ l, Deliverable f := fun f hf => deliverable f (List.mem_cons_of_mem _ hf)
      have passed : ∀ q, p = wire g ++ q → q ++ rest = wireItems l →
          ∃ read todo lost, g :: l = read ++ todo ∧ p = wireItems read ++ lost ∧
            lost ++ rest = wireItems todo ∧
            state = c.hold len (read.foldl c.add items) todo.length := by
        rintro q rfl more
        rw [List.length_cons, continueItems_cons d] at run
        obtain ⟨read, todo, lost, rfl, rfl, kept, held⟩ := ih later more run
        exact ⟨g :: read, todo, lost, rfl, by rw [wireItems, List.append_assoc], kept, held⟩
      rw [wireItems] at whole
      rcases List.append_eq_append_iff.mp whole with ⟨t, cut, more⟩ | ⟨q, front, more⟩
      · by_cases ends : t = []
        · subst ends
          rw [List.append_nil] at cut
          exact passed [] (by rw [List.append_nil, cut]) more
        · rw [List.length_cons, continueItems] at run
          obtain ⟨⟨out, remaining, state'⟩, middle, first, second⟩ := bind_eq_ok run
          rw [itemsLoop] at first
          obtain ⟨⟨answer, next⟩, middle', third, fourth⟩ := bind_eq_ok first
          cases answer with
          | some g' =>
              have reads : Reads (decode .initial) (wire g) (some g, .initial) := decode_wire d
              exact absurd rfl (final_decode.not_of_cut reads cut ends third)
          | none =>
              obtain ⟨same, rfl⟩ := Prod.mk.inj (Except.ok.inj fourth)
              obtain ⟨rfl, rfl, rfl⟩ := by simpa using same
              obtain ⟨same', -⟩ := Prod.mk.inj (Except.ok.inj second)
              refine ⟨[], g :: l, p, rfl, by rw [wireItems, List.nil_append], ?_, ?_⟩
              · rw [wireItems, cut, more, List.append_assoc]
              · exact (Prod.mk.inj same').2.symm
      · exact passed q front more.symm

theorem costItems_foldl (honest : c.Honest) (l items : List ZspFrame) :
    costItems (l.foldl c.add items) ≤ costItems items + costItems l ∧
      (l.foldl c.add items).length ≤ items.length + l.length := by
  induction l generalizing items with
  | nil => exact ⟨Nat.le_add_right _ _, le_refl _⟩
  | cons f l ih =>
      obtain ⟨paid, count⟩ := ih (c.add items f)
      have cost := honest.cost_add items f
      have length := honest.length_add items f
      simp only [List.foldl_cons, costItems, List.length_cons]
      exact ⟨by omega, by omega⟩

/-- With `items` held and `l` still to come, no byte of `f` is lost. -/
private structure Awaits (len : Nat) (f : ZspFrame) (items l : List ZspFrame) : Prop where
  fair : items.length + l.length ≤ len
  needs : headerLength len + costItems items + (wireItems l).length ≤ cost f
  deliverable : ∀ g ∈ l, Deliverable g
  counted : ∀ g ∈ l, g.all countedNode = true

theorem Awaits.read {f : ZspFrame} {items read todo : List ZspFrame} (honest : c.Honest)
    (awaits : Awaits len f items (read ++ todo)) :
    Awaits len f (read.foldl c.add items) todo := by
  obtain ⟨paid, count⟩ := costItems_foldl honest read items
  have readCost : costItems read = (wireItems read).length :=
    costItems_eq fun g member => awaits.counted g (List.mem_append_left _ member)
  have fair := awaits.fair
  have needs := awaits.needs
  rw [List.length_append] at fair
  rw [wireItems_append, List.length_append] at needs
  exact ⟨by omega, by omega, fun g member => awaits.deliverable g (List.mem_append_right _ member),
    fun g member => awaits.counted g (List.mem_append_right _ member)⟩

theorem stops_clean (honest : c.Honest) {l items : List ZspFrame} {p left : Bytes}
    {later : List Bytes} {state : ZspDecodeState} {n : Nat} {f : ZspFrame}
    (awaits : Awaits len f items l) (whole : p ++ later.flatten = wireItems l)
    (run : continueItems decode c len items l.length .initial p = .ok ((none, state), left))
    (finishes : decodeChunks state later = finishesAfter n f) :
    ∃ read todo, l = read ++ todo ∧ p = wireItems read ∧ later.flatten = wireItems todo ∧
      state = c.hold len (read.foldl c.add items) todo.length := by
  obtain ⟨read, todo, lost, rfl, rfl, kept, rfl⟩ := stops_between awaits.deliverable whole run
  have rest := awaits.read honest
  have bound := cost_le_of_finishes ((honest.fair_hold len _ _).mpr rest.fair) finishes
  have needs := rest.needs
  rw [honest.credit_hold] at bound
  rw [← kept, List.length_append] at needs
  have nothing : lost = [] := List.length_eq_zero_iff.mp (by omega)
  subst nothing
  exact ⟨read, todo, rfl, by rw [List.append_nil], kept, rfl⟩

/-- The chunks are the pieces, put together in groups. -/
private def Grouped (chunks parts : List Bytes) : Prop :=
  ∃ groups : List (List Bytes), (∀ g ∈ groups, g ≠ []) ∧ groups.flatten = parts ∧
    chunks = groups.map List.flatten

theorem Grouped.cons {chunks parts group : List Bytes} (some' : group ≠ [])
    (grouped : Grouped chunks parts) : Grouped (group.flatten :: chunks) (group ++ parts) := by
  obtain ⟨groups, nonempty, rfl, rfl⟩ := grouped
  refine ⟨group :: groups, fun g member => ?_, rfl, rfl⟩
  rcases List.mem_cons.mp member with rfl | later
  · exact some'
  · exact nonempty g later

theorem Grouped.single {parts : List Bytes} (some' : parts ≠ []) :
    Grouped [parts.flatten] parts := by
  have one := Grouped.cons some' (⟨[], by simp, rfl, rfl⟩ : Grouped [] [])
  rwa [List.append_nil] at one

theorem flatten_map_wire (l : List ZspFrame) : (l.map wire).flatten = wireItems l := by
  rw [wireItems_eq_flatMap, List.flatMap_def]

theorem map_wire_ne_nil {l : List ZspFrame} (some' : wireItems l ≠ []) :
    l.map wire ≠ [] := by
  intro none'
  rw [← flatten_map_wire, none'] at some'
  exact some' rfl

theorem grouped_of_finishes (honest : c.Honest)
    (held : ∀ items remaining, decode (c.hold len items remaining) =
      continueItems decode c len items remaining .initial)
    {l items : List ZspFrame} {chunks : List Bytes} {f : ZspFrame}
    (awaits : Awaits len f items l) (some' : ∀ chunk ∈ chunks, chunk ≠ [])
    (whole : chunks.flatten = wireItems l)
    (run : decodeChunks (c.hold len items l.length) chunks = finishesAfter (chunks.length - 1) f) :
    Grouped chunks (l.map wire) := by
  induction chunks generalizing items l with
  | nil => exact absurd run (by simp [decodeChunks, feed, finishesAfter])
  | cons p later ih =>
      have first : p ≠ [] := some' p (by simp)
      cases later with
      | nil =>
          have all : p = wireItems l := by simpa using whole
          rw [all, ← flatten_map_wire]
          exact Grouped.single (map_wire_ne_nil (all ▸ first))
      | cons q later =>
          obtain ⟨_, _, state, left, same, answer, finishes⟩ := feed_eq_finishesAfter_succ run
          obtain ⟨rfl, rfl⟩ := List.cons.inj same
          rw [held] at answer
          obtain ⟨read, todo, rfl, rfl, rest, rfl⟩ := stops_clean honest awaits whole answer finishes
          have tail := ih (awaits.read honest) (fun chunk member => some' chunk
            (List.mem_cons_of_mem _ member)) rest finishes
          rw [List.map_append, ← flatten_map_wire]
          exact tail.cons (map_wire_ne_nil first)

theorem grouped_of_container {l : List ZspFrame} {marker : UInt8} {message : String}
    {p : Int64 → FrameReader Decoded} {chunks : List Bytes} (honest : c.Honest)
    (small : l.length < 2 ^ 63)
    (parser : ∀ s, decode .initial (marker :: s) = (readNumber message >>= p) s)
    (header : l ≠ [] → ∀ s, decode .initial (line marker (renderNat l.length) ++ s) =
      continueItems decode c l.length [] l.length .initial s)
    (held : ∀ items remaining, decode (c.hold l.length items remaining) =
      continueItems decode c l.length items remaining .initial)
    (deliverable : ∀ f ∈ l, Deliverable f) (counted : ∀ f ∈ l, f.all countedNode = true)
    (some' : ∀ chunk ∈ chunks, chunk ≠ [])
    (whole : chunks.flatten = line marker (renderNat l.length) ++ wireItems l)
    (run : decodeChunks .initial chunks = finishesAfter (chunks.length - 1) (c.build l)) :
    Grouped chunks (line marker (renderNat l.length) :: l.map wire) := by
  have awaits : Awaits l.length (c.build l) [] l := by
    refine ⟨by simp, ?_, deliverable, counted⟩
    rw [honest.cost_build, costItems_eq counted, costItems]
    omega
  cases chunks with
  | nil => exact absurd run (by simp [decodeChunks, feed, finishesAfter])
  | cons first later =>
      cases later with
      | nil =>
          have all : first = line marker (renderNat l.length) ++ wireItems l := by simpa using whole
          rw [all, ← flatten_map_wire, ← List.flatten_cons]
          exact Grouped.single (by simp)
      | cons q later =>
          obtain ⟨_, _, state, left, same, answer, finishes⟩ := feed_eq_finishesAfter_succ run
          obtain ⟨rfl, rfl⟩ := List.cons.inj same
          obtain ⟨part, rfl, body⟩ := header_whole parser (reads_readNumber_count small message)
            whole (some' first (by simp)) answer
          have left' : l ≠ [] := by
            rintro rfl
            have second : q ≠ [] := some' q (by simp)
            simp [wireItems, second] at body
          rw [header left'] at answer
          obtain ⟨read, todo, split, rfl, rest, rfl⟩ := stops_clean honest awaits body answer finishes
          have awaits' : Awaits l.length (c.build l) [] (read ++ todo) := by
            rw [← split]
            exact awaits
          have tail := grouped_of_finishes honest held (awaits'.read honest) (fun chunk member =>
            some' chunk (List.mem_cons_of_mem _ member)) rest finishes
          have joined : Grouped ((line marker (renderNat l.length) :: read.map wire).flatten ::
              q :: later) ((line marker (renderNat l.length) :: read.map wire) ++ todo.map wire) :=
            tail.cons (by simp)
          rw [List.flatten_cons, flatten_map_wire, List.cons_append, ← List.map_append,
            ← split] at joined
          exact joined

end

/-- A parser that never waits for more bytes. -/
private def Prompt (p : FrameReader Decoded) : Prop :=
  ∀ s r rest, p s = .ok (r, rest) → r.1.isSome = true

theorem prompt_bind {α : Type} {p : FrameReader α} {g : α → ZspFrame} :
    Prompt (p >>= fun a => pure (some (g a), .initial)) := by
  intro s r rest run
  obtain ⟨a, middle, -, second⟩ := bind_eq_ok run
  obtain ⟨rfl, -⟩ := Prod.mk.inj (Except.ok.inj second)
  rfl

theorem prompt_parseBool : Prompt parseBool := by
  intro s r rest run
  unfold parseBool at run
  split at run
  · split_ifs at run
    · obtain ⟨rfl, -⟩ := Prod.mk.inj (Except.ok.inj run)
      rfl
    · obtain ⟨rfl, -⟩ := Prod.mk.inj (Except.ok.inj run)
      rfl
  · exact absurd run (by simp)

theorem prompt_parseNull : Prompt parseNull := by
  intro s r rest run
  unfold parseNull at run
  split at run
  · split_ifs at run
    obtain ⟨rfl, -⟩ := Prod.mk.inj (Except.ok.inj run)
    rfl
  · exact absurd run (by simp)

section

variable {f : ZspFrame} {chunks : List Bytes}

theorem grouped_of_line {marker : UInt8} {text : Bytes} {p : FrameReader Decoded}
    (shape : wire f = line marker text) (prompt : Prompt p)
    (parser : ∀ s, decode .initial (marker :: s) = p s) (some' : ∀ chunk ∈ chunks, chunk ≠ [])
    (whole : chunks.flatten = wire f)
    (run : decodeChunks .initial chunks = finishesAfter (chunks.length - 1) f) :
    Grouped chunks [wire f] := by
  cases chunks with
  | nil => exact absurd run (by simp [decodeChunks, feed, finishesAfter])
  | cons first later =>
      cases later with
      | nil =>
          have all : first = wire f := by simpa using whole
          subst all
          exact ⟨[[wire f]], by simp, rfl, by simp⟩
      | cons q later =>
          obtain ⟨_, _, state, left, same, answer, -⟩ := feed_eq_finishesAfter_succ run
          obtain ⟨rfl, rfl⟩ := List.cons.inj same
          obtain ⟨b, s, rfl⟩ := List.exists_cons_of_ne_nil (some' first (by simp))
          rw [shape, List.flatten_cons, line, List.cons_append, List.cons_append] at whole
          obtain ⟨rfl, -⟩ := List.cons.inj whole
          rw [parser] at answer
          exact absurd (prompt s _ left answer) (by simp)

theorem grouped_of_nil
    (some' : ∀ chunk ∈ chunks, chunk ≠ []) (whole : chunks.flatten = wire (.binaryString none))
    (run : decodeChunks .initial chunks =
      finishesAfter (chunks.length - 1) (.binaryString none)) :
    Grouped chunks [wire (.binaryString none)] := by
  cases chunks with
  | nil => exact absurd run (by simp [decodeChunks, feed, finishesAfter])
  | cons first later =>
      cases later with
      | nil =>
          have all : first = wire (.binaryString none) := by simpa using whole
          subst all
          exact ⟨[[wire (.binaryString none)]], by simp, rfl, by simp⟩
      | cons q later =>
          obtain ⟨_, _, state, left, same, answer, -⟩ := feed_eq_finishesAfter_succ run
          obtain ⟨rfl, rfl⟩ := List.cons.inj same
          have reads : Reads (readNumber "Invalid binary") (bytesOf "-1" ++ crlf) (-1) :=
            reads_readNumber ⟨by decide, by decide⟩ (by decide) _
          have whole' : first ++ (q :: later).flatten = line 36 (bytesOf "-1") ++ [] := by
            rw [List.append_nil, ← List.flatten_cons, whole, wire]
          obtain ⟨part, -, body⟩ := header_whole (fun s => decode_eq .initial (36 :: s)) reads
            whole' (some' first (by simp)) answer
          have second : q ≠ [] := some' q (by simp)
          simp [second] at body

end

theorem continueBinaryString_none {len : Nat} {data s left : Bytes} {state : ZspDecodeState}
    (run : continueBinaryString len data s = .ok ((none, state), left)) : state = .initial := by
  rw [continueBinaryString] at run
  obtain ⟨more, middle, -, second⟩ := bind_eq_ok run
  split_ifs at second
  · obtain ⟨_, _, -, third⟩ := bind_eq_ok second
    exact absurd (congrArg (fun r => r.1.1) (Except.ok.inj third)) (by simp)
  · exact ((Prod.mk.inj (Prod.mk.inj (Except.ok.inj second)).1).2).symm

theorem parsePayload_none {len : Nat} {q left : Bytes} {state : ZspDecodeState}
    (fits : len ≤ maxBinaryLength)
    (run : decode .initial (line 36 (renderNat len) ++ q) = .ok ((none, state), left)) :
    q.length < len ∧ state = .partialBinaryString len q := by
  have small : len < 2 ^ 63 := lt_of_le_of_lt fits (by decide)
  rw [decode_counted small (fun s => decode_eq .initial (36 :: s)) q,
    toInt_ofInt_nat small, if_neg (by omega), if_pos (by omega)] at run
  simp only [Int.toNat_natCast, if_neg (not_lt.mpr fits)] at run
  obtain ⟨data, middle, first, second⟩ := bind_eq_ok run
  obtain ⟨rfl, rfl⟩ := Prod.mk.inj (Except.ok.inj first)
  split_ifs at second with full
  · obtain ⟨_, _, -, third⟩ := bind_eq_ok second
    exact absurd (congrArg (fun r => r.1.1) (Except.ok.inj third)) (by simp)
  · rw [List.length_take] at full
    have short : q.length < len := by omega
    rw [List.take_of_length_le (le_of_lt short)] at second
    exact ⟨short, ((Prod.mk.inj (Prod.mk.inj (Except.ok.inj second)).1).2).symm⟩

theorem cleanCut_of_binary {b : Bytes} {chunks : List Bytes}
    (fits : b.length ≤ maxBinaryLength) (some' : ∀ chunk ∈ chunks, chunk ≠ [])
    (whole : chunks.flatten = wire (.binaryString (some b)))
    (run : decodeChunks .initial chunks =
      finishesAfter (chunks.length - 1) (.binaryString (some b))) :
    CleanCut (.binaryString (some b)) chunks := by
  have small : b.length < 2 ^ 63 := lt_of_le_of_lt fits (by decide)
  cases chunks with
  | nil => exact absurd run (by simp [decodeChunks, feed, finishesAfter])
  | cons first later =>
      cases later with
      | nil =>
          have all : first = wire (.binaryString (some b)) := by simpa using whole
          subst all
          exact Or.inl ⟨[[wire (.binaryString (some b))]], by simp, rfl, by simp⟩
      | cons q later =>
          obtain ⟨_, _, state, left, same, answer, finishes⟩ := feed_eq_finishesAfter_succ run
          obtain ⟨rfl, rfl⟩ := List.cons.inj same
          have whole' : first ++ (q :: later).flatten =
              line 36 (renderNat b.length) ++ (b ++ crlf) := by
            rw [← List.flatten_cons, whole, wire, bulk, List.append_assoc]
          have begun : first ≠ [] := some' first (by simp)
          obtain ⟨part, rfl, body⟩ := header_whole (fun s => decode_eq .initial (36 :: s))
            (reads_readNumber_count small "Invalid binary") whole' begun answer
          obtain ⟨short, rfl⟩ := parsePayload_none fits answer
          have start : part = b.take part.length := by
            have front := congrArg (List.take part.length) body
            rwa [List.take_left, List.take_append_of_le_length (le_of_lt short)] at front
          have rest : (q :: later).flatten = b.drop part.length ++ crlf := by
            have back := congrArg (List.drop part.length) body
            rwa [List.drop_left, List.drop_append_of_le_length (le_of_lt short)] at back
          cases later with
          | nil =>
              refine Or.inr ⟨b, part.length, rfl, short, ?_⟩
              rw [← start, ← rest]
              simp
          | cons q' later =>
              obtain ⟨_, _, state, left', same, answer', finishes'⟩ :=
                feed_eq_finishesAfter_succ finishes
              obtain ⟨rfl, rfl⟩ := List.cons.inj same
              rw [decode_eq] at answer'
              obtain rfl := continueBinaryString_none answer'
              -- The first two chunks are gone and the rest is too short for the frame.
              have fair : ZspDecodeState.initial.Fair := trivial
              have bound := cost_le_of_finishes fair finishes'
              have paid : cost (.binaryString (some b)) =
                  (wire (.binaryString (some b))).length := cost_eq rfl
              have length := congrArg List.length whole
              have positive := List.length_pos_iff.mpr begun
              rw [List.flatten_cons, List.flatten_cons, List.length_append,
                @List.length_append _ q, ← paid] at length
              simp only [ZspDecodeState.credit] at bound
              omega

theorem cleanCut_of_decodeChunks {f : ZspFrame} {chunks : List Bytes} (d : Deliverable f)
    (counted : f.all countedNode = true) (some' : ∀ chunk ∈ chunks, chunk ≠ [])
    (whole : chunks.flatten = wire f)
    (run : decodeChunks .initial chunks = finishesAfter (chunks.length - 1) f) :
    CleanCut f chunks := by
  have wf := d.wf
  cases f with
  | inlineString s =>
      exact Or.inl (grouped_of_line (by rw [wire]) (prompt_bind (p := readLine))
        (fun t => decode_eq _ _) some' whole run)
  | frameError s =>
      exact Or.inl (grouped_of_line (by rw [wire]) (prompt_bind (p := readLine))
        (fun t => decode_eq _ _) some' whole run)
  | integer i =>
      exact Or.inl (grouped_of_line (by rw [wire]) (prompt_bind (p := readNumber "Invalid integer"))
        (fun t => decode_eq _ _) some' whole run)
  | float x => exact absurd counted (by simp [ZspFrame.all, countedNode])
  | bool v =>
      exact Or.inl (grouped_of_line (by rw [wire]) prompt_parseBool (fun t => decode_eq _ _) some'
        whole run)
  | null =>
      exact Or.inl (grouped_of_line (by rw [wire]) prompt_parseNull (fun t => decode_eq _ _) some'
        whole run)
  | binaryString o =>
      cases o with
      | none => exact Or.inl (grouped_of_nil some' whole run)
      | some b =>
          have fits : b.length ≤ maxBinaryLength := by
            simpa [ZspFrame.all, sendableNode] using d.sendable
          exact cleanCut_of_binary fits some' whole run
  | array items =>
      simp only [ZspFrame.Wf, ZspFrame.all, ZspFrame.wfNode, Bool.and_eq_true,
        decide_eq_true_eq] at wf
      simp only [ZspFrame.all, Bool.and_eq_true, ZspFrame.allItems_iff] at counted
      refine Or.inl (grouped_of_container (c := arrayContainer) honest_array wf.1 decode_array
        (fun left s => ?_) (fun _ _ => funext (decode_eq _)) (fun f member => d.mem_array member)
        counted.2 some' (by rw [whole, wire]) run)
      exact decode_array_header wf.1 left s
  | set members =>
      simp only [ZspFrame.Wf, ZspFrame.all, ZspFrame.wfNode, Bool.and_eq_true,
        decide_eq_true_eq] at wf
      simp only [ZspFrame.all, Bool.and_eq_true, ZspFrame.allItems_iff] at counted
      refine Or.inl (grouped_of_container (c := setContainer) honest_set wf.1.1 decode_set
        (fun left s => ?_) (fun _ _ => funext (decode_eq _)) (fun f member => d.mem_set member)
        counted.2 some' (by rw [whole, wire]) run)
      exact decode_set_header wf.1.1 left s
  | push items =>
      simp only [ZspFrame.Wf, ZspFrame.all, ZspFrame.wfNode, Bool.and_eq_true,
        decide_eq_true_eq] at wf
      simp only [ZspFrame.all, Bool.and_eq_true, ZspFrame.allItems_iff] at counted
      refine Or.inl (grouped_of_container (c := pushContainer) honest_push wf.1 decode_push
        (fun left s => ?_) (fun _ _ => funext (decode_eq _)) (fun f member => d.mem_push member)
        counted.2 some' (by rw [whole, wire]) run)
      exact decode_push_header wf.1 left s
  | dictionary items => exact absurd counted (by simp [ZspFrame.all, countedNode])
  | zset entries => exact absurd counted (by simp [ZspFrame.all, countedNode])

/-- A cleanly cut frame is answered once, with its last chunk, and a frame without dictionaries
only then. -/
theorem decodeChunks_eq_finishesAfter {f : ZspFrame} {b : Bytes} {chunks : List Bytes} (wf : f.Wf)
    (plain : f.all plainNode = true) (keys : f.all shortKeysNode = true)
    (encoded : encode f = .ok b) (some' : ∀ chunk ∈ chunks, chunk ≠ [])
    (whole : chunks.flatten = b) :
    (CleanCut f chunks → decodeChunks .initial chunks = finishesAfter (chunks.length - 1) f) ∧
      (f.all countedNode = true →
        decodeChunks .initial chunks = finishesAfter (chunks.length - 1) f → CleanCut f chunks) := by
  obtain ⟨rfl, sendable⟩ := encodeFrame_ok encoded
  have d : Deliverable f := ⟨wf, sendable, readable_of_plain plain keys⟩
  exact ⟨decodeChunks_of_cleanCut wf plain keys encoded,
    fun counted run => cleanCut_of_decodeChunks d counted some' whole run⟩

theorem decodeChunks_eq_finishesAfter_array :
    decodeChunks .initial [bytesOf "*2\r\n$2\r\n\r\n\r\n", bytesOf "~1\r\n_\r\n"] =
      [.ok none, .ok (some (.array [.binaryString (some [13, 10]), .set [.null]]))] :=
  (decodeChunks_eq_finishesAfter (b := bytesOf "*2\r\n$2\r\n\r\n\r\n~1\r\n_\r\n")
    (by decide) (by decide) (by decide) (by rfl) (by decide) (by rfl)).1
    (Or.inl ⟨[[bytesOf "*2\r\n", bytesOf "$2\r\n\r\n\r\n"], [bytesOf "~1\r\n_\r\n"]],
      by simp, by rfl, by rfl⟩)

end Zumic.Zsp

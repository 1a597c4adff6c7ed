import Mathlib.Data.List.TakeDrop
import Mathlib.Data.List.TakeWhile
import StoreAudit.Git.Reader
import StoreAudit.Proofs.Text.Split

/-!
# What a reader hands out

A reader hands out what comes first of the bytes it has left (`PipeReader.remaining`) and keeps the
rest. In how many chunks they arrive makes no difference.
-/

namespace StoreAudit

/-- The first line of a text and what follows it. The last line can lack its end. -/
inductive FirstLine (delimiter : UInt8) : Bytes → Bytes → Bytes → Prop
  | ended {line : Bytes} (absent : delimiter ∉ line) (rest : Bytes) :
      FirstLine delimiter (line ++ delimiter :: rest) line rest
  | cut {line : Bytes} (absent : delimiter ∉ line) (nonempty : line ≠ []) :
      FirstLine delimiter line line []

/-- A text has at most one first line. -/
theorem FirstLine.unique {delimiter : UInt8} {text line other rest more : Bytes}
    (first : FirstLine delimiter text line rest) (again : FirstLine delimiter text other more) :
    line = other ∧ rest = more := by
  have holds {line rest : Bytes} : delimiter ∈ line ++ delimiter :: rest :=
    List.mem_append_right _ List.mem_cons_self
  cases first with
  | ended absent rest =>
      generalize whole : line ++ delimiter :: rest = text at again
      cases again with
      | ended otherAbsent more =>
          have cut := Bytes.splitFirst_append_cons absent rest
          rw [whole, Bytes.splitFirst_append_cons otherAbsent] at cut
          obtain ⟨rfl, rfl⟩ := Prod.mk.inj (Option.some.inj cut)
          exact ⟨rfl, rfl⟩
      | cut otherAbsent nonempty => exact absurd (whole ▸ holds) otherAbsent
  | cut absent nonempty =>
      cases again with
      | ended otherAbsent more => exact absurd holds absent
      | cut otherAbsent nonempty => exact ⟨rfl, rfl⟩

/-- A line holds no delimiter. -/
theorem FirstLine.line_whole {delimiter : UInt8} {text line rest : Bytes}
    (first : FirstLine delimiter text line rest) : delimiter ∉ line := by
  cases first <;> assumption

/-- Only text that is not empty has a first line. -/
theorem FirstLine.ne_nil {delimiter : UInt8} {text line rest : Bytes}
    (first : FirstLine delimiter text line rest) : text ≠ [] := by
  cases first with
  | ended => simp
  | cut _ nonempty => exact nonempty

/-- A text that is not empty has a first line. -/
theorem FirstLine.exists_of_ne_nil (delimiter : UInt8) {text : Bytes} (nonempty : text ≠ []) :
    ∃ line rest, FirstLine delimiter text line rest := by
  by_cases member : delimiter ∈ text
  · obtain ⟨line, rest, rfl, absent⟩ := List.eq_append_cons_of_mem member
    exact ⟨line, rest, .ended absent rest⟩
  · exact ⟨text, [], .cut member nonempty⟩

/-- The first line is the first part that the text is cut into. -/
theorem FirstLine.split {delimiter : UInt8} {text line rest : Bytes}
    (first : FirstLine delimiter text line rest) :
    Bytes.split delimiter text = line :: Bytes.split delimiter rest := by
  cases first with
  | ended absent => exact Bytes.split_append_cons absent rest
  | cut absent nonempty => exact Bytes.split_of_notMem nonempty absent

namespace PipeReader

variable {reader later : PipeReader} {delimiter : UInt8} {wants : Bytes → Bool}

/-- A text is cut at its first delimiter. -/
theorem span_of_line {line : Bytes} (absent : delimiter ∉ line) (rest : Bytes) :
    (line ++ delimiter :: rest).span (· != delimiter) = (line, delimiter :: rest) := by
  have kept : ∀ byte ∈ line, (byte != delimiter) = true := by
    intro byte member
    exact bne_iff_ne.mpr fun same => absent (same ▸ member)
  rw [List.span_eq_takeWhile_dropWhile, List.takeWhile_append_of_pos kept,
    List.dropWhile_append_of_pos kept]
  simp

private theorem span_of_notMem {text : Bytes} (absent : delimiter ∉ text) :
    text.span (· != delimiter) = (text, []) := by
  have kept : ∀ byte ∈ text, (byte != delimiter) = true := by
    intro byte member
    exact bne_iff_ne.mpr fun same => absent (same ▸ member)
  rw [List.span_eq_takeWhile_dropWhile, List.takeWhile_eq_self_iff.mpr kept,
    List.dropWhile_eq_nil_iff.mpr kept]

/-- The chunks that reads still get: none once the end has been seen. -/
def readable (reader : PipeReader) : List Bytes := if reader.ended then [] else reader.arriving

/-- Everything that can still be handed out. -/
def remaining (reader : PipeReader) : Bytes := reader.pending ++ reader.readable.flatten

private theorem remaining_of_ended (closed : reader.ended = true) : reader.remaining =
    reader.pending := by
  simp [remaining, readable, closed]

/-- What remains of an open output is what waits and what is to arrive. -/
theorem remaining_of_open (isOpen : reader.ended = false) :
    reader.remaining = reader.pending ++ reader.arriving.flatten := by
  simp [remaining, readable, isOpen]

/-- What has been handed out is dropped, and nothing else. -/
theorem compact_eq (reader : PipeReader) :
    reader.compact = { reader with buffer := reader.pending, position := 0 } := by
  obtain ⟨buffer, position, ended, arriving⟩ := reader
  cases position <;> rfl

/-- What a read comes to. Without a chunk nothing is left to be read; a chunk joins what has been
read, whatever was dropped from the buffer. -/
inductive Fills (reader : PipeReader) : Bool × PipeReader → Prop
  | ended {last : PipeReader} (closed : last.ended = true)
      (same : last.pending = reader.pending) (dry : reader.remaining = reader.pending) :
      Fills reader (false, last)
  | chunk {filled : PipeReader} (chunk : Bytes) (isOpen : reader.ended = false)
      (still : filled.ended = false) (arrived : reader.arriving = chunk :: filled.arriving)
      (added : filled.pending = reader.pending ++ chunk) : Fills reader (true, filled)

private theorem fills_fill (reader : PipeReader) : reader.Fills reader.fill := by
  unfold fill
  cases closed : reader.ended with
  | true => exact .ended closed rfl (remaining_of_ended closed)
  | false =>
      simp only [Bool.false_eq_true, if_false, compact_eq]
      cases arriving : reader.arriving with
      | nil => exact .ended rfl rfl (by simp [remaining_of_open closed, arriving])
      | cons chunk more => exact .chunk chunk closed closed arriving rfl

private theorem Fills.remaining_eq {more : Bool} {filled : PipeReader}
    (fills : reader.Fills (more, filled)) : filled.remaining = reader.remaining := by
  cases fills with
  | ended closed same dry => rw [remaining_of_ended closed, same, dry]
  | chunk chunk isOpen still arrived added =>
      rw [remaining_of_open still, remaining_of_open isOpen, added, arrived, List.flatten_cons,
        List.append_assoc]

/-- One round of reading chunks. -/
theorem fillWhile_eq (wants : Bytes → Bool) (reader : PipeReader) :
    reader.fillWhile wants =
      if wants reader.pending then
        match reader.fill with
        | (true, filled) => filled.fillWhile wants
        | (false, last) => last
      else reader := by
  have fills := reader.fills_fill
  unfold fillWhile
  rw [fillWhile.loop.eq_def]
  generalize reader.fill = result at fills
  cases fills with
  | ended => rfl
  | chunk chunk isOpen still arrived added => rw [arrived]; rfl

/-- Reading chunks keeps what can be handed out, and goes on to the end unless enough is pending
before. -/
theorem fillWhile_spec (wants : Bytes → Bool) (reader : PipeReader) :
    (reader.fillWhile wants).remaining = reader.remaining ∧
      (wants (reader.fillWhile wants).pending = false ∧
          (reader.fillWhile wants).ended = reader.ended ∨
        wants (reader.fillWhile wants).pending = true ∧
          (reader.fillWhile wants).ended = true) := by
  rw [fillWhile_eq]
  cases wanted : wants reader.pending with
  | false => exact ⟨rfl, .inl ⟨wanted, rfl⟩⟩
  | true =>
      simp only [if_true]
      have fills := reader.fills_fill
      generalize reader.fill = result at fills
      have same := fills.remaining_eq
      cases fills with
      | ended closed samePending dry => exact ⟨same, .inr ⟨samePending ▸ wanted, closed⟩⟩
      | @chunk filled chunk isOpen still arrived added =>
          obtain ⟨kept, stops⟩ := fillWhile_spec wants filled
          rw [show reader.ended = filled.ended from isOpen.trans still.symm]
          exact ⟨kept.trans same, stops⟩
termination_by reader.arriving.length
decreasing_by simp [arrived]

/-- Handing out part of what is pending leaves the rest of it. -/
theorem remaining_skip (reader : PipeReader) (count : Nat) :
    ({ reader with position := reader.position + count } : PipeReader).remaining =
      reader.pending.drop count ++ reader.readable.flatten := by
  simp [remaining, pending, readable, List.drop_drop]

/-- A line comes to an end before the chunks do, or nothing is left to be read after it. -/
theorem readLine_spec (reader : PipeReader) (delimiter : UInt8) :
    match reader.readLine delimiter with
    | (some line, later) => FirstLine delimiter reader.remaining line later.remaining ∧
        (delimiter ∈ reader.remaining → later.ended = reader.ended)
    | (none, later) => reader.remaining = [] ∧ later.remaining = [] := by
  unfold readLine
  obtain ⟨same, stops⟩ := fillWhile_spec (fun pending => !pending.contains delimiter) reader
  generalize reader.fillWhile (fun pending => !pending.contains delimiter) = filled at same stops
  rw [← same]
  rcases stops with ⟨met, stays⟩ | ⟨unmet, closed⟩
  · have member : delimiter ∈ filled.pending := by simpa using met
    obtain ⟨line, rest, parts, absent⟩ := List.eq_append_cons_of_mem member
    have left : filled.pending.drop (line.length + 1) = rest := by
      rw [parts, ← List.drop_drop, List.drop_left]
      rfl
    dsimp only
    rw [parts, span_of_line absent]
    dsimp only
    rw [remaining_skip, left, remaining, parts, List.append_assoc, List.cons_append]
    exact ⟨.ended absent _, fun _ => stays⟩
  · have absent : delimiter ∉ filled.pending := by simpa using unmet
    dsimp only
    rw [span_of_notMem absent, remaining_of_ended closed]
    cases shape : filled.pending with
    | nil => exact ⟨rfl, by simp [remaining_of_ended closed, shape]⟩
    | cons byte more =>
        simp only [List.isEmpty_cons, Bool.false_eq_true, if_false]
        have nothing : ({ filled with position := filled.buffer.length } : PipeReader).remaining =
            [] := by
          simp [remaining_of_ended, closed, pending]
        rw [nothing, ← shape]
        exact ⟨.cut absent (by simp [shape]), fun member => absurd member absent⟩

/-- A line that is read is the first of what remained. -/
theorem firstLine_of_readLine {line : Bytes}
    (read : reader.readLine delimiter = (some line, later)) :
    FirstLine delimiter reader.remaining line later.remaining := by
  have spec := readLine_spec reader delimiter
  rw [read] at spec
  exact spec.1

/-- No line is read only where nothing remained. -/
theorem remaining_of_readLine (read : reader.readLine delimiter = (none, later)) :
    reader.remaining = [] ∧ later.remaining = [] := by
  have spec := readLine_spec reader delimiter
  rw [read] at spec
  exact spec

/-- As many bytes as asked for are handed out, or all of fewer bytes are kept. -/
theorem readExact_spec (reader : PipeReader) (count : Nat) :
    match reader.readExact count with
    | (some data, later) => data.length = count ∧ reader.remaining = data ++ later.remaining ∧
        later.ended = reader.ended
    | (none, later) => reader.remaining.length < count ∧ later.remaining = reader.remaining := by
  unfold readExact
  obtain ⟨same, stops⟩ := fillWhile_spec (fun pending => pending.length < count) reader
  generalize reader.fillWhile (fun pending => pending.length < count) = filled at same stops
  rw [← same]
  rcases stops with ⟨met, stays⟩ | ⟨unmet, closed⟩
  · have enough : count ≤ filled.pending.length := by simpa using met
    rw [if_pos enough]
    dsimp only
    rw [remaining_skip, ← List.append_assoc, List.take_append_drop]
    exact ⟨List.length_take_of_le enough, rfl, stays⟩
  · have short : filled.pending.length < count := by simpa using unmet
    rw [if_neg (Nat.not_le.mpr short), remaining_of_ended closed]
    exact ⟨short, remaining_of_ended closed⟩

/-- Bytes that are read are the first of what remained. -/
theorem remaining_of_readExact {count : Nat} {data : Bytes}
    (read : reader.readExact count = (some data, later)) :
    data.length = count ∧ reader.remaining = data ++ later.remaining := by
  have spec := readExact_spec reader count
  rw [read] at spec
  exact ⟨spec.1, spec.2.1⟩

/-- A read of more bytes than there are leaves all of them. -/
theorem remaining_of_readExact_none {count : Nat}
    (read : reader.readExact count = (none, later)) :
    reader.remaining.length < count ∧ later.remaining = reader.remaining := by
  have spec := readExact_spec reader count
  rw [read] at spec
  exact spec

private theorem fillWhile_true (isOpen : reader.ended = false) :
    reader.fillWhile (fun _ => true) =
      { buffer := reader.pending ++ reader.arriving.flatten, ended := true } := by
  induction arriving : reader.arriving generalizing reader with
  | nil => simp [fillWhile_eq, fill, isOpen, compact_eq, arriving]
  | cons chunk more ih =>
      let filled : PipeReader := { buffer := reader.pending ++ chunk, arriving := more }
      have once : reader.fill = (true, filled) := by
        simp [fill, isOpen, compact_eq, arriving, filled]
      rw [fillWhile_eq, if_pos rfl, once]
      dsimp only
      rw [ih rfl rfl]
      simp [filled, pending]

/-- Reading to the end gives everything that arrives. -/
theorem readAll_of_open (isOpen : reader.ended = false) (fresh : reader.pending = []) :
    reader.readAll =
      (reader.arriving.flatten, { buffer := reader.arriving.flatten, ended := true }) := by
  rw [readAll, fillWhile_true isOpen, fresh]
  rfl

/-- One round of dropping chunks. -/
theorem drain_eq (reader : PipeReader) :
    reader.drain =
      match reader.fill with
      | (true, filled) => drain { filled with position := filled.buffer.length }
      | (false, last) => last := by
  have fills := reader.fills_fill
  unfold drain
  rw [drain.loop.eq_def]
  generalize reader.fill = result at fills
  cases fills with
  | ended => rfl
  | chunk chunk isOpen still arrived added => rw [arrived]; rfl

/-- After a drain nothing is left to arrive, unless the end had been seen before. -/
theorem arriving_drain (reads : reader.ended = true → reader.arriving = []) :
    reader.drain.arriving = [] := by
  induction arriving : reader.arriving generalizing reader with
  | nil =>
      rw [drain_eq]
      cases closed : reader.ended <;> simp [fill, closed, compact_eq, arriving]
  | cons chunk more ih =>
      have isOpen : reader.ended = false := by
        cases closed : reader.ended with
        | false => rfl
        | true => cases arriving.symm.trans (reads closed)
      let filled : PipeReader := { buffer := reader.pending ++ chunk, arriving := more }
      have once : reader.fill = (true, filled) := by
        simp [fill, isOpen, compact_eq, arriving, filled]
      rw [drain_eq, once]
      exact ih (fun closed => nomatch closed) rfl

end PipeReader

end StoreAudit

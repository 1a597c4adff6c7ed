import StoreAudit.Text.Bytes

/-!
# Reading from a pipe

Bytes arrive in chunks of any size and are gathered in a buffer, from which they are handed out by
lines or by counts. A position in the buffer says how far they have been handed out; what lies
before it is dropped when the next chunk is read.
-/

namespace StoreAudit

/-- The reading end of a pipe. -/
structure PipeReader where
  /-- What has been read, up to what was dropped from its front. -/
  buffer : Bytes := []
  /-- How much of the buffer has been handed out. -/
  position : Nat := 0
  /-- Whether the end has been seen, after which nothing is read. -/
  ended : Bool := false
  /-- What has yet to be read, one chunk for each read. -/
  arriving : List Bytes := []
  deriving DecidableEq, Repr

namespace PipeReader

/-- The largest chunk of one read. -/
def chunkSize : Nat := 65536

/-- Bytes as the chunks in which they arrive. -/
def chunks (data : Bytes) : List Bytes := cut data.length data
where
  /-- Each chunk takes at least one byte, so the length bounds their number. -/
  cut : Nat → Bytes → List Bytes
    | 0, _ => []
    | left + 1, data =>
      if data.isEmpty then [] else data.take chunkSize :: cut left (data.drop chunkSize)

/-- What has been read and not handed out. -/
def pending (reader : PipeReader) : Bytes := reader.buffer.drop reader.position

/-- The reader without what has been handed out in its buffer. -/
def compact (reader : PipeReader) : PipeReader :=
  if 0 < reader.position then { reader with buffer := reader.pending, position := 0 } else reader

/-- Reads a chunk into the buffer, and says whether there was one. -/
def fill (reader : PipeReader) : Bool × PipeReader :=
  if reader.ended then (false, reader)
  else
    let compacted := reader.compact
    match compacted.arriving with
    | [] => (false, { compacted with ended := true })
    | chunk :: more =>
      (true, { compacted with buffer := compacted.buffer ++ chunk, arriving := more })

/-- Reads chunks, as long as what is pending does not do and there are any. -/
def fillWhile (wants : Bytes → Bool) (reader : PipeReader) : PipeReader :=
  loop reader.arriving.length reader
where
  /-- Each round but the last reads a chunk, so their number bounds the rounds. -/
  loop (left : Nat) (reader : PipeReader) : PipeReader :=
    if wants reader.pending then
      match reader.fill, left with
      | (true, filled), left + 1 => loop left filled
      | (_, filled), _ => filled
    else reader

/-- Hands out the bytes before the next delimiter, which is dropped, or what is left at the end. -/
def readLine (reader : PipeReader) (delimiter : UInt8) : Option Bytes × PipeReader :=
  let filled := reader.fillWhile fun pending => !pending.contains delimiter
  match filled.pending.span (· != delimiter) with
  | (line, _ :: _) => (some line, { filled with position := filled.position + (line.length + 1) })
  | (line, []) =>
    if line.isEmpty then (none, filled)
    else (some line, { filled with position := filled.buffer.length })

/-- Hands out a number of bytes; nothing if there are fewer. -/
def readExact (reader : PipeReader) (count : Nat) : Option Bytes × PipeReader :=
  let filled := reader.fillWhile fun pending => pending.length < count
  if count ≤ filled.pending.length then
    (some (filled.pending.take count), { filled with position := filled.position + count })
  else (none, filled)

/-- Reads to the end; the whole buffer is what was read. -/
def readAll (reader : PipeReader) : Bytes × PipeReader :=
  let filled := reader.fillWhile fun _ => true
  (filled.buffer, filled)

/-- Reads to the end and drops what is read; what was read before stays if nothing comes. -/
def drain (reader : PipeReader) : PipeReader := loop reader.arriving.length reader
where
  /-- Each round but the last reads a chunk, so their number bounds the rounds. -/
  loop (left : Nat) (reader : PipeReader) : PipeReader :=
    match reader.fill, left with
    | (true, filled), left + 1 => loop left { filled with position := filled.buffer.length }
    | (_, filled), _ => filled

private theorem flatten_cut (left : Nat) (data : Bytes) (enough : data.length ≤ left) :
    (chunks.cut left data).flatten = data := by
  induction left generalizing data with
  | zero =>
    have empty : data = [] := List.length_eq_zero_iff.mp (Nat.le_zero.mp enough)
    simp [chunks.cut, empty]
  | succ left ih =>
    cases data with
    | nil => simp [chunks.cut]
    | cons byte rest =>
      have shorter : ((byte :: rest).drop chunkSize).length ≤ left := by
        have positive : 0 < chunkSize := by decide
        simp only [List.length_drop, List.length_cons] at *
        omega
      simp only [chunks.cut, List.isEmpty_cons, Bool.false_eq_true, if_false, List.flatten_cons]
      rw [ih _ shorter, List.take_append_drop]

/-- Cutting bytes into chunks loses nothing. -/
@[simp] theorem flatten_chunks (data : Bytes) : (chunks data).flatten = data :=
  flatten_cut data.length data (Nat.le_refl _)

end PipeReader

end StoreAudit

import StoreAudit.Text.Bytes

/-!
# Cutting text at separators

`split` cuts at every separator byte but reports no part after a trailing one, so `join` undoes it
up to one trailing separator. `splitFirst` cuts once, at the first occurrence of a marker.
-/

namespace StoreAudit.Bytes

/-- The parts between separators; nothing follows a trailing separator, and empty text has no
parts. -/
def split (separator : UInt8) (text : Bytes) : List Bytes := collect [] text
where
  /-- The parts of the remaining text, the first of which continues the reversed `part`. -/
  collect (part : Bytes) : Bytes → List Bytes
    | [] => if part.isEmpty then [] else [part.reverse]
    | byte :: rest =>
      if byte = separator then part.reverse :: collect [] rest else collect (byte :: part) rest

/-- The parts with one separator between neighbours. -/
def join (separator : UInt8) (parts : List Bytes) : Bytes := List.intercalate [separator] parts

/-- The text before and after the first occurrence of `marker`. -/
def splitFirst (marker text : Bytes) : Option (Bytes × Bytes) := search [] text
where
  /-- The search from the current position, whose skipped bytes are in `before`, reversed. -/
  search (before : Bytes) : Bytes → Option (Bytes × Bytes)
    | [] => if marker.isEmpty then some (before.reverse, []) else none
    | byte :: rest =>
      if marker.isPrefixOf (byte :: rest) then
        some (before.reverse, (byte :: rest).drop marker.length)
      else search (byte :: before) rest

/-- Whether `marker` occurs in `text`. -/
def mentions (text marker : Bytes) : Bool := (splitFirst marker text).isSome

/-- Every line with the line separator after it. -/
def ofLines (lines : List Bytes) : Bytes :=
  lines.flatMap fun (line : Bytes) => line ++ [Ascii.newline]

@[simp] theorem split_nil (separator : UInt8) : split separator [] = [] := rfl

private theorem collect_eq (separator : UInt8) (part text : Bytes) :
    split.collect separator part text =
      match split separator text with
      | [] => if part.isEmpty then [] else [part.reverse]
      | first :: parts => (part.reverse ++ first) :: parts := by
  induction text generalizing part with
  | nil => rfl
  | cons byte rest ih =>
    by_cases cut : byte = separator
    · simp [split, split.collect, cut]
    · simp only [split, split.collect, cut, if_false]
      rw [ih (byte :: part), ih [byte]]
      cases split separator rest <;> simp

/-- A byte that is no separator joins the first part of what follows. -/
theorem split_cons (separator byte : UInt8) (rest : Bytes) :
    split separator (byte :: rest) =
      if byte = separator then [] :: split separator rest
      else match split separator rest with
        | [] => [[byte]]
        | first :: parts => (byte :: first) :: parts := by
  by_cases cut : byte = separator
  · simp [split, split.collect, cut]
  · simp only [split, split.collect, cut, if_false]
    rw [collect_eq]
    cases h : split separator rest <;> simp_all [split]

end StoreAudit.Bytes

import StoreAudit.PathFilter
import StoreAudit.Proofs.Text.Split

/-!
# Cutting and joining

Joining undoes a cut and a cut undoes joining, up to what stands at the end: the separator that ends
a text is lost by cutting it, and so is the empty text that ends a list by joining it
(`Bytes.split_and_join_undo`). Lists of patterns are joined texts, so they are read back.
-/

namespace StoreAudit

namespace Bytes

variable {separator : UInt8}

/-- All parts but the last have a separator after them. -/
theorem join_append_singleton (separator : UInt8) (parts : List Bytes) (last : Bytes) :
    join separator (parts ++ [last]) =
      (parts.flatMap fun part => part ++ [separator]) ++ last := by
  induction parts with
  | nil => simp [join]
  | cons first rest ih =>
      rw [List.cons_append, join_cons (by simp), ih]
      simp

/-- A cut loses no more than a separator at the end of the text. -/
theorem join_split (separator : UInt8) (text : Bytes) :
    join separator (split separator text) =
      if text.getLast? = some separator then text.dropLast else text := by
  by_cases member : separator ∈ text
  · obtain ⟨before, rest, whole, absent⟩ := List.eq_append_cons_of_mem member
    have shorter : rest.length < text.length := by
      rw [whole, List.length_append, List.length_cons]
      omega
    have further := join_split separator rest
    rw [whole, split_append_cons absent]
    rcases List.eq_nil_or_concat rest with rfl | ⟨front, last, rfl⟩
    · simp [join]
    · have parts : split separator (front.concat last) ≠ [] := mt split_eq_nil_iff.mp (by simp)
      rw [join_cons parts, further]
      simp only [List.concat_eq_append, List.getLast?_concat, List.dropLast_concat,
        ← List.cons_append, ← List.append_assoc]
      split
      · rfl
      · simp
  · have last : text.getLast? ≠ some separator := fun same =>
      member (List.mem_of_getLast? same)
    rw [if_neg last]
    by_cases empty : text = []
    · rw [empty, split_nil]
      rfl
    · rw [split_of_notMem empty member]
      simp [join]
termination_by text.length

/-- Joining texts that hold no separator loses no more than an empty text at the end. -/
theorem split_join_eq {parts : List Bytes} (whole : ∀ part ∈ parts, separator ∉ part) :
    split separator (join separator parts) =
      if parts.getLast? = some [] then parts.dropLast else parts := by
  split
  · rename_i last
    obtain ⟨front, rfl⟩ := List.getLast?_eq_some_iff.mp last
    rw [join_append_singleton, List.append_nil, List.dropLast_concat]
    exact split_flatMap fun part member => whole part (List.mem_append_left _ member)
  · rename_i last
    exact split_join whole last

end Bytes

/-- A pattern that can stand in a list: it is not empty, holds no comma, and has no blank at its
ends. -/
structure PathFilter.IsListed (pattern : Bytes) : Prop where
  nonempty : pattern ≠ []
  whole : Ascii.comma ∉ pattern
  starts : ∀ byte ∈ pattern.head?, Bytes.isBlank byte = false
  ends : ∀ byte ∈ pattern.getLast?, Bytes.isBlank byte = false

private theorem PathFilter.parseList_join {patterns : List Bytes}
    (listed : ∀ pattern ∈ patterns, IsListed pattern) :
    parseList (Bytes.join Ascii.comma patterns) = patterns := by
  have last : patterns.getLast? ≠ some [] := fun same =>
    (listed [] (List.mem_of_getLast? same)).nonempty rfl
  have trimmed : patterns.map Bytes.trim = patterns := by
    refine (List.map_congr_left fun pattern member => ?_).trans (List.map_id patterns)
    exact Bytes.trim_of_ends (listed pattern member).starts (listed pattern member).ends
  rw [parseList, Bytes.split_join (fun pattern member => (listed pattern member).whole) last,
    trimmed, List.filter_eq_self]
  intro pattern member
  simpa using (listed pattern member).nonempty

/-- **Cutting and joining undo each other.** Joining the parts of a text gives the text without the
separator at its end, if it has one there; cutting joined texts, none of which holds a separator,
gives them without the last one, if that is empty. No part holds a separator. And patterns that can
stand in a list are read back from the list. -/
theorem Bytes.split_and_join_undo (separator : UInt8) :
    (∀ text, join separator (split separator text) =
      if text.getLast? = some separator then text.dropLast else text) ∧
    (∀ parts : List Bytes, (∀ part ∈ parts, separator ∉ part) →
      split separator (join separator parts) =
        if parts.getLast? = some [] then parts.dropLast else parts) ∧
    (∀ text, ∀ part ∈ split separator text, separator ∉ part) ∧
    ∀ patterns : List Bytes, (∀ pattern ∈ patterns, PathFilter.IsListed pattern) →
      PathFilter.parseList (join Ascii.comma patterns) = patterns :=
  ⟨join_split separator, fun _ => split_join_eq, fun _ _ member => (infix_of_mem_split member).2,
    fun _ => PathFilter.parseList_join⟩

/-- Empty parts at both ends, of which the last is lost. -/
theorem Bytes.split_and_join_undo_of_commas :
    join Ascii.comma (split Ascii.comma (ascii ",a,,")) = ascii ",a," ∧
      (∀ part ∈ [[], ascii "a", [], []], Ascii.comma ∉ part) ∧
      split Ascii.comma (join Ascii.comma [[], ascii "a", [], []]) = [[], ascii "a", []] ∧
      (∀ pattern ∈ [ascii "*.psd", ascii "old art"], PathFilter.IsListed pattern) ∧
      PathFilter.parseList (join Ascii.comma [ascii "*.psd", ascii "old art"]) =
        [ascii "*.psd", ascii "old art"] := by
  have whole : ∀ part ∈ [[], ascii "a", [], []], Ascii.comma ∉ part := by decide
  have listed : ∀ pattern ∈ [ascii "*.psd", ascii "old art"], PathFilter.IsListed pattern := by
    have kept (letter : UInt8) (noBlank : isBlank letter = false) (byte : UInt8)
        (same : byte ∈ some letter) : isBlank byte = false := by
      rwa [← Option.some.inj same]
    rw [List.forall_mem_cons, List.forall_mem_singleton]
    exact ⟨⟨by decide, by decide, kept 42 rfl, kept 100 rfl⟩,
      ⟨by decide, by decide, kept 111 rfl, kept 116 rfl⟩⟩
  obtain ⟨joined, cut, -, read⟩ := Bytes.split_and_join_undo Ascii.comma
  exact ⟨(joined _).trans (by decide), whole, (cut _ whole).trans (by decide), listed,
    read _ listed⟩

end StoreAudit

import StoreAudit.Proofs.Text.Split

/-!
# Texts within texts

Texts that are written one after the other, with a separator after each, are read back as what they
are cut into, which are more parts if a text holds a separator (`Bytes.split_flatMap_eq_iff`). And a
stretch of a text that lacks a byte lies on one side of it (`Bytes.infix_append_cons`).
-/

namespace StoreAudit.Bytes

variable {separator : UInt8} {text : Bytes}

private theorem length_split_append_singleton (separator : UInt8) (text : Bytes) :
    (split separator (text ++ [separator])).length = text.count separator + 1 := by
  induction text with
  | nil => simp [split_cons]
  | cons byte rest ih =>
      rw [List.cons_append, split_cons, List.count_cons]
      by_cases cut : byte = separator
      · simp [cut, ih]
      · have apart : (byte == separator) = false := by simpa using cut
        simp only [cut, if_false, apart, Bool.false_eq_true]
        cases shape : split separator (rest ++ [separator]) with
        | nil => simp [shape] at ih
        | cons first parts =>
            rw [shape] at ih
            exact ih

/-- A text with a separator in it is cut there, whatever stands before. -/
theorem split_append_separator (before after : Bytes) :
    split separator (before ++ separator :: after) =
      split separator (before ++ [separator]) ++ split separator after := by
  induction before with
  | nil => simp [split_cons]
  | cons byte rest ih =>
      rw [List.cons_append, List.cons_append, split_cons, split_cons, ih]
      by_cases cut : byte = separator
      · simp only [cut, if_true, List.cons_append]
      · simp only [cut, if_false]
        have parts : (split separator (rest ++ [separator])).length ≠ 0 := by
          rw [length_split_append_singleton]
          exact Nat.succ_ne_zero _
        cases shape : split separator (rest ++ [separator]) with
        | nil => exact absurd (by rw [shape]; rfl) parts
        | cons first parts => rfl

/-- What follows a separator leaves the parts before it alone. -/
theorem split_subset_append (separator : UInt8) (text rest : Bytes) :
    split separator text ⊆ split separator (text ++ separator :: rest) := by
  rw [split_append_separator]
  apply List.subset_append_of_subset_left
  by_cases ends : text.getLast? = some separator
  · obtain ⟨before, rfl⟩ := List.getLast?_eq_some_iff.mp ends
    rw [List.append_assoc, List.singleton_append, split_append_separator before [separator]]
    exact List.subset_append_left _ _
  · by_cases empty : text = []
    · rw [empty, split_nil]
      exact List.nil_subset _
    · rw [split_append_singleton empty ends]
      exact List.Subset.refl _

/-- Two starts of a text that go up to its first separator are one. -/
theorem eq_of_starts {first second : Bytes} (firstWhole : separator ∉ first)
    (secondWhole : separator ∉ second) (starts : first ++ [separator] <+: text)
    (alsoStarts : second ++ [separator] <+: text) : first = second := by
  obtain ⟨after, parts⟩ := starts
  obtain ⟨rest, others⟩ := alsoStarts
  have cutFirst : splitFirst [separator] text = some (first, after) :=
    splitFirst_eq_some_iff.mpr ⟨by simp [← parts], firstWhole⟩
  have cutSecond : splitFirst [separator] text = some (second, rest) :=
    splitFirst_eq_some_iff.mpr ⟨by simp [← others], secondWhole⟩
  rw [cutFirst] at cutSecond
  exact (Prod.mk.inj (Option.some.inj cutSecond)).1

/-- The first part of a text that ends with a separator is what stands before the first one, and the
others are the stretches between two of them. -/
theorem split_append_singleton_eq_cons (separator : UInt8) (text : Bytes) :
    ∃ first parts, split separator (text ++ [separator]) = first :: parts ∧
      separator ∉ first ∧ first ++ [separator] <+: text ++ [separator] ∧
      ∀ part, part ∈ parts ↔
        separator ∉ part ∧ separator :: (part ++ [separator]) <:+: text ++ [separator] := by
  induction text with
  | nil =>
      refine ⟨[], [], by simp [split_cons], by simp, by simp, fun part => ?_⟩
      simp only [List.not_mem_nil, false_iff, not_and]
      intro _ inside
      have long := inside.length_le
      simp at long
  | cons byte rest ih =>
      obtain ⟨first, parts, shape, whole, starts, others⟩ := ih
      rw [List.cons_append, split_cons, shape]
      by_cases cut : byte = separator
      · subst cut
        refine ⟨[], first :: parts, by rw [if_pos rfl], List.not_mem_nil, ⟨_, rfl⟩, fun part => ?_⟩
        rw [List.mem_cons, others, List.infix_cons_iff, List.cons_prefix_cons]
        constructor
        · rintro (rfl | ⟨partWhole, inside⟩)
          · exact ⟨whole, .inl ⟨rfl, starts⟩⟩
          · exact ⟨partWhole, .inr inside⟩
        · rintro ⟨partWhole, ⟨-, partStarts⟩ | inside⟩
          · exact .inl (eq_of_starts partWhole whole partStarts starts)
          · exact .inr ⟨partWhole, inside⟩
      · refine ⟨byte :: first, parts, by rw [if_neg cut], ?_, ?_, fun part => ?_⟩
        · simpa [Ne.symm cut] using whole
        · rw [List.cons_append, List.cons_prefix_cons]
          exact ⟨rfl, starts⟩
        · rw [others, List.infix_cons_iff, List.cons_prefix_cons]
          simp [Ne.symm cut]

/-- Texts with a separator after each are cut one by one. -/
theorem split_flatMap_eq (separator : UInt8) (texts : List Bytes) :
    split separator (texts.flatMap fun text => text ++ [separator]) =
      texts.flatMap fun text => split separator (text ++ [separator]) := by
  induction texts with
  | nil => rfl
  | cons first rest ih =>
      rw [List.flatMap_cons, List.flatMap_cons, List.append_assoc, List.singleton_append,
        split_append_separator, ih]

/-- Every separator in one of the texts makes one more part. -/
theorem length_split_flatMap (separator : UInt8) (texts : List Bytes) :
    (split separator (texts.flatMap fun text => text ++ [separator])).length =
      texts.length + (texts.flatMap id).count separator := by
  induction texts with
  | nil => rfl
  | cons first rest ih =>
      rw [List.flatMap_cons, List.append_assoc, List.singleton_append, split_append_separator,
        List.length_append, ih, length_split_append_singleton, List.flatMap_cons,
        List.count_append, List.length_cons, id]
      omega

/-- Texts with a separator after each are the parts again only if none of them holds one. -/
theorem split_flatMap_eq_iff {separator : UInt8} {texts : List Bytes} :
    split separator (texts.flatMap fun text => text ++ [separator]) = texts ↔
      ∀ text ∈ texts, separator ∉ text := by
  refine ⟨fun same text member holds => ?_, split_flatMap⟩
  have lengths := congrArg List.length same
  rw [length_split_flatMap, Nat.add_eq_left, List.count_eq_zero] at lengths
  exact lengths (List.mem_flatMap.mpr ⟨text, member, holds⟩)

variable {stretch first second : Bytes}

/-- A beginning that lacks some byte ends before it. -/
theorem prefix_of_prefix_append_cons {byte : UInt8} (absent : byte ∉ stretch)
    (starts : stretch <+: first ++ byte :: second) : stretch <+: first := by
  have whole : first ++ [byte] <+: first ++ byte :: second := ⟨second, by simp⟩
  rcases Nat.lt_or_ge first.length stretch.length with long | fits
  · have reaches : first ++ [byte] <+: stretch := by
      apply List.prefix_of_prefix_length_le whole starts
      rw [List.length_append]
      exact long
    exact absurd (reaches.subset (by simp)) absent
  · exact List.prefix_of_prefix_length_le starts (List.prefix_append _ _) fits

/-- A stretch that lacks some byte lies before or after it. -/
theorem infix_append_cons {byte : UInt8} (absent : byte ∉ stretch) :
    stretch <:+: first ++ byte :: second ↔ stretch <:+: first ∨ stretch <:+: second := by
  induction first with
  | nil =>
      rw [List.nil_append, List.infix_cons_iff]
      constructor
      · rintro (starts | inside)
        · have nothing : stretch <+: [] := prefix_of_prefix_append_cons absent starts
          exact .inl nothing.isInfix
        · exact .inr inside
      · rintro (inside | inside)
        · rw [List.infix_nil.mp inside]
          exact .inl List.nil_prefix
        · exact .inr inside
  | cons head rest ih =>
      rw [List.cons_append, List.infix_cons_iff, ih, List.infix_cons_iff, or_assoc]
      refine or_congr_left ⟨fun starts => ?_, fun starts => ?_⟩
      · rw [← List.cons_append] at starts
        exact prefix_of_prefix_append_cons absent starts
      · exact starts.trans (List.prefix_append (head :: rest) _)

/-- A stretch does not reach back into what lacks its first byte. -/
theorem infix_append_of_head {head : UInt8} (starts : stretch.head? = some head)
    (absent : head ∉ first) : stretch <:+: first ++ second ↔ stretch <:+: second := by
  induction first with
  | nil => rfl
  | cons byte rest ih =>
      rw [List.mem_cons, not_or] at absent
      rw [List.cons_append, List.infix_cons_iff, ih absent.2]
      refine or_iff_right fun leads => ?_
      cases stretch with
      | nil => cases starts
      | cons other more =>
          obtain rfl : other = head := Option.some.inj starts
          exact absent.1 (List.cons_prefix_cons.mp leads).1

/-- A stretch does not reach on into what lacks its last byte. -/
theorem infix_append_of_getLast {last : UInt8} (ends : stretch.getLast? = some last)
    (absent : last ∉ second) : stretch <:+: first ++ second ↔ stretch <:+: first := by
  have starts : stretch.reverse.head? = some last := by rwa [List.head?_reverse]
  have absentReversed : last ∉ second.reverse := by rwa [List.mem_reverse]
  rw [← List.reverse_infix, List.reverse_append, infix_append_of_head starts absentReversed,
    List.reverse_infix]

end StoreAudit.Bytes

import StoreAudit.Text.Split

/-!
# Where text is cut

A cut at the first marker and a cut at every separator, each said by concatenation, what trimming
leaves, which is a stretch of the text, and what stands before the first zero byte.
-/

namespace StoreAudit.Bytes

/-- A text is cut at the first place where a marker stands. -/
structure FirstCut (marker text before after : Bytes) : Prop where
  whole : text = before ++ marker ++ after
  first : ∀ sooner later, text = sooner ++ marker ++ later → before.length ≤ sooner.length

/-- A text that does not begin with the marker is cut where what follows its first byte is. -/
theorem firstCut_cons_iff {marker text before after : Bytes} {byte : UInt8}
    (apart : ¬ marker <+: byte :: text) :
    FirstCut marker (byte :: text) before after ↔
      ∃ more, before = byte :: more ∧ FirstCut marker text more after := by
  have skips {sooner later : Bytes} (cut : byte :: text = sooner ++ marker ++ later) :
      ∃ more, sooner = byte :: more ∧ text = more ++ marker ++ later := by
    cases sooner with
    | nil => exact absurd ⟨later, by simpa using cut.symm⟩ apart
    | cons head more =>
        obtain ⟨rfl, rest⟩ := List.cons.inj cut
        exact ⟨more, rfl, rest⟩
  constructor
  · rintro ⟨whole, first⟩
    obtain ⟨more, rfl, rest⟩ := skips whole
    refine ⟨more, rfl, rest, fun sooner later cut => ?_⟩
    exact Nat.le_of_succ_le_succ (first (byte :: sooner) later (by rw [cut]; rfl))
  · rintro ⟨more, rfl, whole, first⟩
    refine ⟨by rw [whole]; rfl, fun sooner later cut => ?_⟩
    obtain ⟨further, rfl, rest⟩ := skips cut
    exact Nat.succ_le_succ (first further later rest)

/-- A text that begins with the marker is cut at once. -/
theorem firstCut_append_iff {marker rest before after : Bytes} :
    FirstCut marker (marker ++ rest) before after ↔ before = [] ∧ rest = after := by
  constructor
  · rintro ⟨whole, first⟩
    obtain rfl : before = [] := List.length_eq_zero_iff.mp (Nat.le_zero.mp (first [] rest rfl))
    exact ⟨rfl, List.append_cancel_left whole⟩
  · rintro ⟨rfl, rfl⟩
    exact ⟨rfl, fun _ _ _ => Nat.zero_le _⟩

private theorem search_eq (marker skipped text : Bytes) :
    splitFirst.search marker skipped text =
      (splitFirst marker text).map fun (before, after) => (skipped.reverse ++ before, after) := by
  induction text generalizing skipped with
  | nil => cases marker <;> simp [splitFirst, splitFirst.search]
  | cons byte rest ih =>
      rw [splitFirst, splitFirst.search, splitFirst.search]
      split
      · simp
      · rw [ih (byte :: skipped), ih [byte], Option.map_map]
        simp [Function.comp_def]

/-- Where no marker stands at once, a first byte stands before the cut of what follows. -/
theorem splitFirst_cons (marker : Bytes) (byte : UInt8) (rest : Bytes) :
    splitFirst marker (byte :: rest) =
      if marker.isPrefixOf (byte :: rest) then some ([], (byte :: rest).drop marker.length)
      else (splitFirst marker rest).map fun (before, after) => (byte :: before, after) := by
  rw [splitFirst, splitFirst.search, search_eq]
  rfl

/-- A text is cut where its first marker stands. -/
theorem splitFirst_eq_some_iff_firstCut {marker text before after : Bytes} :
    splitFirst marker text = some (before, after) ↔ FirstCut marker text before after := by
  induction text generalizing before with
  | nil =>
      by_cases empty : marker = []
      · have cut := @firstCut_append_iff [] []
        simp only [List.nil_append] at cut
        simp [splitFirst, splitFirst.search, empty, cut, eq_comm]
      · simp only [splitFirst, splitFirst.search, List.isEmpty_iff, empty, if_false, reduceCtorEq,
          false_iff]
        rintro ⟨whole, -⟩
        simp [empty] at whole
  | cons byte rest ih =>
      rw [splitFirst_cons]
      by_cases here : marker <+: byte :: rest
      · rw [if_pos (List.isPrefixOf_iff_prefix.mpr here)]
        obtain ⟨more, whole⟩ := here
        simp [← whole, firstCut_append_iff, eq_comm]
      · rw [if_neg (by rwa [List.isPrefixOf_iff_prefix]), firstCut_cons_iff here,
          Option.map_eq_some_iff]
        constructor
        · rintro ⟨⟨more, last⟩, cut, same⟩
          cases same
          exact ⟨more, rfl, ih.mp cut⟩
        · rintro ⟨more, rfl, cut⟩
          exact ⟨(more, after), ih.mpr cut, rfl⟩

private theorem firstCut_singleton_iff {marker : UInt8} {text before after : Bytes} :
    FirstCut [marker] text before after ↔
      text = before ++ marker :: after ∧ marker ∉ before := by
  constructor
  · rintro ⟨whole, first⟩
    refine ⟨by simpa using whole, fun member => ?_⟩
    obtain ⟨sooner, later, rfl⟩ := List.append_of_mem member
    have longer := first sooner (later ++ marker :: after) (by simpa using whole)
    rw [List.length_append, List.length_cons] at longer
    omega
  · rintro ⟨rfl, absent⟩
    refine ⟨by simp, fun sooner later cut => ?_⟩
    rw [List.append_assoc, List.append_eq_append_iff] at cut
    rcases cut with ⟨between, rfl, -⟩ | ⟨between, rfl, rest⟩
    · simp
    · cases between with
      | nil => simp
      | cons head more =>
          obtain ⟨rfl, -⟩ := List.cons.inj rest
          exact absurd (by simp) absent

/-- A text is cut where its first marker of a single byte stands. -/
theorem splitFirst_eq_some_iff {marker : UInt8} {text before after : Bytes} :
    splitFirst [marker] text = some (before, after) ↔
      text = before ++ marker :: after ∧ marker ∉ before :=
  splitFirst_eq_some_iff_firstCut.trans firstCut_singleton_iff

/-- The first cut is at the first marker. -/
theorem splitFirst_append_cons {marker : UInt8} {before : Bytes} (absent : marker ∉ before)
    (after : Bytes) :
    splitFirst [marker] (before ++ marker :: after) = some (before, after) :=
  splitFirst_eq_some_iff.mpr ⟨rfl, absent⟩

private theorem isSome_search {marker skipped text : Bytes} :
    (splitFirst.search marker skipped text).isSome = true ↔ marker <:+: text := by
  induction text generalizing skipped with
  | nil => cases marker <;> simp [splitFirst.search]
  | cons byte rest ih =>
      rw [splitFirst.search, List.infix_cons_iff]
      by_cases here : marker.isPrefixOf (byte :: rest) = true
      · simp [here, List.isPrefixOf_iff_prefix.mp here]
      · have apart : ¬ marker <+: byte :: rest := fun starts =>
          here (List.isPrefixOf_iff_prefix.mpr starts)
        simp only [here, Bool.false_eq_true, if_false, ih, apart, false_or]

/-- A marker is mentioned where it is a stretch of the text. -/
theorem mentions_iff {text marker : Bytes} : text.mentions marker = true ↔ marker <:+: text :=
  isSome_search

/-- A part that holds no separator comes off at the front. -/
theorem split_append_cons {separator : UInt8} {first : Bytes} (whole : separator ∉ first)
    (rest : Bytes) :
    split separator (first ++ separator :: rest) = first :: split separator rest := by
  induction first with
  | nil => rw [List.nil_append, split_cons, if_pos rfl]
  | cons byte more ih =>
      have keep : byte ≠ separator := fun same => whole (same ▸ List.mem_cons_self)
      rw [List.cons_append, split_cons, if_neg keep,
        ih fun member => whole (List.mem_cons_of_mem _ member)]

/-- What is left of texts with a separator after each, when they hold none, are the texts. -/
theorem split_flatMap {separator : UInt8} {parts : List Bytes}
    (whole : ∀ part ∈ parts, separator ∉ part) :
    split separator (parts.flatMap fun part => part ++ [separator]) = parts := by
  induction parts with
  | nil => rfl
  | cons first rest ih =>
      obtain ⟨wholeFirst, wholeRest⟩ := List.forall_mem_cons.mp whole
      rw [List.flatMap_cons, List.append_assoc, List.singleton_append,
        split_append_cons wholeFirst, ih wholeRest]

/-- A separator at the end of a text makes no further part. -/
theorem split_append_singleton {separator : UInt8} {text : Bytes} (nonempty : text ≠ [])
    (last : text.getLast? ≠ some separator) :
    split separator (text ++ [separator]) = split separator text := by
  induction text with
  | nil => exact absurd rfl nonempty
  | cons byte rest ih =>
      cases rest with
      | nil =>
          have keep : byte ≠ separator := by simpa using last
          simp [split_cons, keep]
      | cons next others =>
          have further := ih (by simp) (by simpa using last)
          rw [List.cons_append, split_cons, split_cons, further]

/-- A text without separators is one part. -/
theorem split_of_notMem {separator : UInt8} {text : Bytes} (nonempty : text ≠ [])
    (whole : separator ∉ text) : split separator text = [text] := by
  have last : text.getLast? ≠ some separator := fun same =>
    whole (List.mem_of_getLast? same)
  rw [← split_append_singleton nonempty last, split_append_cons whole, split_nil]

/-- Only the empty text has no parts. -/
theorem split_eq_nil_iff {separator : UInt8} {text : Bytes} :
    split separator text = [] ↔ text = [] := by
  refine ⟨fun shape => ?_, fun empty => by rw [empty, split_nil]⟩
  cases text with
  | nil => rfl
  | cons byte rest =>
      rw [split_cons] at shape
      split at shape
      · cases shape
      · split at shape <;> cases shape

/-- The first part ends at the first separator or, without one, with the text. -/
theorem split_eq_cons_iff {separator : UInt8} {text first : Bytes} {parts : List Bytes} :
    split separator text = first :: parts ↔ separator ∉ first ∧
      ((∃ rest, text = first ++ separator :: rest ∧ split separator rest = parts) ∨
        text = first ∧ first ≠ [] ∧ parts = []) := by
  constructor
  · intro shape
    by_cases member : separator ∈ text
    · obtain ⟨before, rest, rfl, absent⟩ := List.eq_append_cons_of_mem member
      rw [split_append_cons absent] at shape
      obtain ⟨rfl, rfl⟩ := List.cons.inj shape
      exact ⟨absent, .inl ⟨rest, rfl, rfl⟩⟩
    · have nonempty : text ≠ [] := by
        rintro rfl
        cases shape
      rw [split_of_notMem nonempty member] at shape
      obtain ⟨rfl, rfl⟩ := List.cons.inj shape
      exact ⟨member, .inr ⟨rfl, nonempty, rfl⟩⟩
  · rintro ⟨absent, ⟨rest, rfl, rfl⟩ | ⟨rfl, nonempty, rfl⟩⟩
    · exact split_append_cons absent rest
    · exact split_of_notMem nonempty absent

/-- A text with two parts or more is cut after its first part. -/
theorem split_eq_cons_cons_iff {separator : UInt8} {text first second : Bytes}
    {parts : List Bytes} :
    split separator text = first :: second :: parts ↔ separator ∉ first ∧
      ∃ rest, text = first ++ separator :: rest ∧ split separator rest = second :: parts := by
  simp [split_eq_cons_iff]

/-- The only part of a text can have a separator after it. -/
theorem split_eq_singleton_iff {separator : UInt8} {text part : Bytes} (nonempty : part ≠ []) :
    split separator text = [part] ↔ separator ∉ part ∧
      ∃ trailer, (trailer = [] ∨ trailer = [separator]) ∧ text = part ++ trailer := by
  rw [split_eq_cons_iff]
  refine and_congr_right fun _ => ⟨?_, ?_⟩
  · rintro (⟨rest, rfl, none⟩ | ⟨rfl, -, -⟩)
    · exact ⟨[separator], .inr rfl, by rw [split_eq_nil_iff.mp none]⟩
    · exact ⟨[], .inl rfl, (List.append_nil _).symm⟩
  · rintro ⟨trailer, rfl | rfl, rfl⟩
    · exact .inr ⟨List.append_nil _, nonempty, rfl⟩
    · exact .inl ⟨[], rfl, split_nil separator⟩

/-- A part is put before the others with a separator. -/
theorem join_cons {separator : UInt8} {first : Bytes} {rest : List Bytes} (more : rest ≠ []) :
    join separator (first :: rest) = first ++ separator :: join separator rest := by
  obtain ⟨next, others, rfl⟩ := List.exists_cons_of_ne_nil more
  simp [join, List.intercalate, List.intersperse]

/-- Texts that hold no separators are what their join is cut into, unless the last one is empty. -/
theorem split_join {separator : UInt8} {parts : List Bytes}
    (whole : ∀ part ∈ parts, separator ∉ part) (last : parts.getLast? ≠ some []) :
    split separator (join separator parts) = parts := by
  induction parts with
  | nil => rfl
  | cons first rest ih =>
      obtain ⟨wholeFirst, wholeRest⟩ := List.forall_mem_cons.mp whole
      cases rest with
      | nil =>
          have nonempty : first ≠ [] := fun empty => last (by rw [empty]; rfl)
          simpa [join] using split_of_notMem nonempty wholeFirst
      | cons next others =>
          have further := ih wholeRest (by simpa using last)
          rw [join_cons (by simp), split_append_cons wholeFirst, further]

/-- Every part is a stretch of the text without separators. -/
theorem infix_of_mem_split {separator : UInt8} {text part : Bytes}
    (member : part ∈ split separator text) : part <:+: text ∧ separator ∉ part := by
  -- `split` begins anew after the first separator, so the induction is on the length.
  induction size : text.length using Nat.strongRecOn generalizing text with
  | _ length ih =>
      by_cases cuts : separator ∈ text
      · obtain ⟨before, rest, rfl, absent⟩ := List.eq_append_cons_of_mem cuts
        rw [split_append_cons absent] at member
        rcases List.mem_cons.mp member with rfl | later
        · exact ⟨(List.prefix_append _ _).isInfix, absent⟩
        · have shorter : rest.length < length := by
            rw [← size, List.length_append, List.length_cons]
            omega
          obtain ⟨inside, whole⟩ := ih rest.length shorter later rfl
          have ends : rest <:+ before ++ separator :: rest :=
            (List.suffix_cons separator rest).trans (List.suffix_append before _)
          exact ⟨inside.trans ends.isInfix, whole⟩
      · have nonempty : text ≠ [] := by
          rintro rfl
          cases member
        rw [split_of_notMem nonempty cuts] at member
        obtain rfl := List.mem_singleton.mp member
        exact ⟨List.infix_refl part, cuts⟩

/-- A cut at every separator shows what `split` leaves out: an empty part at the end, where the text
ends with a separator or is empty. -/
theorem splitOn_eq_append (separator : UInt8) (text : Bytes) :
    text.splitOn separator = split separator text ++
      if text = [] ∨ text.getLast? = some separator then [[]] else [] := by
  induction text with
  | nil => rfl
  | cons byte rest ih =>
      rw [List.splitOn] at ih ⊢
      rw [List.splitOnP_cons_eq_if_modifyHead, split_cons, ih]
      cases rest with
      | nil => by_cases cut : byte = separator <;> simp [cut]
      | cons next others =>
          by_cases cut : byte = separator
          · simp [cut]
          · rw [if_neg (by simpa using cut), if_neg cut]
            cases parts : split separator (next :: others) with
            | nil => cases split_eq_nil_iff.mp parts
            | cons first more => simp

/-- With a separator after the text nothing is left out. -/
theorem split_append_eq_splitOn (separator : UInt8) (text : Bytes) :
    split separator (text ++ [separator]) = text.splitOn separator := by
  have parts := splitOn_eq_append separator (text ++ [separator])
  have more : (text ++ [separator]).splitOn separator = text.splitOn separator ++ [[]] := by
    simp [List.splitOn, List.splitOnP_append_cons]
  rw [if_pos (by simp), more] at parts
  exact (List.append_cancel_right parts).symm

/-- Two ways to split differ at most in an empty part at the end. -/
theorem splitOn_eq (separator : UInt8) (text : Bytes) :
    text.splitOn separator = split separator text ∨
      text.splitOn separator = split separator text ++ [[]] := by
  rw [splitOn_eq_append]
  split
  · exact .inr rfl
  · exact .inl (List.append_nil _)

/-- The parts with something in them are the same. -/
theorem filter_splitOn (separator : UInt8) (text : Bytes) :
    (text.splitOn separator).filter (!·.isEmpty) =
      (split separator text).filter (!·.isEmpty) := by
  rcases splitOn_eq separator text with same | same
  · rw [same]
  · simp [same]

/-- Two ways to split give the same parts that are not empty. -/
theorem mem_splitOn_iff {separator : UInt8} {text part : Bytes} (nonempty : part ≠ []) :
    part ∈ text.splitOn separator ↔ part ∈ split separator text := by
  rcases splitOn_eq separator text with same | same
  · rw [same]
  · simp [same, nonempty]

/-- Separators of two kinds made one. -/
theorem splitOn_map_ite (separator other : UInt8) (text : Bytes) :
    (text.map fun byte => if byte = other then separator else byte).splitOn separator =
      text.splitOnP fun byte => byte == separator || byte == other := by
  induction text with
  | nil => rfl
  | cons byte rest ih =>
      rw [List.splitOn] at ih ⊢
      rw [List.map_cons, List.splitOnP_cons_eq_if_modifyHead, List.splitOnP_cons_eq_if_modifyHead,
        ih]
      by_cases same : byte = other
      · simp [same]
      · simp [same]

/-- What is trimmed is a part of the text. -/
theorem trim_infix (text : Bytes) : text.trim <:+: text := by
  unfold trim
  have back : ((text.dropWhile isBlank).reverse.dropWhile isBlank).reverse <+:
      text.dropWhile isBlank := by
    rw [← List.reverse_suffix, List.reverse_reverse]
    exact List.dropWhile_suffix _
  exact back.isInfix.trans (List.dropWhile_suffix _).isInfix

/-- Blanks after a text that begins and ends without one are all that is trimmed. -/
theorem trim_append_blanks {text blanks : Bytes} {first last : UInt8}
    (starts : text.head? = some first) (ends : text.getLast? = some last)
    (firstKept : isBlank first = false) (lastKept : isBlank last = false)
    (blank : ∀ byte ∈ blanks, isBlank byte = true) : (text ++ blanks).trim = text := by
  have front : (text ++ blanks).dropWhile isBlank = text ++ blanks := by
    cases text with
    | nil => cases starts
    | cons byte rest =>
        obtain rfl : byte = first := Option.some.inj starts
        simp [firstKept]
  have back : (blanks.reverse ++ text.reverse).dropWhile isBlank = text.reverse := by
    rw [List.dropWhile_append_of_pos (by simpa using blank)]
    have head : text.reverse.head? = some last := by rw [List.head?_reverse, ends]
    cases shape : text.reverse with
    | nil =>
        rw [shape] at head
        cases head
    | cons byte rest =>
        rw [shape] at head
        obtain rfl : byte = last := Option.some.inj head
        simp [lastKept]
  rw [trim, front, List.reverse_append, back, List.reverse_reverse]

/-- A text without blanks at its ends stays as it is. -/
theorem trim_of_ends {text : Bytes} (starts : ∀ byte ∈ text.head?, isBlank byte = false)
    (ends : ∀ byte ∈ text.getLast?, isBlank byte = false) : text.trim = text := by
  cases text with
  | nil => rfl
  | cons first rest =>
      obtain ⟨last, isLast⟩ : ∃ last, (first :: rest).getLast? = some last :=
        ⟨_, List.getLast?_eq_some_getLast (List.cons_ne_nil first rest)⟩
      have trimmed : trim (first :: rest ++ []) = first :: rest :=
        trim_append_blanks rfl isLast (starts first rfl) (ends last isLast)
          fun _ impossible => nomatch impossible
      rwa [List.append_nil] at trimmed

/-- A text without a zero byte is not cut off. -/
theorem beforeNul_of_notMem {text : Bytes} (whole : 0 ∉ text) : text.beforeNul = text := by
  induction text with
  | nil => rfl
  | cons byte rest ih =>
      have nonzero : byte ≠ 0 := fun same => whole (same ▸ List.mem_cons_self)
      have further := ih fun member => whole (List.mem_cons_of_mem _ member)
      rw [beforeNul] at further ⊢
      rw [List.takeWhile_cons_of_pos (by simpa using nonzero), further]

/-- What is cut off at a zero byte has none. -/
theorem nul_notMem_beforeNul (text : Bytes) : 0 ∉ text.beforeNul := by
  induction text with
  | nil => exact List.not_mem_nil
  | cons byte rest ih =>
      by_cases zero : byte = 0
      · rw [beforeNul, List.takeWhile_cons_of_neg (by simpa using zero)]
        exact List.not_mem_nil
      · rw [beforeNul] at ih ⊢
        rw [List.takeWhile_cons_of_pos (by simpa using zero), List.mem_cons, not_or]
        exact ⟨Ne.symm zero, ih⟩

/-- What follows a zero byte is not seen. -/
theorem beforeNul_append_of_mem {text : Bytes} (cut : 0 ∈ text) (more : Bytes) :
    (text ++ more).beforeNul = text.beforeNul := by
  induction text with
  | nil => cases cut
  | cons byte rest ih =>
      by_cases zero : byte = 0
      · subst zero
        rfl
      · have further := ih ((List.mem_cons.mp cut).resolve_left (Ne.symm zero))
        rw [beforeNul, beforeNul] at further ⊢
        rw [List.cons_append, List.takeWhile_cons_of_pos (by simpa using zero),
          List.takeWhile_cons_of_pos (by simpa using zero), further]

end StoreAudit.Bytes

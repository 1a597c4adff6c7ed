import Mathlib.Data.List.Forall2
import StoreAudit.Glob.Basic
import StoreAudit.Proofs.Text.Split

/-!
# What shell patterns match

A pattern without brackets and backslashes matches a text if the two line up: every literal byte
with itself, every question mark with one byte, every star with a run of bytes (`Aligned`). The
matcher does not search for such an alignment. It tries the part before the next star at one place
after the other and keeps the first at which it fits. That is enough (`place_leads_iff`), because a
later place leaves less to the next star, and the bytes between the two places are bytes that a star
may take (`admitted_between`): a part that holds a slash fits at no two places of a stretch without
one. So the matcher accepts a text exactly if it lines up (`accepts_iff`).
-/

namespace StoreAudit.Glob

/-- A pattern of literal bytes, question marks and stars. -/
def IsPlain (pattern : Bytes) : Prop := ∀ byte ∈ pattern, byte ≠ 91 ∧ byte ≠ 92

instance (pattern : Bytes) : Decidable (IsPlain pattern) :=
  List.decidableBAll (fun byte => byte ≠ 91 ∧ byte ≠ 92) pattern

/-- How a pattern of literal bytes, `?`, `*` and `**` lines up with a text. A question mark stands
for a byte that `single` admits and a star for a run of such bytes; two stars next to each other may
also stand for a run of bytes that `double` admits. -/
inductive Aligned (single double : SlashRule) : Bytes → Bytes → Prop where
  | nil : Aligned single double [] []
  | literal {byte : UInt8} {pattern text : Bytes} (noStar : byte ≠ 42) (noQuestion : byte ≠ 63) :
      Aligned single double pattern text → Aligned single double (byte :: pattern) (byte :: text)
  | question {byte : UInt8} {pattern text : Bytes} (admitted : single.admits byte = true) :
      Aligned single double pattern text → Aligned single double (63 :: pattern) (byte :: text)
  | star {run pattern text : Bytes} (admitted : ∀ byte ∈ run, single.admits byte = true) :
      Aligned single double pattern text → Aligned single double (42 :: pattern) (run ++ text)
  | doubleStar {run pattern text : Bytes} (admitted : ∀ byte ∈ run, double.admits byte = true) :
      Aligned single double pattern text →
        Aligned single double (42 :: 42 :: pattern) (run ++ text)

variable {rule single double : SlashRule} {pattern text : Bytes}

/-- A literal slash is admitted by nothing but itself. -/
@[simp] theorem admits_literal_iff (byte : UInt8) :
    SlashRule.literal.admits byte = true ↔ byte ≠ Ascii.slash := by
  simp [SlashRule.admits]

private theorem IsPlain.tail {byte : UInt8} (plain : IsPlain (byte :: pattern)) : IsPlain pattern :=
  fun other member => plain other (List.mem_cons_of_mem byte member)

/-- The rest of a plain pattern is plain. -/
theorem IsPlain.of_suffix {shorter : Bytes} (plain : IsPlain pattern)
    (suffix : shorter <:+ pattern) : IsPlain shorter :=
  fun byte member => plain byte (suffix.subset member)

/-- The empty pattern aligns with the empty text. -/
@[simp] theorem aligned_nil_iff : Aligned single double [] text ↔ text = [] := by
  constructor
  · intro aligned
    cases aligned
    rfl
  · rintro rfl
    exact .nil

/-- A literal byte aligns with itself. -/
theorem aligned_literal_iff {byte : UInt8} (noStar : byte ≠ 42) (noQuestion : byte ≠ 63) :
    Aligned single double (byte :: pattern) text ↔
      ∃ rest, text = byte :: rest ∧ Aligned single double pattern rest := by
  constructor
  · intro aligned
    cases aligned with
    | literal _ _ further => exact ⟨_, rfl, further⟩
    | question _ _ => exact absurd rfl noQuestion
    | star _ _ => exact absurd rfl noStar
    | doubleStar _ _ => exact absurd rfl noStar
  · rintro ⟨rest, rfl, further⟩
    exact .literal noStar noQuestion further

private theorem aligned_question_iff :
    Aligned single double (63 :: pattern) text ↔
      ∃ byte rest, text = byte :: rest ∧ single.admits byte = true ∧
        Aligned single double pattern rest := by
  constructor
  · intro aligned
    cases aligned with
    | literal _ noQuestion _ => exact absurd rfl noQuestion
    | question admitted further => exact ⟨_, _, rfl, admitted, further⟩
  · rintro ⟨byte, rest, rfl, admitted, further⟩
    exact .question admitted further

/-- A star that no other follows stands for a run of admitted bytes. -/
theorem aligned_star_iff (alone : pattern.head? ≠ some 42) :
    Aligned single double (42 :: pattern) text ↔
      ∃ run rest, text = run ++ rest ∧ (∀ byte ∈ run, single.admits byte = true) ∧
        Aligned single double pattern rest := by
  constructor
  · intro aligned
    cases aligned with
    | literal noStar _ _ => exact absurd rfl noStar
    | star admitted further => exact ⟨_, _, rfl, admitted, further⟩
    | doubleStar _ _ => exact absurd rfl alone
  · rintro ⟨run, rest, rfl, admitted, further⟩
    exact .star admitted further

/-- Where two stars admit no more than one, every star stands for a run of admitted bytes. -/
theorem aligned_run_iff :
    Aligned rule rule (42 :: pattern) text ↔
      ∃ run rest, text = run ++ rest ∧ (∀ byte ∈ run, rule.admits byte = true) ∧
        Aligned rule rule pattern rest := by
  constructor
  · intro aligned
    cases aligned with
    | literal noStar _ _ => exact absurd rfl noStar
    | star admitted further => exact ⟨_, _, rfl, admitted, further⟩
    | doubleStar admitted further =>
        have second : Aligned rule rule (42 :: _) ([] ++ _) := .star (by simp) further
        exact ⟨_, _, rfl, admitted, second⟩
  · rintro ⟨run, rest, rfl, admitted, further⟩
    exact .star admitted further

/-- A star stands for nothing, or takes the first byte. -/
theorem aligned_star_cons_iff {byte : UInt8} :
    Aligned rule rule (42 :: pattern) (byte :: text) ↔
      Aligned rule rule pattern (byte :: text) ∨
        rule.admits byte = true ∧ Aligned rule rule (42 :: pattern) text := by
  simp only [aligned_run_iff, List.cons_eq_append_iff]
  constructor
  · rintro ⟨run, rest, ⟨rfl, rfl⟩ | ⟨run, rfl, rfl⟩, admitted, further⟩
    · exact .inl further
    · obtain ⟨first, others⟩ := List.forall_mem_cons.mp admitted
      exact .inr ⟨first, run, rest, rfl, others, further⟩
  · rintro (further | ⟨first, run, rest, rfl, others, further⟩)
    · exact ⟨[], byte :: text, .inl ⟨rfl, rfl⟩, by simp, further⟩
    · exact ⟨byte :: run, rest, .inr ⟨run, rfl, rfl⟩, List.forall_mem_cons.mpr ⟨first, others⟩,
        further⟩

private theorem aligned_star_nil_iff :
    Aligned rule rule (42 :: pattern) [] ↔ Aligned rule rule pattern [] := by
  simp only [aligned_run_iff, List.nil_eq_append_iff]
  constructor
  · rintro ⟨run, rest, ⟨rfl, rfl⟩, -, further⟩
    exact further
  · intro further
    exact ⟨[], [], ⟨rfl, rfl⟩, by simp, further⟩

/-- A star can take more admitted bytes in front. -/
theorem Aligned.extend {more : Bytes} (aligned : Aligned rule rule (42 :: pattern) text)
    (admitted : ∀ byte ∈ more, rule.admits byte = true) :
    Aligned rule rule (42 :: pattern) (more ++ text) := by
  obtain ⟨run, rest, rfl, admittedRun, further⟩ := aligned_run_iff.mp aligned
  refine aligned_run_iff.mpr ⟨more ++ run, rest, (List.append_assoc ..).symm, ?_, further⟩
  exact List.forall_mem_append.mpr ⟨admitted, admittedRun⟩

/-- What two stars admit does not matter where no two stand next to each other. -/
theorem Aligned.of_noDouble {double' : SlashRule} (aligned : Aligned single double pattern text)
    (noDouble : ¬ [42, 42] <:+: pattern) : Aligned single double' pattern text := by
  induction aligned with
  | nil => exact .nil
  | literal noStar noQuestion _ ih =>
      exact .literal noStar noQuestion (ih fun inside => noDouble (List.infix_cons inside))
  | question admitted _ ih =>
      exact .question admitted (ih fun inside => noDouble (List.infix_cons inside))
  | star admitted _ ih =>
      exact .star admitted (ih fun inside => noDouble (List.infix_cons inside))
  | doubleStar _ _ _ => exact absurd ⟨[], _, rfl⟩ noDouble

/-- What may not take a slash may not take more bytes than what may. -/
theorem Aligned.loosen (aligned : Aligned .literal double pattern text) :
    Aligned .ordinary double pattern text := by
  induction aligned with
  | nil => exact .nil
  | literal noStar noQuestion _ ih => exact .literal noStar noQuestion ih
  | question _ _ ih => exact .question rfl ih
  | star _ _ ih => exact .star (fun _ _ => rfl) ih
  | doubleStar admitted _ ih => exact .doubleStar admitted ih

/-- A byte of a text can stand where the pattern has a byte other than a star. -/
def Takes (rule : SlashRule) (expected byte : UInt8) : Prop :=
  if expected = 63 then rule.admits byte = true else expected = byte

private theorem aligned_cons_iff {expected byte : UInt8} (noStar : expected ≠ 42) :
    Aligned single double (expected :: pattern) (byte :: text) ↔
      Takes single expected byte ∧ Aligned single double pattern text := by
  by_cases isQuestion : expected = 63
  · subst isQuestion
    rw [aligned_question_iff]
    constructor
    · rintro ⟨_, _, same, admitted, further⟩
      obtain ⟨rfl, rfl⟩ := List.cons.inj same
      exact ⟨admitted, further⟩
    · rintro ⟨takes, further⟩
      exact ⟨byte, text, rfl, takes, further⟩
  · rw [aligned_literal_iff noStar isQuestion, Takes, if_neg isQuestion]
    constructor
    · rintro ⟨_, same, further⟩
      obtain ⟨rfl, rfl⟩ := List.cons.inj same
      exact ⟨rfl, further⟩
    · rintro ⟨rfl, further⟩
      exact ⟨text, rfl, further⟩

private theorem not_aligned_cons_nil {expected : UInt8} (noStar : expected ≠ 42) :
    ¬ Aligned single double (expected :: pattern) [] := by
  generalize shape : ([] : Bytes) = text
  intro aligned
  cases aligned with
  | literal _ _ _ => cases shape
  | question _ _ => cases shape
  | star _ _ => exact noStar rfl
  | doubleStar _ _ => exact noStar rfl

/-- A part without stars lines up byte by byte. -/
theorem aligned_append_iff {lead : Bytes} (noStar : 42 ∉ lead) :
    Aligned single double (lead ++ pattern) text ↔
      ∃ first rest, text = first ++ rest ∧ List.Forall₂ (Takes single) lead first ∧
        Aligned single double pattern rest := by
  induction lead generalizing text with
  | nil =>
      constructor
      · intro aligned
        exact ⟨[], text, rfl, .nil, aligned⟩
      · rintro ⟨first, rest, rfl, fits, aligned⟩
        cases fits
        exact aligned
  | cons expected others ih =>
      rw [List.mem_cons, not_or] at noStar
      cases text with
      | nil =>
          constructor
          · exact fun aligned => absurd aligned (not_aligned_cons_nil (Ne.symm noStar.1))
          · rintro ⟨first, rest, parts, fits, -⟩
            cases fits
            cases parts
      | cons byte text =>
          rw [List.cons_append, aligned_cons_iff (Ne.symm noStar.1), ih noStar.2]
          constructor
          · rintro ⟨takes, first, rest, rfl, fits, aligned⟩
            exact ⟨byte :: first, rest, rfl, .cons takes fits, aligned⟩
          · rintro ⟨first, rest, parts, fits, aligned⟩
            cases fits with
            | cons takes fits =>
                obtain ⟨rfl, rfl⟩ := List.cons.inj parts
                exact ⟨takes, _, rest, rfl, fits, aligned⟩

variable {lead first second : Bytes}

/-- The first byte that is not admitted stands where the pattern has it. -/
theorem findIdx_eq_of_takes (fits : List.Forall₂ (Takes rule) lead first) :
    first.findIdx (!rule.admits ·) = lead.findIdx (!rule.admits ·) := by
  induction fits with
  | nil => rfl
  | @cons expected byte _ _ takes _ ih =>
      have same : rule.admits byte = rule.admits expected := by
        unfold Takes at takes
        split at takes
        · rename_i isQuestion
          rw [takes, isQuestion]
          cases rule <;> rfl
        · rw [takes]
      rw [List.findIdx_cons, List.findIdx_cons, same, ih]

/-- If a part fits at the front of a text and again behind a run of admitted bytes, then what the
first place leaves over begins with admitted bytes, behind which stands what the second one leaves
over. -/
theorem admitted_between {run unused later : Bytes}
    (fits : List.Forall₂ (Takes rule) lead first)
    (fitsAgain : List.Forall₂ (Takes rule) lead second)
    (admitted : ∀ byte ∈ run, rule.admits byte = true)
    (same : first ++ unused = run ++ (second ++ later)) :
    ∃ between, unused = between ++ later ∧ ∀ byte ∈ between, rule.admits byte = true := by
  have lengths : first.length = second.length :=
    fits.length_eq.symm.trans fitsAgain.length_eq
  rw [← List.append_assoc] at same
  have starts : first <+: run ++ second := by
    have whole : run ++ second <+: first ++ unused := ⟨later, same.symm⟩
    apply List.prefix_of_prefix_length_le (List.prefix_append first unused) whole
    simp [lengths]
  obtain ⟨between, parts⟩ := starts
  rw [← parts, List.append_assoc] at same
  refine ⟨between, List.append_cancel_left same, ?_⟩
  by_cases everywhere : ∀ byte ∈ second, rule.admits byte = true
  · have whole : ∀ byte ∈ first ++ between, rule.admits byte = true := by
      rw [parts]
      exact List.forall_mem_append.mpr ⟨admitted, everywhere⟩
    exact (List.forall_mem_append.mp whole).2
  · -- A byte that is not admitted stands at one place of the part, so the run is empty.
    have inSecond : second.findIdx (!rule.admits ·) < second.length := by
      rw [List.findIdx_lt_length]
      simpa using everywhere
    have inFirst : first.findIdx (!rule.admits ·) = second.findIdx (!rule.admits ·) :=
      (findIdx_eq_of_takes fits).trans (findIdx_eq_of_takes fitsAgain).symm
    have notInRun : run.findIdx (!rule.admits ·) = run.length :=
      List.findIdx_eq_length.mpr (by simpa using admitted)
    have places := congrArg (List.findIdx (!rule.admits ·)) parts
    rw [List.findIdx_append, List.findIdx_append, if_pos (by rw [inFirst, lengths]; exact inSecond),
      notInRun, if_neg (Nat.lt_irrefl _), inFirst] at places
    have empty : run.length = 0 := by omega
    have counts := congrArg List.length parts
    rw [List.length_append, List.length_append, lengths, empty] at counts
    have nothing : between = [] := List.length_eq_zero_iff.mp (by omega)
    simp [nothing]

/-- A match goes on after the part before the next star. -/
def Fit.Leads (rule : SlashRule) : Fit → Prop
  | .mismatch => False
  | .complete => True
  | .star pattern text => Aligned rule rule (42 :: pattern) text

section Fitting

variable {left : Nat}

private theorem fit_cons_nil {expected : UInt8} (noStar : expected ≠ 42) :
    fit rule (left + 1) (expected :: pattern) [] = .mismatch := by
  simp [fit]

private theorem fit_cons {expected byte : UInt8} (noStar : expected ≠ 42)
    (plain : expected ≠ 91 ∧ expected ≠ 92) [Decidable (Takes rule expected byte)] :
    fit rule (left + 1) (expected :: pattern) (byte :: text) =
      if Takes rule expected byte then fit rule left pattern text else .mismatch := by
  by_cases isQuestion : expected = 63
  · simp [fit, Takes, isQuestion]
  · simp [fit, Takes, isQuestion, plain]

/-- A pattern lines up with a text if the match goes on after the part before its first star. -/
theorem aligned_iff_leads (plain : IsPlain pattern) (enough : pattern.length ≤ left) :
    Aligned rule rule pattern text ↔ (fit rule left pattern text).Leads rule := by
  classical
  induction pattern generalizing left text with
  | nil => cases text <;> simp [fit, Fit.Leads]
  | cons expected others ih =>
      obtain ⟨fewer, rfl⟩ := Nat.exists_eq_add_one_of_ne_zero (Nat.ne_zero_of_lt enough)
      by_cases isStar : expected = 42
      · subst isStar
        simp [fit, Fit.Leads]
      · cases text with
        | nil =>
            rw [fit_cons_nil isStar]
            exact iff_of_false (not_aligned_cons_nil isStar) id
        | cons byte text =>
            rw [aligned_cons_iff isStar, fit_cons isStar (plain expected List.mem_cons_self)]
            by_cases takes : Takes rule expected byte
            · simp [takes, ih plain.tail (Nat.le_of_succ_le_succ enough)]
            · simp [takes, Fit.Leads]

/-- Where a fit stops before a star, the pattern and the text are parted. -/
theorem parts_of_fit_eq_star {following unused : Bytes} (plain : IsPlain pattern)
    (stops : fit rule left pattern text = .star following unused) :
    ∃ lead first, pattern = lead ++ 42 :: following ∧ 42 ∉ lead ∧ text = first ++ unused ∧
      List.Forall₂ (Takes rule) lead first := by
  classical
  induction pattern generalizing left text with
  | nil => cases text <;> simp [fit] at stops
  | cons expected others ih =>
      cases left with
      | zero => simp [fit] at stops
      | succ left =>
          by_cases isStar : expected = 42
          · subst isStar
            simp only [fit, Fit.star.injEq] at stops
            obtain ⟨rfl, rfl⟩ := stops
            exact ⟨[], [], rfl, List.not_mem_nil, rfl, .nil⟩
          · cases text with
            | nil =>
                rw [fit_cons_nil isStar] at stops
                cases stops
            | cons byte text =>
                rw [fit_cons isStar (plain expected List.mem_cons_self)] at stops
                split at stops
                · rename_i takes
                  obtain ⟨lead, first, rfl, noStar, rfl, fits⟩ := ih plain.tail stops
                  refine ⟨expected :: lead, byte :: first, rfl, ?_, rfl, .cons takes fits⟩
                  exact List.not_mem_cons_of_ne_of_not_mem (Ne.symm isStar) noStar
                · cases stops

end Fitting

/-- Where both stars follow one rule, a second star adds nothing. -/
theorem aligned_star_star_iff :
    Aligned rule rule (42 :: 42 :: pattern) text ↔ Aligned rule rule (42 :: pattern) text := by
  rw [aligned_run_iff]
  constructor
  · rintro ⟨run, rest, rfl, admitted, further⟩
    exact further.extend admitted
  · intro aligned
    exact ⟨[], text, rfl, by simp, aligned⟩

/-- A star with a question mark behind it takes at least one byte. -/
theorem aligned_star_question_iff {byte : UInt8} :
    Aligned rule rule (42 :: 63 :: pattern) (byte :: text) ↔
      rule.admits byte = true ∧ Aligned rule rule (42 :: pattern) text := by
  have atFront {byte : UInt8} {text : Bytes} :
      Aligned rule rule (63 :: pattern) (byte :: text) ↔
        rule.admits byte = true ∧ Aligned rule rule pattern text :=
    aligned_cons_iff (by decide)
  induction text generalizing byte with
  | nil =>
      have nothing : ¬ Aligned rule rule (42 :: 63 :: pattern) [] := by
        rw [aligned_star_nil_iff]
        exact not_aligned_cons_nil (by decide)
      rw [aligned_star_cons_iff, atFront]
      simp only [nothing, and_false, or_false, aligned_star_nil_iff]
  | cons next rest ih =>
      have further : Aligned rule rule (42 :: 63 :: pattern) (next :: rest) ↔
          rule.admits next = true ∧ Aligned rule rule (42 :: pattern) rest := ih
      rw [aligned_star_cons_iff, atFront, further, aligned_star_cons_iff, and_or_left]

/-- A run of stars and question marks after a star is skipped without loss. -/
theorem skipWildcards_eq_some {next rest : Bytes}
    (skipped : skipWildcards rule pattern text = some (next, rest)) :
    (Aligned rule rule (42 :: pattern) text ↔ Aligned rule rule (42 :: next) rest) ∧
      next <:+ pattern ∧ next.head? ≠ some 42 ∧ next.head? ≠ some 63 := by
  fun_induction skipWildcards rule pattern text with
  | case1 text pattern ih =>
      obtain ⟨same, suffix, heads⟩ := ih skipped
      exact ⟨aligned_star_star_iff.trans same, suffix.trans (List.suffix_cons ..), heads⟩
  | case2 pattern byte text admitted ih =>
      obtain ⟨same, suffix, heads⟩ := ih skipped
      refine ⟨?_, suffix.trans (List.suffix_cons ..), heads⟩
      rw [aligned_star_question_iff, same, and_iff_right admitted]
  | case3 => cases skipped
  | case4 => cases skipped
  | case5 pattern text noStar noByte noText =>
      obtain ⟨rfl, rfl⟩ := Prod.mk.inj (Option.some.inj skipped)
      refine ⟨Iff.rfl, List.suffix_refl _, ?_, ?_⟩
      · intro isStar
        obtain ⟨others, rfl⟩ := List.head?_eq_some_iff.mp isStar
        exact noStar others rfl
      · intro isQuestion
        obtain ⟨others, rfl⟩ := List.head?_eq_some_iff.mp isQuestion
        cases text with
        | nil => exact noText others rfl rfl
        | cons byte text => exact noByte others byte text rfl rfl

private theorem skipWildcards_eq_none (skipped : skipWildcards rule pattern text = none) :
    ¬ Aligned rule rule (42 :: pattern) text := by
  fun_induction skipWildcards rule pattern text with
  | case1 text pattern ih => exact fun aligned => ih skipped (aligned_star_star_iff.mp aligned)
  | case2 pattern byte text _ ih =>
      exact fun aligned => ih skipped (aligned_star_question_iff.mp aligned).2
  | case3 pattern byte text refused =>
      exact fun aligned => refused (aligned_star_question_iff.mp aligned).1
  | case4 pattern =>
      rw [aligned_star_nil_iff]
      exact not_aligned_cons_nil (by decide)
  | case5 => cases skipped

/-- If the part before the next star fits here and the pattern lines up at a later place, then the
rest of it lines up from here, because the later place leaves less to the next star. -/
theorem aligned_of_later {left : Nat} {run rest following unused : Bytes} (plain : IsPlain pattern)
    (found : fit rule left pattern (run ++ rest) = .star following unused)
    (admitted : ∀ byte ∈ run, rule.admits byte = true) (later : Aligned rule rule pattern rest) :
    Aligned rule rule (42 :: following) unused := by
  obtain ⟨lead, first, parts, noStar, textParts, fits⟩ := parts_of_fit_eq_star plain found
  rw [parts, aligned_append_iff noStar] at later
  obtain ⟨second, unusedLater, rfl, fitsAgain, further⟩ := later
  obtain ⟨between, rfl, admittedBetween⟩ :=
    admitted_between fits fitsAgain admitted textParts.symm
  exact further.extend admittedBetween

/-- The first place at which the part before the next star fits is as good as any. -/
theorem place_leads_iff {head : UInt8} (plain : IsPlain (head :: pattern)) (noStar : head ≠ 42)
    (noQuestion : head ≠ 63) :
    Aligned rule rule (42 :: head :: pattern) text ↔
      (place rule (head :: pattern) text).Leads rule := by
  induction text with
  | nil =>
      rw [aligned_star_nil_iff]
      exact iff_of_false (not_aligned_cons_nil noStar) id
  | cons byte text ih =>
      have atFront : Aligned rule rule (head :: pattern) (byte :: text) ↔
          (fit rule (head :: pattern).length (head :: pattern) (byte :: text)).Leads rule :=
        aligned_iff_leads plain (Nat.le_refl _)
      rw [aligned_star_cons_iff, place]
      by_cases admitted : rule.admits byte = true
      · rw [if_pos admitted]
        cases found : fit rule (head :: pattern).length (head :: pattern) (byte :: text) with
        | mismatch =>
            rw [atFront, found]
            simp only [Fit.Leads, false_or, admitted, true_and]
            exact ih
        | complete =>
            rw [atFront, found]
            simp only [Fit.Leads, true_or]
        | star following unused =>
            rw [atFront, found]
            constructor
            · rintro (here | ⟨-, later⟩)
              · exact here
              · obtain ⟨run, rest, rfl, admittedRun, further⟩ := aligned_run_iff.mp later
                exact aligned_of_later plain found
                  (List.forall_mem_cons.mpr ⟨admitted, admittedRun⟩) further
            · exact .inl
      · rw [if_neg admitted]
        have onlyHere : (Aligned rule rule (head :: pattern) (byte :: text) ∨
            rule.admits byte = true ∧ Aligned rule rule (42 :: head :: pattern) text) ↔
              Aligned rule rule (head :: pattern) (byte :: text) := by
          simp only [admitted, Bool.false_eq_true, false_and, or_false]
        rw [onlyHere]
        split
        · exact atFront
        · rename_i noSlash
          refine iff_of_false (fun aligned => ?_) id
          obtain ⟨takes, -⟩ := (aligned_cons_iff noStar).mp aligned
          rw [Takes, if_neg noQuestion] at takes
          subst takes
          cases rule with
          | ordinary => exact admitted rfl
          | literal => exact noSlash (congrArg some (by simpa using admitted))

private theorem aligned_star_end_iff :
    Aligned rule rule [42] text ↔ ∀ byte ∈ text, rule.admits byte = true := by
  rw [aligned_run_iff]
  simp only [aligned_nil_iff]
  constructor
  · rintro ⟨run, rest, rfl, admitted, rfl⟩
    simpa using admitted
  · exact fun admitted => ⟨text, [], (List.append_nil _).symm, admitted, rfl⟩

private theorem parts_of_place_eq_star {following unused : Bytes} (plain : IsPlain pattern)
    (stops : place rule pattern text = .star following unused) :
    ∃ lead, pattern = lead ++ 42 :: following := by
  induction text with
  | nil => cases stops
  | cons byte text ih =>
      have atFront (found : fit rule pattern.length pattern (byte :: text) =
          .star following unused) : ∃ lead, pattern = lead ++ 42 :: following := by
        obtain ⟨lead, -, parts, -⟩ := parts_of_fit_eq_star plain found
        exact ⟨lead, parts⟩
      rw [place] at stops
      split at stops
      · split at stops
        · exact ih stops
        · exact atFront stops
      · split at stops
        · exact atFront stops
        · cases stops

/-- The matcher from a star on; each further star makes the pattern shorter. -/
theorem afterStar_iff {left : Nat} (plain : IsPlain pattern) (enough : pattern.length ≤ left) :
    afterStar rule left pattern text = true ↔ Aligned rule rule (42 :: pattern) text := by
  induction left using Nat.strongRecOn generalizing pattern text with
  | ind left ih =>
      rw [afterStar.eq_def]
      dsimp only
      cases skipped : skipWildcards rule pattern text with
      | none => exact iff_of_false Bool.false_ne_true (skipWildcards_eq_none skipped)
      | some parted =>
          obtain ⟨next, rest⟩ := parted
          obtain ⟨same, suffix, noStar, noQuestion⟩ := skipWildcards_eq_some skipped
          rw [same]
          cases next with
          | nil => rw [aligned_star_end_iff, ← List.all_eq_true]
          | cons head more =>
              have plainNext : IsPlain (head :: more) := plain.of_suffix suffix
              rw [place_leads_iff plainNext (fun isStar => noStar (congrArg some isStar))
                fun isQuestion => noQuestion (congrArg some isQuestion)]
              dsimp only
              cases stops : place rule (head :: more) rest with
              | mismatch => exact iff_of_false Bool.false_ne_true id
              | complete => exact iff_of_true rfl trivial
              | star following unused =>
                  obtain ⟨lead, parts⟩ := parts_of_place_eq_star plainNext stops
                  have shorter : following.length < left := by
                    have length := congrArg List.length parts
                    have bound := suffix.length_le
                    simp only [List.length_append, List.length_cons] at length bound
                    omega
                  have plainFollowing : IsPlain following := by
                    apply plainNext.of_suffix
                    exact ⟨lead ++ [42], (List.append_cons ..).symm.trans parts.symm⟩
                  cases left with
                  | zero => exact absurd shorter (Nat.not_lt_zero _)
                  | succ fewer =>
                      exact ih fewer (Nat.lt_succ_self _) plainFollowing
                        (Nat.le_of_lt_succ shorter)

private theorem isPlain_beforeNul (plain : IsPlain pattern) : IsPlain pattern.beforeNul :=
  fun byte member => plain byte ((List.takeWhile_prefix _).subset member)

/-- A plain pattern matches a text if they line up, each as far as its first zero byte. -/
theorem accepts_iff (plain : IsPlain pattern) :
    accepts rule pattern text = true ↔ Aligned rule rule pattern.beforeNul text.beforeNul := by
  have plain := isPlain_beforeNul plain
  rw [aligned_iff_leads plain (Nat.le_refl _), accepts]
  cases found : fit rule pattern.beforeNul.length pattern.beforeNul text.beforeNul with
  | mismatch => exact iff_of_false Bool.false_ne_true id
  | complete => exact iff_of_true rfl trivial
  | star following unused =>
      obtain ⟨lead, first, parts, -⟩ := parts_of_fit_eq_star plain found
      have suffix : following <:+ pattern.beforeNul :=
        ⟨lead ++ [42], (List.append_cons ..).symm.trans parts.symm⟩
      exact afterStar_iff (plain.of_suffix suffix) suffix.length_le

/-- A double star takes the slash rule off the whole pattern. -/
theorem slashRule_of_double (double : ascii "**" <:+: pattern) : slashRule pattern = .ordinary :=
  if_pos (Bytes.mentions_iff.mpr double)

/-- Without a double star, wildcards stop at slashes. -/
theorem slashRule_of_noDouble (noDouble : ¬ ascii "**" <:+: pattern) :
    slashRule pattern = .literal :=
  if_neg fun mentions => noDouble (Bytes.mentions_iff.mp mentions)

/-- A plain pattern under its own slash rule: without a double star, no wildcard takes a slash; with
one, every wildcard does. -/
theorem accepts_slashRule_iff (plain : IsPlain pattern) :
    accepts (slashRule pattern) pattern text = true ↔
      Aligned (slashRule pattern) .ordinary pattern.beforeNul text.beforeNul := by
  rw [accepts_iff plain]
  by_cases double : ascii "**" <:+: pattern
  · rw [slashRule_of_double double]
  · rw [slashRule_of_noDouble double]
    have noDouble : ¬ [42, 42] <:+: pattern.beforeNul := fun inside =>
      double (inside.trans (List.takeWhile_prefix _).isInfix)
    exact ⟨fun aligned => aligned.of_noDouble noDouble,
      fun aligned => aligned.of_noDouble noDouble⟩

/-- A pattern in which no byte has a meaning of its own. -/
def IsLiteral (pattern : Bytes) : Prop := ∀ byte ∈ pattern, byte ∉ ascii "*?[\\"

instance (pattern : Bytes) : Decidable (IsLiteral pattern) :=
  List.decidableBAll (fun byte => byte ∉ ascii "*?[\\") pattern

/-- What a pattern has before its first wildcard begins the text. -/
theorem aligned_literal_append_iff (literal : IsLiteral lead) :
    Aligned single double (lead ++ pattern) text ↔
      ∃ rest, text = lead ++ rest ∧ Aligned single double pattern rest := by
  induction lead generalizing text with
  | nil => simp only [List.nil_append, exists_eq_left']
  | cons byte others ih =>
      have plainByte := literal byte List.mem_cons_self
      have noStar : byte ≠ 42 := fun same => plainByte (by rw [same]; decide)
      have noQuestion : byte ≠ 63 := fun same => plainByte (by rw [same]; decide)
      have literalOthers : IsLiteral others := fun other member =>
        literal other (List.mem_cons_of_mem byte member)
      rw [List.cons_append, aligned_literal_iff noStar noQuestion]
      simp only [ih literalOthers]
      constructor
      · rintro ⟨_, rfl, rest, rfl, aligned⟩
        exact ⟨rest, rfl, aligned⟩
      · rintro ⟨rest, rfl, aligned⟩
        exact ⟨others ++ rest, rfl, rest, rfl, aligned⟩

/-- A pattern without wildcards aligns with itself only. -/
theorem aligned_iff_eq (literal : IsLiteral pattern) :
    Aligned single double pattern text ↔ text = pattern := by
  rw [← List.append_nil pattern, aligned_literal_append_iff literal]
  simp only [aligned_nil_iff, exists_eq_right]

/-- A pattern without wildcards matches itself. -/
theorem accepts_iff_eq (literal : IsLiteral pattern) (whole : 0 ∉ pattern) (wholeText : 0 ∉ text) :
    accepts rule pattern text = true ↔ text = pattern := by
  have plain : IsPlain pattern := fun byte member =>
    ⟨fun same => literal byte member (by rw [same]; decide),
      fun same => literal byte member (by rw [same]; decide)⟩
  rw [accepts_iff plain, Bytes.beforeNul_of_notMem whole, Bytes.beforeNul_of_notMem wholeText,
    aligned_iff_eq literal]

end StoreAudit.Glob

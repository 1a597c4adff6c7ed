import StoreAudit.Proofs.Attributes
import StoreAudit.Proofs.PathFilter

/-!
# Which wildcards cross directories

A double star may take slashes. Whether question marks and single stars may is settled for a whole
pattern: they may if it has a double star anywhere, and else they may not. So the patterns of
filters and of attribute files match all that they should, and nothing else as long as they do not
mix double stars with other wildcards (`wildcards_cross_together`). One that mixes them can reach
into directories that it should leave alone (`single_star_crosses`).
-/

namespace StoreAudit

namespace Glob

variable {pattern text : Bytes}

/-- A pattern lines up with a text, each as far as its first zero byte. Two stars next to each other
may take slashes, question marks and single stars only if `single` admits them. -/
def LinesUp (single : SlashRule) (pattern text : Bytes) : Prop :=
  Aligned single .ordinary pattern.beforeNul text.beforeNul

/-- A pattern whose wildcards are pairs of stars. -/
inductive IsPaired : Bytes → Prop where
  | nil : IsPaired []
  | literal {byte : UInt8} {pattern : Bytes} (noStar : byte ≠ 42) (noQuestion : byte ≠ 63) :
      IsPaired pattern → IsPaired (byte :: pattern)
  | pair {pattern : Bytes} : IsPaired pattern → IsPaired (42 :: 42 :: pattern)

private theorem IsPaired.beforeNul (paired : IsPaired pattern) : IsPaired pattern.beforeNul := by
  induction paired with
  | nil => exact .nil
  | @literal byte rest noStar noQuestion _ ih =>
      rw [Bytes.beforeNul, List.takeWhile_cons]
      split
      · exact .literal noStar noQuestion ih
      · exact .nil
  | pair _ ih => exact .pair ih

/-- Without question marks and single stars it does not matter what those may take. -/
theorem IsPaired.aligned_iff (paired : IsPaired pattern) :
    Aligned .ordinary .ordinary pattern text ↔ Aligned .literal .ordinary pattern text := by
  refine ⟨fun aligned => ?_, Aligned.loosen⟩
  induction paired generalizing text with
  | nil => exact aligned_nil_iff.mpr (aligned_nil_iff.mp aligned)
  | literal noStar noQuestion _ ih =>
      obtain ⟨rest, rfl, further⟩ := (aligned_literal_iff noStar noQuestion).mp aligned
      exact .literal noStar noQuestion (ih further)
  | pair _ ih =>
      obtain ⟨run, rest, rfl, admitted, further⟩ :=
        aligned_run_iff.mp (aligned_star_star_iff.mp aligned)
      exact .doubleStar admitted (ih further)

/-- Some text that counts lines up with a pattern. -/
def Fits (single : SlashRule) (pattern : Bytes) (candidate : Bytes → Prop) : Prop :=
  ∃ text, candidate text ∧ LinesUp single pattern text

/-- How a pattern is matched where any of some texts counts: with wildcards that all take slashes if
it has a double star, and that all stop at them if it has none. -/
structure MatchedAmong (pattern : Bytes) (candidate : Bytes → Prop) (matched : Prop) : Prop where
  iff_of_double : ascii "**" <:+: pattern → (matched ↔ Fits .ordinary pattern candidate)
  iff_of_noDouble : ¬ ascii "**" <:+: pattern → (matched ↔ Fits .literal pattern candidate)
  /-- What should be matched is matched. -/
  of_fits : Fits .literal pattern candidate → matched
  iff_of_paired : IsPaired pattern → (matched ↔ Fits .literal pattern candidate)
  /-- When only what should be matched is matched. -/
  keeps_iff : (matched → Fits .literal pattern candidate) ↔ ¬ ascii "**" <:+: pattern ∨
    (Fits .ordinary pattern candidate → Fits .literal pattern candidate)

variable {candidate : Bytes → Prop} {matched : Prop}

private theorem Fits.loosen (fits : Fits .literal pattern candidate) :
    Fits .ordinary pattern candidate := by
  obtain ⟨text, counts, aligned⟩ := fits
  exact ⟨text, counts, aligned.loosen⟩

private theorem IsPaired.fits (paired : IsPaired pattern) (fits : Fits .ordinary pattern candidate)
    : Fits .literal pattern candidate := by
  obtain ⟨text, counts, aligned⟩ := fits
  exact ⟨text, counts, paired.beforeNul.aligned_iff.mp aligned⟩

private theorem matchedAmong_of_accepts (plain : IsPlain pattern) (accepted : matched ↔
      ∃ text, candidate text ∧ accepts (slashRule pattern) pattern text = true) :
    MatchedAmong pattern candidate matched := by
  have fits : matched ↔ Fits (slashRule pattern) pattern candidate := by
    simp only [accepted, accepts_slashRule_iff plain, Fits, LinesUp]
  by_cases double : ascii "**" <:+: pattern
  · rw [slashRule_of_double double] at fits
    refine ⟨fun _ => fits, absurd double, fun intended => fits.mpr intended.loosen,
      fun paired => fits.trans ⟨paired.fits, Fits.loosen⟩, ?_⟩
    rw [fits]
    exact ⟨.inr, fun keeps => keeps.resolve_left (not_not_intro double)⟩
  · rw [slashRule_of_noDouble double] at fits
    exact ⟨fun holds => absurd holds double, fun _ => fits, fits.mpr, fun _ => fits,
      iff_of_true fits.mp (.inl double)⟩

end Glob

open PathFilter (IsNormalForm Encloses unrooted covers)

private theorem PathFilter.matchedAmong_enclosing {pattern path normal : Bytes}
    (plain : Glob.IsPlain pattern) (form : IsNormalForm pattern normal)
    (slashed : Ascii.slash ∈ normal) :
    Glob.MatchedAmong (unrooted normal) (Encloses · path) (covers pattern path = true) := by
  have plainRest : Glob.IsPlain (unrooted normal) := fun byte member =>
    plain byte (form.isInfix.subset ((unrooted_suffix normal).subset member))
  apply Glob.matchedAmong_of_accepts plainRest
  rw [covers, coversBy_iff form, Reaches]
  simp only [slashed, not_true_eq_false, false_and, false_or, true_and, ne_eq,
    List.ne_nil_of_mem slashed, not_false_eq_true]

private theorem AttributeRule.matchedAmong_relative (rule : AttributeRule) {path : Bytes}
    (plain : Glob.IsPlain rule.pattern) (slashed : Ascii.slash ∈ rule.pattern) :
    Glob.MatchedAmong (unrooted rule.pattern) (LiesIn rule.directory · path)
      (rule.appliesTo path = true) := by
  have plainRest : Glob.IsPlain (unrooted rule.pattern) :=
    plain.of_suffix (PathFilter.unrooted_suffix rule.pattern)
  apply Glob.matchedAmong_of_accepts plainRest
  have whole : rule.pattern.contains Ascii.slash = true := by simpa using slashed
  simp only [appliesTo_iff, patternMatches, whole, if_true, PathFilter.ite_tail_eq_unrooted]

/-- **One double star lets every wildcard of its pattern cross directories.** A pattern with a
slash, of a filter or of an attribute file, matches all that it should, where only double stars take
slashes. It matches nothing else if it has no double star, or no other wildcards than double stars.
One that mixes them matches what it would if all its wildcards took slashes. -/
theorem wildcards_cross_together {pattern path : Bytes} (plain : Glob.IsPlain pattern) :
    (∀ normal, IsNormalForm pattern normal → Ascii.slash ∈ normal →
        Glob.MatchedAmong (unrooted normal) (Encloses · path) (covers pattern path = true)) ∧
      ∀ directory tracked, Ascii.slash ∈ pattern →
        Glob.MatchedAmong (unrooted pattern) (AttributeRule.LiesIn directory · path)
          (AttributeRule.appliesTo ⟨directory, pattern, tracked⟩ path = true) := by
  refine ⟨fun normal form slashed => ?_, fun directory tracked slashed => ?_⟩
  · exact PathFilter.matchedAmong_enclosing plain form slashed
  · exact AttributeRule.matchedAmong_relative ⟨directory, pattern, tracked⟩ plain slashed

/-- A star in a file name, in a filter and in a rule. -/
theorem wildcards_cross_together_of_single_star :
    Glob.IsPlain (ascii "art/*.psd") ∧ IsNormalForm (ascii "art/*.psd") (ascii "art/*.psd") ∧
      Ascii.slash ∈ ascii "art/*.psd" ∧
      covers (ascii "art/*.psd") (ascii "art/a.psd") = true ∧
      AttributeRule.appliesTo ⟨ascii "sub", ascii "art/*.psd", true⟩ (ascii "sub/art/a.psd") =
        true := by
  have plain : Glob.IsPlain (ascii "art/*.psd") := by decide
  have form : IsNormalForm (ascii "art/*.psd") (ascii "art/*.psd") :=
    PathFilter.normalize_eq_iff.mp (by decide +kernel)
  have slashed : Ascii.slash ∈ ascii "art/*.psd" := by decide
  have aligned : Glob.LinesUp .literal (ascii "art/*.psd") (ascii "art/a.psd") := by
    have lead : Glob.IsLiteral (ascii "art/") := by decide
    have extension : Glob.IsLiteral (ascii ".psd") := by decide
    have starred : Glob.Aligned .literal .ordinary (42 :: ascii ".psd") (ascii "a.psd") := by
      have admitted : ∀ byte ∈ ascii "a", Glob.SlashRule.literal.admits byte = true :=
        List.all_eq_true.mp rfl
      apply (Glob.aligned_star_iff (by decide)).mpr
      exact ⟨ascii "a", ascii ".psd", rfl, admitted, (Glob.aligned_iff_eq extension).mpr rfl⟩
    exact (Glob.aligned_literal_append_iff lead).mpr ⟨ascii "a.psd", rfl, starred⟩
  refine ⟨plain, form, slashed, ?_, ?_⟩
  · apply ((wildcards_cross_together plain).1 _ form slashed).of_fits
    exact ⟨_, ⟨by decide, .inl rfl⟩, aligned⟩
  · apply ((wildcards_cross_together plain).2 (ascii "sub") true slashed).of_fits
    exact ⟨_, .inr ⟨by decide, rfl⟩, aligned⟩

/-- A single star that should stand for one directory stands for two, because a double star follows
elsewhere in the pattern. -/
theorem single_star_crosses :
    let pattern := ascii "art/*/raw/**"
    let path := ascii "art/a/b/raw/x"
    IsNormalForm pattern pattern ∧ covers pattern path = true ∧
      ¬ Glob.Fits .literal (unrooted pattern) (Encloses · path) ∧
      AttributeRule.appliesTo ⟨[], pattern, true⟩ path = true ∧
      ¬ Glob.Fits .literal (unrooted pattern) (AttributeRule.LiesIn [] · path) := by
  intro pattern path
  have apart {text : Bytes} (starts : text <+: path) :
      ¬ Glob.LinesUp .literal (unrooted pattern) text := by
    intro aligned
    have whole : 0 ∉ text := fun zero => absurd (starts.subset zero) (by decide)
    rw [Glob.LinesUp, Bytes.beforeNul_of_notMem whole] at aligned
    have lead : Glob.IsLiteral (ascii "art/") := by decide
    have middle : Glob.IsLiteral (ascii "/raw/") := by decide
    have parts : Glob.Aligned .literal .ordinary
        (ascii "art/" ++ 42 :: (ascii "/raw/" ++ ascii "**")) text := aligned
    obtain ⟨_, rfl, starred⟩ := (Glob.aligned_literal_append_iff lead).mp parts
    obtain ⟨run, _, rfl, admitted, further⟩ := (Glob.aligned_star_iff (by decide)).mp starred
    obtain ⟨rest, rfl, -⟩ := (Glob.aligned_literal_append_iff middle).mp further
    -- The star takes what stands before the next slash, and `raw` does not come next.
    have below : run ++ (ascii "/raw/" ++ rest) <+: ascii "a/b/raw/x" :=
      (List.prefix_append_right_inj (ascii "art/")).mp starts
    have runWhole : Ascii.slash ∉ run := fun member =>
      (Glob.admits_literal_iff _).mp (admitted _ member) rfl
    have runStarts : run ++ [Ascii.slash] <+: ascii "a/b/raw/x" := by
      apply List.IsPrefix.trans _ below
      exact (List.prefix_append_right_inj run).mpr ⟨_, rfl⟩
    obtain rfl : run = ascii "a" :=
      Bytes.eq_of_starts runWhole (by decide) runStarts (by decide)
    have next : ascii "a/raw/" <+: ascii "a/b/raw/x" := List.IsPrefix.trans ⟨rest, rfl⟩ below
    exact absurd next (by decide)
  refine ⟨PathFilter.normalize_eq_iff.mp (by decide +kernel), by decide +kernel, ?_,
    by decide +kernel, ?_⟩
  · intro fits
    obtain ⟨text, encloses, aligned⟩ := fits
    exact apart encloses.starts aligned
  · intro fits
    obtain ⟨text, ⟨-, rfl⟩ | ⟨nested, -⟩, aligned⟩ := fits
    · exact apart (List.prefix_refl _) aligned
    · exact nested rfl

end StoreAudit

import Mathlib.Data.List.TakeWhile
import StoreAudit.PathFilter
import StoreAudit.Proofs.Glob
import StoreAudit.Proofs.Text.Lines

/-!
# What path filters cover

A pattern is brought into a normal form (`PathFilter.IsNormalForm`). Without a slash it covers the
paths with a component that it matches; with one, it covers the paths that are, or lie below, a path
that it matches from the top. Nothing in this depends on how patterns match texts, so a pattern that
covers a directory covers what lies below it, and a filter is no more than two sets of patterns
(`PathFilter.covers_subtrees`). A pattern without wildcards covers the paths that have it as a
component, or that begin with it (`PathFilter.covers_literal_iff`).
-/

namespace StoreAudit

namespace Bytes

private theorem strip_replicate_append {byte : UInt8} {copies : Nat} {rest : Bytes}
    (kept : copies ≠ 0 → rest ≠ []) (stops : ∀ more, rest = byte :: more → more = []) :
    dropTrailing.strip byte (List.replicate copies byte ++ rest) = rest := by
  induction copies with
  | zero =>
      match rest with
      | [] => rfl
      | [_] => rfl
      | first :: second :: others =>
          have apart : first ≠ byte := by
            intro same
            cases stops (second :: others) (by rw [same])
          simp [dropTrailing.strip, apart]
  | succ copies ih =>
      have nonempty := kept (Nat.succ_ne_zero copies)
      obtain ⟨next, others, shape⟩ : ∃ next others,
          List.replicate copies byte ++ rest = next :: others :=
        List.exists_cons_of_ne_nil (by simp [nonempty])
      rw [List.replicate_succ, List.cons_append, shape, dropTrailing.strip, if_pos rfl, ← shape]
      exact ih fun _ => nonempty

private theorem exists_strip (byte : UInt8) (text : Bytes) :
    ∃ copies, text = List.replicate copies byte ++ dropTrailing.strip byte text ∧
      (copies ≠ 0 → dropTrailing.strip byte text ≠ []) ∧
      ∀ more, dropTrailing.strip byte text = byte :: more → more = [] := by
  fun_induction dropTrailing.strip byte text with
  | case1 => exact ⟨0, by simp⟩
  | case2 only => exact ⟨0, by simp⟩
  | case3 second rest ih =>
      obtain ⟨copies, parts, kept, stops⟩ := ih
      refine ⟨copies + 1, ?_, fun _ nothing => ?_, stops⟩
      · rw [List.replicate_succ, List.cons_append, ← parts]
      · by_cases none_left : copies = 0
        · rw [none_left, nothing] at parts
          cases parts
        · exact kept none_left nothing
  | case4 first second rest apart => exact ⟨0, by simp [apart]⟩

/-- What stays of a text without the copies of a byte at its end, of which the first byte of the
text is none. -/
theorem dropTrailing_eq_iff {byte : UInt8} {text kept : Bytes} :
    dropTrailing byte text = kept ↔
      ∃ copies, text = kept ++ List.replicate copies byte ∧ (copies ≠ 0 → kept ≠ []) ∧
        ∀ more, kept = more ++ [byte] → more = [] := by
  rw [dropTrailing]
  constructor
  · rintro rfl
    obtain ⟨copies, parts, kept, stops⟩ := exists_strip byte text.reverse
    refine ⟨copies, ?_, fun some_left => by simpa using kept some_left, fun more ends => ?_⟩
    · rw [← List.reverse_inj, parts, ← parts]
      simpa using parts
    · rw [← List.reverse_inj] at ends
      simpa using stops more.reverse (by simpa using ends)
  · rintro ⟨copies, rfl, kept, stops⟩
    rw [List.reverse_append, List.reverse_replicate, strip_replicate_append, List.reverse_reverse]
    · simpa using kept
    · intro more ends
      rw [List.reverse_eq_iff, List.reverse_cons] at ends
      simpa using stops more.reverse ends

end Bytes

namespace PathFilter

/-- A pattern without the slashes at its end, of which the first byte is none, and without one
leading `./`. -/
def IsNormalForm (pattern normal : Bytes) : Prop :=
  ∃ kept slashes, pattern = kept ++ List.replicate slashes Ascii.slash ∧
    (slashes ≠ 0 → kept ≠ []) ∧ (∀ more, kept = more ++ [Ascii.slash] → more = []) ∧
    (kept = ascii "./" ++ normal ∨ ¬ ascii "./" <+: kept ∧ normal = kept)

/-- The normal form that is computed is the one that is specified. -/
theorem normalize_eq_iff {pattern normal : Bytes} :
    normalize pattern = normal ↔ IsNormalForm pattern normal := by
  have unmarked (kept : Bytes) :
      (if kept.startsWith (ascii "./") then kept.drop 2 else kept) = normal ↔
        kept = ascii "./" ++ normal ∨ ¬ ascii "./" <+: kept ∧ normal = kept := by
    by_cases marked : ascii "./" <+: kept
    · obtain ⟨rest, rfl⟩ := marked
      rw [if_pos (Bytes.startsWith_iff.mpr ⟨rest, rfl⟩)]
      simp [ascii, eq_comm]
    · rw [if_neg (fun starts => marked (Bytes.startsWith_iff.mp starts))]
      have unlike : kept ≠ ascii "./" ++ normal := fun same => marked ⟨normal, same.symm⟩
      simp only [marked, unlike, not_false_eq_true, true_and, false_or]
      exact eq_comm
  rw [normalize, unmarked, IsNormalForm]
  constructor
  · intro form
    obtain ⟨slashes, parts, kept, stops⟩ := Bytes.dropTrailing_eq_iff.mp
      (rfl : Bytes.dropTrailing Ascii.slash pattern = _)
    exact ⟨_, slashes, parts, kept, stops, form⟩
  · rintro ⟨kept, slashes, parts, some_kept, stops, form⟩
    have same := Bytes.dropTrailing_eq_iff.mpr ⟨slashes, parts, some_kept, stops⟩
    rwa [same]

/-- Every pattern has one normal form. -/
theorem isNormalForm_iff {pattern normal : Bytes} :
    IsNormalForm pattern normal ↔ normal = normalize pattern :=
  normalize_eq_iff.symm.trans eq_comm

private theorem isNormalForm_normalize (pattern : Bytes) : IsNormalForm pattern (normalize pattern)
    :=
  isNormalForm_iff.mpr rfl

/-- A normal form is a stretch of its pattern. -/
theorem IsNormalForm.isInfix {pattern normal : Bytes} (form : IsNormalForm pattern normal) :
    normal <:+: pattern := by
  obtain ⟨kept, slashes, rfl, -, -, rfl | ⟨-, rfl⟩⟩ := form
  · exact ⟨ascii "./", List.replicate slashes Ascii.slash, rfl⟩
  · exact ⟨[], List.replicate slashes Ascii.slash, rfl⟩

/-- A pattern without one slash in front. -/
def unrooted : Bytes → Bytes
  | Ascii.slash :: rest => rest
  | pattern => pattern

/-- A leading slash is dropped from a pattern. -/
theorem ite_tail_eq_unrooted (pattern : Bytes) :
    (if pattern.head? = some Ascii.slash then pattern.tail else pattern) = unrooted pattern := by
  cases pattern with
  | nil => rfl
  | cons byte rest =>
      by_cases rooted : byte = Ascii.slash
      · subst rooted
        rfl
      · rw [if_neg (by simpa using rooted), unrooted]
        simpa using rooted

/-- Dropping a leading slash leaves the end of a pattern. -/
theorem unrooted_suffix (pattern : Bytes) : unrooted pattern <:+ pattern := by
  rw [← ite_tail_eq_unrooted]
  split
  · exact List.tail_suffix pattern
  · exact List.suffix_refl pattern

/-- A path, or a path above it: what stands before one of its slashes. -/
def Encloses (above path : Bytes) : Prop :=
  above ≠ [] ∧ (above = path ∨ above ++ [Ascii.slash] <+: path)

/-- The paths above a path are those above its directory, and the directory. -/
theorem append_slash_prefix_iff {above upper last : Bytes} (whole : Ascii.slash ∉ last) :
    above ++ [Ascii.slash] <+: upper ++ Ascii.slash :: last ↔
      above = upper ∨ above ++ [Ascii.slash] <+: upper := by
  constructor
  · rintro ⟨rest, parts⟩
    rw [List.append_assoc, List.singleton_append, List.append_eq_append_iff] at parts
    obtain ⟨between, rfl, tails⟩ | ⟨between, rfl, tails⟩ := parts
    · cases between with
      | nil => exact .inl (List.append_nil above).symm
      | cons byte more =>
          obtain ⟨rfl, -⟩ := List.cons.inj tails
          exact .inr ⟨more, by simp⟩
    · cases between with
      | nil => exact .inl (List.append_nil upper)
      | cons byte more =>
          obtain ⟨-, rfl⟩ := List.cons.inj tails
          exact absurd (by simp) whole
  · rintro (rfl | ⟨rest, rfl⟩)
    · exact ⟨last, by simp⟩
    · exact ⟨rest ++ Ascii.slash :: last, by simp⟩

private theorem encloses_append_cons_iff {above upper last : Bytes} (whole : Ascii.slash ∉ last) :
    Encloses above (upper ++ Ascii.slash :: last) ↔
      above = upper ++ Ascii.slash :: last ∨ Encloses above upper := by
  rw [Encloses, Encloses, append_slash_prefix_iff whole, and_or_left]
  refine or_congr_left ⟨And.right, fun same => ⟨?_, same⟩⟩
  rw [same]
  simp

private theorem encloses_of_noSlash {above path : Bytes} (nonempty : path ≠ [])
    (whole : Ascii.slash ∉ path) : Encloses above path ↔ above = path := by
  have none_above : ¬ above ++ [Ascii.slash] <+: path := fun starts =>
    whole (starts.subset (by simp))
  rw [Encloses, or_iff_left none_above]
  refine ⟨And.right, fun same => ⟨?_, same⟩⟩
  rwa [same]

/-- A path with a slash is cut at its last one. -/
theorem exists_last_slash {path : Bytes} (slashed : Ascii.slash ∈ path) :
    ∃ upper last, path = upper ++ Ascii.slash :: last ∧ Ascii.slash ∉ last ∧
      path.reverse.dropWhile (· != Ascii.slash) = Ascii.slash :: upper.reverse := by
  obtain ⟨last, upper, parts, whole⟩ := List.eq_append_cons_of_mem (List.mem_reverse.mpr slashed)
  refine ⟨upper.reverse, last.reverse, ?_, by simpa using whole, ?_⟩
  · rw [← List.reverse_inj, parts]
    simp
  · have dropped : ∀ byte ∈ last, (byte != Ascii.slash) = true := by
      intro byte member
      exact bne_iff_ne.mpr fun same => whole (same ▸ member)
    rw [parts, List.dropWhile_append_of_pos dropped, List.reverse_reverse]
    rfl

private theorem mem_climb_iff {left : Nat} {path above : Bytes} (enough : path.length ≤ left) :
    above ∈ enclosing.climb left path ↔ Encloses above path := by
  induction left generalizing path with
  | zero =>
      obtain rfl := List.length_eq_zero_iff.mp (Nat.le_zero.mp enough)
      simp [enclosing.climb, Encloses]
  | succ left ih =>
      rw [enclosing.climb]
      by_cases empty : path = []
      · subst empty
        simp [Encloses]
      · rw [if_neg (by simpa using empty), List.mem_cons]
        by_cases slashed : Ascii.slash ∈ path
        · obtain ⟨upper, last, rfl, whole, behind⟩ := exists_last_slash slashed
          have shorter : upper.length ≤ left := by
            rw [List.length_append, List.length_cons] at enough
            omega
          rw [behind, encloses_append_cons_iff whole]
          dsimp only
          rw [List.reverse_reverse, ih shorter]
        · have behind : path.reverse.dropWhile (· != Ascii.slash) = [] := by
            rw [List.dropWhile_eq_nil_iff]
            intro byte member
            exact bne_iff_ne.mpr fun same => slashed (same ▸ List.mem_reverse.mp member)
          rw [behind, encloses_of_noSlash empty slashed]
          simp only [List.not_mem_nil, or_false]

private theorem mem_enclosing_iff {path above : Bytes} : above ∈ enclosing path ↔ Encloses above
    path :=
  mem_climb_iff (Nat.le_refl _)

/-- What encloses a path is a beginning of it. -/
theorem Encloses.starts {above path : Bytes} (encloses : Encloses above path) : above <+: path := by
  rcases encloses.2 with rfl | starts
  · exact List.prefix_refl above
  · exact (List.prefix_append above _).trans starts

private theorem Encloses.below {above path : Bytes} (encloses : Encloses above path) (rest : Bytes)
    : Encloses above (path ++ Ascii.slash :: rest) := by
  refine ⟨encloses.1, .inr ?_⟩
  rcases encloses.2 with rfl | starts
  · exact ⟨rest, by simp⟩
  · exact starts.trans (List.prefix_append ..)

/-- A pattern in normal form matches a component of a path or, if it has a slash, a path that
contains the path. -/
def Reaches (accepts : Glob.SlashRule → Bytes → Bytes → Bool) (normal path : Bytes) : Prop :=
  normal ≠ [] ∧
    (Ascii.slash ∉ normal ∧
        (∃ part ∈ Bytes.split Ascii.slash path, accepts .ordinary normal part = true) ∨
      Ascii.slash ∈ normal ∧
        ∃ above, Encloses above path ∧
          accepts (Glob.slashRule (unrooted normal)) (unrooted normal) above = true)

variable {accepts : Glob.SlashRule → Bytes → Bytes → Bool} {pattern normal path directory : Bytes}

private theorem Reaches.below (reaches : Reaches accepts normal directory) (rest : Bytes) :
    Reaches accepts normal (directory ++ Ascii.slash :: rest) := by
  obtain ⟨nonempty, ⟨flat, part, member, matched⟩ | ⟨slashed, above, encloses, matched⟩⟩ := reaches
  · exact ⟨nonempty, .inl ⟨flat, part, Bytes.split_subset_append _ _ rest member, matched⟩⟩
  · exact ⟨nonempty, .inr ⟨slashed, above, encloses.below rest, matched⟩⟩

/-- A pattern covers what its normal form reaches. -/
theorem coversBy_iff (form : IsNormalForm pattern normal) :
    coversBy accepts pattern path = true ↔ Reaches accepts normal path := by
  have same : normalize pattern = normal := normalize_eq_iff.mpr form
  rw [coversBy, same, Reaches]
  dsimp only
  rw [ite_tail_eq_unrooted]
  by_cases empty : normal = []
  · simp [empty]
  · rw [if_neg (by simpa using empty)]
    by_cases slashed : Ascii.slash ∈ normal
    · rw [if_pos (by simpa using slashed), List.any_eq_true]
      simp only [mem_enclosing_iff, empty, slashed, ne_eq, not_false_eq_true, not_true_eq_false,
        false_and, false_or, true_and]
    · rw [if_neg (by simpa using slashed), List.any_eq_true]
      simp only [empty, slashed, ne_eq, not_false_eq_true, false_and, or_false, true_and]

/-- What covers a directory covers what lies below it. -/
theorem coversBy_below (covered : coversBy accepts pattern directory = true) (rest : Bytes) :
    coversBy accepts pattern (directory ++ Ascii.slash :: rest) = true := by
  have form := isNormalForm_normalize pattern
  rw [coversBy_iff form] at covered ⊢
  exact covered.below rest

private theorem allowsBy_iff {filter : PathFilter} :
    filter.allowsBy accepts path = true ↔
      (filter.included = [] ∨
        ∃ pattern ∈ filter.included, coversBy accepts pattern path = true) ∧
      ∀ pattern ∈ filter.excluded, coversBy accepts pattern path = false := by
  simp [allowsBy]

/-- Two filters with the same patterns admit the same, whatever their order. -/
theorem allowsBy_congr {first second : PathFilter}
    (included : ∀ pattern, pattern ∈ first.included ↔ pattern ∈ second.included)
    (excluded : ∀ pattern, pattern ∈ first.excluded ↔ pattern ∈ second.excluded) :
    first.allowsBy accepts path = second.allowsBy accepts path := by
  have none_included : first.included = [] ↔ second.included = [] := by
    simp only [List.eq_nil_iff_forall_not_mem, included]
  rw [Bool.eq_iff_iff, allowsBy_iff, allowsBy_iff]
  simp only [none_included, included, excluded]

/-- **What a filter leaves out, it leaves out with everything below.** However patterns match texts,
a pattern covers a path exactly if its normal form matches a component of the path or, when it has a
slash, a path that contains the path. So what covers a directory covers what lies below it, a filter
that excludes a directory admits nothing below it, and whether a filter admits a path depends on
which patterns it includes and which it excludes, not on their order or how often they stand
there. -/
theorem covers_subtrees (accepts : Glob.SlashRule → Bytes → Bytes → Bool) :
    (∀ pattern, ∃ normal, (∀ other, IsNormalForm pattern other ↔ other = normal) ∧
        ∀ path, coversBy accepts pattern path = true ↔ Reaches accepts normal path) ∧
      (∀ pattern directory rest, coversBy accepts pattern directory = true →
        coversBy accepts pattern (directory ++ Ascii.slash :: rest) = true) ∧
      (∀ (filter : PathFilter) directory rest,
        (∃ pattern ∈ filter.excluded, coversBy accepts pattern directory = true) →
          filter.allowsBy accepts (directory ++ Ascii.slash :: rest) = false) ∧
      (∀ (filter : PathFilter) path, filter.allowsBy accepts path = true ↔
        (filter.included = [] ∨
          ∃ pattern ∈ filter.included, coversBy accepts pattern path = true) ∧
        ∀ pattern ∈ filter.excluded, coversBy accepts pattern path = false) ∧
      ∀ first second : PathFilter,
        (∀ pattern, pattern ∈ first.included ↔ pattern ∈ second.included) →
        (∀ pattern, pattern ∈ first.excluded ↔ pattern ∈ second.excluded) →
          ∀ path, first.allowsBy accepts path = second.allowsBy accepts path := by
  refine ⟨?_, fun _ _ rest covered => coversBy_below covered rest, ?_, fun _ _ => allowsBy_iff,
    fun _ _ included excluded _ => allowsBy_congr included excluded⟩
  · intro pattern
    have form := isNormalForm_normalize pattern
    exact ⟨normalize pattern, fun _ => isNormalForm_iff, fun _ => coversBy_iff form⟩
  · intro filter directory rest excludes
    obtain ⟨pattern, excluded, covered⟩ := excludes
    apply Bool.eq_false_iff.mpr
    intro admitted
    have spared := (allowsBy_iff.mp admitted).2 pattern excluded
    rw [coversBy_below covered rest] at spared
    cases spared

/-- A filter with a star, inside and outside what it includes. -/
theorem covers_subtrees_of_star :
    let filter : PathFilter := { excluded := [ascii "docs/*.d/", ascii "media"] }
    covers (ascii "docs/*.d/") (ascii "docs/a.d") = true ∧
      covers (ascii "docs/*.d/") (ascii "docs/a.d/b/c") = true ∧
      filter.allows (ascii "docs/a.d/b/c") = false ∧
      filter.allows (ascii "docs/a.d/b/c") =
        PathFilter.allows { excluded := [ascii "media", ascii "docs/*.d/", ascii "media"] }
          (ascii "docs/a.d/b/c") := by
  intro filter
  obtain ⟨-, below, leavesOut, -, sameSets⟩ := covers_subtrees Glob.accepts
  have covered : covers (ascii "docs/*.d/") (ascii "docs/a.d") = true := by decide +kernel
  refine ⟨covered, below _ (ascii "docs/a.d") (ascii "b/c") covered,
    leavesOut filter (ascii "docs/a.d") (ascii "b/c") ⟨_, List.mem_cons_self, covered⟩,
    sameSets _ _ (fun _ => Iff.rfl) (fun pattern => ?_) _⟩
  simp [filter, or_comm]

private theorem reaches_literal_iff (literal : Glob.IsLiteral normal) (whole : 0 ∉ normal)
    (wholePath : 0 ∉ path) :
    Reaches Glob.accepts normal path ↔
      Ascii.slash ∉ normal ∧ normal ≠ [] ∧ normal ∈ path.splitOn Ascii.slash ∨
        Ascii.slash ∈ normal ∧ Encloses (unrooted normal) path := by
  have suffix := unrooted_suffix normal
  have component : (∃ part ∈ Bytes.split Ascii.slash path,
      Glob.accepts .ordinary normal part = true) ↔ normal ∈ Bytes.split Ascii.slash path := by
    constructor
    · rintro ⟨part, member, matched⟩
      have wholePart : 0 ∉ part := fun zero =>
        wholePath ((Bytes.infix_of_mem_split member).1.subset zero)
      rwa [← (Glob.accepts_iff_eq literal whole wholePart).mp matched]
    · exact fun member => ⟨normal, member, (Glob.accepts_iff_eq literal whole whole).mpr rfl⟩
  have container : (∃ above, Encloses above path ∧
      Glob.accepts (Glob.slashRule (unrooted normal)) (unrooted normal) above = true) ↔
        Encloses (unrooted normal) path := by
    have literal : Glob.IsLiteral (unrooted normal) := fun byte member =>
      literal byte (suffix.subset member)
    have whole : 0 ∉ unrooted normal := fun zero => whole (suffix.subset zero)
    constructor
    · rintro ⟨above, encloses, matched⟩
      have wholeAbove : 0 ∉ above := fun zero => wholePath (encloses.starts.subset zero)
      rwa [← (Glob.accepts_iff_eq literal whole wholeAbove).mp matched]
    · exact fun encloses => ⟨_, encloses, (Glob.accepts_iff_eq literal whole whole).mpr rfl⟩
  rw [Reaches, component, container]
  constructor
  · rintro ⟨nonempty, ⟨flat, member⟩ | anchored⟩
    · exact .inl ⟨flat, nonempty, (Bytes.mem_splitOn_iff nonempty).mpr member⟩
    · exact .inr anchored
  · rintro (⟨flat, nonempty, member⟩ | ⟨slashed, encloses⟩)
    · exact ⟨nonempty, .inl ⟨flat, (Bytes.mem_splitOn_iff nonempty).mp member⟩⟩
    · exact ⟨List.ne_nil_of_mem slashed, .inr ⟨slashed, encloses⟩⟩

/-- **A pattern without wildcards means what it says.** If its normal form has no slash, it covers
the paths of which that is a component. If it has one, it covers the path that it is without a slash
in front and what lies below, and no other path that just begins with it. -/
theorem covers_literal_iff (literal : Glob.IsLiteral pattern) (whole : 0 ∉ pattern)
    (wholePath : 0 ∉ path) :
    ∃ normal, (∀ other, IsNormalForm pattern other ↔ other = normal) ∧
      (covers pattern path = true ↔
        Ascii.slash ∉ normal ∧ normal ≠ [] ∧ normal ∈ path.splitOn Ascii.slash ∨
          Ascii.slash ∈ normal ∧ Encloses (unrooted normal) path) := by
  have form := isNormalForm_normalize pattern
  have inside := form.isInfix
  refine ⟨normalize pattern, fun _ => isNormalForm_iff, ?_⟩
  rw [covers, coversBy_iff form]
  apply reaches_literal_iff
  · exact fun byte member => literal byte (inside.subset member)
  · exact fun zero => whole (inside.subset zero)
  · exact wholePath

/-- A pattern of names in a form that is not the normal one. -/
theorem covers_literal_iff_of_anchored :
    Glob.IsLiteral (ascii ".//top/media//") ∧ 0 ∉ ascii ".//top/media//" ∧
      0 ∉ ascii "top/media/a" ∧ 0 ∉ ascii "top/mediax" ∧
      covers (ascii ".//top/media//") (ascii "top/media/a") = true ∧
      covers (ascii ".//top/media//") (ascii "top/mediax") = false := by
  have literal : Glob.IsLiteral (ascii ".//top/media//") := by decide
  have whole : 0 ∉ ascii ".//top/media//" := by decide
  have below : 0 ∉ ascii "top/media/a" := by decide
  have beside : 0 ∉ ascii "top/mediax" := by decide
  have form : IsNormalForm (ascii ".//top/media//") (ascii "/top/media") :=
    normalize_eq_iff.mp (by decide +kernel)
  refine ⟨literal, whole, below, beside, ?_, ?_⟩
  · obtain ⟨normal, unique, covered⟩ := covers_literal_iff literal whole below
    obtain rfl := (unique _).mp form
    apply covered.mpr
    exact .inr ⟨by decide, by decide, .inr ⟨ascii "a", rfl⟩⟩
  · obtain ⟨normal, unique, covered⟩ := covers_literal_iff literal whole beside
    obtain rfl := (unique _).mp form
    rw [Bool.eq_false_iff, ne_eq, covered]
    rintro (⟨flat, -⟩ | ⟨-, -, same | starts⟩)
    · exact flat (by decide)
    · exact absurd same (by decide)
    · exact absurd starts (by decide)

end PathFilter

end StoreAudit

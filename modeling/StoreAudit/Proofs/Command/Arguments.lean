import Mathlib.Data.List.TakeWhile
import StoreAudit.Command.Arguments
import StoreAudit.Proofs.Text.Decimal

/-!
# Arguments that cannot be used

Which arguments a check refuses, said without reading them one after the other: an option that has
no meaning or more than one, that has a value it may not have or lacks one that it needs, and a
number of jobs that is not a decimal numeral from 1 to 1024. The reader finds a problem in exactly
these arguments (`CheckArguments.parse_error_iff`), and it never misses that a run is to be dry
(`CheckArguments.dryRun_of_parse`).
-/

namespace StoreAudit

namespace LongOption

/-- A name stands for the option that has it, or else for the only option that starts with it. -/
def StandsFor (name : Bytes) (option : LongOption) : Prop :=
  option.name = name ∨
    (∀ other : LongOption, other.name ≠ name) ∧
      ∀ other : LongOption, name <+: other.name ↔ other = option

private theorem mem_all (option : LongOption) : option ∈ all := by
  cases option <;> decide

private theorem name_injective {first second : LongOption} (same : first.name = second.name) :
    first = second := by
  revert same
  cases first <;> cases second <;> decide

/-- In a list of all things, each once, those of a kind are one thing if no other is of the kind. -/
theorem filter_all_eq_singleton_iff {kind : LongOption → Bool} {option : LongOption} :
    all.filter kind = [option] ↔ ∀ other, kind other = true ↔ other = option := by
  constructor
  · intro only other
    have member : other ∈ all.filter kind ↔ kind other = true := by
      rw [List.mem_filter]
      exact and_iff_right other.mem_all
    rw [← member, only, List.mem_singleton]
  · intro only
    have same : all.filter kind = all.filter (fun other => other = option) :=
      List.filter_congr fun other _ =>
        Bool.eq_iff_iff.mpr ((only other).trans decide_eq_true_iff.symm)
    rw [same]
    cases option <;> decide

private theorem candidates_eq_singleton_iff {name : Bytes} {option : LongOption} :
    candidates name = [option] ↔ StandsFor name option := by
  unfold candidates
  cases exact : all.find? fun option => option.name = name with
  | some named =>
      have same : named.name = name := by simpa using List.find?_some exact
      constructor
      · intro only
        obtain rfl : named = option := (List.cons.inj only).1
        exact .inl same
      · rintro (own | ⟨none, -⟩)
        · rw [name_injective (same.trans own.symm)]
        · exact absurd same (none named)
  | none =>
      have none (other : LongOption) : other.name ≠ name := by
        simpa using List.find?_eq_none.mp exact other other.mem_all
      refine filter_all_eq_singleton_iff.trans ?_
      simp only [Bytes.startsWith_iff, StandsFor, none, false_or, not_false_eq_true, implies_true,
        true_and, ne_eq]

end LongOption

namespace CheckArguments

/-- An argument that is a long option of this name with this value, or without one. -/
structure IsLong (argument name : Bytes) (value : Option Bytes) : Prop where
  more : argument ≠ ascii "--"
  -- the sign before a value is `=`, which is 61
  named : 61 ∉ name
  shape : argument = ascii "--" ++ name ++ (value.map (61 :: ·)).getD []

/-- An argument of letters that are any number of `d` and then these. -/
structure IsLetters (argument letters : Bytes) : Prop where
  more : argument ≠ ascii "-"
  short : ¬ ascii "--" <+: argument
  shape : ∃ count, argument = ascii "-" ++ (List.replicate count 100 ++ letters)
  rest : letters.head? ≠ some 100

/-- A decimal numeral of a number of jobs. -/
def IsJobCount (text : Bytes) : Prop :=
  ∃ count, 1 ≤ count ∧ count ≤ 1024 ∧ Decimal.Denotes text count

/-- The argument is an option that needs the next argument for the number of jobs. -/
def WantsCount (argument : Bytes) : Prop :=
  (∃ name, IsLong argument name none ∧ LongOption.StandsFor name .jobs) ∨
    IsLetters argument (ascii "j")

/-- The argument alone cannot be used. -/
inductive IsBad (argument : Bytes) : Prop
  /-- The name stands for no option, or could stand for several. -/
  | unknown {name : Bytes} {value : Option Bytes} : IsLong argument name value →
      (∀ option, ¬ LongOption.StandsFor name option) → IsBad argument
  /-- The option has a value that it may not have. -/
  | unexpected {name value : Bytes} {option : LongOption} : IsLong argument name (some value) →
      LongOption.StandsFor name option → option ≠ .jobs → IsBad argument
  | jobs {name value : Bytes} : IsLong argument name (some value) →
      LongOption.StandsFor name .jobs → ¬ IsJobCount value → IsBad argument
  | letter {letter : UInt8} {rest : Bytes} : IsLetters argument (letter :: rest) →
      letter ≠ 106 → IsBad argument
  | letterJobs {value : Bytes} : IsLetters argument (106 :: value) → value ≠ [] →
      ¬ IsJobCount value → IsBad argument

/-- Arguments of which one is an option that cannot be used. Nothing is an option after a lone
double dash, nor where an option finds its value. -/
inductive Unusable : List Bytes → Prop
  | bad {argument : Bytes} {rest : List Bytes} : IsBad argument → Unusable (argument :: rest)
  /-- A value that is needed is missing. -/
  | missing {argument : Bytes} : WantsCount argument → Unusable [argument]
  | count {argument value : Bytes} {rest : List Bytes} : WantsCount argument →
      ¬ IsJobCount value → Unusable (argument :: value :: rest)
  | afterCount {argument value : Bytes} {rest : List Bytes} : WantsCount argument →
      Unusable rest → Unusable (argument :: value :: rest)
  | later {argument : Bytes} {rest : List Bytes} : argument ≠ ascii "--" →
      ¬ WantsCount argument → Unusable rest → Unusable (argument :: rest)

private theorem formOf_eq_long_iff {argument text : Bytes} :
    formOf argument = .long text ↔ argument = ascii "--" ++ text := by
  constructor
  · intro long
    unfold formOf at long
    split at long
    · cases long
      rfl
    · cases long
    · cases long
  · rintro rfl
    rfl

private theorem formOf_eq_letters_iff {argument text : Bytes} :
    formOf argument = .letters text ↔
      argument = ascii "-" ++ text ∧ text ≠ [] ∧ text.head? ≠ some Ascii.dash := by
  constructor
  · intro letters
    unfold formOf at letters
    split at letters
    · cases letters
    · rename_i letter rest short
      cases letters
      refine ⟨rfl, List.cons_ne_nil _ _, fun dash => ?_⟩
      obtain rfl : letter = Ascii.dash := Option.some.inj dash
      exact short rfl
    · cases letters
  · rintro ⟨rfl, inhabited, short⟩
    cases text with
    | nil => exact absurd rfl inhabited
    | cons letter rest =>
        have other : letter ≠ Ascii.dash := fun dash => short (congrArg some dash)
        change formOf (Ascii.dash :: letter :: rest) = _
        unfold formOf
        split
        · rename_i shape
          exact absurd (List.cons.inj (List.cons.inj shape).2).1 other
        · rename_i shape
          rw [(List.cons.inj shape).2]
        · rename_i none
          exact absurd rfl (none letter rest)

/-- The name of a long option ends before the first sign, and its value begins behind it. -/
theorem isLong_iff {argument name : Bytes} {value : Option Bytes} :
    IsLong argument name value ↔ ∃ text, text ≠ [] ∧ formOf argument = .long text ∧
      name = text.takeWhile (· != 61) ∧
      value = (text.dropWhile (· != 61)).tail? := by
  constructor
  · rintro ⟨more, named, rfl⟩
    refine ⟨name ++ (value.map (61 :: ·)).getD [], ?_, ?_, ?_⟩
    · rintro empty
      rw [List.append_assoc, empty] at more
      exact more rfl
    · rw [formOf_eq_long_iff, List.append_assoc]
    · have keeps : ∀ byte ∈ name, (byte != 61) = true := by
        intro byte member
        simpa using fun same : byte = 61 => named (same ▸ member)
      rw [List.takeWhile_append_of_pos keeps, List.dropWhile_append_of_pos keeps]
      cases value with
      | none => simp
      | some value => simp
  · rintro ⟨text, inhabited, long, rfl, rfl⟩
    obtain rfl := formOf_eq_long_iff.mp long
    refine ⟨fun dashes => inhabited (List.append_right_eq_self.mp dashes), ?_, ?_⟩
    · intro member
      simpa using List.mem_takeWhile_imp member
    · rw [List.append_assoc]
      refine congrArg (ascii "--" ++ ·) ?_
      cases behind : text.dropWhile (· != 61) with
      | nil =>
          have whole := List.takeWhile_append_dropWhile (p := (· != 61)) (l := text)
          rw [behind] at whole
          simpa using whole.symm
      | cons sign rest =>
          have whole := List.takeWhile_append_dropWhile (p := (· != 61)) (l := text)
          rw [behind] at whole
          have here : sign = 61 := by
            have first := List.head?_dropWhile_not (· != 61) text
            rw [behind] at first
            simpa using first
          rw [here] at whole
          simpa using whole.symm

private theorem isLetters_iff {argument letters : Bytes} :
    IsLetters argument letters ↔ ∃ text, formOf argument = .letters text ∧
      letters = text.dropWhile (· == 100) := by
  constructor
  · rintro ⟨more, short, ⟨count, rfl⟩, rest⟩
    refine ⟨List.replicate count 100 ++ letters, ?_, ?_⟩
    · refine formOf_eq_letters_iff.mpr ⟨rfl, fun empty => ?_, fun dash => ?_⟩
      · rw [empty] at more
        exact more rfl
      · obtain ⟨more, shape⟩ := List.head?_eq_some_iff.mp dash
        rw [shape] at short
        exact short ⟨more, rfl⟩
    · rw [List.dropWhile_append_of_pos (by simp)]
      cases letters with
      | nil => rfl
      | cons letter others =>
          have other : letter ≠ 100 := fun same => rest (congrArg some same)
          rw [List.dropWhile_cons_of_neg (by simpa using other)]
  · rintro ⟨text, form, rfl⟩
    obtain ⟨rfl, inhabited, short⟩ := formOf_eq_letters_iff.mp form
    refine ⟨?_, ?_, ⟨(text.takeWhile (· == 100)).length, ?_⟩, ?_⟩
    · exact fun dash => inhabited (List.append_right_eq_self.mp dash)
    · rintro ⟨more, shape⟩
      exact short (List.head?_eq_some_iff.mpr ⟨more, (List.cons.inj shape).2.symm⟩)
    · have only : text.takeWhile (· == 100) =
          List.replicate (text.takeWhile (· == 100)).length 100 :=
        List.eq_replicate_of_mem fun byte member => by
          simpa using List.mem_takeWhile_imp member
      rw [← only, List.takeWhile_append_dropWhile]
    · intro first
      have stops := List.head?_dropWhile_not (· == 100) text
      rw [first] at stops
      exact absurd stops (by decide)

private theorem setJobs_cases (arguments : CheckArguments) (text : Bytes) :
    (IsJobCount text ∧
        ∃ count, arguments.setJobs text = .ok { arguments with jobs := some count }) ∨
      ¬ IsJobCount text ∧ arguments.setJobs text = .error (.invalidJobs text) := by
  unfold setJobs
  cases read : Decimal.toWord? text with
  | none =>
      refine .inr ⟨?_, rfl⟩
      rintro ⟨count, -, small, denotes⟩
      have fits : (UInt64.ofNat count).toNat = count := by
        rw [UInt64.toNat_ofNat']
        omega
      rw [← fits] at denotes
      rw [Decimal.toWord?_eq_some_iff.mpr denotes] at read
      cases read
  | some word =>
      have denotes := Decimal.toWord?_eq_some_iff.mp read
      have zero : word = 0 ↔ word.toNat = 0 := UInt64.toNat_inj.symm
      by_cases bounds : 1 ≤ word.toNat ∧ word.toNat ≤ 1024
      · have accepted : ¬ (decide (word = 0) || decide (maxJobs < word.toNat)) = true := by
          rw [Bool.or_eq_true, decide_eq_true_iff, decide_eq_true_iff, zero, maxJobs]
          omega
        refine .inl ⟨⟨word.toNat, bounds.1, bounds.2, denotes⟩, word.toNat, ?_⟩
        exact if_neg accepted
      · have refused : (decide (word = 0) || decide (maxJobs < word.toNat)) = true := by
          rw [Bool.or_eq_true, decide_eq_true_iff, decide_eq_true_iff, zero, maxJobs]
          omega
        refine .inr ⟨?_, if_pos refused⟩
        rintro ⟨count, positive, small, denotes'⟩
        rw [← denotes'.value, denotes.value] at positive small
        exact bounds ⟨positive, small⟩

/-- What became of an argument: it cannot be used, it needs the next one, or it is read. -/
inductive Read (argument : Bytes) :
    Except ArgumentProblem (CheckArguments × Option ArgumentProblem) → Prop
  | refused {problem : ArgumentProblem} : IsBad argument → ¬ WantsCount argument →
      Read argument (.error problem)
  | waiting {next : CheckArguments} {missing : ArgumentProblem} : WantsCount argument →
      Read argument (.ok (next, some missing))
  | done {next : CheckArguments} : ¬ IsBad argument → ¬ WantsCount argument →
      Read argument (.ok (next, none))

private theorem setJobs_read {argument : Bytes} (arguments : CheckArguments) {text : Bytes}
    (bad : ¬ IsJobCount text → IsBad argument) (fine : IsJobCount text → ¬ IsBad argument)
    (alone : ¬ WantsCount argument) :
    Read argument ((arguments.setJobs text).map fun arguments => (arguments, none)) := by
  rcases arguments.setJobs_cases text with ⟨isCount, count, set⟩ | ⟨isNot, refused⟩
  · rw [set]
    exact .done (fine isCount) alone
  · rw [refused]
    exact .refused (bad isNot) alone

section Long

variable {argument name : Bytes} {value : Option Bytes}

private theorem IsLong.unique (long : IsLong argument name value) {name' : Bytes}
    {value' : Option Bytes}
    (long' : IsLong argument name' value') : name' = name ∧ value' = value := by
  obtain ⟨text, -, form, rfl, rfl⟩ := isLong_iff.mp long
  obtain ⟨text', -, form', rfl, rfl⟩ := isLong_iff.mp long'
  rw [form] at form'
  cases form'
  exact ⟨rfl, rfl⟩

private theorem IsLong.not_isLetters (long : IsLong argument name value) (letters : Bytes) :
    ¬ IsLetters argument letters := by
  intro isLetters
  obtain ⟨text, -, form, -⟩ := isLong_iff.mp long
  obtain ⟨text', form', -⟩ := isLetters_iff.mp isLetters
  rw [form] at form'
  cases form'

private theorem standsFor_unique {first second : LongOption}
    (stands : LongOption.StandsFor name first) (stands' : LongOption.StandsFor name second) :
    first = second := by
  rw [← LongOption.candidates_eq_singleton_iff] at stands stands'
  exact (List.cons.inj (stands.symm.trans stands')).1

private theorem IsLong.wantsCount_iff (long : IsLong argument name value) :
    WantsCount argument ↔ value = none ∧ LongOption.StandsFor name .jobs := by
  constructor
  · rintro (⟨name', long', stands⟩ | letters)
    · obtain ⟨rfl, rfl⟩ := long.unique long'
      exact ⟨rfl, stands⟩
    · exact absurd letters (long.not_isLetters _)
  · rintro ⟨rfl, stands⟩
    exact .inl ⟨name, long, stands⟩

/-- What is wrong with a long option depends on what its name stands for. -/
theorem IsLong.isBad_iff (long : IsLong argument name value) {option : LongOption}
    (stands : LongOption.StandsFor name option) :
    IsBad argument ↔
      ∃ given, value = some given ∧ (option = .jobs → ¬ IsJobCount given) := by
  constructor
  · intro bad
    cases bad with
    | unknown long' none =>
        obtain ⟨rfl, rfl⟩ := long.unique long'
        exact absurd stands (none option)
    | unexpected long' stands' other =>
        obtain ⟨rfl, rfl⟩ := long.unique long'
        rw [standsFor_unique stands' stands] at other
        exact ⟨_, rfl, fun jobs => absurd jobs other⟩
    | jobs long' stands' isNot =>
        obtain ⟨rfl, rfl⟩ := long.unique long'
        exact ⟨_, rfl, fun _ => isNot⟩
    | letter letters other => exact absurd letters (long.not_isLetters _)
    | letterJobs letters => exact absurd letters (long.not_isLetters _)
  · rintro ⟨given, rfl, wrong⟩
    by_cases jobs : option = .jobs
    · subst jobs
      exact .jobs long stands (wrong rfl)
    · exact .unexpected long stands jobs

private theorem readLong_read (arguments : CheckArguments) {text : Bytes} (inhabited : text ≠ [])
    (form : formOf argument = .long text) : Read argument (arguments.readLong text) := by
  have long := isLong_iff.mpr ⟨text, inhabited, form, rfl, rfl⟩
  have wants := long.wantsCount_iff
  by_cases meaning : ∃ option, LongOption.StandsFor (text.takeWhile (· != 61)) option
  · obtain ⟨option, stands⟩ := meaning
    have only := LongOption.candidates_eq_singleton_iff.mpr stands
    have bad := long.isBad_iff stands
    have wantsJobs : WantsCount argument ↔
        (text.dropWhile (· != 61)).tail? = none ∧ option = .jobs :=
      wants.trans (and_congr_right fun _ =>
        ⟨fun stands' => standsFor_unique stands stands', fun jobs => jobs ▸ stands⟩)
    unfold readLong
    dsimp only
    rw [only]
    cases given : (text.dropWhile (· != 61)).tail? with
    | none =>
        rw [given] at bad wantsJobs
        have fine : ¬ IsBad argument := by
          rw [bad]
          rintro ⟨_, ⟨⟩, _⟩
        cases option with
        | jobs => exact .waiting (wantsJobs.mpr ⟨rfl, rfl⟩)
        | dryRun | objects | pointers => exact .done fine (by rw [wantsJobs]; simp)
    | some value =>
        rw [given] at bad wantsJobs
        have alone : ¬ WantsCount argument := by
          rw [wantsJobs]
          rintro ⟨⟨⟩, _⟩
        cases option with
        | jobs =>
            refine arguments.setJobs_read (fun isNot => bad.mpr ⟨value, rfl, fun _ => isNot⟩)
              (fun isCount isBad => ?_) alone
            obtain ⟨_, ⟨⟩, isNot⟩ := bad.mp isBad
            exact isNot rfl isCount
        | dryRun | objects | pointers =>
            exact .refused (bad.mpr ⟨value, rfl, nofun⟩) alone
  · have none : ∀ option, ¬ LongOption.StandsFor (text.takeWhile (· != 61)) option :=
      not_exists.mp meaning
    have alone : ¬ WantsCount argument := fun wanted => none _ (wants.mp wanted).2
    unfold readLong
    dsimp only
    split
    · exact .refused (.unknown long none) alone
    · rename_i only
      exact absurd (LongOption.candidates_eq_singleton_iff.mp only) (none _)
    · rename_i only
      exact absurd (LongOption.candidates_eq_singleton_iff.mp only) (none _)
    · exact .refused (.unknown long none) alone

end Long

section Letters

variable {argument letters : Bytes}

private theorem IsLetters.unique (isLetters : IsLetters argument letters) {letters' : Bytes}
    (isLetters' : IsLetters argument letters') : letters' = letters := by
  obtain ⟨text, form, rfl⟩ := isLetters_iff.mp isLetters
  obtain ⟨text', form', rfl⟩ := isLetters_iff.mp isLetters'
  rw [form] at form'
  cases form'
  rfl

private theorem IsLetters.wantsCount_iff (isLetters : IsLetters argument letters) :
    WantsCount argument ↔ letters = ascii "j" := by
  constructor
  · rintro (⟨name, long, -⟩ | only)
    · exact absurd isLetters (long.not_isLetters _)
    · exact (isLetters.unique only).symm
  · rintro rfl
    exact .inr isLetters

private theorem IsLetters.isBad_iff (isLetters : IsLetters argument letters) :
    IsBad argument ↔ ∃ letter rest, letters = letter :: rest ∧
      (letter = 106 → rest ≠ [] ∧ ¬ IsJobCount rest) := by
  constructor
  · intro bad
    cases bad with
    | unknown long | unexpected long | jobs long => exact absurd isLetters (long.not_isLetters _)
    | letter only other =>
        obtain rfl := isLetters.unique only
        exact ⟨_, _, rfl, fun same => absurd same other⟩
    | letterJobs only inhabited isNot =>
        obtain rfl := isLetters.unique only
        exact ⟨_, _, rfl, fun _ => ⟨inhabited, isNot⟩⟩
  · rintro ⟨letter, rest, rfl, wrong⟩
    by_cases jobs : letter = 106
    · subst jobs
      exact .letterJobs isLetters (wrong rfl).1 (wrong rfl).2
    · exact .letter isLetters jobs

/-- Each `d` makes the run dry and is passed over. -/
theorem readLetters_dropWhile (arguments : CheckArguments) (text : Bytes) :
    ∃ next : CheckArguments,
      arguments.readLetters text = next.readLetters (text.dropWhile (· == 100)) := by
  induction text generalizing arguments with
  | nil => exact ⟨arguments, rfl⟩
  | cons letter rest ih =>
      by_cases dry : letter = 100
      · obtain ⟨next, same⟩ := ih { arguments with dryRun := true }
        refine ⟨next, ?_⟩
        rw [readLetters, if_pos dry, same, List.dropWhile_cons_of_pos (by simpa using dry)]
      · exact ⟨arguments, by rw [List.dropWhile_cons_of_neg (by simpa using dry)]⟩

private theorem readLetters_read (arguments : CheckArguments) {text : Bytes}
    (form : formOf argument = .letters text) : Read argument (arguments.readLetters text) := by
  have isLetters := isLetters_iff.mpr ⟨text, form, rfl⟩
  have wants := isLetters.wantsCount_iff
  have bad := isLetters.isBad_iff
  obtain ⟨next, same⟩ := arguments.readLetters_dropWhile text
  have other := isLetters.rest
  rw [same]
  cases shape : text.dropWhile (· == 100) with
  | nil =>
      rw [shape] at wants bad
      exact .done (by rw [bad]; simp) (by rw [wants]; decide)
  | cons letter rest =>
      rw [shape] at wants bad other
      have notDry : letter ≠ 100 := fun dry => other (congrArg some dry)
      rw [readLetters, if_neg notDry]
      by_cases jobs : letter = 106
      · subst jobs
        rw [if_pos rfl]
        cases rest with
        | nil => exact .waiting (wants.mpr rfl)
        | cons first more =>
            have alone : ¬ WantsCount argument := by
              rw [wants]
              exact fun only => nomatch (List.cons.inj only).2
            refine next.setJobs_read (fun isNot => bad.mpr ⟨_, _, rfl, fun _ => ⟨nofun, isNot⟩⟩)
              (fun isCount isBad => ?_) alone
            obtain ⟨_, _, shape, wrong⟩ := bad.mp isBad
            cases shape
            exact (wrong rfl).2 isCount
      · rw [if_neg jobs]
        refine .refused (bad.mpr ⟨_, _, rfl, fun same => absurd same jobs⟩) ?_
        rw [wants]
        exact fun only => jobs (List.cons.inj only).1

end Letters

private theorem readOne_read (arguments : CheckArguments) {argument : Bytes}
    (more : argument ≠ ascii "--") : Read argument (arguments.readOne argument) := by
  unfold readOne
  split
  · rename_i text form
    refine arguments.readLong_read (fun empty => more ?_) form
    rw [formOf_eq_long_iff.mp form, empty]
    rfl
  · rename_i text form
    exact arguments.readLetters_read form
  · rename_i form
    have notLong (name : Bytes) (value : Option Bytes) : ¬ IsLong argument name value := by
      intro long
      obtain ⟨text, -, form', -⟩ := isLong_iff.mp long
      rw [form] at form'
      cases form'
    have notLetters (letters : Bytes) : ¬ IsLetters argument letters := by
      intro isLetters
      obtain ⟨text, form', -⟩ := isLetters_iff.mp isLetters
      rw [form] at form'
      cases form'
    refine .done (fun bad => ?_) ?_
    · cases bad with
      | unknown long | unexpected long | jobs long => exact notLong _ _ long
      | letter isLetters | letterJobs isLetters => exact notLetters _ isLetters
    · rintro (⟨name, long, -⟩ | isLetters)
      · exact notLong _ _ long
      · exact notLetters _ isLetters

private theorem not_isBad_dashes : ¬ IsBad (ascii "--") := by
  intro bad
  cases bad with
  | unknown long | unexpected long | jobs long => exact long.more rfl
  | letter isLetters | letterJobs isLetters => exact isLetters.short (List.prefix_refl _)

private theorem not_wantsCount_dashes : ¬ WantsCount (ascii "--") := by
  rintro (⟨name, long, -⟩ | isLetters)
  · exact long.more rfl
  · exact isLetters.short (List.prefix_refl _)

private theorem WantsCount.not_isBad {argument : Bytes} (wants : WantsCount argument) :
    ¬ IsBad argument := by
  rcases wants with ⟨name, long, stands⟩ | isLetters
  · rw [long.isBad_iff stands]
    rintro ⟨_, ⟨⟩, _⟩
  · rw [isLetters.isBad_iff]
    rintro ⟨letter, rest, shape, wrong⟩
    obtain ⟨rfl, rfl⟩ := List.cons.inj shape
    exact (wrong rfl).1 rfl

/-- The reader finds a problem exactly in arguments that cannot be used. -/
theorem read_error_iff (arguments : CheckArguments) (words : List Bytes) :
    (∃ problem, arguments.read words = .error problem) ↔ Unusable words := by
  fun_induction CheckArguments.read arguments words with
  | case1 arguments => exact iff_of_false nofun nofun
  | case2 arguments rest =>
      refine iff_of_false nofun fun unusable => ?_
      cases unusable with
      | bad isBad => exact not_isBad_dashes isBad
      | missing wants | count wants | afterCount wants => exact not_wantsCount_dashes wants
      | later more => exact more rfl
  | case3 arguments argument rest more problem refused =>
      have looked := arguments.readOne_read more
      rw [refused] at looked
      cases looked with
      | refused isBad => exact iff_of_true ⟨problem, rfl⟩ (.bad isBad)
  | case4 arguments argument rest more next done ih =>
      have looked := arguments.readOne_read more
      rw [done] at looked
      cases looked with
      | done fine alone =>
          refine ih.trans ⟨.later more alone, fun unusable => ?_⟩
          cases unusable with
          | bad isBad => exact absurd isBad fine
          | missing wants | count wants | afterCount wants => exact absurd wants alone
          | later _ _ unusable => exact unusable
  | case5 arguments argument more next missing waiting =>
      have looked := arguments.readOne_read more
      rw [waiting] at looked
      cases looked with
      | waiting wants => exact iff_of_true ⟨missing, rfl⟩ (.missing wants)
  | case6 arguments argument more next missing waiting value rest problem refused =>
      have looked := arguments.readOne_read more
      rw [waiting] at looked
      cases looked with
      | waiting wants =>
          rcases next.setJobs_cases value with ⟨-, count, set⟩ | ⟨isNot, -⟩
          · rw [set] at refused
            cases refused
          · exact iff_of_true ⟨problem, rfl⟩ (.count wants isNot)
  | case7 arguments argument more next missing waiting value rest following set ih =>
      have looked := arguments.readOne_read more
      rw [waiting] at looked
      cases looked with
      | waiting wants =>
          rcases next.setJobs_cases value with ⟨isCount, -⟩ | ⟨-, refused⟩
          · refine ih.trans ⟨.afterCount wants, fun unusable => ?_⟩
            cases unusable with
            | bad isBad => exact absurd isBad wants.not_isBad
            | count _ isNot => exact absurd isCount isNot
            | afterCount _ unusable => exact unusable
            | later _ alone => exact absurd wants alone
          · rw [set] at refused
            cases refused

/-- Arguments are refused exactly if one of them cannot be used. -/
theorem parse_error_iff (words : List Bytes) :
    (∃ problem, parse words = .error problem) ↔ Unusable words :=
  read_error_iff {} words

/-- A run that is to be dry stays so, whatever is read further. -/
theorem setJobs_dryRun {arguments next : CheckArguments} {text : Bytes}
    (set : arguments.setJobs text = .ok next) : next.dryRun = arguments.dryRun := by
  rcases arguments.setJobs_cases text with ⟨-, count, same⟩ | ⟨-, refused⟩
  · rw [same] at set
    cases set
    rfl
  · rw [refused] at set
    cases set

private theorem setJobs_map_dryRun {arguments next : CheckArguments} {text : Bytes}
    {missing : Option ArgumentProblem}
    (done : ((arguments.setJobs text).map fun arguments => (arguments, none)) =
      .ok (next, missing)) : next.dryRun = arguments.dryRun := by
  cases set : arguments.setJobs text with
  | error problem =>
      rw [set] at done
      cases done
  | ok following =>
      rw [set] at done
      cases done
      exact setJobs_dryRun set

private theorem readLetters_dryRun {arguments next : CheckArguments} {text : Bytes}
    {missing : Option ArgumentProblem} (dry : arguments.dryRun = true)
    (done : arguments.readLetters text = .ok (next, missing)) : next.dryRun = true := by
  induction text generalizing arguments with
  | nil =>
      cases done
      exact dry
  | cons letter rest ih =>
      rw [readLetters] at done
      split_ifs at done
      · exact ih rfl done
      · cases done
        exact dry
      · exact (setJobs_map_dryRun done).trans dry

private theorem readLong_dryRun {arguments next : CheckArguments} {text : Bytes}
    {missing : Option ArgumentProblem} (dry : arguments.dryRun = true)
    (done : arguments.readLong text = .ok (next, missing)) : next.dryRun = true := by
  unfold readLong at done
  dsimp only at done
  split at done
  · cases done
  · split at done
    · exact (setJobs_map_dryRun done).trans dry
    · cases done
      exact dry
  · rename_i option _ _
    split at done
    · cases done
    · cases done
      cases option <;> first | exact dry | rfl
  · cases done

private theorem readOne_dryRun {arguments next : CheckArguments} {argument : Bytes}
    {missing : Option ArgumentProblem} (dry : arguments.dryRun = true)
    (done : arguments.readOne argument = .ok (next, missing)) : next.dryRun = true := by
  unfold readOne at done
  split at done
  · exact readLong_dryRun dry done
  · exact readLetters_dryRun dry done
  · cases done
    exact dry

private theorem read_dryRun {arguments result : CheckArguments} {words : List Bytes}
    (dry : arguments.dryRun = true) (done : arguments.read words = .ok result) :
    result.dryRun = true := by
  fun_induction CheckArguments.read arguments words with
  | case1 | case2 =>
      cases done
      exact dry
  | case3 | case5 | case6 => cases done
  | case4 arguments argument rest more next one ih => exact ih (readOne_dryRun dry one) done
  | case7 arguments argument more next missing one value rest following set ih =>
      exact ih ((setJobs_dryRun set).trans (readOne_dryRun dry one)) done

/-- The option that makes a run dry, in its two full forms. -/
def IsDrySwitch (argument : Bytes) : Prop :=
  argument = ascii "--dry-run" ∨ argument = ascii "-d"

private theorem readOne_of_isDrySwitch (arguments : CheckArguments) {argument : Bytes}
    (switch : IsDrySwitch argument) :
    arguments.readOne argument = .ok ({ arguments with dryRun := true }, none) := by
  rcases switch with rfl | rfl <;> rfl

private theorem not_isJobCount_of_isDrySwitch {argument : Bytes} (switch : IsDrySwitch argument) :
    ¬ IsJobCount argument := by
  rintro ⟨count, -, -, denotes⟩
  have dash : Ascii.dash ∈ argument := by rcases switch with rfl | rfl <;> decide
  exact absurd (denotes.digits _ dash) (by decide)

private theorem dryRun_of_read {arguments result : CheckArguments} {words before rest : List Bytes}
    {switch : Bytes} (dry : IsDrySwitch switch) (among : words = before ++ switch :: rest)
    (options : ascii "--" ∉ before) (done : arguments.read words = .ok result) :
    result.dryRun = true := by
  fun_induction CheckArguments.read arguments words generalizing before with
  | case1 => exact absurd among.symm (by simp)
  | case2 arguments others =>
      cases before with
      | nil =>
          obtain ⟨same, -⟩ := List.cons.inj among
          subst same
          rcases dry with same | same <;> cases same
      | cons first earlier =>
          obtain ⟨rfl, -⟩ := List.cons.inj among
          exact absurd List.mem_cons_self options
  | case3 | case5 | case6 => cases done
  | case4 arguments argument others more next one ih =>
      cases before with
      | nil =>
          obtain ⟨rfl, rfl⟩ := List.cons.inj among
          rw [readOne_of_isDrySwitch arguments dry] at one
          cases one
          exact read_dryRun rfl done
      | cons first earlier =>
          exact ih (List.cons.inj among).2
            (fun member => options (List.mem_cons_of_mem _ member)) done
  | case7 arguments argument more next missing one value others following set ih =>
      cases before with
      | nil =>
          obtain ⟨rfl, -⟩ := List.cons.inj among
          rw [readOne_of_isDrySwitch arguments dry] at one
          cases one
      | cons first earlier =>
          cases earlier with
          | nil =>
              -- the switch would be a number of jobs
              obtain ⟨rfl, -⟩ := List.cons.inj (List.cons.inj among).2
              rcases next.setJobs_cases value with ⟨isCount, -⟩ | ⟨-, refused⟩
              · exact absurd isCount (not_isJobCount_of_isDrySwitch dry)
              · rw [refused] at set
                cases set
          | cons second earlier =>
              exact ih (List.cons.inj (List.cons.inj among).2).2
                (fun member => options (List.mem_cons_of_mem _ (List.mem_cons_of_mem _ member)))
                done

/-- Arguments that can be used and among which a run is said to be dry make a dry run. -/
theorem dryRun_of_parse {before rest : List Bytes} {switch : Bytes} {result : CheckArguments}
    (dry : IsDrySwitch switch) (options : ascii "--" ∉ before)
    (done : parse (before ++ switch :: rest) = .ok result) : result.dryRun = true :=
  dryRun_of_read dry rfl options done

end CheckArguments

end StoreAudit

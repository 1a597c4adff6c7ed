import Mathlib.Data.List.Induction
import Mathlib.Data.List.Sort
import Mathlib.Data.List.TakeWhile
import StoreAudit.Attributes
import StoreAudit.Proofs.Text.Split

/-!
# Which line decides whether a path is tracked

The rules of a set of attribute files stand in one list, from the weakest to the strongest, into
which every file puts its own rules behind those of all files that are not deeper. This module
says what comes out without that list: of the files whose directory holds the path, from the
deepest to the shallowest, and of the lines of a file, from the last to the first, the first line
that speaks of the filter and matches the path decides (`AttributeFile.verdict`).

The list is determined by two facts. It is ordered by depth (`Attributes.Ordered`), and the rules
of one directory stand in it as its files came (`Attributes.fromDirectory_ofFiles`). Directories
that hold the same path at the same depth are the same (`AttributeFile.directory_eq`), so among the
rules that apply to a path a depth names a directory, and a list that is ordered by depth is
determined by its parts of equal depth (`eq_of_ordered`). The order in which files are added cannot
be seen (`isTracked_ofFiles`).
-/

namespace StoreAudit

/-- Two lists in ascending order that hold the same elements in the same order at every height are
the same. -/
theorem eq_of_ordered {α : Type} (height : α → Nat) {first second : List α}
    (ordered : first.Pairwise fun low high => height low ≤ height high)
    (ordered' : second.Pairwise fun low high => height low ≤ height high)
    (same : ∀ level, first.filter (fun item => height item = level) =
      second.filter (fun item => height item = level)) : first = second := by
  induction first generalizing second with
  | nil =>
      cases second with
      | nil => rfl
      | cons item rest => simpa using same (height item)
  | cons item rest ih =>
      have member : item ∈ second := by
        have listed : item ∈ second.filter (fun other => height other = height item) := by
          rw [← same (height item)]
          simp
        exact (List.mem_filter.mp listed).1
      cases second with
      | nil => exact absurd member List.not_mem_nil
      | cons item' rest' =>
          obtain ⟨lowest, orderedRest⟩ := List.pairwise_cons.mp ordered
          obtain ⟨lowest', orderedRest'⟩ := List.pairwise_cons.mp ordered'
          have member' : item' ∈ item :: rest := by
            have listed : item' ∈ (item :: rest).filter
                (fun other => height other = height item') := by
              rw [same (height item')]
              simp
            exact (List.mem_filter.mp listed).1
          have level : height item = height item' := by
            refine Nat.le_antisymm ?_ ?_
            · rcases List.mem_cons.mp member' with rfl | later
              · exact Nat.le_refl _
              · exact lowest item' later
            · rcases List.mem_cons.mp member with rfl | later
              · exact Nat.le_refl _
              · exact lowest' item later
          have heads := same (height item)
          rw [List.filter_cons_of_pos (by simp), List.filter_cons_of_pos (by simp [level])] at heads
          obtain ⟨rfl, -⟩ := List.cons.inj heads
          refine congrArg (item :: ·) (ih orderedRest orderedRest' fun height' => ?_)
          have parts := same height'
          by_cases here : height item = height'
          · rw [List.filter_cons_of_pos (by simp [here]),
              List.filter_cons_of_pos (by simp [here])] at parts
            exact (List.cons.inj parts).2
          · rwa [List.filter_cons_of_neg (by simp [here]),
              List.filter_cons_of_neg (by simp [here])] at parts

/-- A list in which no key is repeated has at most one element with a given key, so the order of
the list does not matter to what is said of that key. -/
theorem filter_eq_of_perm {α β : Type} [DecidableEq β] {key : α → β} {first second : List α}
    (distinct : (first.map key).Nodup) (same : second.Perm first) (value : β) :
    second.filter (fun item => key item = value) = first.filter (fun item => key item = value) := by
  have atMostOne : (first.filter (fun item => key item = value)).length ≤ 1 := by
    have copies : (first.map key).count value ≤ 1 := List.nodup_iff_count_le_one.mp distinct value
    rwa [List.count, List.countP_map, List.countP_eq_length_filter] at copies
  have kept := same.filter (fun item => key item = value)
  match shape : first.filter (fun item => key item = value), atMostOne with
  | [], _ => rw [shape] at kept; exact kept.eq_nil
  | [only], _ => rw [shape] at kept; exact List.perm_singleton.mp kept

/-- An attribute file: the directory it lies in, without a slash at its end, and what it holds. -/
structure AttributeFile where
  directory : Bytes
  contents : Bytes
  deriving DecidableEq, Repr

namespace AttributeFile

/-- The tokens of a line: what stands between spaces and tabs. -/
def tokens (line : Bytes) : List Bytes :=
  (line.splitOnP fun byte => byte == Ascii.space || byte == Ascii.tab).filter (!·.isEmpty)

/-- A token that says something about the filter. -/
def IsFilterToken (token : Bytes) : Prop :=
  token = ascii "filter" ∨ token = ascii "-filter" ∨ token = ascii "!filter" ∨
    ascii "filter=" <+: token

instance : DecidablePred IsFilterToken := fun _ =>
  inferInstanceAs (Decidable (_ ∨ _ ∨ _ ∨ _))

/-- What a line says of a path relative to the directory of its file: nothing if it is a comment or
defines a macro, if it does not speak of the filter, if it names a directory, or if its pattern does
not match; else whether its last word about the filter is `filter=lfs`. -/
def lineVerdict? (relative line : Bytes) : Option Bool :=
  let line := line.trim
  if ascii "#" <+: line ∨ ascii "[attr]" <+: line then none
  else match tokens line with
    | [] => none
    | pattern :: attributes =>
      if [Ascii.slash] <:+ pattern ∨ AttributeRule.patternMatches pattern relative = false then none
      else (attributes.reverse.find? (IsFilterToken ·)).map (· == ascii "filter=lfs")

/-- Whether a path lies in the directory of the file. -/
def Holds (file : AttributeFile) (path : Bytes) : Prop :=
  file.directory = [] ∨ file.directory ++ [Ascii.slash] <+: path

instance (file : AttributeFile) (path : Bytes) : Decidable (file.Holds path) :=
  inferInstanceAs (Decidable (_ ∨ _))

/-- A path as it is called in the directory of the file. -/
def relative (file : AttributeFile) (path : Bytes) : Bytes :=
  if file.directory = [] then path else path.drop (file.directory.length + 1)

/-- What a file says of a path in its directory: what its last line says that says anything. -/
def fileVerdict? (file : AttributeFile) (path : Bytes) : Option Bool :=
  (file.contents.splitOn Ascii.newline).reverse.findSome? (lineVerdict? (file.relative path))

/-- The files whose directory holds a path, from the deepest directory to the shallowest. -/
def holders (files : List AttributeFile) (path : Bytes) : List AttributeFile :=
  (files.filter (·.Holds path)).insertionSort fun first second =>
    Attributes.depth second.directory ≤ Attributes.depth first.directory

/-- Whether files make a path a pointer: what the deepest file says that says anything, and no if
none does. -/
def verdict (files : List AttributeFile) (path : Bytes) : Bool :=
  ((holders files path).findSome? (·.fileVerdict? path)).getD false

/-- The rules of a file. -/
def rules (file : AttributeFile) : List AttributeRule :=
  AttributeRule.ofFile file.directory file.contents

end AttributeFile

namespace Attributes

open AttributeFile

/-- The rules of files that are added one after the other. -/
def ofFiles (files : List AttributeFile) : Attributes :=
  files.foldl (fun attributes file => attributes.addFile file.directory file.contents) {}

end Attributes

namespace AttributeRule

/-- What a rule says of a path: nothing if it does not apply. -/
def verdictOn (path : Bytes) (rule : AttributeRule) : Option Bool :=
  if rule.appliesTo path then some rule.tracked else none

private theorem words_eq_tokens (line : Bytes) : words line = AttributeFile.tokens line := by
  rw [words, AttributeFile.tokens, ← Bytes.filter_splitOn, Bytes.splitOn_map_ite]

private theorem isFilterToken_iff (word : Bytes) :
    (word = ascii "filter" ∨ word = ascii "-filter" ∨ word = ascii "!filter" ∨
      word.startsWith (ascii "filter=") = true) ↔ AttributeFile.IsFilterToken word := by
  rw [Bytes.startsWith_iff, AttributeFile.IsFilterToken]

private theorem filterWord_eq (word : Bytes) :
    filterWord word =
      (Option.guard (AttributeFile.IsFilterToken ·) word).map (· == ascii "filter=lfs") := by
  by_cases tracked : word = ascii "filter=lfs"
  · subst tracked
    decide +kernel
  · simp only [filterWord, tracked, if_false, isFilterToken_iff, Option.guard, decide_eq_true_eq]
    by_cases about : AttributeFile.IsFilterToken word
    · simp [about, tracked]
    · simp [about]

/-- The last word about the filter counts. -/
theorem getLast?_filterMap_filterWord (attributes : List Bytes) :
    (attributes.filterMap filterWord).getLast? =
      (attributes.reverse.find? (AttributeFile.IsFilterToken ·)).map
        (· == ascii "filter=lfs") := by
  rw [List.getLast?_filterMap, List.find?_eq_findSome?_guard, List.map_findSome?]
  exact congrArg (List.findSome? · _) (funext filterWord_eq)

private theorem appliesTo_eq {file : AttributeFile} {path : Bytes} (holds : file.Holds path)
    (pattern : Bytes) (tracked : Bool) :
    appliesTo ⟨file.directory, pattern, tracked⟩ path =
      patternMatches pattern (file.relative path) := by
  by_cases top : file.directory = []
  · simp [appliesTo, relative?, AttributeFile.relative, top]
  · have below : Bytes.startsWith path (file.directory ++ [Ascii.slash]) = true :=
      Bytes.startsWith_iff.mpr (holds.resolve_left top)
    simp [appliesTo, relative?, AttributeFile.relative, top, below]

/-- The rule of a line says of the paths below its directory what the line says. -/
theorem ofLine?_bind_verdictOn {file : AttributeFile} {path : Bytes} (holds : file.Holds path)
    (line : Bytes) :
    (ofLine? file.directory line).bind (verdictOn path) =
      AttributeFile.lineVerdict? (file.relative path) line := by
  have comment : (line.trim.head? = some 35) ↔ ascii "#" <+: line.trim := by
    cases line.trim <;> simp [ascii, Char.toUInt8, eq_comm]
  have definition : line.trim.startsWith (ascii "[attr]") = true ↔ ascii "[attr]" <+: line.trim :=
    Bytes.startsWith_iff
  simp only [ofLine?, AttributeFile.lineVerdict?, words_eq_tokens, Bytes.endsWith_iff,
    ← getLast?_filterMap_filterWord]
  by_cases skipped : ascii "#" <+: line.trim ∨ ascii "[attr]" <+: line.trim
  · have passed : (line.trim.isEmpty || decide (line.trim.head? = some 35) ||
        line.trim.startsWith (ascii "[attr]")) = true := by
      rw [Bool.or_eq_true, Bool.or_eq_true, decide_eq_true_eq, comment, definition]
      exact skipped.imp_left .inr
    rw [if_pos passed, if_pos skipped, Option.bind_none]
  · rw [if_neg skipped]
    cases pieces : AttributeFile.tokens line.trim with
    | nil => simp only [ite_self, Option.bind_none]
    | cons pattern attributes =>
        have inhabited : line.trim.isEmpty = false := by
          cases text : line.trim with
          | nil => rw [text] at pieces; cases pieces
          | cons byte rest => rfl
        have taken : ¬ (line.trim.isEmpty || decide (line.trim.head? = some 35) ||
            line.trim.startsWith (ascii "[attr]")) = true := by
          rw [inhabited, Bool.false_or, Bool.or_eq_true, decide_eq_true_eq, comment, definition]
          exact skipped
        rw [if_neg taken]
        dsimp only
        cases (attributes.filterMap filterWord).getLast? with
        | none => simp only [Option.bind_none, ite_self]
        | some tracked =>
            by_cases folder : [Ascii.slash] <:+ pattern
            · simp only [folder, if_true, true_or, Option.bind_none]
            · simp only [folder, if_false, false_or, Option.bind_some, verdictOn,
                appliesTo_eq holds]
              cases patternMatches pattern (file.relative path) <;> rfl

end AttributeRule

namespace AttributeFile

private theorem directory_of_mem_rules {file : AttributeFile} {rule : AttributeRule}
    (member : rule ∈ file.rules) : rule.directory = file.directory := by
  obtain ⟨line, -, read⟩ := List.mem_filterMap.mp member
  simp only [AttributeRule.ofLine?] at read
  split at read
  · cases read
  · split at read
    · split at read
      · split at read
        · cases read
        · cases read
          rfl
      · cases read
    · cases read

/-- An empty line gives no verdict. -/
theorem lineVerdict?_nil (relative : Bytes) : lineVerdict? relative [] = none := rfl

/-- The rules of a file, the last of them first, say of the paths in its directory what the file
says. -/
theorem fileVerdict?_eq {file : AttributeFile} {path : Bytes} (holds : file.Holds path) :
    file.fileVerdict? path = (file.rules.filterMap (AttributeRule.verdictOn path)).getLast? := by
  have lines : (Bytes.split Ascii.newline file.contents).filterMap
      (lineVerdict? (file.relative path)) =
        (file.contents.splitOn Ascii.newline).filterMap (lineVerdict? (file.relative path)) := by
    rcases Bytes.splitOn_eq Ascii.newline file.contents with same | same
    · rw [same]
    · rw [same, List.filterMap_append]
      simp [lineVerdict?_nil]
  rw [fileVerdict?, ← List.getLast?_filterMap, ← lines, rules, AttributeRule.ofFile,
    List.filterMap_filterMap]
  exact congrArg (fun say => (List.filterMap say _).getLast?)
    (funext fun line => (AttributeRule.ofLine?_bind_verdictOn holds line).symm)

/-- Of two directories that hold a path the longer one has more slashes. -/
theorem count_lt_of_length_lt {path shorter longer : Bytes}
    (below : shorter ++ [Ascii.slash] <+: path) (below' : longer ++ [Ascii.slash] <+: path)
    (length : shorter.length < longer.length) :
    shorter.count Ascii.slash < longer.count Ascii.slash := by
  have inside : shorter ++ [Ascii.slash] <+: longer :=
    List.prefix_of_prefix_length_le below ((List.prefix_append ..).trans below') (by simpa)
  have slashes := inside.sublist.count_le Ascii.slash
  rw [List.count_append, List.count_singleton_self] at slashes
  exact slashes

private theorem count_eq_of_depth_eq {first second : Bytes}
    (same : Attributes.depth first = Attributes.depth second) :
    first.count Ascii.slash = second.count Ascii.slash := by
  unfold Attributes.depth at same
  split_ifs at same with top top' <;> simp_all [List.isEmpty_iff]

/-- Two directories at the same depth that hold the same path are the same. -/
theorem directory_eq {first second : AttributeFile} {path : Bytes} (holds : first.Holds path)
    (holds' : second.Holds path)
    (same : Attributes.depth first.directory = Attributes.depth second.directory) :
    first.directory = second.directory := by
  have top_iff : first.directory = [] ↔ second.directory = [] := by
    unfold Attributes.depth at same
    split_ifs at same with top top' <;> simp_all [List.isEmpty_iff]
  rcases holds with top | below
  · rw [top, top_iff.mp top]
  · rcases holds' with top' | below'
    · rw [top', top_iff.mpr top']
    · have slashes := count_eq_of_depth_eq same
      rcases Nat.lt_trichotomy first.directory.length second.directory.length with
        shorter | equal | longer
      · exact absurd slashes (count_lt_of_length_lt below below' shorter).ne
      · have whole := (List.prefix_of_prefix_length_le below below' (by simp [equal])).eq_of_length
          (by simp [equal])
        exact List.append_cancel_right whole
      · exact absurd slashes.symm (count_lt_of_length_lt below' below longer).ne

end AttributeFile

namespace AttributeRule

variable {rule : AttributeRule} {path relative : Bytes}

/-- A path lies in a directory, the empty one being the top, and is called `relative` there. -/
def LiesIn (directory relative path : Bytes) : Prop :=
  directory = [] ∧ path = relative ∨ directory ≠ [] ∧ path = directory ++ Ascii.slash :: relative

private theorem relative?_eq_some_iff :
    rule.relative? path = some relative ↔ LiesIn rule.directory relative path := by
  rw [relative?, LiesIn]
  by_cases top : rule.directory = []
  · simp [top]
  · rw [if_neg (by simpa using top)]
    constructor
    · intro found
      split at found
      · rename_i starts
        obtain ⟨rest, rfl⟩ := Bytes.startsWith_iff.mp starts
        rw [← Option.some.inj found]
        exact .inr ⟨top, by simp⟩
      · cases found
    · rintro (⟨atTop, -⟩ | ⟨-, rfl⟩)
      · exact absurd atTop top
      · rw [if_pos (Bytes.startsWith_iff.mpr ⟨relative, by simp⟩)]
        simp

/-- A rule applies to the paths in its directory whose rest its pattern matches. -/
theorem appliesTo_iff : rule.appliesTo path = true ↔
    ∃ relative, LiesIn rule.directory relative path ∧
      patternMatches rule.pattern relative = true := by
  simp only [← relative?_eq_some_iff]
  rw [appliesTo]
  cases rule.relative? path with
  | none => simp
  | some relative => simp

end AttributeRule

namespace Attributes

open AttributeFile

/-- The rules of files nearer to the top stand before those of deeper ones. -/
def Ordered (attributes : Attributes) : Prop :=
  attributes.rules.Pairwise fun weaker stronger => depth weaker.directory ≤ depth stronger.directory

/-- The rules of one directory, in their order. -/
def fromDirectory (rules : List AttributeRule) (directory : Bytes) : List AttributeRule :=
  rules.filter (·.directory = directory)

private theorem fromDirectory_rules (file : AttributeFile) (directory : Bytes) :
    fromDirectory file.rules directory = if file.directory = directory then file.rules else [] := by
  by_cases same : file.directory = directory
  · rw [if_pos same, fromDirectory, List.filter_eq_self]
    intro rule member
    rw [directory_of_mem_rules member]
    exact decide_eq_true same
  · rw [if_neg same, fromDirectory, List.filter_eq_nil_iff]
    intro rule member
    rw [directory_of_mem_rules member]
    simpa using same

/-- Behind the rules that are not deeper stand only deeper ones. -/
theorem Ordered.lt_depth {attributes : Attributes} (ordered : attributes.Ordered) {level : Nat}
    {rule : AttributeRule}
    (member : rule ∈ attributes.rules.dropWhile fun rule => depth rule.directory ≤ level) :
    level < depth rule.directory := by
  obtain ⟨rules⟩ := attributes
  induction rules with
  | nil => cases member
  | cons first rest ih =>
      obtain ⟨lowest, orderedRest⟩ := List.pairwise_cons.mp ordered
      by_cases shallow : depth first.directory ≤ level
      · rw [List.dropWhile_cons_of_pos (by simpa using shallow)] at member
        exact ih orderedRest member
      · rw [List.dropWhile_cons_of_neg (by simpa using shallow)] at member
        rcases List.mem_cons.mp member with rfl | later
        · exact Nat.lt_of_not_le shallow
        · exact (Nat.lt_of_not_le shallow).trans_le (lowest rule later)

private theorem Ordered.addFile {attributes : Attributes} (ordered : attributes.Ordered)
    (file : AttributeFile) : (attributes.addFile file.directory file.contents).Ordered := by
  have level : ∀ rule ∈ file.rules, depth rule.directory = depth file.directory :=
    fun rule member => congrArg depth (directory_of_mem_rules member)
  have shallow : ∀ rule ∈ attributes.rules.takeWhile
      (fun rule => depth rule.directory ≤ depth file.directory),
      depth rule.directory ≤ depth file.directory :=
    fun rule member => by simpa using List.mem_takeWhile_imp member
  have whole : (attributes.rules.takeWhile (fun rule => depth rule.directory ≤ depth file.directory)
      ++ attributes.rules.dropWhile
        (fun rule => depth rule.directory ≤ depth file.directory)).Pairwise
      fun weaker stronger => depth weaker.directory ≤ depth stronger.directory := by
    rw [List.takeWhile_append_dropWhile]
    exact ordered
  obtain ⟨before, behind, between⟩ := List.pairwise_append.mp whole
  rw [Ordered, Attributes.addFile, List.append_assoc]
  refine List.pairwise_append.mpr ⟨before, List.pairwise_append.mpr ⟨?_, behind, ?_⟩, ?_⟩
  · exact List.pairwise_of_forall_mem_list fun first member second member' => by
      rw [level first member, level second member']
  · intro rule member deeper member'
    rw [level rule member]
    exact (ordered.lt_depth member').le
  · intro rule member other member'
    rcases List.mem_append.mp member' with own | deeper
    · rw [level other own]
      exact shallow rule member
    · exact between rule member other deeper

/-- A file puts its rules behind those that its directory has; those of other directories stay as
they are. -/
theorem Ordered.fromDirectory_addFile {attributes : Attributes} (ordered : attributes.Ordered)
    (file : AttributeFile) (directory : Bytes) :
    fromDirectory (attributes.addFile file.directory file.contents).rules directory =
      fromDirectory attributes.rules directory ++ fromDirectory file.rules directory := by
  let shallow := fun rule : AttributeRule => depth rule.directory ≤ depth file.directory
  have whole : fromDirectory attributes.rules directory =
      fromDirectory (attributes.rules.takeWhile shallow) directory ++
        fromDirectory (attributes.rules.dropWhile shallow) directory := by
    rw [fromDirectory, fromDirectory, fromDirectory, ← List.filter_append,
      List.takeWhile_append_dropWhile]
  have split : fromDirectory (attributes.addFile file.directory file.contents).rules directory =
      fromDirectory (attributes.rules.takeWhile shallow) directory ++
        fromDirectory file.rules directory ++
          fromDirectory (attributes.rules.dropWhile shallow) directory := by
    rw [Attributes.addFile, fromDirectory, List.filter_append, List.filter_append]
    rfl
  by_cases own : file.directory = directory
  · have none_deeper : fromDirectory (attributes.rules.dropWhile shallow) directory = [] := by
      rw [fromDirectory, List.filter_eq_nil_iff]
      intro rule member here
      have deeper := ordered.lt_depth member
      rw [of_decide_eq_true here, own] at deeper
      exact Nat.lt_irrefl _ deeper
    rw [split, whole, none_deeper, List.append_nil, List.append_nil]
  · rw [split, whole, fromDirectory_rules, if_neg own, List.append_nil, List.append_nil]

/-- The rules of files come in the order of the depths of their directories. -/
theorem ordered_ofFiles (files : List AttributeFile) : (ofFiles files).Ordered := by
  induction files using List.reverseRecOn with
  | nil => exact List.Pairwise.nil
  | append_singleton earlier file ih =>
      rw [ofFiles, List.foldl_append]
      exact ih.addFile file

/-- The rules of a directory are those of its files in the order in which they came. -/
theorem fromDirectory_ofFiles (files : List AttributeFile) (directory : Bytes) :
    fromDirectory (ofFiles files).rules directory =
      (files.filter (·.directory = directory)).flatMap AttributeFile.rules := by
  induction files using List.reverseRecOn with
  | nil => rfl
  | append_singleton earlier file ih =>
      have step : (ofFiles (earlier ++ [file])) =
          (ofFiles earlier).addFile file.directory file.contents := by
        rw [ofFiles, List.foldl_append]
        rfl
      rw [step, (ordered_ofFiles earlier).fromDirectory_addFile, ih, fromDirectory_rules,
        List.filter_append, List.flatMap_append]
      by_cases own : file.directory = directory
      · simp [own]
      · simp [own]

/-- Every rule stands in one of the files. -/
theorem exists_directory_of_mem_rules {files : List AttributeFile} {rule : AttributeRule}
    (member : rule ∈ (ofFiles files).rules) :
    ∃ file ∈ files, rule.directory = file.directory := by
  have own : rule ∈ fromDirectory (ofFiles files).rules rule.directory :=
    List.mem_filter.mpr ⟨member, decide_eq_true rfl⟩
  rw [fromDirectory_ofFiles] at own
  obtain ⟨file, listed, -⟩ := List.mem_flatMap.mp own
  obtain ⟨listed, here⟩ := List.mem_filter.mp listed
  exact ⟨file, listed, (of_decide_eq_true here).symm⟩

private theorem fromDirectory_flatMap (files : List AttributeFile) (directory : Bytes) :
    fromDirectory (files.flatMap AttributeFile.rules) directory =
      (files.filter (·.directory = directory)).flatMap AttributeFile.rules := by
  induction files with
  | nil => rfl
  | cons file rest ih =>
      rw [List.flatMap_cons, fromDirectory, List.filter_append]
      refine (congrArg₂ (· ++ ·) (fromDirectory_rules file directory) ih).trans ?_
      by_cases own : file.directory = directory
      · simp [own]
      · simp [own]

private theorem holds_of_appliesTo {rule : AttributeRule} {file : AttributeFile} {path : Bytes}
    (own : rule.directory = file.directory) (applies : rule.appliesTo path = true) :
    file.Holds path := by
  rw [AttributeFile.Holds, ← own]
  obtain ⟨relative, ⟨top, -⟩ | ⟨-, rfl⟩, -⟩ := AttributeRule.appliesTo_iff.mp applies
  · exact .inl top
  · exact .inr ⟨relative, by simp⟩

/-- Among the rules that apply to a path a depth names a directory, so ordered lists that agree on
the directories that hold the path agree on the rules that apply. -/
theorem filter_appliesTo_eq {files : List AttributeFile} {first second : Attributes} {path : Bytes}
    (ordered : first.Ordered) (ordered' : second.Ordered)
    (known : ∀ rule ∈ first.rules, ∃ file ∈ files, rule.directory = file.directory)
    (known' : ∀ rule ∈ second.rules, ∃ file ∈ files, rule.directory = file.directory)
    (same : ∀ file ∈ files, file.Holds path →
      fromDirectory first.rules file.directory = fromDirectory second.rules file.directory) :
    first.rules.filter (·.appliesTo path) = second.rules.filter (·.appliesTo path) := by
  -- one depth: the rules that apply there are those of one directory, if it has any
  have atLevel : ∀ {rules : List AttributeRule} {level : Nat},
      (∀ rule ∈ rules, ∃ file ∈ files, rule.directory = file.directory) →
      ∀ {file : AttributeFile}, file.Holds path → depth file.directory = level →
      (rules.filter (·.appliesTo path)).filter (fun rule => depth rule.directory = level) =
        (fromDirectory rules file.directory).filter (·.appliesTo path) := by
    intro rules level known file holds deep
    rw [List.filter_filter, fromDirectory, List.filter_filter]
    refine List.filter_congr fun rule member => ?_
    obtain ⟨source, -, own⟩ := known rule member
    by_cases applies : rule.appliesTo path = true
    · have here := holds_of_appliesTo own applies
      have level_iff : depth rule.directory = level ↔ rule.directory = file.directory := by
        rw [own, ← deep]
        exact ⟨directory_eq here holds, congrArg depth⟩
      simp [applies, level_iff]
    · simp [applies]
  refine eq_of_ordered (fun rule : AttributeRule => depth rule.directory)
    (List.Pairwise.sublist List.filter_sublist ordered)
    (List.Pairwise.sublist List.filter_sublist ordered') fun level => ?_
  by_cases some_file : ∃ file ∈ files, file.Holds path ∧ depth file.directory = level
  · obtain ⟨file, member, holds, deep⟩ := some_file
    rw [atLevel known holds deep, atLevel known' holds deep, same file member holds]
  · have empty : ∀ {rules : List AttributeRule},
        (∀ rule ∈ rules, ∃ file ∈ files, rule.directory = file.directory) →
        (rules.filter (·.appliesTo path)).filter
          (fun rule => depth rule.directory = level) = [] := by
      intro rules known
      rw [List.filter_eq_nil_iff]
      intro rule member deep
      obtain ⟨listed, applies⟩ := List.mem_filter.mp member
      obtain ⟨file, member, own⟩ := known rule listed
      exact some_file ⟨file, member, holds_of_appliesTo own applies,
        own ▸ of_decide_eq_true deep⟩
    rw [empty known, empty known']

/-- The last rule that applies to a path decides. -/
theorem isTracked_eq (attributes : Attributes) (path : Bytes) :
    attributes.isTracked path =
      ((attributes.rules.filter (·.appliesTo path)).getLast?.map (·.tracked)).getD false := by
  rw [isTracked, List.getLast?_filter]
  cases attributes.rules.reverse.find? (·.appliesTo path) <;> rfl

end Attributes

namespace AttributeFile

open Attributes

private theorem filterMap_verdictOn (rules : List AttributeRule) (path : Bytes) :
    rules.filterMap (AttributeRule.verdictOn path) =
      (rules.filter (·.appliesTo path)).map (·.tracked) := by
  rw [← List.filterMap_eq_map, ← List.filterMap_eq_filter, List.filterMap_filterMap]
  refine congrArg (List.filterMap · rules) (funext fun rule => ?_)
  cases applies : rule.appliesTo path <;>
    simp [AttributeRule.verdictOn, Option.guard, applies]

/-- The first of some files to say anything, found in the list of all their rules, where the file
that is asked last stands first. -/
theorem findSome?_fileVerdict? {files : List AttributeFile} {path : Bytes}
    (hold : ∀ file ∈ files, file.Holds path) :
    files.findSome? (·.fileVerdict? path) =
      ((files.reverse.flatMap rules).filterMap (AttributeRule.verdictOn path)).getLast? := by
  induction files with
  | nil => rfl
  | cons file rest ih =>
      obtain ⟨here, others⟩ := List.forall_mem_cons.mp hold
      rw [List.findSome?_cons, fileVerdict?_eq here, ih others, List.reverse_cons,
        List.flatMap_append, List.filterMap_append, List.getLast?_append, List.flatMap_singleton]
      cases (file.rules.filterMap (AttributeRule.verdictOn path)).getLast? <;> rfl

private theorem perm_holders (files : List AttributeFile) (path : Bytes) :
    (holders files path).Perm (files.filter (·.Holds path)) :=
  List.perm_insertionSort _ _

/-- The rules of the files that hold a path, the deepest last, are in order. -/
theorem ordered_holders (files : List AttributeFile) (path : Bytes) :
    Ordered ⟨(holders files path).reverse.flatMap rules⟩ := by
  have sorted : (holders files path).Pairwise fun first second =>
      depth second.directory ≤ depth first.directory := by
    have total : Std.Total fun first second : AttributeFile =>
        depth second.directory ≤ depth first.directory := ⟨fun _ _ => Nat.le_total _ _⟩
    have trans : IsTrans AttributeFile fun first second =>
        depth second.directory ≤ depth first.directory := ⟨fun _ _ _ low high => high.trans low⟩
    exact List.pairwise_insertionSort _ _
  refine List.pairwise_flatMap.mpr ⟨fun file _ => ?_, List.pairwise_reverse.mpr ?_⟩
  · exact List.pairwise_of_forall_mem_list fun first member second member' => by
      rw [directory_of_mem_rules member, directory_of_mem_rules member']
  · refine sorted.imp fun {deeper shallower} order rule member rule' member' => ?_
    rw [directory_of_mem_rules member, directory_of_mem_rules member']
    exact order

/-- Sorted or not, the files of one directory that hold a path are the files of that directory. -/
theorem fromDirectory_holders {files : List AttributeFile} {file : AttributeFile} {path : Bytes}
    (distinct : (files.map (·.directory)).Nodup) (holds : file.Holds path) :
    fromDirectory ((holders files path).reverse.flatMap rules) file.directory =
      (files.filter (·.directory = file.directory)).flatMap rules := by
  have among : ((files.filter (·.Holds path)).map (·.directory)).Nodup :=
    distinct.sublist (List.filter_sublist.map _)
  rw [fromDirectory_flatMap, filter_eq_of_perm among
    ((List.reverse_perm _).trans (perm_holders files path)), List.filter_filter]
  refine congrArg (List.flatMap rules) (List.filter_congr fun other _ => ?_)
  by_cases own : other.directory = file.directory
  · have held : other.Holds path := by
      rw [Holds, own]
      exact holds
    simp [own, held]
  · simp [own]

/-- The order in which files of different directories are read does not matter. -/
theorem isTracked_of_perm {files order : List AttributeFile}
    (distinct : (files.map (·.directory)).Nodup) (same : order.Perm files) (path : Bytes) :
    (ofFiles order).isTracked path = verdict files path := by
  have known : ∀ rule ∈ (ofFiles order).rules,
      ∃ file ∈ files, rule.directory = file.directory := by
    intro rule member
    obtain ⟨file, listed, own⟩ := exists_directory_of_mem_rules member
    exact ⟨file, same.mem_iff.mp listed, own⟩
  have known' : ∀ rule ∈ (holders files path).reverse.flatMap rules,
      ∃ file ∈ files, rule.directory = file.directory := by
    intro rule member
    obtain ⟨file, listed, own⟩ := List.mem_flatMap.mp member
    have held := (perm_holders files path).mem_iff.mp (List.mem_reverse.mp listed)
    exact ⟨file, (List.mem_filter.mp held).1, directory_of_mem_rules own⟩
  have agree : ∀ file ∈ files, file.Holds path →
      fromDirectory (ofFiles order).rules file.directory =
        fromDirectory ((holders files path).reverse.flatMap rules) file.directory := by
    intro file _ holds
    rw [fromDirectory_ofFiles, filter_eq_of_perm distinct same,
      fromDirectory_holders distinct holds]
  have applying := filter_appliesTo_eq (ordered_ofFiles order) (ordered_holders files path)
    known known' agree
  rw [isTracked_eq, applying, verdict, findSome?_fileVerdict?, filterMap_verdictOn,
    List.getLast?_map]
  intro file member
  exact of_decide_eq_true (List.mem_filter.mp ((perm_holders files path).mem_iff.mp member)).2

/-- **The order in which attribute files are added cannot be seen.** Files of different directories,
added in whatever order, make a path a pointer exactly if the deepest file that says anything of the
path says so in its last line that says anything; every other order gives the same. -/
theorem isTracked_ofFiles {files order : List AttributeFile}
    (distinct : (files.map (·.directory)).Nodup) (same : order.Perm files) (path : Bytes) :
    (ofFiles order).isTracked path = verdict files path ∧
      (ofFiles order).isTracked path = (ofFiles files).isTracked path := by
  have ordered := isTracked_of_perm distinct same path
  exact ⟨ordered, ordered.trans (isTracked_of_perm distinct (.refl files) path).symm⟩

/-- A line of a subdirectory overrules one at the top, whichever file comes first. -/
theorem isTracked_ofFiles_of_override :
    let top : AttributeFile := ⟨[], ascii "*.bin filter=lfs\n"⟩
    let below : AttributeFile := ⟨ascii "sub", ascii "*.bin filter=lfs -filter\n"⟩
    ([top, below].map (·.directory)).Nodup ∧ [below, top].Perm [top, below] ∧
      (ofFiles [below, top]).isTracked (ascii "sub/a.bin") = false ∧
      (ofFiles [below, top]).isTracked (ascii "sub/a.bin") =
        verdict [top, below] (ascii "sub/a.bin") ∧
      (ofFiles [below, top]).isTracked (ascii "sub/a.bin") =
        (ofFiles [top, below]).isTracked (ascii "sub/a.bin") := by
  intro top below
  have distinct : ([top, below].map (·.directory)).Nodup := by decide
  exact ⟨distinct, List.Perm.swap _ _ _, by decide +kernel,
    isTracked_ofFiles distinct (List.Perm.swap _ _ _) _⟩

end AttributeFile

end StoreAudit

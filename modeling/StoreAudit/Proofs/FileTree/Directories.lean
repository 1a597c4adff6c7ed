import StoreAudit.Proofs.FileTree.Ways

/-!
# Making a directory with those above it

Making a directory and the missing ones above it is a recursion on the path above, which is the root
or a shorter text, so it ends (`FileTree.makes_iff`). All it changes is that directories appear at
the path and the paths above it (`FileTree.makeDirectories_outcome`). Something other than a
directory on the way stops it before anything is made (`FileTree.makeDirectories_of_obstructs`):
where a path names something, the path above it names a directory, so nothing is missing above what
is in the way.
-/

namespace StoreAudit

namespace PathName

/-- A path that lies above another as text, or is it. -/
inductive IsAbove (above : Bytes) : Bytes → Prop
  | self : IsAbove above above
  | step {path : Bytes} : IsAbove above (directory path) → IsAbove above path

/-- Nothing else is above a path that is its own path above. -/
theorem eq_of_isAbove {above path : Bytes} (top : directory path = path)
    (isAbove : IsAbove above path) : above = path := by
  induction isAbove with
  | self => rfl
  | step _ ih =>
      rw [top] at ih
      exact ih top

/-- The directory of a path that ends in a name. -/
theorem directory_append {name : Bytes} (noSlash : Ascii.slash ∉ name) (start : Bytes) :
    directory (start ++ Ascii.slash :: name) = if start = [] then [Ascii.slash] else start := by
  have shape : (start ++ Ascii.slash :: name).reverse.dropWhile (· != Ascii.slash) =
      Ascii.slash :: start.reverse := by
    have absent : ∀ byte ∈ name.reverse, (byte != Ascii.slash) = true := by
      intro byte member
      rw [bne_iff_ne]
      rintro rfl
      exact noSlash (List.mem_reverse.mp member)
    rw [List.reverse_append, List.reverse_cons, List.append_assoc,
      List.dropWhile_append_of_pos absent]
    rfl
  rw [directory, shape]
  cases start using List.reverseRecOn with
  | nil => rfl
  | append_singleton start byte => simp

/-- A path with something above it is cut at its last slash. -/
theorem exists_cut {path : Bytes} (named : directory path ≠ []) :
    ∃ start name : Bytes, path = start ++ Ascii.slash :: name ∧ Ascii.slash ∉ name := by
  have member : Ascii.slash ∈ path.reverse := by
    refine Classical.not_not.mp fun absent => named ?_
    have whole : (path.reverse ++ []).dropWhile (· != Ascii.slash) = [] := by
      refine List.dropWhile_append_of_pos fun byte member => ?_
      rw [bne_iff_ne]
      rintro rfl
      exact absent member
    rw [List.append_nil] at whole
    rw [directory, whole]
  obtain ⟨name, start, whole, noSlash⟩ := List.eq_append_cons_of_mem member
  refine ⟨start.reverse, name.reverse, ?_, fun inside => noSlash (List.mem_reverse.mp inside)⟩
  rw [← List.reverse_reverse path, whole]
  simp

end PathName

namespace FileTree

open PathName

/-- The paths above do not depend on the bound that the climb starts with. -/
theorem climb_eq {left : Nat} {path : Bytes} (enough : path.length ≤ left) :
    ancestors.climb left path = ancestors path := by
  induction left using Nat.strongRecOn generalizing path with
  | ind left fewer =>
  cases path with
  | nil => cases left <;> rfl
  | cons byte rest =>
      obtain ⟨left, rfl⟩ : ∃ before, left = before + 1 := Nat.exists_eq_add_one.mpr
        (Nat.lt_of_lt_of_le (Nat.succ_pos _) enough)
      by_cases top : directory (byte :: rest) = byte :: rest
      · simp [ancestors, ancestors.climb, top]
      · have shorter := length_directory_lt (List.cons_ne_nil byte rest) top
        have bound : (directory (byte :: rest)).length ≤ rest.length :=
          Nat.le_of_lt_succ shorter
        have first := fewer left (Nat.lt_succ_self left) 
          (Nat.le_trans bound (Nat.le_of_succ_le_succ enough))
        have second := fewer rest.length (Nat.lt_of_succ_le enough) bound
        simp only [ancestors, List.length_cons, ancestors.climb, top, if_false] at first second ⊢
        rw [first, second]

private theorem ancestors_eq {path : Bytes} (nonempty : path ≠ []) :
    ancestors path =
      path :: if directory path = path then [] else ancestors (directory path) := by
  obtain ⟨byte, rest, rfl⟩ := List.exists_cons_of_ne_nil nonempty
  by_cases top : directory (byte :: rest) = byte :: rest
  · simp [ancestors, ancestors.climb, top]
  · have shorter := length_directory_lt (List.cons_ne_nil byte rest) top
    rw [if_neg top, ancestors, List.length_cons, ancestors.climb]
    simp only [List.isEmpty_cons, Bool.false_eq_true, if_false, top]
    rw [climb_eq (Nat.le_of_lt_succ shorter)]

/-- What is above a path as text is what the climb from it meets, but for the empty text. -/
theorem isAbove_of_mem_ancestors {above path : Bytes} (member : above ∈ ancestors path) :
    IsAbove above path := by
  induction size : path.length using Nat.strongRecOn generalizing path with
  | ind size shorter =>
  subst size
  by_cases nonempty : path = []
  · subst nonempty
    cases member
  rw [ancestors_eq nonempty] at member
  rcases List.mem_cons.mp member with rfl | further
  · exact .self
  · split at further
    · cases further
    · rename_i notTop
      exact .step (shorter _ (length_directory_lt nonempty notTop) further rfl)

private theorem makeEach_concat (tree : FileTree) (paths : List Bytes) (path : Bytes) :
    tree.makeEach (paths ++ [path]) = match tree.makeEach paths with
      | (made, .ok ()) => made.makeEach [path]
      | (made, .error errno) => (made, .error errno) := by
  induction paths generalizing tree with
  | nil => rfl
  | cons first rest ih =>
      simp only [List.cons_append]
      rw [makeEach, makeEach]
      cases tree.makeDirectory first with
      | ok made => exact ih made
      | error errno =>
          simp only
          split
          · rfl
          split
          · exact ih tree
          · rfl

/-- Above a directory nothing is missing. -/
theorem missingDirectories_of_isDirectory {tree : FileTree} {path : Bytes}
    (there : tree.isDirectory path = true) : tree.missingDirectories path = [] := by
  by_cases empty : path = []
  · rw [empty]
    rfl
  · rw [missingDirectories, ancestors_eq empty]
    simp [there]

/-- What is missing for a directory is what is missing above it, and itself. -/
theorem missingDirectories_eq {tree : FileTree} {path : Bytes} (nonempty : path ≠ [])
    (missing : tree.isDirectory path = false) :
    tree.missingDirectories path =
      (if directory path = path then [] else tree.missingDirectories (directory path)) ++
        [path] := by
  rw [missingDirectories, ancestors_eq nonempty]
  split <;> simp [missing, missingDirectories]

/-- Making a directory, in terms of making the one above it. -/
theorem makeDirectories_eq {tree : FileTree} {path : Bytes} (nonempty : path ≠ [])
    (missing : tree.isDirectory path = false) :
    tree.makeDirectories path =
      if directory path = path ∨ directory path = [] then tree.makeEach [path]
      else match tree.makeDirectories (directory path) with
        | (made, .ok ()) => made.makeEach [path]
        | (made, .error errno) => (made, .error errno) := by
  rw [makeDirectories, missingDirectories_eq nonempty missing]
  by_cases top : directory path = path
  · simp only [top, if_true, true_or, List.nil_append]
  · rw [if_neg top, makeEach_concat]
    by_cases unnamed : directory path = []
    · rw [if_pos (.inr unnamed), unnamed]
      rfl
    · simp only [top, unnamed, or_self, if_false]
      rfl

/-- Making a directory and those above it, as a recursion: nothing is to do where one is there;
else the path above comes first, unless there is none, and a failure there is the end. -/
inductive Makes (tree : FileTree) : Bytes → FileTree × Except Errno Unit → Prop
  | done {path : Bytes} : path = [] ∨ tree.isDirectory path = true → Makes tree path (tree, .ok ())
  | first {path : Bytes} : path ≠ [] → tree.isDirectory path = false →
      directory path = path ∨ directory path = [] → Makes tree path (tree.makeEach [path])
  | next {path : Bytes} {made : FileTree} : path ≠ [] → tree.isDirectory path = false →
      directory path ≠ path → directory path ≠ [] → Makes tree (directory path) (made, .ok ()) →
      Makes tree path (made.makeEach [path])
  | failed {path : Bytes} {made : FileTree} {errno : Errno} : path ≠ [] →
      tree.isDirectory path = false → directory path ≠ path → directory path ≠ [] →
      Makes tree (directory path) (made, .error errno) → Makes tree path (made, .error errno)

private theorem makeDirectories_nil (tree : FileTree) : tree.makeDirectories [] = (tree, .ok ()) :=
    rfl

private theorem makeDirectories_of_done {tree : FileTree} {path : Bytes}
    (done : path = [] ∨ tree.isDirectory path = true) :
    tree.makeDirectories path = (tree, .ok ()) := by
  by_cases empty : path = []
  · rw [empty, makeDirectories_nil]
  · exact makeDirectories_of_isDirectory empty (done.resolve_left empty)

private theorem makes_makeDirectories (tree : FileTree) (path : Bytes) :
    tree.Makes path (tree.makeDirectories path) := by
  induction size : path.length using Nat.strongRecOn generalizing path with
  | ind size shorter =>
  subst size
  by_cases done : path = [] ∨ tree.isDirectory path = true
  · rw [makeDirectories_of_done done]
    exact .done done
  obtain ⟨nonempty, missing⟩ := not_or.mp done
  have missing := Bool.eq_false_iff.mpr missing
  rw [makeDirectories_eq nonempty missing]
  by_cases first : directory path = path ∨ directory path = []
  · rw [if_pos first]
    exact .first nonempty missing first
  obtain ⟨notTop, named⟩ := not_or.mp first
  have above := shorter _ (length_directory_lt nonempty notTop) (directory path) rfl
  rw [if_neg first]
  split
  · rename_i made result
    rw [result] at above
    exact .next nonempty missing notTop named above
  · rename_i made errno result
    rw [result] at above
    exact .failed nonempty missing notTop named above

/-- The recursion ends for every path, with one result. -/
theorem makes_iff {tree : FileTree} {path : Bytes} {result : FileTree × Except Errno Unit} :
    tree.Makes path result ↔ tree.makeDirectories path = result := by
  constructor
  · intro makes
    induction makes with
    | done done => exact makeDirectories_of_done done
    | first nonempty missing first => rw [makeDirectories_eq nonempty missing, if_pos first]
    | next nonempty missing notTop named _ ih | failed nonempty missing notTop named _ ih =>
        rw [makeDirectories_eq nonempty missing, if_neg (not_or.mpr ⟨notTop, named⟩), ih]
  · rintro rfl
    exact makes_makeDirectories tree path

/-- What the text of the path above adds to the names of a path: the last name, which is empty where
the path ends with a slash. -/
structure HasLast (path above name : Bytes) : Prop where
  noSlash : Ascii.slash ∉ name
  parts : names path = names above ++ names name
  starts : ∀ workDir, origin workDir above = origin workDir path
  ends : path.endsWith [Ascii.slash] = true ↔ name = []
  shorter : above.length ≤ path.length
  nonempty : above ≠ []

private theorem hasLast_append {name : Bytes} (noSlash : Ascii.slash ∉ name) (start : Bytes) :
    HasLast (start ++ Ascii.slash :: name) (if start = [] then [Ascii.slash] else start) name := by
  refine ⟨noSlash, ?_, fun workDir => ?_, endsWith_slash_append noSlash start, ?_, ?_⟩
  · rw [names_append]
    split
    · rename_i empty
      rw [empty]
      rfl
    · rfl
  · cases start <;> rfl
  · cases start <;> simp
  · split
    · exact List.cons_ne_nil _ _
    · assumption

/-- To a walk, the path above is the path itself, where that is cut short at its zero byte, or it
lacks the last name. -/
theorem beforeNul_directory {path : Bytes} (named : directory path ≠ []) :
    (directory path).beforeNul = path.beforeNul ∨
      ∃ name, HasLast path.beforeNul (directory path).beforeNul name := by
  obtain ⟨start, name, rfl, noSlash⟩ := exists_cut named
  rw [directory_append noSlash]
  -- A zero byte before the last slash hides that slash, and one after it only shortens the name.
  by_cases cut : 0 ∈ start
  · have nonempty : start ≠ [] := List.ne_nil_of_mem cut
    rw [if_neg nonempty, Bytes.beforeNul_append_of_mem cut]
    exact .inl rfl
  refine .inr ⟨name.beforeNul, ?_⟩
  have slash : (0 : UInt8) ≠ Ascii.slash := by decide
  have whole : (start ++ Ascii.slash :: name).beforeNul =
      start ++ Ascii.slash :: name.beforeNul := by
    have kept : ∀ byte ∈ start ++ [Ascii.slash], (byte != 0) = true := by
      intro byte member
      rw [bne_iff_ne]
      rintro rfl
      simp [cut, slash] at member
    rw [List.append_cons, Bytes.beforeNul, List.takeWhile_append_of_pos kept,
      ← List.append_cons]
    rfl
  have uncut : 0 ∉ if start = [] then [Ascii.slash] else start := by
    split
    · simp [slash]
    · exact cut
  rw [whole, Bytes.beforeNul_of_notMem uncut]
  exact hasLast_append (fun member => noSlash (List.takeWhile_subset _ member)) start

/-- Whatever has a name stands in a directory, and a walk starts in one. -/
structure WellFormed (tree : FileTree) : Prop where
  isTree : tree.IsTree
  workDir : ∃ entry, tree.get? tree.workDir = some entry ∧ entry.isDirectory = true

variable {tree : FileTree}

private theorem WellFormed.origin (wellFormed : tree.WellFormed) (path : Bytes) :
    ∃ entry, tree.get? (origin tree.workDir path) = some entry ∧ entry.isDirectory = true := by
  unfold FileTree.origin
  split
  · exact ⟨.directory, rfl, rfl⟩
  · exact wellFormed.workDir

/-- From a directory, names that lead on lead to a directory. -/
theorem Leads.isDirectory (isTree : tree.IsTree) {place last : Place} {path : List Bytes}
    {passed : List Place} (leads : tree.Leads place path passed last)
    (start : ∃ entry, tree.get? place = some entry ∧ entry.isDirectory = true) :
    ∃ entry, tree.get? last = some entry ∧ entry.isDirectory = true := by
  induction leads with
  | stop _ => exact start
  | stay _ ih => exact ih start
  | @up place last rest passed _ ih =>
      refine ih ?_
      cases place using List.reverseRecOn with
      | nil => exact start
      | append_singleton above name =>
          obtain ⟨entry, found, -⟩ := start
          rw [List.dropLast_concat]
          exact isTree above name entry found
  | down _ found isDirectory _ ih => exact ih ⟨_, found, isDirectory⟩
  | @through place last name target rest passed _ found _ ih =>
      refine ih ?_
      unfold origin
      split
      · exact ⟨.directory, rfl, rfl⟩
      · exact start

/-- A walk that goes on after the names of the path above has come through a directory there. -/
theorem isDirectory_of_reaches (wellFormed : tree.WellFormed) {path above name : Bytes}
    (hasLast : HasLast path.beforeNul above.beforeNul name) (fits : refusal? path.beforeNul = none)
    {follow : Bool} {rest : List Bytes} {spot : Spot} (more : rest ≠ [])
    (reaches : tree.Reaches follow maxLinks (origin tree.workDir path.beforeNul)
      (names above.beforeNul ++ rest) spot) : tree.isDirectory above = true := by
  rw [← hasLast.starts] at reaches
  obtain ⟨passed, last, left, leads, way⟩ := reaches.exists_way more
  obtain ⟨entry, found, isDirectory⟩ :=
    leads.isDirectory wellFormed.isTree (wellFormed.origin _)
  have stops : tree.walk true maxLinks (origin tree.workDir above.beforeNul)
      (names above.beforeNul ++ [here]) = .ok (.itself last) := by
    rw [way tree (.refl tree) true _ (List.cons_ne_nil _ _)]
    exact walk_eq_ok_iff.mpr (.stay .stop)
  have stops := walk_eq_ok_iff.mp stops
  have fitsAbove : refusal? above.beforeNul = none := refusal?_eq_none_iff.mpr
    ⟨hasLast.nonempty, Nat.lt_of_le_of_lt hasLast.shorter (refusal?_eq_none_iff.mp fits).2⟩
  refine isDirectory_iff.mpr ⟨last, entry, ?_, isDirectory⟩
  refine entryOf_eq_ok_iff.mpr ⟨fitsAbove, found, ?_⟩
  unfold steps
  split
  · exact ⟨.itself last, rfl, stops⟩
  · obtain ⟨short, reaches, same⟩ := stops.withoutHere
    exact ⟨short, same, reaches⟩

/-- All steps of a path but those along the path above. -/
theorem HasLast.exists_steps {path above name : Bytes} (hasLast : HasLast path above name) :
    ∃ rest, rest ≠ [] ∧ steps path = names above ++ rest := by
  by_cases empty : name = []
  · refine ⟨[here], List.cons_ne_nil _ _, ?_⟩
    rw [steps, if_pos (hasLast.ends.mpr empty), hasLast.parts, empty]
    simp [names]
  · refine ⟨[name], List.cons_ne_nil _ _, ?_⟩
    rw [steps, if_neg fun ends => empty (hasLast.ends.mp ends), hasLast.parts,
      names_of_noSlash hasLast.noSlash empty]

/-- Where a path names something, the path above it names a directory. -/
theorem isDirectory_of_entryOf (wellFormed : tree.WellFormed) {path above name : Bytes}
    (hasLast : HasLast path.beforeNul above.beforeNul name) {place : Place} {entry : Entry}
    (found : tree.entryOf path = .ok (place, entry)) : tree.isDirectory above = true := by
  obtain ⟨fits, -, spot, -, reaches⟩ := entryOf_eq_ok_iff.mp found
  obtain ⟨rest, more, parts⟩ := hasLast.exists_steps
  rw [parts] at reaches
  exact isDirectory_of_reaches wellFormed hasLast fits more reaches

private theorem isDirectory_directory (wellFormed : tree.WellFormed) {path : Bytes}
    (named : directory path ≠ []) (there : tree.isDirectory path = true) :
    tree.isDirectory (directory path) = true := by
  rcases beforeNul_directory named with same | ⟨name, hasLast⟩
  · simpa only [isDirectory, entryOf, same] using there
  · obtain ⟨place, entry, found, -⟩ := isDirectory_iff.mp there
    exact isDirectory_of_entryOf wellFormed hasLast found

/-- Something is at the path that is no directory: a link that leads to none is such a thing. -/
def Obstructs (tree : FileTree) (path : Bytes) : Prop :=
  tree.isDirectory path = false ∧
    (tree.pathExists path = true ∨ (tree.readLink? path).isSome = true)

private theorem exists_of_readLink? {path target : Bytes}
    (reads : tree.readLink? path = some target) : path.beforeNul.endsWith [Ascii.slash] = false ∧
      ∃ spot, tree.spotOf path = .ok spot ∧ tree.get? spot.place = some (.link target) := by
  unfold readLink? at reads
  split at reads
  · rename_i spot found
    split at reads
    · rename_i link
      split at reads
      · cases reads
      · rename_i noEnd
        cases reads
        exact ⟨Bool.eq_false_iff.mpr noEnd, spot, found, link⟩
    · cases reads
  · cases reads

private theorem Obstructs.nonempty {path : Bytes} (obstructs : tree.Obstructs path) : path ≠ [] :=
    by
  rintro rfl
  rcases obstructs.2 with impossible | impossible <;> cases impossible

/-- Above something in the way is a directory, or the path above names the same thing. -/
theorem Obstructs.above (wellFormed : tree.WellFormed) {path : Bytes}
    (obstructs : tree.Obstructs path) (named : directory path ≠ []) :
    tree.isDirectory (directory path) = true ∨ tree.Obstructs (directory path) := by
  rcases beforeNul_directory named with same | ⟨name, hasLast⟩
  · refine .inr ?_
    simpa only [Obstructs, isDirectory, pathExists, readLink?, spotOf, entryOf, same]
      using obstructs
  refine .inl ?_
  rcases obstructs.2 with isThere | isLink
  · obtain ⟨place, entry, found⟩ := pathExists_iff.mp isThere
    exact isDirectory_of_entryOf wellFormed hasLast found
  · obtain ⟨target, reads⟩ := Option.isSome_iff_exists.mp isLink
    obtain ⟨noEnd, spot, found, -⟩ := exists_of_readLink? reads
    have fits := refusal?_of_spotOf found
    have nonempty : name ≠ [] := fun empty => by
      rw [hasLast.ends.mpr empty] at noEnd
      cases noEnd
    simp only [spotOf, fits, hasLast.parts, names_of_noSlash hasLast.noSlash nonempty] at found
    exact isDirectory_of_reaches wellFormed hasLast fits (List.cons_ne_nil name [])
      (walk_eq_ok_iff.mp found)

/-- No directory is below something in the way. -/
theorem Obstructs.not_isDirectory (wellFormed : tree.WellFormed) {above path : Bytes}
    (obstructs : tree.Obstructs above) (isAbove : IsAbove above path) :
    tree.isDirectory path = false := by
  induction isAbove with
  | self => exact obstructs.1
  | @step path further ih =>
      have named : directory path ≠ [] := by
        intro unnamed
        rw [unnamed] at further
        exact obstructs.nonempty (eq_of_isAbove rfl further)
      refine Bool.eq_false_iff.mpr fun there => ?_
      rw [isDirectory_directory wellFormed named there] at ih
      cases ih

private theorem makeDirectory_of_obstructs {path : Bytes} (obstructs : tree.Obstructs path) :
    ∃ errno, tree.makeDirectory path = .error errno := by
  cases happened : tree.makeDirectory path with
  | error errno => exact ⟨errno, rfl⟩
  | ok made =>
      have gains := (makeDirectory_gains happened).1
      obtain ⟨above, name, spot, short, vacant, -, rfl⟩ := makeDirectory_eq_ok happened
      rcases obstructs.2 with isThere | isLink
      · obtain ⟨place, entry, found⟩ := pathExists_iff.mp isThere
        have still := gains.entryOf found
        rw [entryOf_of_put_directory spot short vacant] at still
        cases still
        cases vacant.symm.trans (entryOf_eq_ok_iff.mp found).2.1
      · simp [readLink?, spot, Spot.place, vacant] at isLink

private theorem makeEach_of_obstructs {path : Bytes} (obstructs : tree.Obstructs path) :
    ∃ errno, tree.makeEach [path] = (tree, .error errno) := by
  obtain ⟨errno, failed⟩ := makeDirectory_of_obstructs obstructs
  by_cases taken : errno = .alreadyExists
  · exact ⟨.notDirectory, by simp [makeEach, failed, taken, obstructs.1]⟩
  · exact ⟨errno, by simp [makeEach, failed, taken]⟩

/-- Nothing is made if something is in the way, not even above it. -/
theorem makeDirectories_of_obstructs (wellFormed : tree.WellFormed) {above path : Bytes}
    (obstructs : tree.Obstructs above) (isAbove : IsAbove above path) :
    ∃ errno, tree.makeDirectories path = (tree, .error errno) := by
  -- What is in the way changes where the path above names the same thing, so it is generalized.
  induction size : path.length using Nat.strongRecOn generalizing above path with
  | ind size shorter =>
  subst size
  have nonempty : path ≠ [] := by
    rintro rfl
    exact obstructs.nonempty (eq_of_isAbove rfl isAbove)
  rw [makeDirectories_eq nonempty (obstructs.not_isDirectory wellFormed isAbove)]
  by_cases first : directory path = path ∨ directory path = []
  · rw [if_pos first]
    cases isAbove with
    | self => exact makeEach_of_obstructs obstructs
    | step further =>
        rcases first with top | unnamed
        · rw [top] at further
          rw [← eq_of_isAbove top further]
          exact makeEach_of_obstructs obstructs
        · rw [unnamed] at further
          exact absurd (eq_of_isAbove rfl further) obstructs.nonempty
  obtain ⟨notTop, named⟩ := not_or.mp first
  have climbs := length_directory_lt nonempty notTop
  rw [if_neg first]
  cases isAbove with
  | step further =>
      obtain ⟨errno, failed⟩ := shorter _ climbs obstructs further rfl
      exact ⟨errno, by rw [failed]⟩
  | self =>
      rcases obstructs.above wellFormed named with there | same
      · rw [makeDirectories_of_done (.inr there)]
        exact makeEach_of_obstructs obstructs
      · obtain ⟨errno, failed⟩ := shorter _ climbs same .self rfl
        exact ⟨errno, by rw [failed]⟩

private theorem mem_of_makeDirectory {path : Bytes} {errno : Errno}
    (failed : tree.makeDirectory path = .error errno) :
    errno ∈ Errno.alreadyExists :: walkErrors := by
  unfold makeDirectory at failed
  split at failed
  · rename_i lost
    cases failed
    exact List.mem_cons_of_mem _ (mem_walkErrors_of_spotOf lost)
  · cases failed
    exact List.mem_cons_self
  · split at failed
    · rename_i long
      cases failed
      unfold lookUp at long
      split at long <;> cases long
      simp [walkErrors]
    · cases failed
      exact List.mem_cons_self
    · unfold create at failed
      split at failed <;> cases failed
      simp [walkErrors]

private theorem mem_walkErrors_of_makeEach {paths : List Bytes} {errno : Errno}
    (failed : (tree.makeEach paths).2 = .error errno) : errno ∈ walkErrors := by
  induction paths generalizing tree with
  | nil => cases failed
  | cons path rest ih =>
      unfold makeEach at failed
      split at failed
      · exact ih failed
      · rename_i other happened
        split at failed
        · rename_i differs
          cases failed
          exact (List.mem_cons.mp (mem_of_makeDirectory happened)).resolve_left differs
        split at failed
        · exact ih failed
        · cases failed
          simp [walkErrors]

/-- **Making a directory with those above it.** The recursion on the path above has one result for
every path. Whatever that is, what was there stays, and all that is new is directories at the path
and the paths above it, through links that were there before. A success leaves a directory at the
path, and after it there is nothing more to do. A failure has an error number; it is certain where
something other than a directory is in the way, and then nothing is made at all. -/
theorem makeDirectories_outcome (tree : FileTree) (path : Bytes) :
    ∃ later outcome,
      tree.makeDirectories path = (later, outcome) ∧
      (∀ result, tree.Makes path result ↔ result = (later, outcome)) ∧
      (outcome = .ok () → (path = [] ∨ later.isDirectory path = true) ∧
        later.makeDirectories path = (later, .ok ())) ∧
      (∀ errno, outcome = .error errno → 0 < errno.number) ∧
      later.workDir = tree.workDir ∧
      (∀ place entry, tree.get? place = some entry → later.get? place = some entry) ∧
      (∀ place entry, tree.get? place = none → later.get? place = some entry →
        entry = .directory ∧
          ∃ above, IsAbove above path ∧ later.entryOf above = .ok (place, .directory)) ∧
      (tree.WellFormed → ∀ above, IsAbove above path → tree.Obstructs above →
        later = tree ∧ ∃ errno, outcome = .error errno) := by
  have gains := tree.makeDirectories_gains path
  refine ⟨(tree.makeDirectories path).1, (tree.makeDirectories path).2, rfl,
    fun result => makes_iff.trans eq_comm, fun done => ?_, fun errno failed => ?_, gains.workDir,
    gains.kept, fun place entry vacant found => ?_, fun wellFormed above isAbove obstructs => ?_⟩
  · have there : path = [] ∨ (tree.makeDirectories path).1.isDirectory path = true := by
      by_cases empty : path = []
      · exact .inl empty
      · exact .inr (isDirectory_of_makeDirectories empty done)
    exact ⟨there, makeDirectories_of_done there⟩
  · have member := mem_walkErrors_of_makeEach failed
    have positive : ∀ errno ∈ walkErrors, 0 < errno.number := by decide
    exact positive errno member
  · obtain ⟨isDirectory, above, member, leads⟩ := gains.gained place entry vacant found
    exact ⟨isDirectory, above, isAbove_of_mem_ancestors member, leads⟩
  · obtain ⟨errno, failed⟩ := makeDirectories_of_obstructs wellFormed obstructs isAbove
    rw [failed]
    exact ⟨rfl, errno, rfl⟩

/-- A directory, a link to it, a file, and a link that leads nowhere. -/
def sampleTree : FileTree where
  entries :=
    [([ascii "shelf"], .directory),
      ([ascii "way"], .link (ascii "shelf")),
      ([ascii "note"], .file (ascii "text")),
      ([ascii "lost"], .link (ascii "nowhere"))]

/-- Through a link, through a dead end, and through a file. -/
theorem makeDirectories_outcome_of_sampleTree :
    (∃ later, sampleTree.makeDirectories (ascii "way//a/b/") = (later, .ok ()) ∧
      later.isDirectory (ascii "way//a/b/") = true) ∧
      (∃ errno, sampleTree.makeDirectories (ascii "shelf/../lost/a") =
        (sampleTree, .error errno)) ∧
      ∃ errno, sampleTree.makeDirectories (ascii "/note/a") = (sampleTree, .error errno) := by
  have wellFormed : sampleTree.WellFormed :=
    ⟨isTree_of_entries (by decide), .directory, rfl, rfl⟩
  refine ⟨?_, ?_, ?_⟩
  · obtain ⟨later, outcome, result, -, done, -⟩ :=
      sampleTree.makeDirectories_outcome (ascii "way//a/b/")
    have succeeds : (sampleTree.makeDirectories (ascii "way//a/b/")).2 = .ok () := by
      decide +kernel
    obtain rfl : outcome = .ok () := (congrArg Prod.snd result).symm.trans succeeds
    exact ⟨later, result, (done rfl).1.resolve_left (by decide)⟩
  · obtain ⟨later, outcome, result, -, -, -, -, -, -, stops⟩ :=
      sampleTree.makeDirectories_outcome (ascii "shelf/../lost/a")
    obtain ⟨rfl, errno, rfl⟩ := stops wellFormed (ascii "shelf/../lost") (.step .self)
      ⟨by decide +kernel, .inr (by decide +kernel)⟩
    exact ⟨errno, result⟩
  · obtain ⟨later, outcome, result, -, -, -, -, -, -, stops⟩ :=
      sampleTree.makeDirectories_outcome (ascii "/note/a")
    obtain ⟨rfl, errno, rfl⟩ := stops wellFormed (ascii "/note") (.step .self)
      ⟨by decide +kernel, .inl (by decide +kernel)⟩
    exact ⟨errno, result⟩

end FileTree

end StoreAudit

import StoreAudit.Proofs.FileTree.Change

/-!
# Appending to files

What records of events do to the files: nothing that a walk could see. So appending to a file and
making directories can change places (`FileTree.makeDirectories_append`).
-/

namespace StoreAudit.FileTree

/-- Data appended to a file stands after what it held; other places are as before. -/
theorem get?_append (tree : FileTree) (place : Place) (data : Bytes) (other : Place) :
    (tree.append place data).get? other =
      match tree.get? other with
      | some (.file old) => some (.file (if other = place then old ++ data else old))
      | found => found := by
  unfold append
  split
  · rename_i old found
    have below : place ≠ [] := by
      intro top
      simp [top] at found
    by_cases same : other = place
    · subst same
      rw [get?_put_self tree _ below, found]
      simp
    · rw [get?_put_of_ne tree _ same]
      simp only [same, if_false]
      split <;> simp_all
  · rename_i noFile
    split
    · rename_i old found
      have apart : other ≠ place := by
        rintro rfl
        exact noFile old found
      rw [found, if_neg apart]
    · rfl

/-- Appending keeps everything that is there. -/
theorem keptIn_append (tree : FileTree) (place : Place) (data : Bytes) :
    tree.KeptIn (tree.append place data) := by
  refine ⟨?_, fun other entry found => ?_⟩
  · unfold append
    split <;> rfl
  · rw [get?_append, found]
    cases entry <;> exact ⟨_, rfl, rfl⟩

/-- Appending makes no new files. -/
theorem get?_append_eq_none {tree : FileTree} {place : Place} {data : Bytes} {other : Place} :
    (tree.append place data).get? other = none ↔ tree.get? other = none := by
  rw [get?_append]
  cases tree.get? other with
  | none => rfl
  | some entry => cases entry <;> simp

/-- Appending keeps a tree a tree. -/
theorem isTree_append {tree : FileTree} (isTree : tree.IsTree) (place : Place) (data : Bytes) :
    (tree.append place data).IsTree := by
  intro above name entry found
  rw [get?_append] at found
  have there : (tree.get? (above ++ [name])).isSome = true := by
    cases old : tree.get? (above ++ [name]) with
    | none =>
        rw [old] at found
        cases found
    | some other => rfl
  obtain ⟨other, old⟩ := Option.isSome_iff_exists.mp there
  obtain ⟨parent, foundParent, isDirectory⟩ := isTree above name other old
  refine ⟨parent, ?_, isDirectory⟩
  rw [get?_append, foundParent]
  cases parent with
  | file _ => cases isDirectory
  | directory | sealedDirectory | link _ | device _ => rfl

/-- Appending does not meet what was put at a vacant place, unless that is a file. -/
theorem append_put_vacant (tree : FileTree) {place : Place} {entry : Entry}
    (vacant : tree.get? place = none) (noFile : ∀ data, entry ≠ .file data) (other : Place)
    (data : Bytes) :
    (tree.put place entry).append other data = (tree.append other data).put place entry := by
  by_cases same : other = place
  · subst same
    have there : (tree.put other entry).get? other = some entry := by
      rw [get?_put_vacant tree vacant, if_pos rfl]
    have alone : (tree.put other entry).append other data = tree.put other entry := by
      unfold append
      rw [there]
      cases entry with
      | file old => exact absurd rfl (noFile old)
      | directory | sealedDirectory | link _ | device _ => rfl
    rw [alone]
    unfold append
    rw [vacant]
  · have elsewhere : (tree.put place entry).get? other = tree.get? other := by
      rw [get?_put_vacant tree vacant, if_neg same]
    unfold append
    rw [elsewhere]
    split
    · rename_i old found
      have below : other ≠ [] := by
        intro top
        simp [top] at found
      have taken : (tree.entries.lookup other).isSome = true := by
        rw [← get?_eq_lookup tree below, found]
        rfl
      have still : (tree.put other (.file (old ++ data))).get? place = none := by
        rw [get?_put_of_ne tree _ (Ne.symm same), vacant]
      have skip : (other == place) = false := by simpa using same
      rw [put_vacant _ _ still, put_vacant tree _ vacant]
      simp [put, List.lookup_cons, skip, taken, Ne.symm same]
    · rfl

/-- The two trees look the same to every walk. -/
structure SameOutline (tree later : FileTree) : Prop where
  workDir : later.workDir = tree.workDir
  entry : ∀ place, (later.get? place).map Entry.outline = (tree.get? place).map Entry.outline

/-- A tree with all that there was and nothing new has the same outline. -/
theorem KeptIn.sameOutline {tree later : FileTree} (kept : tree.KeptIn later)
    (nothingNew : ∀ place, tree.get? place = none → later.get? place = none) :
    tree.SameOutline later := by
  refine ⟨kept.workDir, fun place => ?_⟩
  cases found : tree.get? place with
  | none => rw [nothingNew place found]
  | some entry =>
      obtain ⟨other, again, same⟩ := kept.entry place entry found
      rw [again, Option.map_some, Option.map_some, same]

namespace SameOutline

variable {tree later : FileTree}

/-- Trees of the same outline differ at a place at most in the content of a file. -/
theorem cases (alike : tree.SameOutline later) (place : Place) :
    later.get? place = tree.get? place ∨
      (∃ data, later.get? place = some (.file data)) ∧
        ∃ data, tree.get? place = some (.file data) := by
  have same := alike.entry place
  cases before : tree.get? place with
  | none =>
      rw [before, Option.map_none, Option.map_eq_none_iff] at same
      exact .inl same
  | some entry =>
      rw [before, Option.map_some, Option.map_eq_some_iff] at same
      obtain ⟨other, again, outline⟩ := same
      rcases Entry.eq_or_files outline with rfl | ⟨⟨data, rfl⟩, old, rfl⟩
      · exact .inl again
      · exact .inr ⟨⟨data, again⟩, old, rfl⟩

/-- Trees of the same outline have the same directories. -/
theorem isDirectory_of_some (alike : tree.SameOutline later) {place : Place} {entry : Entry}
    (found : tree.get? place = some entry) :
    ∃ other, later.get? place = some other ∧ other.isDirectory = entry.isDirectory := by
  rcases alike.cases place with same | ⟨⟨new, again⟩, old, before⟩
  · exact ⟨entry, same.trans found, rfl⟩
  · cases found.symm.trans before
    exact ⟨_, again, rfl⟩

private theorem stride_eq (alike : tree.SameOutline later) (follow : Bool) (place : Place)
    (path : List Bytes) : later.stride follow place path = tree.stride follow place path := by
  induction path generalizing place with
  | nil => rfl
  | cons name rest ih =>
      simp only [stride, ih, lookUp]
      rcases alike.cases (place ++ [name]) with same | ⟨⟨data, again⟩, old, before⟩
      · rw [same]
      · rw [again, before]
        by_cases long : name.length > maxNameLength
        · simp only [long, if_true]
        · simp only [long, if_false, Entry.isDirectory]
          rfl

/-- Walks go the same way in trees of the same outline. -/
theorem walk_eq (alike : tree.SameOutline later) (follow : Bool) (links : Nat) (place : Place)
    (path : List Bytes) :
    later.walk follow links place path = tree.walk follow links place path := by
  induction links generalizing place path with
  | zero =>
      rw [walk, walk, alike.stride_eq]
  | succ links ih =>
      rw [walk, walk, alike.stride_eq]
      simp only [ih]

/-- Paths lead to the same spots in trees of the same outline. -/
theorem spotOf_eq (alike : tree.SameOutline later) (path : Bytes) :
    later.spotOf path = tree.spotOf path := by
  simp only [spotOf, alike.workDir, alike.walk_eq]

/-- Paths name directories alike in trees of the same outline. -/
theorem isDirectory_eq (alike : tree.SameOutline later) (path : Bytes) :
    later.isDirectory path = tree.isDirectory path := by
  simp only [isDirectory, entryOf, alike.workDir, alike.walk_eq]
  cases refusal? path.beforeNul with
  | some errno => rfl
  | none =>
      dsimp only
      cases tree.walk true maxLinks (origin tree.workDir path.beforeNul) (steps path.beforeNul) with
      | error errno => rfl
      | ok spot =>
          dsimp only
          rcases alike.cases spot.place with same | ⟨⟨data, again⟩, old, before⟩
          · rw [same]
          · rw [again, before]
            rfl

private theorem missingDirectories_eq (alike : tree.SameOutline later) (path : Bytes) :
    later.missingDirectories path = tree.missingDirectories path := by
  simp only [missingDirectories, alike.isDirectory_eq]

/-- What can be renamed to itself in one of two such trees can be in the other. -/
theorem rename_self (alike : tree.SameOutline later) {path : Bytes}
    (renamed : tree.rename path path = .ok tree) : later.rename path path = .ok later := by
  obtain ⟨-, above, name, entry, spot, looked, fits⟩ := rename_self_eq_ok_iff.mp renamed
  obtain ⟨short, found⟩ := lookUp_eq_ok looked
  obtain ⟨other, again, sameKind⟩ := alike.isDirectory_of_some found
  refine rename_self_eq_ok_iff.mpr ⟨rfl, above, name, other, ?_, ?_, ?_⟩
  · rw [alike.spotOf_eq, spot]
  · rw [lookUp, if_neg (Nat.not_lt_of_le short), again]
  · rw [sameKind]
    exact fits

end SameOutline

private theorem sameOutline_append (tree : FileTree) (place : Place) (data : Bytes) :
    tree.SameOutline (tree.append place data) :=
  (tree.keptIn_append place data).sameOutline fun _ => get?_append_eq_none.mpr

private theorem makeDirectory_append (tree : FileTree) (place : Place) (data path : Bytes) :
    (tree.append place data).makeDirectory path =
      (tree.makeDirectory path).map fun made => made.append place data := by
  have alike := tree.sameOutline_append place data
  simp only [makeDirectory, alike.spotOf_eq]
  cases tree.spotOf path with
  | error errno => rfl
  | ok spot =>
      cases spot with
      | itself _ => rfl
      | named above name =>
          simp only [lookUp]
          by_cases long : name.length > maxNameLength
          · simp only [long, if_true]
            rfl
          simp only [long, if_false]
          cases found : tree.get? (above ++ [name]) with
          | some entry =>
              have there : ((tree.append place data).get? (above ++ [name])) ≠ none := by
                simp [get?_append_eq_none, found]
              obtain ⟨other, again⟩ := Option.ne_none_iff_exists'.mp there
              rw [again]
              rfl
          | none =>
              rw [get?_append_eq_none.mpr found]
              dsimp only
              unfold create
              rcases alike.cases above with same | ⟨⟨new, again⟩, old, before⟩
              · rw [same]
                split
                · exact congrArg Except.ok (append_put_vacant tree found (by simp) _ _).symm
                · rfl
              · rw [again, before]
                rfl

private theorem makeEach_append (tree : FileTree) (place : Place) (data : Bytes)
    (paths : List Bytes) : (tree.append place data).makeEach paths =
      ((tree.makeEach paths).1.append place data, (tree.makeEach paths).2) := by
  induction paths generalizing tree with
  | nil => rfl
  | cons path rest ih =>
      simp only [makeEach, makeDirectory_append]
      cases tree.makeDirectory path with
      | ok made => exact ih made
      | error errno =>
          simp only [Except.map, (tree.sameOutline_append place data).isDirectory_eq]
          split
          · rfl
          split
          · exact ih tree
          · rfl

/-- Appending to a file and making directories do not meet. -/
theorem makeDirectories_append (tree : FileTree) (place : Place) (data path : Bytes) :
    (tree.append place data).makeDirectories path =
      ((tree.makeDirectories path).1.append place data, (tree.makeDirectories path).2) := by
  rw [makeDirectories, (tree.sameOutline_append place data).missingDirectories_eq, makeEach_append]
  rfl

end StoreAudit.FileTree

import StoreAudit.Proofs.FileTree.Change

/-!
# Ways through later trees

A tree keeps the ways of an earlier one if every directory and every link is still there. A walk
that came along the first names of a path comes along them in every such tree, to the same place,
whatever follows (`FileTree.Reaches.exists_way`), and what it finds from there on depends only on
the entries that it looks up (`FileTree.walk_congr`).
-/

namespace StoreAudit.FileTree

/-- The later tree has every directory and every link that the earlier one has. -/
structure KeepsWays (tree later : FileTree) : Prop where
  workDir : later.workDir = tree.workDir
  directory : ∀ place entry, tree.get? place = some entry → entry.isDirectory = true →
    later.get? place = some entry
  link : ∀ place target, tree.get? place = some (.link target) →
    later.get? place = some (.link target)

namespace KeepsWays

variable {tree later last : FileTree}

/-- A tree keeps its ways. -/
theorem refl (tree : FileTree) : tree.KeepsWays tree :=
  ⟨rfl, fun _ _ found _ => found, fun _ _ found => found⟩

/-- Ways that are kept twice are kept. -/
theorem trans (first : tree.KeepsWays later) (second : later.KeepsWays last) :
    tree.KeepsWays last :=
  ⟨second.workDir.trans first.workDir,
    fun place entry found isDirectory =>
      second.directory place entry (first.directory place entry found isDirectory) isDirectory,
    fun place target found => second.link place target (first.link place target found)⟩

/-- Only files may change, and anything may be new. -/
theorem of_files (workDir : later.workDir = tree.workDir)
    (kept : ∀ place entry, tree.get? place = some entry → (∀ data, entry ≠ .file data) →
      later.get? place = some entry) : tree.KeepsWays later := by
  refine ⟨workDir, fun place entry found isDirectory => kept place entry found ?_,
    fun place target found => kept place _ found nofun⟩
  rintro data rfl
  cases isDirectory

/-- What is put where nothing stood is in no way. -/
theorem put_vacant {place : Place} (kept : tree.KeepsWays later)
    (vacant : later.get? place = none) (entry : Entry) :
    tree.KeepsWays (later.put place entry) := by
  refine kept.trans (.of_files rfl fun other old found _ => ?_)
  rw [get?_put_vacant later vacant, if_neg]
  · exact found
  · rintro rfl
    cases vacant.symm.trans found

/-- What was not there at first can go. -/
theorem erase {place : Place} (kept : tree.KeepsWays later) (vacant : tree.get? place = none) :
    tree.KeepsWays (later.erase place) := by
  have apart {other : Place} {entry : Entry} (found : tree.get? other = some entry) :
      other ≠ place := by
    rintro rfl
    cases vacant.symm.trans found
  refine ⟨kept.workDir, fun other entry found isDirectory => ?_, fun other target found => ?_⟩
  · rw [get?_erase_of_ne _ (apart found)]
    exact kept.directory other entry found isDirectory
  · rw [get?_erase_of_ne _ (apart found)]
    exact kept.link other target found

end KeepsWays

variable {tree later : FileTree} {links : Nat} {place above : Place} {path rest : List Bytes}

/-- Names that lead to directories lead there in a tree that keeps the ways. -/
theorem Leads.keepsWays (kept : tree.KeepsWays later) {passed : List Place}
    (leads : tree.Leads place path passed above) : later.Leads place path passed above := by
  induction leads with
  | stop place => exact .stop place
  | stay _ ih => exact .stay ih
  | up _ ih => exact .up ih
  | down ordinary found isDirectory _ ih =>
      exact .down ordinary (kept.directory _ _ found isDirectory) isDirectory ih
  | through ordinary found _ ih => exact .through ordinary (kept.link _ _ found) ih

/-- A walk that comes to a directory comes there in a tree that keeps the ways. -/
theorem Reaches.keepsWays (kept : tree.KeepsWays later) {spot : Spot} {entry : Entry}
    (found : tree.get? spot.place = some entry) (isDirectory : entry.isDirectory = true)
    (reaches : tree.Reaches true links place path spot) :
    later.Reaches true links place path spot := by
  induction reaches with
  | stop => exact .stop
  | stay _ ih => exact .stay (ih found)
  | up _ ih => exact .up (ih found)
  | down ordinary short there isParent goesOn _ ih =>
      exact .down ordinary short (kept.directory _ _ there isParent) isParent goesOn (ih found)
  | through ordinary short there goesOn _ ih =>
      exact .through ordinary short (kept.link _ _ there) goesOn (ih found)
  | last ordinary settled =>
      refine .last ordinary fun follows => ⟨(settled follows).1, fun target shown => ?_⟩
      cases (kept.directory _ _ found isDirectory).symm.trans shown
      cases isDirectory

/-- A walk that comes to a directory can stop there. -/
theorem Reaches.stopAtEnd {spot : Spot} {entry : Entry}
    (found : tree.get? spot.place = some entry) (isDirectory : entry.isDirectory = true)
    (reaches : tree.Reaches true links place path spot) :
    tree.Reaches true links place (path ++ [here]) (.itself spot.place) := by
  induction reaches with
  | stop => exact .stay .stop
  | stay _ ih => exact .stay (ih found)
  | up _ ih => exact .up (ih found)
  | down ordinary short there isParent _ _ ih =>
      exact .down ordinary short there isParent (by simp) (ih found)
  | through ordinary short there _ _ ih =>
      refine .through ordinary short there (.inl (by simp)) ?_
      have further := ih found
      rwa [List.append_assoc] at further
  | last ordinary settled =>
      exact .down ordinary (settled rfl).1 found isDirectory (by simp) (.stay .stop)

/-- A walk that goes on to the directory itself comes to the same place without that step. -/
theorem Reaches.withoutHere {links : Nat} {place : Place} {path : List Bytes} {spot : Spot}
    (reaches : tree.Reaches true links place (path ++ [here]) spot) :
    ∃ short, tree.Reaches true links place path short ∧ short.place = spot.place := by
  generalize whole : path ++ [here] = names at reaches
  induction reaches generalizing path with
  | stop => simp at whole
  | stay onward ih =>
      cases path with
      | nil =>
          cases whole
          exact ⟨_, .stop, by cases onward; rfl⟩
      | cons name path =>
          cases whole
          obtain ⟨short, reaches, same⟩ := ih rfl
          exact ⟨short, .stay reaches, same⟩
  | up _ ih =>
      cases path with
      | nil => exact absurd (List.cons.inj whole).1 (by decide)
      | cons name path =>
          cases whole
          obtain ⟨short, reaches, same⟩ := ih rfl
          exact ⟨short, .up reaches, same⟩
  | down ordinary fits found isDirectory _ onward ih =>
      cases path with
      | nil =>
          cases whole
          exact absurd rfl ordinary.1
      | cons name path =>
          cases whole
          by_cases last : path = []
          · subst last
            refine ⟨_, .last ordinary fun _ => ⟨fits, fun target link => ?_⟩, ?_⟩
            · cases found.symm.trans link
              cases isDirectory
            · cases onward with
              | stay onward => cases onward; rfl
              | down other | through other | last other => exact absurd rfl other.1
          · obtain ⟨short, reaches, same⟩ := ih rfl
            exact ⟨short, .down ordinary fits found isDirectory last reaches, same⟩
  | through ordinary fits found _ _ ih =>
      cases path with
      | nil =>
          cases whole
          exact absurd rfl ordinary.1
      | cons name path =>
          cases whole
          obtain ⟨short, reaches, same⟩ := ih (List.append_assoc _ _ _)
          exact ⟨short, .through ordinary fits found (.inr rfl) reaches, same⟩
  | last ordinary _ =>
      cases path with
      | nil =>
          cases whole
          exact absurd rfl ordinary.1
      | cons name path => simp at whole

/-- A path to a directory leads there in a tree that keeps the ways. -/
theorem KeepsWays.isDirectory (kept : tree.KeepsWays later) {path : Bytes}
    (there : tree.isDirectory path = true) : later.isDirectory path = true := by
  obtain ⟨_, entry, found, isDirectory⟩ := isDirectory_iff.mp there
  obtain ⟨fits, stands, spot, rfl, reaches⟩ := entryOf_eq_ok_iff.mp found
  refine isDirectory_iff.mpr ⟨spot.place, entry, entryOf_eq_ok_iff.mpr ?_, isDirectory⟩
  refine ⟨fits, kept.directory _ _ stands isDirectory, spot, rfl, ?_⟩
  rw [kept.workDir]
  exact reaches.keepsWays kept stands isDirectory

/-- A walk along a path comes along its first names to a place from which it goes on with what is
left of its links. In every tree that keeps the ways the same names lead there, whatever follows. -/
theorem Reaches.exists_way {follow : Bool} {spot : Spot} (more : rest ≠ [])
    (reaches : tree.Reaches follow links place (path ++ rest) spot) :
    ∃ passed above left, tree.Leads place path passed above ∧
      ∀ later, tree.KeepsWays later → ∀ follow other, other ≠ [] →
        later.walk follow links place (path ++ other) = later.walk follow left above other := by
  generalize whole : path ++ rest = names at reaches
  induction reaches generalizing path with
  | stop => simp_all
  | @stay links place tail spot onward ih =>
      cases path with
      | nil => exact ⟨[], place, links, .stop place, fun _ _ _ _ _ => rfl⟩
      | cons name path =>
          cases whole
          obtain ⟨passed, above, left, leads, way⟩ := ih rfl
          refine ⟨passed, above, left, .stay leads, fun later kept follow other goesOn => ?_⟩
          rw [List.cons_append, walk_cons _ _ _ _ _ (by simp [goesOn]), if_pos rfl]
          exact way later kept follow other goesOn
  | @up links place tail spot onward ih =>
      cases path with
      | nil => exact ⟨[], place, links, .stop place, fun _ _ _ _ _ => rfl⟩
      | cons name path =>
          cases whole
          obtain ⟨passed, above, left, leads, way⟩ := ih rfl
          refine ⟨passed, above, left, .up leads, fun later kept follow other goesOn => ?_⟩
          rw [List.cons_append, walk_cons _ _ _ _ _ (by simp [goesOn]), if_neg (by decide),
            if_pos rfl]
          exact way later kept follow other goesOn
  | @down links place name tail entry spot ordinary short found isDirectory goesOn onward ih =>
      cases path with
      | nil => exact ⟨[], place, links, .stop place, fun _ _ _ _ _ => rfl⟩
      | cons first path =>
          cases whole
          obtain ⟨passed, above, left, leads, way⟩ := ih rfl
          refine ⟨passed, above, left, .down ordinary found isDirectory leads,
            fun later kept follow other goesOn => ?_⟩
          have looked : later.lookUp place name = .ok (some entry) := by
            rw [lookUp, if_neg (Nat.not_lt_of_le short), kept.directory _ _ found isDirectory]
          rw [List.cons_append, walk_cons _ _ _ _ _ (by simp [goesOn]), if_neg ordinary.1,
            if_neg ordinary.2, looked, ← way later kept follow other goesOn]
          cases entry with
          | directory | sealedDirectory => rfl
          | file _ | link _ | device _ => cases isDirectory
  | @through links place name target tail spot ordinary short found goesOn onward ih =>
      cases path with
      | nil => exact ⟨[], place, links + 1, .stop place, fun _ _ _ _ _ => rfl⟩
      | cons first path =>
          cases whole
          obtain ⟨passed, above, left, leads, way⟩ := ih (List.append_assoc _ _ _)
          refine ⟨_, above, left, .through ordinary found leads,
            fun later kept follow other goesOn => ?_⟩
          have looked : later.lookUp place name = .ok (some (.link target)) := by
            rw [lookUp, if_neg (Nat.not_lt_of_le short), kept.link _ _ found]
          have onward := way later kept follow other goesOn
          rw [List.append_assoc] at onward
          rw [List.cons_append, walk_cons _ _ _ _ _ (by simp [goesOn]), if_neg ordinary.1,
            if_neg ordinary.2, looked]
          exact onward
  | @last links place name ordinary settled =>
      cases path with
      | nil => exact ⟨[], place, links, .stop place, fun _ _ _ _ _ => rfl⟩
      | cons first path => simp_all

/-- The paths that are walked at all. -/
theorem refusal?_eq_none_iff {path : Bytes} :
    refusal? path = none ↔ path ≠ [] ∧ path.length < maxPathLength := by
  unfold refusal?
  cases path with
  | nil => simp
  | cons byte rest => simp

/-- A path that leads somewhere is one that can be used. -/
theorem refusal?_of_spotOf {path : Bytes} {spot : Spot} (found : tree.spotOf path = .ok spot) :
    refusal? path.beforeNul = none := by
  simp only [spotOf] at found
  split at found
  · cases found
  · assumption

/-- The last step of a walk, where no link stands. -/
theorem walk_single_of_noLink {follow : Bool} {name : Bytes} (ordinary : Ordinary name)
    (noLink : ∀ target, tree.get? (place ++ [name]) ≠ some (.link target)) :
    tree.walk follow links place [name] =
      if follow = true ∧ name.length > maxNameLength then .error .nameTooLong
      else .ok (.named place name) := by
  rw [walk_single, if_neg ordinary.1, if_neg ordinary.2]
  cases follow with
  | false => simp
  | true =>
      by_cases long : name.length > maxNameLength
      · simp [lookUp, long]
      · simp only [lookUp, long, if_true, if_false, and_false]

/-- A step of a walk that goes on, where no link stands. -/
theorem walk_cons_of_noLink {follow : Bool} {name : Bytes} (more : rest ≠ [])
    (ordinary : Ordinary name)
    (noLink : ∀ target, tree.get? (place ++ [name]) ≠ some (.link target)) :
    tree.walk follow links place (name :: rest) =
      if name.length > maxNameLength then .error .nameTooLong
      else match tree.get? (place ++ [name]) with
        | none => .error .noEntry
        | some entry =>
          if entry.isDirectory then tree.walk follow links (place ++ [name]) rest
          else .error .notDirectory := by
  rw [walk_cons _ _ _ _ _ more, if_neg ordinary.1, if_neg ordinary.2]
  by_cases long : name.length > maxNameLength
  · simp [lookUp, long]
  simp only [lookUp, long, if_false]
  cases found : tree.get? (place ++ [name]) with
  | none => rfl
  | some entry =>
      cases entry with
      | link target => exact absurd found (noLink target)
      | directory | sealedDirectory | file _ | device _ => rfl

/-- A walk along names that are no links ends where they say. -/
theorem place_of_walk {follow : Bool} {parts : List Bytes} {spot : Spot}
    (ordinary : ∀ part ∈ parts, Ordinary part)
    (noLink : ∀ part, part ≠ [] → part <+: parts →
      ∀ target, tree.get? (place ++ part) ≠ some (.link target))
    (walked : tree.walk follow links place parts = .ok spot) : spot.place = place ++ parts := by
  induction parts generalizing place with
  | nil =>
      cases (walk_nil tree follow links place).symm.trans walked
      exact (List.append_nil place).symm
  | cons name rest ih =>
      have firstNoLink := noLink [name] (by simp) ⟨rest, rfl⟩
      have isOrdinary := ordinary name List.mem_cons_self
      by_cases last : rest = []
      · rw [last, walk_single_of_noLink isOrdinary firstNoLink] at walked
        split at walked
        · cases walked
        · cases walked
          rw [last]
          rfl
      have shift (part : List Bytes) : place ++ name :: part = place ++ [name] ++ part := by simp
      rw [walk_cons_of_noLink last isOrdinary firstNoLink] at walked
      split at walked
      · cases walked
      split at walked
      · cases walked
      split at walked
      · rw [shift]
        refine ih (fun part member => ordinary part (List.mem_cons_of_mem _ member)) ?_ walked
        intro part nonempty starts
        rw [← shift]
        exact noLink _ (by simp) (List.cons_prefix_cons.mpr ⟨rfl, starts⟩)
      · cases walked

/-- The same stands at a place in both trees, up to what a file holds. -/
def AlikeAt (tree later : FileTree) (place : Place) : Prop :=
  later.get? place = tree.get? place ∨
    (∃ data, tree.get? place = some (.file data)) ∧ ∃ data, later.get? place = some (.file data)

private theorem AlikeAt.noLink (alike : tree.AlikeAt later place)
    (noLink : ∀ target, tree.get? place ≠ some (.link target)) (target : Bytes) :
    later.get? place ≠ some (.link target) := by
  intro found
  rcases alike with same | ⟨-, data, shape⟩
  · exact noLink target (same.symm.trans found)
  · cases shape.symm.trans found

/-- A walk along names that are no links depends only on what stands there. -/
theorem walk_congr {follow : Bool} {parts : List Bytes} (ordinary : ∀ part ∈ parts, Ordinary part)
    (alike : ∀ part, part ≠ [] → part <+: parts → tree.AlikeAt later (place ++ part))
    (noLink : ∀ part, part ≠ [] → part <+: parts →
      ∀ target, tree.get? (place ++ part) ≠ some (.link target)) :
    later.walk follow links place parts = tree.walk follow links place parts := by
  induction parts generalizing place with
  | nil => rw [walk_nil, walk_nil]
  | cons name rest ih =>
      have first := alike [name] (by simp) ⟨rest, rfl⟩
      have firstNoLink := noLink [name] (by simp) ⟨rest, rfl⟩
      have isOrdinary := ordinary name List.mem_cons_self
      by_cases last : rest = []
      · rw [last, walk_single_of_noLink isOrdinary firstNoLink,
          walk_single_of_noLink isOrdinary (first.noLink firstNoLink)]
      have shift (part : List Bytes) : place ++ name :: part = place ++ [name] ++ part := by simp
      have onward : later.walk follow links (place ++ [name]) rest =
          tree.walk follow links (place ++ [name]) rest := by
        refine ih (fun part member => ordinary part (List.mem_cons_of_mem _ member)) ?_ ?_ <;>
          intro part nonempty starts <;> rw [← shift]
        · exact alike _ (by simp) (List.cons_prefix_cons.mpr ⟨rfl, starts⟩)
        · exact noLink _ (by simp) (List.cons_prefix_cons.mpr ⟨rfl, starts⟩)
      rw [walk_cons_of_noLink last isOrdinary firstNoLink,
        walk_cons_of_noLink last isOrdinary (first.noLink firstNoLink), onward]
      rcases first with same | ⟨⟨old, before⟩, new, after⟩
      · rw [same]
      · rw [before, after]
        rfl

end StoreAudit.FileTree

import StoreAudit.FileTree.Access
import StoreAudit.Proofs.Text.Split

/-!
# Where paths lead

The steps of a walk that succeeds are the rules of `FileTree.Reaches`. They meet only links and
directories, so a tree that keeps those keeps the walk (`FileTree.Reaches.keptIn`), and a walk along
a long path first comes to where its first names lead (`FileTree.Reaches.split`). A walk that fails
has one of few reasons (`FileTree.walkErrors`).
-/

namespace StoreAudit

/-- What a walk can see of an entry: everything but the content of a file. -/
def Entry.outline : Entry → Entry
  | .file _ => .file []
  | other => other

@[simp] theorem Entry.isDirectory_outline (entry : Entry) :
    entry.outline.isDirectory = entry.isDirectory := by
  cases entry <;> rfl

/-- Only a link has the outline of a link. -/
theorem Entry.outline_eq_link {entry : Entry} {target : Bytes} :
    entry.outline = .link target ↔ entry = .link target := by
  cases entry <;> simp [outline]

/-- An outline tells whether there is a directory. -/
theorem Entry.isDirectory_eq_of_outline {first second : Entry}
    (same : first.outline = second.outline) : first.isDirectory = second.isDirectory := by
  rw [← first.isDirectory_outline, same, second.isDirectory_outline]

/-- Entries of the same outline are the same or both files. -/
theorem Entry.eq_or_files {first second : Entry} (same : first.outline = second.outline) :
    first = second ∨ (∃ data, first = .file data) ∧ ∃ data, second = .file data := by
  cases first with
  | file data =>
      cases second with
      | file other => exact .inr ⟨⟨data, rfl⟩, other, rfl⟩
      | directory | sealedDirectory | link _ | device _ => cases same
  | directory | sealedDirectory | link _ | device _ =>
      refine .inl ?_
      cases second <;> cases same
      all_goals rfl

namespace FileTree

/-- The later tree has every entry of the earlier one at its place, up to contents of files. -/
structure KeptIn (tree later : FileTree) : Prop where
  workDir : later.workDir = tree.workDir
  entry : ∀ place entry, tree.get? place = some entry →
    ∃ kept, later.get? place = some kept ∧ kept.outline = entry.outline

/-- A tree keeps what it has. -/
theorem KeptIn.refl (tree : FileTree) : tree.KeptIn tree :=
  ⟨rfl, fun _ entry found => ⟨entry, found, rfl⟩⟩

/-- What is kept twice is kept. -/
theorem KeptIn.trans {first second third : FileTree} (before : first.KeptIn second)
    (after : second.KeptIn third) : first.KeptIn third := by
  refine ⟨after.workDir.trans before.workDir, fun place entry found => ?_⟩
  obtain ⟨middle, found, same⟩ := before.entry place entry found
  obtain ⟨last, found, next⟩ := after.entry place middle found
  exact ⟨last, found, next.trans same⟩

/-- A walk that goes on after its next name, in terms of the rest of the walk. -/
theorem walk_cons (tree : FileTree) (follow : Bool) (links : Nat) (place : Place) (name : Bytes)
    {rest : List Bytes} (more : rest ≠ []) :
    tree.walk follow links place (name :: rest) =
      if name = here then tree.walk follow links place rest
      else if name = parent then tree.walk follow links place.dropLast rest
      else match tree.lookUp place name with
        | .error errno => .error errno
        | .ok (some (.link target)) =>
          match links with
          | 0 => .error .linkLoop
          | left + 1 => tree.walk follow left (origin place target) (steps target ++ rest)
        | .ok none => .error .noEntry
        | .ok (some entry) =>
          if entry.isDirectory then tree.walk follow links (place ++ [name]) rest
          else .error .notDirectory := by
  have goesOn : rest.isEmpty = false := by simpa using more
  by_cases isHere : name = here
  · rw [if_pos isHere, walk, walk]
    simp only [stride, isHere, if_true]
  by_cases isParent : name = parent
  · rw [if_neg isHere, if_pos isParent, walk, walk]
    simp only [stride, isParent, if_true]
    rw [isParent] at isHere
    simp only [isHere, if_false]
  rw [if_neg isHere, if_neg isParent, walk]
  simp only [stride, isHere, isParent, goesOn, Bool.false_and, Bool.false_eq_true, if_false]
  cases found : tree.lookUp place name with
  | error errno => rfl
  | ok entry =>
      cases entry with
      | none => rfl
      | some entry =>
          cases entry with
          | link target => cases links <;> rfl
          | directory | sealedDirectory =>
              simp only [Entry.isDirectory, if_true]
              rw [walk]
          | file _ | device _ => simp [Entry.isDirectory]

/-- The last step of a walk. -/
theorem walk_single (tree : FileTree) (follow : Bool) (links : Nat) (place : Place) (name : Bytes) :
    tree.walk follow links place [name] =
      if name = here then .ok (.itself place)
      else if name = parent then .ok (.itself place.dropLast)
      else if follow then match tree.lookUp place name with
        | .error errno => .error errno
        | .ok (some (.link target)) =>
          match links with
          | 0 => .error .linkLoop
          | left + 1 => tree.walk follow left (origin place target) (steps target)
        | .ok _ => .ok (.named place name)
      else .ok (.named place name) := by
  rw [walk]
  by_cases isHere : name = here
  · simp [stride, isHere]
  by_cases isParent : name = parent
  · rw [if_neg isHere, if_pos isParent]
    simp [stride, isParent]
    rw [isParent] at isHere
    simp [isHere]
  rw [if_neg isHere, if_neg isParent]
  cases follow with
  | false => simp [stride, isHere, isParent]
  | true =>
      simp only [stride, isHere, isParent, if_false, Bool.not_true, Bool.and_false,
        Bool.false_eq_true, if_true, List.isEmpty_nil]
      cases found : tree.lookUp place name with
      | error errno => rfl
      | ok entry =>
          cases entry with
          | none => rfl
          | some entry => cases entry <;> cases links <;> simp

/-- Without a way to go a walk is at its end. -/
theorem walk_nil (tree : FileTree) (follow : Bool) (links : Nat) (place : Place) :
    tree.walk follow links place [] = .ok (.itself place) := by
  rw [walk]
  rfl

/-- A name that is looked up: it stands neither for the directory itself nor for the one above. -/
def Ordinary (name : Bytes) : Prop := name ≠ here ∧ name ≠ parent

/-- Walking along names with a number of links to spare, step by step. -/
inductive Reaches (tree : FileTree) (follow : Bool) : Nat → Place → List Bytes → Spot → Prop
  | stop {links : Nat} {place : Place} : Reaches tree follow links place [] (.itself place)
  | stay {links : Nat} {place : Place} {rest : List Bytes} {spot : Spot} :
      Reaches tree follow links place rest spot →
      Reaches tree follow links place (here :: rest) spot
  | up {links : Nat} {place : Place} {rest : List Bytes} {spot : Spot} :
      Reaches tree follow links place.dropLast rest spot →
      Reaches tree follow links place (parent :: rest) spot
  | down {links : Nat} {place : Place} {name : Bytes} {rest : List Bytes} {entry : Entry}
      {spot : Spot} : Ordinary name → name.length ≤ maxNameLength →
      tree.get? (place ++ [name]) = some entry → entry.isDirectory = true → rest ≠ [] →
      Reaches tree follow links (place ++ [name]) rest spot →
      Reaches tree follow links place (name :: rest) spot
  | through {links : Nat} {place : Place} {name target : Bytes} {rest : List Bytes}
      {spot : Spot} : Ordinary name → name.length ≤ maxNameLength →
      tree.get? (place ++ [name]) = some (.link target) → rest ≠ [] ∨ follow = true →
      Reaches tree follow links (origin place target) (steps target ++ rest) spot →
      Reaches tree follow (links + 1) place (name :: rest) spot
  | last {links : Nat} {place : Place} {name : Bytes} : Ordinary name →
      (follow = true → name.length ≤ maxNameLength ∧
        ∀ target, tree.get? (place ++ [name]) ≠ some (.link target)) →
      Reaches tree follow links place [name] (.named place name)

/-- What the first of several names did in a walk that succeeds. -/
theorem walk_cons_eq_ok {tree : FileTree} {follow : Bool} {links : Nat} {place : Place}
    {name : Bytes} {rest : List Bytes} {spot : Spot} (more : rest ≠ [])
    (walked : tree.walk follow links place (name :: rest) = .ok spot) :
    (name = here ∧ tree.walk follow links place rest = .ok spot) ∨
      (name = parent ∧ tree.walk follow links place.dropLast rest = .ok spot) ∨
      Ordinary name ∧ name.length ≤ maxNameLength ∧
        ((∃ left target, links = left + 1 ∧ tree.get? (place ++ [name]) = some (.link target) ∧
          tree.walk follow left (origin place target) (steps target ++ rest) = .ok spot) ∨
        ∃ entry, tree.get? (place ++ [name]) = some entry ∧ entry.isDirectory = true ∧
          tree.walk follow links (place ++ [name]) rest = .ok spot) := by
  rw [walk_cons _ _ _ _ _ more] at walked
  by_cases isHere : name = here
  · rw [if_pos isHere] at walked
    exact .inl ⟨isHere, walked⟩
  by_cases isParent : name = parent
  · rw [if_neg isHere, if_pos isParent] at walked
    exact .inr (.inl ⟨isParent, walked⟩)
  rw [if_neg isHere, if_neg isParent] at walked
  simp only [lookUp] at walked
  by_cases long : name.length > maxNameLength
  · simp [long] at walked
  simp only [long, if_false] at walked
  refine .inr (.inr ⟨⟨isHere, isParent⟩, Nat.le_of_not_lt long, ?_⟩)
  split at walked
  · cases walked
  · rename_i found
    split at walked
    · cases walked
    · exact .inl ⟨_, _, rfl, Except.ok.inj found, walked⟩
  · cases walked
  · rename_i found
    split at walked
    · rename_i isDirectory
      exact .inr ⟨_, Except.ok.inj found, isDirectory, walked⟩
    · cases walked

/-- What the last name did in a walk that succeeds. -/
theorem walk_single_eq_ok {tree : FileTree} {follow : Bool} {links : Nat} {place : Place}
    {name : Bytes} {spot : Spot} (walked : tree.walk follow links place [name] = .ok spot) :
    (name = here ∧ spot = .itself place) ∨ (name = parent ∧ spot = .itself place.dropLast) ∨
      Ordinary name ∧
        ((∃ left target, follow = true ∧ name.length ≤ maxNameLength ∧ links = left + 1 ∧
          tree.get? (place ++ [name]) = some (.link target) ∧
          tree.walk follow left (origin place target) (steps target) = .ok spot) ∨
        spot = .named place name ∧ (follow = true → name.length ≤ maxNameLength ∧
          ∀ target, tree.get? (place ++ [name]) ≠ some (.link target))) := by
  rw [walk_single] at walked
  by_cases isHere : name = here
  · rw [if_pos isHere] at walked
    exact .inl ⟨isHere, (Except.ok.inj walked).symm⟩
  by_cases isParent : name = parent
  · rw [if_neg isHere, if_pos isParent] at walked
    exact .inr (.inl ⟨isParent, (Except.ok.inj walked).symm⟩)
  rw [if_neg isHere, if_neg isParent] at walked
  refine .inr (.inr ⟨⟨isHere, isParent⟩, ?_⟩)
  cases follow with
  | false => exact .inr ⟨(Except.ok.inj walked).symm, fun impossible => nomatch impossible⟩
  | true =>
      simp only [if_true, lookUp] at walked
      by_cases long : name.length > maxNameLength
      · simp [long] at walked
      simp only [long, if_false] at walked
      have short : name.length ≤ maxNameLength := Nat.le_of_not_lt long
      split at walked
      · cases walked
      · rename_i found
        split at walked
        · cases walked
        · exact .inl ⟨_, _, rfl, short, rfl, Except.ok.inj found, walked⟩
      · rename_i noLink seen
        refine .inr ⟨(Except.ok.inj walked).symm, fun _ => ⟨short, fun target found => ?_⟩⟩
        exact noLink target ((Except.ok.inj seen).symm.trans found)

private theorem reaches_of_walk {tree : FileTree} {follow : Bool} {links : Nat} {place : Place}
    {path : List Bytes} {spot : Spot} (walked : tree.walk follow links place path = .ok spot) :
    tree.Reaches follow links place path spot := by
  induction links using Nat.strongRecOn generalizing place path with
  | ind links fewer =>
  induction path generalizing place with
  | nil =>
      cases (walk_nil tree follow links place).symm.trans walked
      exact .stop
  | cons name rest ih =>
      by_cases last : rest = []
      · subst last
        rcases walk_single_eq_ok walked with
          ⟨rfl, rfl⟩ | ⟨rfl, rfl⟩ | ⟨ordinary, link | ⟨rfl, settled⟩⟩
        · exact .stay .stop
        · exact .up .stop
        · obtain ⟨left, target, follows, short, rfl, found, onward⟩ := link
          refine .through ordinary short found (.inr follows) ?_
          rw [List.append_nil]
          exact fewer left (Nat.lt_succ_self left) onward
        · exact .last ordinary settled
      · rcases walk_cons_eq_ok last walked with
          ⟨rfl, onward⟩ | ⟨rfl, onward⟩ |
          ⟨ordinary, short, link | ⟨entry, found, isDirectory, onward⟩⟩
        · exact .stay (ih onward)
        · exact .up (ih onward)
        · obtain ⟨left, target, rfl, found, onward⟩ := link
          exact .through ordinary short found (.inl last)
            (fewer left (Nat.lt_succ_self left) onward)
        · exact .down ordinary short found isDirectory last (ih onward)

private theorem walk_of_reaches {tree : FileTree} {follow : Bool} {links : Nat} {place : Place}
    {path : List Bytes} {spot : Spot} (reaches : tree.Reaches follow links place path spot) :
    tree.walk follow links place path = .ok spot := by
  induction reaches with
  | stop => exact walk_nil _ _ _ _
  | @stay links place rest spot onward ih =>
      cases rest with
      | nil => exact ih ▸ (walk_single _ _ _ _ _).trans (walk_nil _ _ _ _).symm
      | cons second rest =>
          rw [walk_cons _ _ _ _ _ (List.cons_ne_nil second rest), if_pos rfl]
          exact ih
  | @up links place rest spot onward ih =>
      have apart : parent ≠ here := by decide
      cases rest with
      | nil =>
          rw [walk_single, if_neg apart, if_pos rfl, ← ih, walk_nil]
      | cons second rest =>
          rw [walk_cons _ _ _ _ _ (List.cons_ne_nil second rest), if_neg apart, if_pos rfl]
          exact ih
  | @down links place name rest entry spot ordinary short found isDirectory more onward ih =>
      have fits : ¬ name.length > maxNameLength := Nat.not_lt_of_le short
      rw [walk_cons _ _ _ _ _ more, if_neg ordinary.1, if_neg ordinary.2]
      simp only [lookUp, fits, if_false, found]
      cases entry with
      | directory | sealedDirectory => exact ih
      | file _ | link _ | device _ => cases isDirectory
  | @through links place name target rest spot ordinary short found goesOn onward ih =>
      have fits : ¬ name.length > maxNameLength := Nat.not_lt_of_le short
      cases rest with
      | nil =>
          have follows : follow = true := goesOn.resolve_left (fun more => more rfl)
          rw [walk_single, if_neg ordinary.1, if_neg ordinary.2]
          simp only [lookUp, fits, if_false, found, follows, if_true]
          simpa [follows] using ih
      | cons second rest =>
          rw [walk_cons _ _ _ _ _ (List.cons_ne_nil second rest), if_neg ordinary.1,
            if_neg ordinary.2]
          simp only [lookUp, fits, if_false, found]
          exact ih
  | @last links place name ordinary settled =>
      rw [walk_single, if_neg ordinary.1, if_neg ordinary.2]
      cases follow with
      | false => rfl
      | true =>
          obtain ⟨short, noLink⟩ := settled rfl
          have fits : ¬ name.length > maxNameLength := Nat.not_lt_of_le short
          simp only [if_true, lookUp, fits, if_false]

/-- The steps of a walk that succeeds. -/
theorem walk_eq_ok_iff {tree : FileTree} {follow : Bool} {links : Nat} {place : Place}
    {path : List Bytes} {spot : Spot} :
    tree.walk follow links place path = .ok spot ↔ tree.Reaches follow links place path spot :=
  ⟨reaches_of_walk, walk_of_reaches⟩

/-- A tree that keeps everything keeps every walk. New links matter only to a walk that follows its
last name. -/
theorem Reaches.keptIn {tree later : FileTree} (kept : tree.KeptIn later) {follow : Bool}
    (noNewLink : follow = true → ∀ place target, later.get? place = some (.link target) →
      tree.get? place = some (.link target))
    {links : Nat} {place : Place} {path : List Bytes} {spot : Spot}
    (reaches : tree.Reaches follow links place path spot) :
    later.Reaches follow links place path spot := by
  induction reaches with
  | stop => exact .stop
  | stay _ ih => exact .stay ih
  | up _ ih => exact .up ih
  | down ordinary short found isDirectory more _ ih =>
      obtain ⟨other, foundLater, same⟩ := kept.entry _ _ found
      have stillDirectory := (Entry.isDirectory_eq_of_outline same).trans isDirectory
      exact .down ordinary short foundLater stillDirectory more ih
  | through ordinary short found goesOn _ ih =>
      obtain ⟨other, foundLater, same⟩ := kept.entry _ _ found
      cases Entry.outline_eq_link.mp same
      exact .through ordinary short foundLater goesOn ih
  | last ordinary settled =>
      refine .last ordinary fun follows => ⟨(settled follows).1, fun target shown => ?_⟩
      exact (settled follows).2 target (noNewLink follows _ target shown)

/-- Following the last name of a walk changes nothing if no link stands there. -/
theorem Reaches.follow {tree : FileTree} {links : Nat} {place above : Place} {path : List Bytes}
    {name : Bytes} (reaches : tree.Reaches false links place path (.named above name))
    (short : name.length ≤ maxNameLength)
    (noLink : ∀ target, tree.get? (above ++ [name]) ≠ some (.link target)) :
    tree.Reaches true links place path (.named above name) := by
  generalize arrival : Spot.named above name = spot at reaches
  induction reaches with
  | stop => cases arrival
  | stay _ ih => exact .stay (ih arrival)
  | up _ ih => exact .up (ih arrival)
  | down ordinary fits found isDirectory more _ ih =>
      exact .down ordinary fits found isDirectory more (ih arrival)
  | through ordinary fits found goesOn _ ih =>
      exact .through ordinary fits found (.inr rfl) (ih arrival)
  | last ordinary _ =>
      cases arrival
      exact .last ordinary fun _ => ⟨short, noLink⟩

/-- A walk to a directory can go on to the directory itself. -/
theorem Reaches.stayAtEnd {tree : FileTree} {links : Nat} {place above : Place}
    {path : List Bytes} {name : Bytes} {entry : Entry}
    (reaches : tree.Reaches false links place path (.named above name))
    (short : name.length ≤ maxNameLength) (found : tree.get? (above ++ [name]) = some entry)
    (isDirectory : entry.isDirectory = true) :
    tree.Reaches true links place (path ++ [here]) (.itself (above ++ [name])) := by
  generalize arrival : Spot.named above name = spot at reaches
  induction reaches with
  | stop => cases arrival
  | stay _ ih => exact .stay (ih arrival)
  | up _ ih => exact .up (ih arrival)
  | down ordinary fits there directory _ _ ih =>
      exact .down ordinary fits there directory (by simp) (ih arrival)
  | through ordinary fits there _ _ ih =>
      refine .through ordinary fits there (.inr rfl) ?_
      have further := ih arrival
      rwa [List.append_assoc] at further
  | last ordinary _ =>
      cases arrival
      exact .down ordinary short found isDirectory (by simp) (.stay .stop)

/-- Walking along names that all lead into directories: the links that are replaced on the way, and
where the walk comes to. -/
inductive Leads (tree : FileTree) : Place → List Bytes → List Place → Place → Prop
  | stop (place : Place) : Leads tree place [] [] place
  | stay {place last : Place} {rest : List Bytes} {links : List Place} :
      Leads tree place rest links last → Leads tree place (here :: rest) links last
  | up {place last : Place} {rest : List Bytes} {links : List Place} :
      Leads tree place.dropLast rest links last → Leads tree place (parent :: rest) links last
  | down {place last : Place} {name : Bytes} {rest : List Bytes} {links : List Place}
      {entry : Entry} : Ordinary name → tree.get? (place ++ [name]) = some entry →
      entry.isDirectory = true → Leads tree (place ++ [name]) rest links last →
      Leads tree place (name :: rest) links last
  | through {place last : Place} {name target : Bytes} {rest : List Bytes} {links : List Place} :
      Ordinary name → tree.get? (place ++ [name]) = some (.link target) →
      Leads tree (origin place target) (steps target ++ rest) links last →
      Leads tree place (name :: rest) ((place ++ [name]) :: links) last

/-- Every link on the way is there. -/
theorem Leads.link {tree : FileTree} {place last : Place} {path : List Bytes} {links : List Place}
    (leads : tree.Leads place path links last) :
    ∀ link ∈ links, ∃ target, tree.get? link = some (.link target) := by
  induction leads with
  | stop _ => simp
  | stay _ ih | up _ ih | down _ _ _ _ ih => exact ih
  | through _ found _ ih =>
      intro link member
      rcases List.mem_cons.mp member with rfl | later
      · exact ⟨_, found⟩
      · exact ih link later

/-- A way on which no link stands passes none. -/
theorem Leads.links_eq_nil {tree : FileTree} {place last : Place} {path : List Bytes}
    {links : List Place} (leads : tree.Leads place path links last)
    (noLink : ∀ name ∈ path, ∀ above target, tree.get? (above ++ [name]) ≠ some (.link target)) :
    links = [] := by
  induction leads with
  | stop _ => rfl
  | stay _ ih | up _ ih | down _ _ _ _ ih =>
      exact ih fun name member => noLink name (List.mem_cons_of_mem _ member)
  | through _ found _ _ => exact absurd found (noLink _ List.mem_cons_self _ _)

/-- A walk along a path first comes to where the first names of the path lead, from where it could
as well go on along other names. -/
theorem Reaches.split {tree : FileTree} {follow : Bool} {links : Nat} {place : Place}
    {path rest : List Bytes} {spot : Spot} (more : rest ≠ [])
    (reaches : tree.Reaches follow links place (path ++ rest) spot) :
    ∃ passed last left, tree.Leads place path passed last ∧
      tree.Reaches follow left last rest spot ∧
      ∀ other goal, other ≠ [] → tree.Reaches false left last other goal →
        tree.Reaches false links place (path ++ other) goal := by
  generalize whole : path ++ rest = names at reaches
  induction reaches generalizing path with
  | stop => simp_all
  | @stay links place tail spot onward ih =>
      cases path with
      | nil =>
          obtain rfl : rest = _ := whole
          exact ⟨[], place, links, .stop place, .stay onward, fun _ _ _ way => way⟩
      | cons name path =>
          cases whole
          obtain ⟨passed, last, left, leads, further, graft⟩ := ih rfl
          exact ⟨passed, last, left, .stay leads, further,
            fun other goal goesOn way => .stay (graft other goal goesOn way)⟩
  | @up links place tail spot onward ih =>
      cases path with
      | nil =>
          obtain rfl : rest = _ := whole
          exact ⟨[], place, links, .stop place, .up onward, fun _ _ _ way => way⟩
      | cons name path =>
          cases whole
          obtain ⟨passed, last, left, leads, further, graft⟩ := ih rfl
          exact ⟨passed, last, left, .up leads, further,
            fun other goal goesOn way => .up (graft other goal goesOn way)⟩
  | @down links place name tail entry spot ordinary short found isDirectory goesOn onward ih =>
      cases path with
      | nil =>
          obtain rfl : rest = _ := whole
          exact ⟨[], place, links, .stop place,
            .down ordinary short found isDirectory goesOn onward, fun _ _ _ way => way⟩
      | cons first path =>
          cases whole
          obtain ⟨passed, last, left, leads, further, graft⟩ := ih rfl
          refine ⟨passed, last, left, .down ordinary found isDirectory leads, further, ?_⟩
          intro other goal goesOn way
          exact .down ordinary short found isDirectory (by simp [goesOn])
            (graft other goal goesOn way)
  | @through links place name target tail spot ordinary short found goesOn onward ih =>
      cases path with
      | nil =>
          obtain rfl : rest = _ := whole
          exact ⟨[], place, links + 1, .stop place,
            .through ordinary short found goesOn onward, fun _ _ _ way => way⟩
      | cons first path =>
          cases whole
          obtain ⟨passed, last, left, leads, further, graft⟩ := ih (List.append_assoc _ _ _)
          refine ⟨_, last, left, .through ordinary found leads, further, ?_⟩
          intro other goal goesOn way
          refine .through ordinary short found (.inl (by simp [goesOn])) ?_
          have grafted := graft other goal goesOn way
          rwa [List.append_assoc] at grafted
  | @last links place name ordinary settled =>
      cases path with
      | nil =>
          obtain rfl : rest = _ := whole
          exact ⟨[], place, links, .stop place, .last ordinary settled, fun _ _ _ way => way⟩
      | cons first path => simp_all

/-- A name that goes on and is no link leads into a directory. -/
theorem Reaches.into {tree : FileTree} {follow : Bool} {links : Nat} {place : Place} {name : Bytes}
    {rest : List Bytes} {spot : Spot} (more : rest ≠ []) (ordinary : Ordinary name)
    (noLink : ∀ target, tree.get? (place ++ [name]) ≠ some (.link target))
    (reaches : tree.Reaches follow links place (name :: rest) spot) :
    ∃ entry, tree.get? (place ++ [name]) = some entry ∧ entry.isDirectory = true ∧
      tree.Reaches follow links (place ++ [name]) rest spot := by
  cases reaches with
  | stay _ => exact absurd rfl ordinary.1
  | up _ => exact absurd rfl ordinary.2
  | down _ _ found isDirectory _ onward => exact ⟨_, found, isDirectory, onward⟩
  | through _ _ found _ _ => exact absurd found (noLink _)
  | last _ _ => exact absurd rfl more

/-- Names lead to the same place in a tree in which no directory has become anything else and the
links on the way are the same, if they lead anywhere. -/
theorem Leads.unique {tree later : FileTree} {place last : Place} {path : List Bytes}
    {passed : List Place} (leads : tree.Leads place path passed last)
    (directories : ∀ place entry other, tree.get? place = some entry → entry.isDirectory = true →
      later.get? place = some other → other.isDirectory = true)
    (links : ∀ link ∈ passed, ∀ target other, tree.get? link = some (.link target) →
      later.get? link = some other → other = .link target)
    {passedLater : List Place} {lastLater : Place}
    (again : later.Leads place path passedLater lastLater) :
    passedLater = passed ∧ lastLater = last := by
  induction leads generalizing passedLater lastLater with
  | stop place =>
      cases again
      exact ⟨rfl, rfl⟩
  | stay rest ih =>
      cases again with
      | stay restLater => exact ih links restLater
      | down ordinary => exact absurd rfl ordinary.1
      | through ordinary => exact absurd rfl ordinary.1
  | up rest ih =>
      cases again with
      | up restLater => exact ih links restLater
      | down ordinary => exact absurd rfl ordinary.2
      | through ordinary => exact absurd rfl ordinary.2
  | down ordinary found isDirectory rest ih =>
      cases again with
      | stay _ => exact absurd rfl ordinary.1
      | up _ => exact absurd rfl ordinary.2
      | down _ _ _ restLater => exact ih links restLater
      | through _ foundLater _ =>
          have still := directories _ _ _ found isDirectory foundLater
          cases still
  | through ordinary found rest ih =>
      cases again with
      | stay _ => exact absurd rfl ordinary.1
      | up _ => exact absurd rfl ordinary.2
      | down _ foundLater isDirectory _ =>
          have same := links _ List.mem_cons_self _ _ found foundLater
          subst same
          cases isDirectory
      | through _ foundLater restLater =>
          have same := links _ List.mem_cons_self _ _ found foundLater
          cases same
          obtain ⟨same, sameLast⟩ :=
            ih (fun link member => links link (List.mem_cons_of_mem _ member)) restLater
          exact ⟨by rw [same], sameLast⟩

/-- A walk that goes on after the first names of its path finds its way in a later tree too, as far
as these lead, if the directories and the links on the way are still there. -/
theorem Leads.graft {tree later : FileTree} {place last : Place} {path : List Bytes}
    {passed : List Place} (leads : tree.Leads place path passed last)
    (directories : ∀ place entry, tree.get? place = some entry → entry.isDirectory = true →
      later.get? place = some entry)
    (linked : ∀ link ∈ passed, later.get? link = tree.get? link) {links : Nat}
    {rest : List Bytes} {spot : Spot} (more : rest ≠ [])
    (reaches : tree.Reaches false links place (path ++ rest) spot) :
    ∃ left, tree.Reaches false left last rest spot ∧ ∀ goal,
      later.Reaches false left last rest goal →
      later.Reaches false links place (path ++ rest) goal := by
  induction leads generalizing links with
  | stop place => exact ⟨links, reaches, fun _ way => way⟩
  | stay _ ih =>
      rw [List.cons_append] at reaches ⊢
      generalize _ ++ rest = tail at *
      cases reaches with
      | stay onward =>
          obtain ⟨left, further, graft⟩ := ih linked onward
          exact ⟨left, further, fun goal way => .stay (graft goal way)⟩
      | down ordinary | through ordinary | last ordinary => exact absurd rfl ordinary.1
  | up _ ih =>
      rw [List.cons_append] at reaches ⊢
      generalize _ ++ rest = tail at *
      cases reaches with
      | up onward =>
          obtain ⟨left, further, graft⟩ := ih linked onward
          exact ⟨left, further, fun goal way => .up (graft goal way)⟩
      | down ordinary | through ordinary | last ordinary => exact absurd rfl ordinary.2
  | @down place last name path passed entry ordinary found isDirectory _ ih =>
      have goesOn : path ++ rest ≠ [] := by simp [more]
      rw [List.cons_append] at reaches ⊢
      generalize path ++ rest = tail at *
      cases reaches with
      | stay _ => exact absurd rfl ordinary.1
      | up _ => exact absurd rfl ordinary.2
      | down _ short _ _ _ onward =>
          obtain ⟨left, further, graft⟩ := ih linked onward
          exact ⟨left, further, fun goal way => .down ordinary short
            (directories _ _ found isDirectory) isDirectory goesOn (graft goal way)⟩
      | through _ _ link _ _ =>
          cases found.symm.trans link
          cases isDirectory
      | last _ _ => exact absurd rfl goesOn
  | @through place last name target path passed ordinary found _ ih =>
      have goesOn : path ++ rest ≠ [] := by simp [more]
      have still := (linked _ List.mem_cons_self).trans found
      rw [List.append_assoc] at ih
      rw [List.cons_append] at reaches ⊢
      generalize path ++ rest = tail at *
      cases reaches with
      | stay _ => exact absurd rfl ordinary.1
      | up _ => exact absurd rfl ordinary.2
      | down _ _ directory isDirectory _ _ =>
          cases found.symm.trans directory
          cases isDirectory
      | through _ short link _ onward =>
          cases found.symm.trans link
          obtain ⟨left, further, graft⟩ :=
            ih (fun link member => linked link (List.mem_cons_of_mem _ member)) onward
          exact ⟨left, further, fun goal way =>
            .through ordinary short still (.inl goesOn) (graft goal way)⟩
      | last _ _ => exact absurd rfl goesOn

private theorem split_collect_append (separator : UInt8) (part first second : Bytes) :
    (Bytes.split.collect separator part (first ++ separator :: second)).filter
        (fun name => !name.isEmpty) =
      (Bytes.split.collect separator part first).filter (fun name => !name.isEmpty) ++
        (Bytes.split separator second).filter (fun name => !name.isEmpty) := by
  induction first generalizing part with
  | nil => cases part <;> simp [Bytes.split.collect, Bytes.split]
  | cons byte rest ih =>
      by_cases cut : byte = separator
      · simp only [List.cons_append, Bytes.split.collect, cut, if_true, List.filter_cons, ih]
        split <;> rfl
      · simp only [List.cons_append, Bytes.split.collect, cut, if_false, ih]

/-- The names in a path below another one. -/
theorem names_append (path below : Bytes) :
    names (path ++ Ascii.slash :: below) = names path ++ names below :=
  split_collect_append Ascii.slash [] path below

/-- A text without slashes is one name. -/
theorem names_of_noSlash {name : Bytes} (whole : Ascii.slash ∉ name) (nonempty : name ≠ []) :
    names name = [name] := by
  simp [names, Bytes.split_of_notMem nonempty whole, nonempty]

/-- A path asks for a directory if nothing follows its last slash. -/
theorem endsWith_slash_append {name : Bytes} (noSlash : Ascii.slash ∉ name) (start : Bytes) :
    (start ++ Ascii.slash :: name).endsWith [Ascii.slash] = true ↔ name = [] := by
  rw [Bytes.endsWith_iff]
  constructor
  · intro ends
    cases name with
    | nil => rfl
    | cons byte rest =>
        have whole : byte :: rest <:+ start ++ Ascii.slash :: byte :: rest :=
          List.suffix_append_of_suffix (List.suffix_cons _ _)
        have last : [Ascii.slash] <:+ byte :: rest :=
          List.suffix_of_suffix_length_le ends whole (Nat.succ_le_succ (Nat.zero_le _))
        exact absurd (last.mem List.mem_cons_self) noSlash
  · rintro rfl
    exact List.suffix_append start [Ascii.slash]

variable {tree : FileTree} {follow : Bool} {path : List Bytes} {errno : Errno}

/-- Why a walk can fail. -/
def walkErrors : List Errno := [.noEntry, .nameTooLong, .notDirectory, .linkLoop]

private theorem mem_walkErrors_of_stride {place : Place}
    (failed : tree.stride follow place path = .error errno) : errno ∈ walkErrors := by
  induction path generalizing place with
  | nil => cases failed
  | cons name rest ih =>
      rw [stride] at failed
      split at failed
      · exact ih failed
      split at failed
      · exact ih failed
      split at failed
      · cases failed
      split at failed
      · rename_i other looked
        cases failed
        unfold lookUp at looked
        split at looked <;> cases looked
        simp [walkErrors]
      · cases failed
      · split at failed
        · cases failed
        split at failed
        · cases failed
          simp [walkErrors]
        · split at failed
          · exact ih failed
          · cases failed
            simp [walkErrors]

private theorem mem_walkErrors_of_walk {links : Nat} {place : Place}
    (failed : tree.walk follow links place path = .error errno) : errno ∈ walkErrors := by
  induction links generalizing place path with
  | zero =>
      rw [walk] at failed
      split at failed
      · rename_i strode
        cases failed
        exact mem_walkErrors_of_stride strode
      · cases failed
      · cases failed
        simp [walkErrors]
  | succ links ih =>
      rw [walk] at failed
      split at failed
      · rename_i strode
        cases failed
        exact mem_walkErrors_of_stride strode
      · cases failed
      · exact ih failed

private theorem mem_walkErrors_of_refusal? {path : Bytes} (refused : refusal? path = some errno) :
    errno ∈ walkErrors := by
  unfold refusal? at refused
  split at refused
  · cases refused
    simp [walkErrors]
  split at refused <;> cases refused
  simp [walkErrors]

/-- A path that leads nowhere fails in one of the ways there are. -/
theorem mem_walkErrors_of_spotOf {path : Bytes} (failed : tree.spotOf path = .error errno) :
    errno ∈ walkErrors := by
  unfold spotOf at failed
  dsimp only at failed
  split at failed
  · rename_i refused
    cases failed
    exact mem_walkErrors_of_refusal? refused
  · exact mem_walkErrors_of_walk failed

/-- A path that names nothing fails in one of the ways there are. -/
theorem mem_walkErrors_of_entryOf {path : Bytes} (failed : tree.entryOf path = .error errno) :
    errno ∈ walkErrors := by
  unfold entryOf at failed
  dsimp only at failed
  split at failed
  · rename_i refused
    cases failed
    exact mem_walkErrors_of_refusal? refused
  · split at failed
    · rename_i walked
      cases failed
      exact mem_walkErrors_of_walk walked
    · split at failed <;> cases failed
      simp [walkErrors]

/-- A path that is not refused names what stands where its steps lead. -/
theorem entryOf_eq_ok_iff {path : Bytes} {place : Place} {entry : Entry} :
    tree.entryOf path = .ok (place, entry) ↔
      refusal? path.beforeNul = none ∧ tree.get? place = some entry ∧
        ∃ spot, spot.place = place ∧ tree.Reaches true maxLinks
          (origin tree.workDir path.beforeNul) (steps path.beforeNul) spot := by
  constructor
  · intro found
    simp only [entryOf] at found
    split at found
    · cases found
    rename_i fits
    split at found
    · cases found
    rename_i spot walked
    split at found
    · cases found
    rename_i there
    cases found
    exact ⟨fits, there, spot, rfl, walk_eq_ok_iff.mp walked⟩
  · rintro ⟨fits, there, spot, rfl, reaches⟩
    simp only [entryOf, fits, walk_eq_ok_iff.mpr reaches, there]

/-- A path names a directory if what it names is one. -/
theorem isDirectory_iff {path : Bytes} :
    tree.isDirectory path = true ↔
      ∃ place entry, tree.entryOf path = .ok (place, entry) ∧ entry.isDirectory = true := by
  unfold isDirectory
  split
  · rename_i place entry found
    constructor
    · intro there
      exact ⟨place, entry, found, there⟩
    · rintro ⟨other, same, again, there⟩
      cases found.symm.trans again
      exact there
  · rename_i failed
    constructor
    · nofun
    · rintro ⟨_, _, found, -⟩
      cases failed.symm.trans found

/-- A path exists if it names something. -/
theorem pathExists_iff {path : Bytes} :
    tree.pathExists path = true ↔ ∃ place entry, tree.entryOf path = .ok (place, entry) := by
  unfold pathExists
  cases tree.entryOf path with
  | error errno => exact ⟨nofun, fun ⟨_, _, found⟩ => nomatch found⟩
  | ok found => exact ⟨fun _ => ⟨found.1, found.2, rfl⟩, fun _ => rfl⟩

end FileTree

end StoreAudit

import StoreAudit.Proofs.FileTree.Change
import StoreAudit.Store.Basic

/-!
# Where the paths of a store lead

The names in the paths of objects, and the places they come to from where the root of the store
leads, as long as no link stands in place of a directory of the store.
-/

namespace StoreAudit

open FileTree

namespace FileTree

/-- A walk down through directories, none of them a link, ends at the last name. -/
theorem Reaches.along {tree : FileTree} {links : Nat} {place : Place} {above : List Bytes}
    {name : Bytes} {spot : Spot} (reaches : tree.Reaches false links place (above ++ [name]) spot)
    (ordinary : ∀ part ∈ above ++ [name], Ordinary part)
    (noLink : ∀ part, part ≠ [] → part <+: above →
      ∀ target, tree.get? (place ++ part) ≠ some (.link target)) :
    spot = .named (place ++ above) name ∧ ∀ part, part ≠ [] → part <+: above →
      ∃ entry, tree.get? (place ++ part) = some entry ∧ entry.isDirectory = true := by
  induction above generalizing place with
  | nil =>
      have last := ordinary name List.mem_cons_self
      refine ⟨?_, fun part nonempty starts => absurd (List.prefix_nil.mp starts) nonempty⟩
      cases reaches with
      | stay _ => exact absurd rfl last.1
      | up _ => exact absurd rfl last.2
      | down _ _ _ _ more _ => exact absurd rfl more
      | through _ _ _ goesOn _ => rcases goesOn with more | follows <;> contradiction
      | last _ _ => rw [List.append_nil]
  | cons first rest ih =>
      have single : [first] <+: first :: rest := ⟨rest, rfl⟩
      obtain ⟨entry, found, isDirectory, further⟩ := reaches.into (by simp)
        (ordinary first List.mem_cons_self) (noLink [first] (by simp) single)
      have shift (part : List Bytes) : place ++ first :: part = place ++ [first] ++ part := by simp
      obtain ⟨same, directories⟩ := ih further
        (fun part member => ordinary part (List.mem_cons_of_mem _ member))
        (fun part nonempty starts => by
          rw [← shift]
          exact noLink _ (by simp) (List.cons_prefix_cons.mpr ⟨rfl, starts⟩))
      refine ⟨by rw [same, shift rest], fun part nonempty starts => ?_⟩
      obtain ⟨head, tail, rfl⟩ := List.exists_cons_of_ne_nil nonempty
      obtain ⟨rfl, startsRest⟩ := List.cons_prefix_cons.mp starts
      by_cases only : tail = []
      · rw [only]
        exact ⟨entry, found, isDirectory⟩
      · rw [shift]
        exact directories tail only startsRest

/-- Names that stand for directories can be walked down. -/
theorem reaches_along {tree : FileTree} {links : Nat} {place : Place} {above : List Bytes}
    {name : Bytes} (ordinary : ∀ part ∈ above ++ [name], Ordinary part)
    (short : ∀ part ∈ above, part.length ≤ maxNameLength)
    (directories : ∀ part, part ≠ [] → part <+: above →
      ∃ entry, tree.get? (place ++ part) = some entry ∧ entry.isDirectory = true) :
    tree.Reaches false links place (above ++ [name]) (.named (place ++ above) name) := by
  induction above generalizing place with
  | nil =>
      rw [List.append_nil]
      exact .last (ordinary name List.mem_cons_self) (by simp)
  | cons first rest ih =>
      have single : [first] <+: first :: rest := ⟨rest, rfl⟩
      obtain ⟨entry, found, isDirectory⟩ := directories [first] (by simp) single
      have shift (part : List Bytes) : place ++ first :: part = place ++ [first] ++ part := by simp
      rw [shift]
      refine .down (ordinary first List.mem_cons_self) (short first List.mem_cons_self) found
        isDirectory (by simp) (ih ?_ ?_ ?_)
      · exact fun part member => ordinary part (List.mem_cons_of_mem _ member)
      · exact fun part member => short part (List.mem_cons_of_mem _ member)
      · intro part nonempty starts
        rw [← shift]
        exact directories _ (by simp) (List.cons_prefix_cons.mpr ⟨rfl, starts⟩)

end FileTree

/-- A digit is no zero byte, no slash and no dot. -/
theorem Hex.isDigit_ne {byte : UInt8} (hex : isDigit byte = true) :
    byte ≠ 0 ∧ byte ≠ Ascii.slash ∧ byte ≠ 46 := by
  refine ⟨?_, ?_, ?_⟩ <;> rintro rfl <;> exact absurd hex (by decide)

private theorem Hex.ordinary {text : Bytes} (nonempty : text ≠ [])
    (hex : ∀ byte ∈ text, isDigit byte = true) : Ordinary text := by
  obtain ⟨byte, rest, rfl⟩ := List.exists_cons_of_ne_nil nonempty
  have noDot := (isDigit_ne (hex byte List.mem_cons_self)).2.2
  constructor
  · intro same
    exact noDot (List.cons.inj same).1
  · intro same
    exact noDot (List.cons.inj same).1

private theorem Hex.names_eq {text : Bytes} (nonempty : text ≠ [])
    (hex : ∀ byte ∈ text, isDigit byte = true) : names text = [text] :=
  names_of_noSlash (fun member => (isDigit_ne (hex _ member)).2.1 rfl) nonempty

namespace Store

variable (store : Store)

/-- The names from the root of the store to the directory of an object. -/
def objectDirectory (oid : Bytes) : List Bytes :=
  [ascii "objects", oid.take 2, (oid.drop 2).take 2]

/-- The place of an object in a store whose root is at a place. -/
def objectPlace (above : Place) (oid : Bytes) : Place := above ++ (objectDirectory oid ++ [oid])

/-- The place of an object that is out of service. -/
def quarantinePlace (above : Place) (oid : Bytes) : Place := above ++ ([ascii "bad"] ++ [oid])

variable {oid : Bytes}

/-- The path of an object, taken apart at its slashes. -/
theorem pathOf_eq (oid : Bytes) :
    store.pathOf oid = store.root ++ Ascii.slash :: (ascii "objects" ++ Ascii.slash ::
      (oid.take 2 ++ Ascii.slash :: ((oid.drop 2).take 2 ++ Ascii.slash :: oid))) := by
  have start : ascii "/objects/" = Ascii.slash :: (ascii "objects" ++ [Ascii.slash]) := rfl
  rw [pathOf, start]
  simp

/-- The path of the quarantine, taken apart at its slash. -/
theorem quarantine_eq : store.quarantine = store.root ++ Ascii.slash :: ascii "bad" := rfl

private theorem getLast?_quarantine : store.quarantine.getLast? = some 100 := by
  rw [quarantine, List.getLast?_append]
  rfl

/-- The path of an object in the quarantine, taken apart at its slashes. -/
theorem quarantinePath_eq (oid : Bytes) :
    store.quarantinePath oid =
      store.root ++ Ascii.slash :: (ascii "bad" ++ Ascii.slash :: oid) := by
  have nonempty : store.quarantine.isEmpty = false := by simp [quarantine_eq]
  have noSlash : (some 100 : Option UInt8) ≠ some Ascii.slash := by decide
  rw [quarantinePath, PathName.join, nonempty, getLast?_quarantine, if_neg Bool.false_ne_true,
    if_neg noSlash, quarantine_eq]
  simp

/-- The names on the way to the quarantine. -/
theorem names_quarantine : names store.quarantine = names store.root ++ [ascii "bad"] := by
  rw [quarantine_eq, names_append]
  rfl

/-- The names on the way to an object are short digits. -/
theorem pieces_of_valid (valid : Digest.isText oid = true) :
    ∀ part ∈ [oid.take 2, (oid.drop 2).take 2, oid],
      part ≠ [] ∧ part.length ≤ maxNameLength ∧ ∀ byte ∈ part, Hex.isDigit byte = true := by
  obtain ⟨length, hex⟩ := Digest.isText_iff.mp valid
  have cut (part : Bytes) (inside : ∀ byte ∈ part, byte ∈ oid) (some : 0 < part.length)
      (short : part.length ≤ 64) :
      part ≠ [] ∧ part.length ≤ maxNameLength ∧ ∀ byte ∈ part, Hex.isDigit byte = true :=
    ⟨List.length_pos_iff.mp some, Nat.le_trans short (by decide),
      fun byte member => hex byte (inside byte member)⟩
  intro part member
  simp only [List.mem_cons, List.not_mem_nil, or_false] at member
  rcases member with rfl | rfl | rfl
  · have size : (oid.take 2).length = 2 := by
      rw [List.length_take, length]
      rfl
    exact cut _ (fun byte => List.mem_of_mem_take) (by omega) (by omega)
  · have size : ((oid.drop 2).take 2).length = 2 := by
      rw [List.length_take, List.length_drop, length]
      rfl
    exact cut _ (fun byte member => List.mem_of_mem_drop (List.mem_of_mem_take member)) (by omega)
      (by omega)
  · exact cut _ (fun byte => id) (by omega) (by omega)

/-- The names on the way to an object. -/
theorem names_pathOf (valid : Digest.isText oid = true) :
    names (store.pathOf oid) = names store.root ++ (objectDirectory oid ++ [oid]) := by
  have piece (part : Bytes) (member : part ∈ [oid.take 2, (oid.drop 2).take 2, oid]) :
      names part = [part] :=
    Hex.names_eq (pieces_of_valid valid part member).1 (pieces_of_valid valid part member).2.2
  have objects : names (ascii "objects") = [ascii "objects"] := rfl
  rw [pathOf_eq, names_append, names_append, names_append, names_append, objects,
    piece (oid.take 2) (by simp), piece ((oid.drop 2).take 2) (by simp), piece oid (by simp)]
  rfl

/-- The names on the way to an object in the quarantine. -/
theorem names_quarantinePath (valid : Digest.isText oid = true) :
    names (store.quarantinePath oid) = names store.root ++ ([ascii "bad"] ++ [oid]) := by
  obtain ⟨nonempty, -, hex⟩ := pieces_of_valid valid oid (by simp)
  have bad : names (ascii "bad") = [ascii "bad"] := rfl
  rw [quarantinePath_eq, names_append, names_append, bad, Hex.names_eq nonempty hex]

/-- The names on the way to an object are ordinary. -/
theorem ordinary_objectDirectory (valid : Digest.isText oid = true) :
    ∀ part ∈ objectDirectory oid ++ [oid], Ordinary part := by
  intro part member
  simp only [objectDirectory, List.cons_append, List.mem_cons] at member
  rcases member with rfl | member
  · exact ⟨by decide, by decide⟩
  · obtain ⟨nonempty, -, hex⟩ := pieces_of_valid valid part (by simpa using member)
    exact Hex.ordinary nonempty hex

/-- The names on the way to an object in the quarantine are ordinary. -/
theorem ordinary_bad (valid : Digest.isText oid = true) :
    ∀ part ∈ [ascii "bad"] ++ [oid], Ordinary part := by
  intro part member
  simp only [List.cons_append, List.nil_append, List.mem_cons] at member
  rcases member with rfl | member
  · exact ⟨by decide, by decide⟩
  · obtain rfl : part = oid := by simpa using member
    obtain ⟨nonempty, -, hex⟩ := pieces_of_valid valid part (by simp)
    exact Hex.ordinary nonempty hex

/-- The names on the way to an object are short enough. -/
theorem short_objectDirectory (valid : Digest.isText oid = true) :
    ∀ part ∈ objectDirectory oid, part.length ≤ maxNameLength := by
  intro part member
  simp only [objectDirectory, List.mem_cons] at member
  rcases member with rfl | member
  · decide
  · refine (pieces_of_valid valid part ?_).2.1
    rcases member with rfl | rfl | impossible
    · simp
    · simp
    · cases impossible

/-- The path of an object is not cut off. -/
theorem nul_notMem_pathOf (whole : 0 ∉ store.root) (valid : Digest.isText oid = true) :
    0 ∉ store.pathOf oid := by
  have hex (part : Bytes) (member : part ∈ [oid.take 2, (oid.drop 2).take 2, oid]) : 0 ∉ part :=
    fun nul => (Hex.isDigit_ne ((pieces_of_valid valid part member).2.2 0 nul)).1 rfl
  have slash : (0 : UInt8) ≠ Ascii.slash := by decide
  have objects : (0 : UInt8) ∉ ascii "objects" := by decide
  rw [pathOf_eq]
  simp only [List.mem_append, List.mem_cons, not_or]
  exact ⟨whole, slash, objects, slash, hex _ (by simp), slash, hex _ (by simp), slash,
    hex _ (by simp)⟩

/-- The path of the quarantine is not cut off. -/
theorem nul_notMem_quarantine (whole : 0 ∉ store.root) : 0 ∉ store.quarantine := by
  have bad : (0 : UInt8) ∉ ascii "/bad" := by decide
  rw [quarantine, List.mem_append, not_or]
  exact ⟨whole, bad⟩

/-- The path of an object in the quarantine is not cut off. -/
theorem nul_notMem_quarantinePath (whole : 0 ∉ store.root) (valid : Digest.isText oid = true) :
    0 ∉ store.quarantinePath oid := by
  have slash : (0 : UInt8) ≠ Ascii.slash := by decide
  have bad : (0 : UInt8) ∉ ascii "bad" := by decide
  rw [quarantinePath_eq]
  simp only [List.mem_append, List.mem_cons, not_or]
  refine ⟨whole, slash, bad, slash, fun nul => ?_⟩
  exact (Hex.isDigit_ne ((Digest.isText_iff.mp valid).2 0 nul)).1 rfl

/-- Every path below the root of the store starts at the same place. -/
theorem origin_append (workDir : Place) (root first second : Bytes) :
    origin workDir (root ++ Ascii.slash :: first) =
      origin workDir (root ++ Ascii.slash :: second) := by
  cases root <;> rfl

end Store

end StoreAudit

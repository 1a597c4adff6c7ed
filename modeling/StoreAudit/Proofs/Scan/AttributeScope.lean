import StoreAudit.Proofs.Attributes
import StoreAudit.Proofs.Scan.Trees

/-!
# How far attribute files reach

An attribute file speaks of the paths in its directory, and it says of each what the same file would
say at the top of what the path is called in there (`AttributeFile.isTracked_moved`). So a file
among others can be added or taken away without effect on the paths outside its directory
(`AttributeFile.isTracked_without`), also where a scan comes upon it in a tree
(`TreeScan.attribute_files_stay_below`).
-/

namespace StoreAudit

open Audit

namespace AttributeFile

open Attributes

variable {file : AttributeFile} {path : Bytes}

private theorem isTracked_singleton (file : AttributeFile) (path : Bytes) :
    (ofFiles [file]).isTracked path =
      if file.Holds path then (file.fileVerdict? path).getD false else false := by
  have distinct : ([file].map (·.directory)).Nodup := List.nodup_singleton _
  rw [isTracked_of_perm distinct (.refl _), verdict, holders]
  by_cases holds : file.Holds path
  · simp [holds]
  · simp [holds]

/-- A file says of the paths in its directory what it would say of them at the top. -/
theorem isTracked_moved {directory : Bytes} (nested : directory ≠ []) (contents relative : Bytes) :
    (ofFiles [⟨directory, contents⟩]).isTracked (directory ++ Ascii.slash :: relative) =
      (ofFiles [⟨[], contents⟩]).isTracked relative := by
  have below : Holds ⟨directory, contents⟩ (directory ++ Ascii.slash :: relative) :=
    .inr ⟨relative, by simp⟩
  have atTop : Holds ⟨[], contents⟩ relative := .inl rfl
  have same : fileVerdict? ⟨directory, contents⟩ (directory ++ Ascii.slash :: relative) =
      fileVerdict? ⟨[], contents⟩ relative := by
    simp [fileVerdict?, AttributeFile.relative, nested]
  rw [isTracked_singleton, isTracked_singleton, if_pos below, if_pos atTop, same]

private theorem isTracked_outside (outside : ¬ file.Holds path) :
    (ofFiles [file]).isTracked path = false := by
  rw [isTracked_singleton, if_neg outside]

/-- The rules of a file do not apply to paths outside its directory, and the others stand as they
stood. -/
theorem isTracked_without {before after : List AttributeFile} (outside : ¬ file.Holds path) :
    (ofFiles (before ++ file :: after)).isTracked path =
      (ofFiles (before ++ after)).isTracked path := by
  have fewer : (before ++ after).Sublist (before ++ file :: after) :=
    (List.Sublist.refl before).append (List.sublist_cons_self file after)
  have known : ∀ rule ∈ (ofFiles (before ++ after)).rules,
      ∃ other ∈ before ++ file :: after, rule.directory = other.directory := by
    intro rule member
    obtain ⟨other, listed, same⟩ := exists_directory_of_mem_rules member
    exact ⟨other, fewer.subset listed, same⟩
  have same : ∀ other ∈ before ++ file :: after, other.Holds path →
      fromDirectory (ofFiles (before ++ file :: after)).rules other.directory =
        fromDirectory (ofFiles (before ++ after)).rules other.directory := by
    intro other _ holds
    have apart : file.directory ≠ other.directory := by
      intro shared
      apply outside
      rwa [Holds, shared]
    rw [fromDirectory_ofFiles, fromDirectory_ofFiles, List.filter_append, List.filter_append,
      List.filter_cons_of_neg (by simpa using apart)]
  rw [isTracked_eq, isTracked_eq, filter_appliesTo_eq (ordered_ofFiles _) (ordered_ofFiles _)
    (fun _ => exists_directory_of_mem_rules) known same]

end AttributeFile

/-- An attribute file that trees show. -/
def ObjectBase.attributeFile (base : ObjectBase) (entry : TreeEntry) : AttributeFile :=
  ⟨PathName.directory entry.path, base.content entry.oid⟩

private theorem ObjectBase.attributes_eq_ofFiles (base : ObjectBase) (entries : List TreeEntry) :
    base.attributes entries =
      Attributes.ofFiles ((entries.filter TreeEntry.isAttributeFile).map base.attributeFile) := by
  rw [attributes, Attributes.ofFiles, List.foldl_map]
  rfl

/-- The directory of an attribute file holds only paths that begin as the path of the file does
before its name. -/
theorem TreeEntry.prefix_of_holds {base : ObjectBase} {entry : TreeEntry} {folder path : Bytes}
    (isFile : entry.isAttributeFile = true) (parts : entry.path = folder ++ ascii ".gitattributes")
    (holds : (base.attributeFile entry).Holds path) : folder <+: path := by
  have before : entry.path.reverse.dropWhile (· != Ascii.slash) = folder.reverse := by
    obtain ⟨-, named⟩ := Bool.and_eq_true _ _ ▸ isFile
    have named : PathName.base entry.path = ascii ".gitattributes" := of_decide_eq_true named
    have whole : entry.path.reverse.takeWhile (· != Ascii.slash) ++
        entry.path.reverse.dropWhile (· != Ascii.slash) = entry.path.reverse :=
      List.takeWhile_append_dropWhile
    rw [PathName.base, List.reverse_eq_iff] at named
    rw [named, parts, List.reverse_append] at whole
    rw [parts, List.reverse_append]
    exact List.append_cancel_left whole
  have slashed := List.head?_dropWhile_not (· != Ascii.slash) entry.path.reverse
  rw [before] at slashed
  rw [AttributeFile.Holds, ObjectBase.attributeFile, PathName.directory, before] at holds
  rw [← List.reverse_reverse folder]
  cases shape : folder.reverse with
  | nil => exact List.nil_prefix
  | cons byte above =>
      rw [shape] at slashed holds
      obtain rfl : byte = Ascii.slash := by simpa using slashed
      cases above with
      | nil =>
          have below := holds.resolve_left (List.cons_ne_nil _ _)
          exact (List.prefix_append _ _).trans below
      | cons next more =>
          have below := holds.resolve_left (by simp)
          simpa using below

namespace TreeScan

variable {folder path : Bytes} {before after : List TreeEntry} {entry : TreeEntry}

private theorem isTracked_attributes_without (base : ObjectBase)
    (parts : entry.path = folder ++ ascii ".gitattributes") (outside : ¬ folder <+: path) :
    (base.attributes (before ++ entry :: after)).isTracked path =
      (base.attributes (before ++ after)).isTracked path := by
  rw [base.attributes_eq_ofFiles, base.attributes_eq_ofFiles, List.filter_append,
    List.filter_append]
  by_cases isFile : entry.isAttributeFile = true
  · rw [List.filter_cons_of_pos isFile, List.map_append, List.map_append, List.map_cons]
    apply AttributeFile.isTracked_without
    exact fun holds => outside (TreeEntry.prefix_of_holds isFile parts holds)
  · rw [List.filter_cons_of_neg isFile]

/-- **Attribute files speak of what lies below them.** A file that lies in a directory says of the
paths in there what the same file would say at the top of what they are called in there, and nothing
of other paths. So where an attribute file is added to the entries of a tree, or taken away, a scan
reads attributes that agree on all paths outside the directory of the file. -/
theorem attribute_files_stay_below :
    (∀ directory contents relative, directory ≠ [] →
        (Attributes.ofFiles [⟨directory, contents⟩]).isTracked
            (directory ++ Ascii.slash :: relative) =
          (Attributes.ofFiles [⟨[], contents⟩]).isTracked relative) ∧
      (∀ directory contents path, directory ≠ [] → ¬ directory ++ [Ascii.slash] <+: path →
        (Attributes.ofFiles [⟨directory, contents⟩]).isTracked path = false) ∧
      ∀ (repository : Repository) (base : ObjectBase) (scan : TreeScan) (before after)
        (entry : TreeEntry) (folder : Bytes), scan.contents.InStep repository .contents →
        repository.HasAttributeFiles base (before ++ entry :: after) →
        entry.path = folder ++ ascii ".gitattributes" →
        ∃ withFile without : Attributes,
          Succeeds (scan.readAttributes (before ++ entry :: after)) (·.1 = withFile) ∧
          Succeeds (scan.readAttributes (before ++ after)) (·.1 = without) ∧
          ∀ path, ¬ folder <+: path → withFile.isTracked path = without.isTracked path := by
  refine ⟨fun _ contents relative nested => ?_, fun _ _ _ nested outside => ?_, ?_⟩
  · exact AttributeFile.isTracked_moved nested contents relative
  · apply AttributeFile.isTracked_outside
    rintro (atTop | below)
    · exact nested atTop
    · exact outside below
  · intro repository base scan before after entry folder inStep known parts
    have fewer : repository.HasAttributeFiles base (before ++ after) := by
      intro other member
      apply known other
      exact ((List.Sublist.refl before).append (List.sublist_cons_self entry after)).subset member
    refine ⟨_, _, (succeeds_readAttributes inStep known).mono fun _ => And.left,
      (succeeds_readAttributes inStep fewer).mono fun _ => And.left, fun path outside => ?_⟩
    exact isTracked_attributes_without base parts outside

/-- A directory whose name begins like that of another. -/
theorem attribute_files_stay_below_of_sibling :
    let file : AttributeFile := ⟨ascii "sub", ascii "*.bin filter=lfs"⟩
    let entry : TreeEntry :=
      ⟨ascii "100644", ascii "blob", ascii "f1", 16, ascii "sub/.gitattributes"⟩
    (Attributes.ofFiles [file]).isTracked (ascii "sub/a.bin") =
        (Attributes.ofFiles [⟨[], file.contents⟩]).isTracked (ascii "a.bin") ∧
      (Attributes.ofFiles [file]).isTracked (ascii "sub2/a.bin") = false ∧
      trackedFirst.HasAttributeFiles sampleBase ([] ++ entry :: []) ∧
      ∃ scan started, TreeScan.start trackedFirst [] (ascii "tip") {} {} = (.ok scan, started) ∧
        scan.contents.InStep trackedFirst .contents ∧
        ∃ withFile without : Attributes,
          Succeeds (scan.readAttributes ([] ++ entry :: [])) (·.1 = withFile) ∧
          Succeeds (scan.readAttributes ([] ++ [])) (·.1 = without) ∧
          withFile.isTracked (ascii "sub2/a.bin") = without.isTracked (ascii "sub2/a.bin") := by
  intro file entry
  obtain ⟨moved, outside, read⟩ := attribute_files_stay_below
  have nested : ascii "sub" ≠ [] := by decide
  obtain ⟨scan, started, begun, -, ready, -⟩ :=
    succeeds_start trackedFirst [] (ascii "tip") {} {} ⟨rfl, nofun⟩
  have inStep : scan.contents.InStep trackedFirst .contents := ready.contents
  have known : trackedFirst.HasAttributeFiles sampleBase ([] ++ entry :: []) := by
    intro other member _
    obtain rfl := List.mem_singleton.mp member
    exact ⟨.file (ascii "f1") (ascii "*.bin filter=lfs"), rfl,
      ObjectBase.lookup_ofList rfl _ .contents _⟩
  obtain ⟨withFile, without, readWith, readWithout, agree⟩ :=
    read trackedFirst sampleBase scan [] [] entry (ascii "sub/") inStep known rfl
  refine ⟨moved (ascii "sub") _ (ascii "a.bin") nested,
    outside (ascii "sub") _ _ nested (by decide), known, scan, started, begun, inStep, withFile,
    without, readWith, readWithout, agree _ (by decide)⟩

end TreeScan

end StoreAudit

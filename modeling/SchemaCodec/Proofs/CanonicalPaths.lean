import Mathlib.Data.List.Infix
import SchemaCodec.Files.Tree

/-!
# Canonical paths of a tree

Whoever walks through a tree comes to places that are there: directories that hold a file or the
working directory, and files. These are finitely many. Names that are read from a path have no
separator and are neither empty nor a direction, so where the names of the working directory are
such, a canonical path leads to the place that it was made for and nowhere else.
-/

namespace SchemaCodec.FileTree

variable {tree : FileTree}

section Places

/-- The places in a tree: the working directory, the files, and all directories above them. -/
def places (tree : FileTree) : List (List String) :=
  (tree.workingDirectory :: tree.files.map (·.1)).flatMap List.inits

/-- A place is in front of the working directory or of a file, or it is that. -/
theorem mem_places {place : List String} :
    place ∈ tree.places ↔
      place <+: tree.workingDirectory ∨ ∃ file ∈ tree.files, place <+: file.1 := by
  simp [places]

/-- A file is at a place. -/
theorem mem_places_of_file {place : List String} (isFile : (tree.file? place).isSome) :
    place ∈ tree.places := by
  obtain ⟨bytes, found⟩ := Option.isSome_iff_exists.mp isFile
  obtain ⟨file, search, -⟩ := Option.map_eq_some_iff.mp found
  have same : file.1 = place := by simpa using List.find?_some search
  exact mem_places.mpr (.inr ⟨file, List.mem_of_find?_eq_some search, same ▸ List.prefix_rfl⟩)

/-- A directory is at a place. -/
theorem mem_places_of_directory {place : List String} (isDirectory : tree.hasDirectory place) :
    place ∈ tree.places := by
  rcases Bool.or_eq_true_iff.mp isDirectory with above | holds
  · exact mem_places.mpr (.inl (List.isPrefixOf_iff_prefix.mp above))
  · obtain ⟨file, member, above⟩ := List.any_eq_true.mp holds
    refine mem_places.mpr (.inr ⟨file, member, List.isPrefixOf_iff_prefix.mp ?_⟩)
    exact (Bool.and_eq_true_iff.mp above).1

/-- A walk keeps to what holds of the place from which it starts, if directions keep to it and each
place that is there keeps to it with a name behind it. -/
theorem walk_induction (holds : List String → Prop) {components : List String}
    (back : ∀ place, holds place → holds place.dropLast)
    (onwards : ∀ place, holds place → ∀ component ∈ components, component ≠ "." →
      component ≠ ".." → place ++ [component] ∈ tree.places → holds (place ++ [component]))
    {place target : List String} (start : holds place)
    (walked : tree.walk place components = .ok target) : holds target := by
  induction components generalizing place with
  | nil => exact Except.ok.inj walked ▸ start
  | cons component rest inductionHypothesis =>
    have later {place : List String} (start : holds place)
        (walked : tree.walk place rest = .ok target) : holds target :=
      inductionHypothesis (fun place isHeld other member =>
        onwards place isHeld other (List.mem_cons_of_mem _ member)) start walked
    unfold walk at walked
    split at walked
    · cases walked
    split at walked
    · exact later start walked
    · next notHere =>
      split at walked
      · exact later (back place start) walked
      · next notAbove =>
        split at walked
        · cases walked
        simp only at walked
        split at walked
        · next isThere =>
          refine later (onwards place start component List.mem_cons_self notHere notAbove ?_) walked
          rcases Bool.or_eq_true_iff.mp isThere with isDirectory | isFile
          · exact mem_places_of_directory isDirectory
          · exact mem_places_of_file isFile
        · cases walked

/-- A path without zero characters leads where its components lead, from the root or from the
working directory. -/
theorem locate_eq_ok {path : String} {place : List String} :
    tree.locate path = .ok place ↔ path ≠ "" ∧ '\x00' ∉ path.toList ∧
      tree.walk (if path.toList.head? = some '/' then [] else tree.workingDirectory)
        (splitPath path) = .ok place := by
  unfold locate
  split
  · next empty => simp [String.isEmpty_iff.mp empty]
  · next nonempty =>
    split
    · next zero => simp_all
    · next nonzero => simp_all

/-- Every canonical path is the text of a place. -/
theorem locate_mem_places {path : String} {place : List String}
    (located : tree.locate path = .ok place) : place ∈ tree.places := by
  obtain ⟨-, -, walked⟩ := locate_eq_ok.mp located
  refine walk_induction (· ∈ tree.places) (fun place member => ?_) (fun _ _ _ _ _ _ there => there)
    ?_ walked
  · rcases mem_places.mp member with above | ⟨file, isFile, above⟩
    · exact mem_places.mpr (.inl ((List.dropLast_prefix place).trans above))
    · exact mem_places.mpr (.inr ⟨file, isFile, (List.dropLast_prefix place).trans above⟩)
  · split
    · exact mem_places.mpr (.inl List.nil_prefix)
    · exact mem_places.mpr (.inl List.prefix_rfl)

end Places

section Names

/-- A name in a directory: no direction, and without separators and zero characters. -/
structure IsName (component : String) : Prop where
  nonempty : component ≠ ""
  notHere : component ≠ "."
  notAbove : component ≠ ".."
  separate : '/' ∉ component.toList
  nonzero : '\x00' ∉ component.toList

/-- The parts between separators have no separator and only characters of the whole.

Proof: by induction on the characters. A separator ends a part that is empty so far, and any other
character is put in front of the first part that is found behind it. -/
theorem of_mem_splitOnP {p : Char → Bool} {chars part : List Char}
    (member : part ∈ chars.splitOnP p) : ∀ char ∈ part, char ∈ chars ∧ p char = false := by
  induction chars generalizing part with
  | nil =>
    obtain rfl : part = [] := by simpa using member
    exact fun char => nofun
  | cons first rest inductionHypothesis =>
    have behind {part : List Char} (isPart : part ∈ rest.splitOnP p) :
        ∀ char ∈ part, char ∈ first :: rest ∧ p char = false := fun char isChar =>
      (inductionHypothesis isPart char isChar).imp_left (List.mem_cons_of_mem _)
    rw [List.splitOnP_cons_eq_if_modifyHead] at member
    by_cases separator : p first = true
    · rw [if_pos separator] at member
      rcases List.mem_cons.mp member with rfl | isPart
      · exact fun char => nofun
      · exact behind isPart
    · rw [if_neg separator] at member
      cases parts : rest.splitOnP p with
      | nil => simp [parts] at member
      | cons front others =>
        rw [parts, List.modifyHead_cons] at member
        rcases List.mem_cons.mp member with rfl | isPart
        · refine List.forall_mem_cons.mpr ⟨⟨List.mem_cons_self, by simpa using separator⟩, ?_⟩
          exact behind (parts ▸ List.mem_cons_self)
        · exact behind (parts ▸ List.mem_cons_of_mem _ isPart)

/-- What a path is split into are names and directions. -/
theorem isName_of_mem_splitPath {path component : String} (nonzero : '\x00' ∉ path.toList)
    (member : component ∈ splitPath path) (notHere : component ≠ ".")
    (notAbove : component ≠ "..") : IsName component := by
  obtain ⟨part, isPart, same⟩ := List.mem_map.mp member
  split at same
  · exact absurd same.symm notHere
  · next nonempty =>
    subst same
    have chars := of_mem_splitOnP isPart
    refine ⟨fun absurd => nonempty ?_, notHere, notAbove, fun separator => ?_, fun zero => ?_⟩
    · simpa using absurd
    · simpa using chars '/' (by simpa using separator)
    · exact nonzero (chars '\x00' (by simpa using zero)).1

/-- The working directory has names as paths spell them. -/
def HasPlainDirectory (tree : FileTree) : Prop := ∀ component ∈ tree.workingDirectory,
  IsName component

/-- The places that paths lead to have names as paths spell them, where the working directory
has. -/
theorem isName_of_locate (plain : tree.HasPlainDirectory) {path : String} {place : List String}
    (located : tree.locate path = .ok place) : ∀ component ∈ place, IsName component := by
  obtain ⟨-, nonzero, walked⟩ := locate_eq_ok.mp located
  refine walk_induction (fun place => ∀ component ∈ place, IsName component) ?_ ?_ ?_ walked
  · exact fun place names component member => names component (List.dropLast_subset _ member)
  · intro place names component member notHere notAbove _ other isOther
    rcases List.mem_append.mp isOther with before | isLast
    · exact names other before
    · obtain rfl := List.mem_singleton.mp isLast
      exact isName_of_mem_splitPath nonzero member notHere notAbove
  · split
    · exact fun component => nofun
    · exact plain

/-- A walk along names comes to the place that they name.

Proof: by induction on the names. A name is neither of the two directions, so each step puts it
behind the place, or the walk fails. -/
theorem walk_names {place components target : List String}
    (names : ∀ component ∈ components, IsName component)
    (walked : tree.walk place components = .ok target) : target = place ++ components := by
  induction components generalizing place with
  | nil => simpa [walk] using walked.symm
  | cons component rest inductionHypothesis =>
    obtain ⟨isName, others⟩ := List.forall_mem_cons.mp names
    unfold walk at walked
    rw [if_neg isName.notHere, if_neg isName.notAbove] at walked
    split at walked
    · cases walked
    split at walked
    · cases walked
    simp only at walked
    split at walked
    · rw [inductionHypothesis others walked, List.append_assoc, List.singleton_append]
    · cases walked

/-- A path that is made of names is split into them. -/
theorem splitPath_pathText {components : List String} (nonempty : components ≠ [])
    (names : ∀ component ∈ components, IsName component) :
    splitPath (pathText components) = "." :: components := by
  have parts : (['/'].intercalate (components.map String.toList)).splitOnP (· = '/') =
      components.map String.toList := by
    refine List.splitOn_intercalate '/' ?_ (by simpa using nonempty)
    simpa using fun component member => (names component member).separate
  have chars : (pathText components).toList =
      '/' :: ['/'].intercalate (components.map String.toList) := by
    simp [pathText, String.toList_intercalate]
  unfold splitPath
  rw [chars, List.splitOnP_cons_eq_if_modifyHead, if_pos (by decide), parts, List.map_cons,
    List.map_map]
  refine congrArg _ (List.map_congr_left fun component member => ?_) |>.trans
    (congrArg _ (List.map_id components))
  simp [(names component member).nonempty]

/-- A canonical path leads to the place that it was made for, where the working directory has names
as paths spell them. -/
theorem locate_pathText {components target : List String}
    (names : ∀ component ∈ components, IsName component)
    (located : tree.locate (pathText components) = .ok target) : target = components := by
  have chars : (pathText components).toList.head? = some '/' := by simp [pathText]
  have walked : tree.walk [] (splitPath (pathText components)) = .ok target := by
    simpa only [chars, if_true] using (locate_eq_ok.mp located).2.2
  by_cases nonempty : components = []
  · subst nonempty
    have split : splitPath (pathText []) = [".", "."] := by decide
    rw [split] at walked
    simpa [walk, hasDirectory] using walked.symm
  · rw [splitPath_pathText nonempty names] at walked
    have isRoot : tree.hasDirectory [] = true := by simp [hasDirectory]
    rw [walk, isRoot] at walked
    simpa using walk_names names walked

end Names

section Files

variable {spelling path : FilePath}

/-- A canonical path is that of a place that was located. -/
theorem exists_located (isCanonical : tree.fileSystem.canonical spelling = Except.ok path) :
    ∃ text place, tree.locate text = .ok place ∧ .ofText (pathText place) = path := by
  simp only [fileSystem] at isCanonical
  cases spelled : spelling.text? with
  | none => simp [spelled] at isCanonical
  | some text =>
    simp only [spelled] at isCanonical
    cases found : tree.locate text with
    | error cause => simp [found, Except.map] at isCanonical
    | ok place =>
      simp only [found, Except.map] at isCanonical
      exact ⟨text, place, found, Except.ok.inj isCanonical⟩

/-- Every canonical path is the path of one of the places. -/
theorem mem_map_places (isCanonical : tree.fileSystem.canonical spelling = Except.ok path) :
    path ∈ tree.places.map fun place => .ofText (pathText place) := by
  obtain ⟨text, place, located, same⟩ := exists_located isCanonical
  exact List.mem_map.mpr ⟨place, locate_mem_places located, same⟩

/-- A canonical path with a file to read is the path of one of the files.

Proof: a canonical path spells the place that was located, so reading it locates the same place
again. There the file is found whose bytes are read. -/
theorem mem_map_files (plain : tree.HasPlainDirectory)
    (isCanonical : tree.fileSystem.canonical spelling = Except.ok path) {bytes : Bytes}
    (isRead : tree.fileSystem.read path = Except.ok bytes) :
    path ∈ tree.files.map fun file => .ofText (pathText file.1) := by
  obtain ⟨text, place, located, rfl⟩ := exists_located isCanonical
  have spelled : (FilePath.ofText (pathText place)).text? = some (pathText place) :=
    FilePath.text?_eq_some.mpr rfl
  have read : tree.read (pathText place) = .ok bytes := by
    simp only [fileSystem, spelled] at isRead
    exact isRead
  unfold FileTree.read at read
  split at read
  · cases read
  split at read
  · cases read
  split at read
  · cases read
  next target again =>
  obtain rfl := locate_pathText (isName_of_locate plain located) again
  split at read
  · next found =>
    obtain ⟨file, search, -⟩ := Option.map_eq_some_iff.mp found
    have same : file.1 = target := by simpa using List.find?_some search
    exact List.mem_map.mpr ⟨file, List.mem_of_find?_eq_some search, by rw [same]⟩
  · cases read

end Files

end SchemaCodec.FileTree

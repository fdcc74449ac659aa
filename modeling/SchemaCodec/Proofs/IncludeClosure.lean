import Mathlib.Data.List.Perm.Subperm
import SchemaCodec.Proofs.CanonicalPaths
import SchemaCodec.Proofs.LinkFaults
import SchemaCodec.Proofs.LinkOrder
import SchemaCodec.Proofs.LoadedDocuments

/-!
# The closure under includes

The documents that are loaded are those to which includes lead from the roots, each of them once and
in the order in which they are first met level by level. So no document includes one that is not
there, and linking them never complains about an include. Loading ends by itself wherever there are
finitely many files to read: it reads each of them at most once, however its path is spelled and
whatever includes what.

Which file a document comes from is told by its canonical path. The document itself shows the text
of that path, and this tells the files apart where their paths are texts.
-/

namespace SchemaCodec

namespace FileSystem

open BreadthFirst

variable {files : FileSystem Id} {roots paths : List FilePath} {documents : List Document}

/-- The documents at some canonical paths are those to which includes lead from the roots. Being in
the closure is said by a relation between paths, their order by levels, and their contents file by
file; nothing here speaks of the queue of the loader. -/
structure IncludeClosure (files : FileSystem Id) (roots paths : List FilePath)
    (documents : List Document) : Prop where
  /-- Includes lead from a root to each of the paths and to no other one. -/
  complete : ∀ path, path ∈ paths ↔ ∃ root ∈ files.rootPaths roots,
    Relation.ReflTransGen (fun first second => second ∈ files.includedPaths first) root path
  once : paths.Nodup
  /-- The roots come first, then level by level what they include, without what came before. -/
  ordered : ∀ depth, paths.length ≤ depth →
    paths = (levelsTo files.includedPaths depth (files.rootPaths roots)).eraseDups
  /-- There is one document for each path, in order: the one that the file at the path spells. -/
  loads : List.Forall₂ files.Loads paths documents
  shown : documents.map (·.path) = paths.map (·.text)
  /-- Paths that are texts are told apart by what the documents show. -/
  apart : (∀ path ∈ paths, path.text?.isSome) → (documents.map (·.path)).Nodup
  closed : ∀ document ∈ documents, ∀ found ∈ document.includes,
    found.path ∈ documents.map (·.path)

section Closure

/-- Where documents are loaded at all, every root has a canonical path. -/
theorem rootPaths_of_canonicalAll {failure : String → FileError → LoadError}
    {queue : List FilePath} (ran : files.canonicalAll failure roots = Except.ok queue) :
    queue = files.rootPaths roots := by
  induction roots generalizing queue with
  | nil => exact (Except.ok.inj ran).symm
  | cons root rest inductionHypothesis =>
    simp only [canonicalAll, Id, bind, pure] at ran
    split at ran
    · cases ran
    · next target isTarget =>
      split at ran
      · cases ran
      · next targets others =>
        obtain rfl := Except.ok.inj ran
        rw [inductionHypothesis others, rootPaths, rootPaths,
          List.filterMap_cons_some (canonical?_eq_some.mpr isTarget)]

/-- What is loaded from the roots. -/
theorem loadWithin_of_load {limit : Nat} (ran : files.load limit roots = Except.ok documents) :
    files.loadWithin limit limit (files.rootPaths roots) [] = Except.ok documents := by
  simp only [load, Id, bind, pure] at ran
  split at ran
  · cases ran
  · next queue started => exact rootPaths_of_canonicalAll started ▸ ran

section WorkedOff

variable {queue : List FilePath} (works : files.WorksOff queue [] paths documents)

include works

/-- What waited at the start is loaded. -/
theorem WorksOff.started : ∀ path ∈ queue, path ∈ paths :=
  fun path waits => (works.queued path waits).resolve_left List.not_mem_nil

/-- What a loaded document includes is loaded. -/
theorem WorksOff.spreads {path : FilePath} (isLoaded : path ∈ paths) :
    ∀ target ∈ files.includedPaths path, target ∈ paths :=
  fun target isNext => (works.onwards path isLoaded target isNext).resolve_left List.not_mem_nil

/-- No path is loaded twice. -/
theorem WorksOff.nodup : paths.Nodup := by
  have distinct := seenOnce_start.mp works.new
  rwa [List.map_id] at distinct

/-- Each document shows the path that it was loaded from. -/
theorem WorksOff.map_path : documents.map (·.path) = paths.map (·.text) := by
  have shown : List.Forall₂ (fun document path => document.path = FilePath.text path) documents
      paths := works.loads.flip.imp fun _ _ => Loads.path_eq
  exact List.forall₂_eq_eq_eq ▸ List.forall₂_map_left_iff.mpr (List.forall₂_map_right_iff.mpr shown)

end WorkedOff

/-- Paths are loaded in the order in which they are first met level by level. The search for them is
told to stop at paths that are not loaded, which no level has.

Proof: what is loaded is what a search in breadth-first order lists, and such a search lists the
fresh nodes of the levels. All nodes of the levels are loaded, so being fresh is being met for the
first time. -/
theorem Loading.eq_eraseDups {depth : Nat} {queue : List FilePath}
    (loading : files.Loading queue [] paths documents) (enough : paths.length ≤ depth) :
    paths = (levelsTo files.includedPaths depth queue).eraseDups := by
  have works := loading.worksOff
  have distinct := works.nodup
  let next (path : FilePath) : List FilePath :=
    if path ∈ paths then files.includedPaths path else []
  have agree {path : FilePath} (isLoaded : path ∈ paths) : files.includedPaths path = next path :=
    (if_pos isLoaded).symm
  have stops : ∀ path, path ∉ paths → ∀ other ∈ next path, other ∈ paths → other ∈ queue := by
    intro path absent other isNext
    have nothing : next path = [] := if_neg absent
    rw [nothing] at isNext
    cases isNext
  have same : levelsTo next depth queue = levelsTo files.includedPaths depth queue :=
    (List.flatMap_congr fun distance _ =>
      levelAt_congr (· ∈ paths) works.spreads (fun _ => agree) works.started).symm
  have kept : ∀ path ∈ levelsTo files.includedPaths depth queue, path ∈ paths := by
    intro path member
    obtain ⟨distance, -, isThere⟩ := mem_levelsTo.mp member
    exact forall_mem_levelAt (· ∈ paths) works.spreads works.started path isThere
  have search := loading.reachWithin_eq fun path member => (agree member).symm
  have listed := reachWithin_eq_freshOf distinct rfl stops enough
  rw [search, freshOf_eq_eraseDups distinct, same,
    List.filter_eq_self.mpr fun path member => decide_eq_true (kept path member)] at listed
  exact listed

/-- The loaded documents are the closure of the roots under includes.

Proof: a run of the loader works its queue off, so what it loads contains the roots and whatever its
documents include. All of it is met on some level, so includes lead there from a root. -/
theorem exists_includeClosure_of_load {limit : Nat}
    (ran : files.load limit roots = Except.ok documents) :
    ∃ paths, files.IncludeClosure roots paths documents := by
  obtain ⟨paths, loading⟩ := exists_loading_of_loadWithin (loadWithin_of_load ran)
  have works := loading.worksOff
  refine ⟨paths, fun path => ⟨fun isLoaded => ?_, ?_⟩, works.nodup,
    fun depth enough => loading.eq_eraseDups enough, works.loads, works.map_path,
    fun spelled => ?_, ?_⟩
  · rw [loading.eq_eraseDups le_rfl, List.mem_eraseDups] at isLoaded
    obtain ⟨distance, -, isThere⟩ := mem_levelsTo.mp isLoaded
    refine forall_mem_levelAt (fun path => ∃ root ∈ files.rootPaths roots,
      Relation.ReflTransGen (fun first second => second ∈ files.includedPaths first) root path)
      ?_ (fun root isRoot => ⟨root, isRoot, .refl⟩) path isThere
    rintro path ⟨root, isRoot, leads⟩ target isNext
    exact ⟨root, isRoot, leads.tail isNext⟩
  · rintro ⟨root, isRoot, leads⟩
    induction leads with
    | refl => exact works.started root isRoot
    | tail _ isNext inductionHypothesis => exact works.spreads inductionHypothesis _ isNext
  · rw [works.map_path]
    refine List.Nodup.map_on (fun first isFirst second isSecond same => ?_) works.nodup
    exact FilePath.eq_of_text_eq (spelled first isFirst) (spelled second isSecond) same
  · intro document member found isFound
    obtain ⟨path, isLoaded, loads⟩ := Pairing.exists_of_mem_right works.loads member
    obtain ⟨target, isNext, shown⟩ := loads.exists_target isFound
    rw [works.map_path, shown]
    exact List.mem_map_of_mem (works.spreads isLoaded target isNext)

end Closure

section Ends

variable {limit other bound : Nat} {queue loaded : List FilePath}

/-- No document is refused for the number of documents.

Proof: a document is refused for what is read, for its syntax or for an include that is not
canonical, which is seen by going through the steps in which it is loaded; the includes are by
induction on their list. -/
theorem document_ne_tooMany {path : FilePath} {most : Nat} :
    files.document path ≠ Except.error (.tooMany most) := by
  have made (written : List Include) :
      files.canonicalIncludes path written ≠ Except.error (.tooMany most) := by
    induction written with
    | nil => exact nofun
    | cons found rest inductionHypothesis =>
      intro failed
      simp only [canonicalIncludes, Id, bind, pure] at failed
      split at failed
      · cases failed
      · split at failed
        · next error others =>
          exact inductionHypothesis (others.trans (congrArg _ (Except.error.inj failed)))
        · cases failed
  intro failed
  simp only [FileSystem.document, Id, bind, pure] at failed
  split at failed
  · cases failed
  · split at failed
    · cases failed
    · split at failed
      · cases failed
      · split at failed
        · next error others => exact made _ (others.trans (congrArg _ (Except.error.inj failed)))
        · cases failed

/-- No root is refused for the number of documents. -/
theorem canonicalAll_ne_tooMany {most : Nat} :
    files.canonicalAll .root roots ≠ Except.error (.tooMany most) := by
  induction roots with
  | nil => exact nofun
  | cons root rest inductionHypothesis =>
    intro failed
    simp only [canonicalAll, Id, bind, pure] at failed
    split at failed
    · cases failed
    · split at failed
      · next error others =>
        exact inductionHypothesis (others.trans (congrArg _ (Except.error.inj failed)))
      · cases failed

/-- All canonical paths at which there is a file to read are among some. -/
def ReadsOnly (files : FileSystem Id) (paths : List FilePath) : Prop :=
  ∀ spelling path bytes, files.canonical spelling = Except.ok path →
    files.read path = Except.ok bytes → path ∈ paths

/-- Loading ends by itself where fewer files can be read than the bound has documents left: it says
the same with any larger bound, and never that documents are too many. The induction is on the
bound: each document that is loaded is one of those files, and none of them is loaded twice. -/
theorem loadWithin_add
    (finite : files.ReadsOnly paths)
    (more : Nat) (distinct : loaded.Nodup) (known : loaded ⊆ paths)
    (canonical : ∀ path ∈ queue, ∃ spelling, files.canonical spelling = Except.ok path)
    (enough : paths.length < bound + loaded.length) :
    files.loadWithin other (bound + more) queue loaded =
        files.loadWithin limit bound queue loaded ∧
      ∀ most, files.loadWithin limit bound queue loaded ≠ Except.error (.tooMany most) := by
  induction bound generalizing queue loaded with
  | zero =>
    have short := (List.subperm_of_subset distinct known).length_le
    omega
  | succ bound inductionHypothesis =>
    rw [Nat.add_right_comm]
    unfold loadWithin
    cases left : queue.dropWhile (· ∈ loaded) with
    | nil => exact ⟨rfl, fun most failed => by cases failed⟩
    | cons path rest =>
      simp only [Id, bind, pure]
      cases read : files.document path with
      | error error => exact ⟨rfl, fun most failed =>
          document_ne_tooMany (read.trans (congrArg _ (Except.error.inj failed)))⟩
      | ok found =>
        obtain ⟨document, targets⟩ := found
        obtain ⟨front, rfl, -, new⟩ := exists_front_of_dropWhile left
        obtain ⟨loads, rfl⟩ := loads_of_document read
        obtain ⟨bytes, isRead⟩ := loads.exists_read
        obtain ⟨spelling, isCanonical⟩ := canonical path (by simp)
        have isPath : path ∈ paths := finite spelling path bytes isCanonical isRead
        have waiting : ∀ target ∈ rest ++ files.includedPaths path,
            ∃ spelling, files.canonical spelling = Except.ok target := by
          intro target waits
          rcases List.mem_append.mp waits with isRest | isNext
          · exact canonical target (by simp [isRest])
          · exact exists_canonical_of_mem_includedPaths isNext
        obtain ⟨same, fits⟩ := inductionHypothesis
          (List.nodup_cons.mpr ⟨new, distinct⟩) (List.cons_subset.mpr ⟨isPath, known⟩) waiting
          (by rw [List.length_cons]; omega)
        simp only [same]
        refine ⟨trivial, fun most failed => ?_⟩
        split at failed
        · next error others => exact fits most (others.trans (congrArg _ (Except.error.inj failed)))
        · cases failed

/-- Loading ends by itself: with any larger bound it says the same, and never that documents are too
many. -/
def EndsWithin (files : FileSystem Id) (enough : Nat) : Prop :=
  ∀ roots limit, enough ≤ limit → files.load limit roots = files.load enough roots ∧
    ∀ most, files.load limit roots ≠ Except.error (.tooMany most)

/-- Loading ends by itself with a bound above the number of files that can be read.

Proof: a document that is loaded has a canonical path that is read, and none is loaded twice, so the
bound is not used up. More of it changes nothing, and a failure is never that of the bound. -/
theorem endsWithin_of_length_lt
    (finite : files.ReadsOnly paths)
    {enough : Nat} (fewer : paths.length < enough) : files.EndsWithin enough := by
  intro roots limit large
  obtain ⟨more, rfl⟩ := Nat.exists_eq_add_of_le large
  simp only [load, Id, bind, pure]
  cases started : files.canonicalAll .root roots with
  | error error =>
    exact ⟨rfl, fun most failed =>
      canonicalAll_ne_tooMany (started.trans (congrArg _ (Except.error.inj failed)))⟩
  | ok queue =>
    obtain rfl := rootPaths_of_canonicalAll started
    have canonical : ∀ path ∈ files.rootPaths roots, ∃ spelling,
        files.canonical spelling = Except.ok path := by
      intro path isRoot
      obtain ⟨root, -, isCanonical⟩ := List.mem_filterMap.mp isRoot
      exact ⟨root, canonical?_eq_some.mp isCanonical⟩
    have agrees : files.loadWithin (enough + more) (enough + more) (files.rootPaths roots) [] =
          files.loadWithin enough enough (files.rootPaths roots) [] ∧
        ∀ most, files.loadWithin enough enough (files.rootPaths roots) [] ≠
          Except.error (.tooMany most) :=
      loadWithin_add finite more List.nodup_nil (List.nil_subset _) canonical (by simpa using fewer)
    exact ⟨agrees.1, fun most failed => agrees.2 most (agrees.1.symm.trans failed)⟩

end Ends

end FileSystem

/-- Loading from a tree ends by itself, and the bound for the tree is enough where the working
directory has names as paths spell them. -/
theorem FileTree.endsWithin (tree : FileTree) :
    (∃ enough, tree.fileSystem.EndsWithin enough) ∧
      (tree.HasPlainDirectory → tree.fileSystem.EndsWithin tree.loadLimit) := by
  constructor
  · exact ⟨_, FileSystem.endsWithin_of_length_lt
      (fun _ _ _ isCanonical _ => mem_map_places isCanonical) (Nat.lt_succ_self _)⟩
  · intro plain
    exact FileSystem.endsWithin_of_length_lt
      (fun _ _ _ isCanonical isRead => mem_map_files plain isCanonical isRead) (by simp [loadLimit])

/-- Files without content, each of which has one spelling. -/
def plainFiles : FileSystem Id where
  canonical path := Except.ok path
  read _ := Except.ok []

/-- Two files whose names differ in a byte that is no text are both loaded, and are shown alike. -/
example : Except.toOption (Except.map (List.map Document.path)
    (plainFiles.load 3 [⟨[0x2F, 0x61, 0xFE]⟩, ⟨[0x2F, 0x61, 0xFF]⟩])) =
      some ["/a\uFFFD", "/a\uFFFD"] := by decide +kernel

/-- A tree with two documents that include each other, spelled in different ways, one of them
twice. -/
def circularTree : FileTree where
  workingDirectory := ["idl"]
  files := [
    (["idl", "odd.thrift"], Utf8.encode "include \"./even.thrift\" include \"even.thrift\""),
    (["idl", "even.thrift"], Utf8.encode "include \"../idl/odd.thrift\"")]

end SchemaCodec

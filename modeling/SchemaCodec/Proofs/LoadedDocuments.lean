import Mathlib.Data.List.TakeWhile
import SchemaCodec.Files.Loading
import SchemaCodec.Proofs.DiscoveryOrder
import SchemaCodec.Proofs.Pairing
import SchemaCodec.Proofs.SeenOnce

/-!
# Loaded documents

Loading reads the file at a canonical path, parses it and makes the paths of its includes canonical.
What it goes on with is decided by the files alone: the paths that the document at a path includes,
as they are written there, seen from its directory. So loading is a search in breadth-first order
among paths, which stops where a file is not as it should be.

The search is among the paths themselves, and each document shows only the text of its path. So the
paths that are loaded are listed beside the documents: `FileSystem.Loading` tells what a run of the
loader has done, one path and one document in each step.
-/

namespace SchemaCodec

/-- A document has the path under which it was parsed.

Proof: the items of a text are added to a document with that path one after another, and none of
them changes it. -/
theorem Document.path_of_parse {path text : String} {parsed : Document}
    (isParsed : Document.parse path text = .ok parsed) : parsed.path = path := by
  have kept (items : List Grammar.Item) (start : Document) :
      (items.foldl Document.add start).path = start.path := by
    induction items generalizing start with
    | nil => rfl
    | cons item rest inductionHypothesis =>
      rw [List.foldl_cons, inductionHypothesis]
      cases item <;> rfl
  unfold Document.parse Document.ofOutcome at isParsed
  split at isParsed
  · cases isParsed
  · split at isParsed
    · cases isParsed
    · obtain rfl := Except.ok.inj isParsed
      exact kept _ _

namespace FileSystem

variable {files : FileSystem Id}

section Paths

/-- The canonical path of a path, where it has one. -/
def canonical? (files : FileSystem Id) (path : FilePath) : Option FilePath :=
  Except.toOption (files.canonical path)

/-- A path has a canonical path where the file system gives it one. -/
theorem canonical?_eq_some {path target : FilePath} :
    files.canonical? path = some target ↔ files.canonical path = Except.ok target := by
  unfold canonical?
  cases files.canonical path with
  | error cause => exact ⟨nofun, nofun⟩
  | ok found =>
    exact ⟨fun same => congrArg Except.ok (Option.some.inj same),
      fun same => congrArg some (Except.ok.inj same)⟩

/-- The canonical paths at which loading starts. -/
def rootPaths (files : FileSystem Id) (roots : List FilePath) : List FilePath :=
  roots.filterMap files.canonical?

/-- The document that the file at a path spells, its includes as written. -/
def parsedAt? (files : FileSystem Id) (path : FilePath) : Option Document :=
  match files.read path with
  | .error _ => none
  | .ok bytes =>
    match Utf8.decode? bytes with
    | none => none
    | some text => Except.toOption (Document.parse path.text text)

/-- The canonical path that an include of the document at a path stands for. -/
def target? (files : FileSystem Id) (path : FilePath) (found : Include) : Option FilePath :=
  files.canonical? (joinPath (directoryOf path) (.ofText found.path))

/-- The canonical paths that the document at a path includes, in order. -/
def includedPaths (files : FileSystem Id) (path : FilePath) : List FilePath :=
  match files.parsedAt? path with
  | some parsed => parsed.includes.filterMap (files.target? path)
  | none => []

/-- An include as it is loaded: as written but for its path, which shows the canonical path. -/
def Canonicalises (files : FileSystem Id) (path : FilePath) (written loaded : Include) : Prop :=
  ∃ target, files.target? path written = some target ∧ loaded = { written with path := target.text }

/-- A document as it is loaded from a path: as the file spells it under the text of the path, but
for the paths of its includes. -/
def Loads (files : FileSystem Id) (path : FilePath) (document : Document) : Prop :=
  ∃ parsed includes, files.parsedAt? path = some parsed ∧
    List.Forall₂ (files.Canonicalises path) parsed.includes includes ∧
      document = { parsed with includes }

variable {path : FilePath} {document : Document}

/-- The path of a parsed document shows the one that it was read from. -/
theorem path_of_parsedAt? {parsed : Document} (isParsed : files.parsedAt? path = some parsed) :
    parsed.path = path.text := by
  unfold parsedAt? at isParsed
  split at isParsed
  · cases isParsed
  · split at isParsed
    · cases isParsed
    · next text _ =>
      cases spelled : Document.parse path.text text with
      | error error => simp [spelled, Except.toOption] at isParsed
      | ok found =>
        obtain rfl : found = parsed := by simpa [spelled, Except.toOption] using isParsed
        exact Document.path_of_parse spelled

/-- The path of a loaded document shows the one that it was loaded from. -/
theorem Loads.path_eq (loads : files.Loads path document) : document.path = path.text := by
  obtain ⟨parsed, includes, isParsed, -, rfl⟩ := loads
  exact (path_of_parsedAt? isParsed : parsed.path = path.text)

/-- Whatever is loaded from a path, there is a file to read. -/
theorem Loads.exists_read (loads : files.Loads path document) :
    ∃ bytes, files.read path = Except.ok bytes := by
  obtain ⟨parsed, includes, isParsed, -⟩ := loads
  unfold parsedAt? at isParsed
  split at isParsed
  · cases isParsed
  · next bytes isRead => exact ⟨bytes, isRead⟩

/-- Each include of a loaded document shows one of the paths that the document at its path
includes. -/
theorem Loads.exists_target (loads : files.Loads path document) {found : Include}
    (isFound : found ∈ document.includes) :
    ∃ target ∈ files.includedPaths path, found.path = target.text := by
  obtain ⟨parsed, includes, isParsed, made, rfl⟩ := loads
  obtain ⟨written, isWritten, target, isTarget, rfl⟩ := Pairing.exists_of_mem_right made isFound
  refine ⟨target, ?_, rfl⟩
  rw [includedPaths, isParsed]
  exact List.mem_filterMap.mpr ⟨written, isWritten, isTarget⟩

/-- What a document includes is the canonical path of something. -/
theorem exists_canonical_of_mem_includedPaths {target : FilePath}
    (isNext : target ∈ files.includedPaths path) :
    ∃ spelling, files.canonical spelling = Except.ok target := by
  unfold includedPaths at isNext
  split at isNext
  · obtain ⟨found, -, isTarget⟩ := List.mem_filterMap.mp isNext
    exact ⟨_, canonical?_eq_some.mp isTarget⟩
  · cases isNext

end Paths

section Steps

variable {path : FilePath}

/-- An include and the canonical path that it stands for, as they are loaded. -/
def Resolves (files : FileSystem Id) (path : FilePath) (written : Include)
    (loaded : Include × FilePath) : Prop :=
  files.target? path written = some loaded.2 ∧ loaded.1 = { written with path := loaded.2.text }

/-- Includes that are made canonical each stand for a canonical path.

Proof: by induction on the includes. Each one that is made canonical stands for its target, and one
that is not ends the run. -/
theorem resolves_includes {written : List Include} {loaded : List (Include × FilePath)}
    (ran : files.canonicalIncludes path written = Except.ok loaded) :
    List.Forall₂ (files.Resolves path) written loaded := by
  induction written generalizing loaded with
  | nil =>
    obtain rfl := Except.ok.inj ran
    exact .nil
  | cons found rest inductionHypothesis =>
    simp only [canonicalIncludes, Id, bind, pure] at ran
    split at ran
    · cases ran
    · next target isTarget =>
      split at ran
      · cases ran
      · next includes isLoaded =>
        obtain rfl := Except.ok.inj ran
        exact .cons ⟨canonical?_eq_some.mpr isTarget, rfl⟩ (inductionHypothesis isLoaded)

/-- The canonical paths that includes stand for, in order. -/
theorem map_snd_of_resolves {written : List Include} {loaded : List (Include × FilePath)}
    (made : List.Forall₂ (files.Resolves path) written loaded) :
    loaded.map (·.2) = written.filterMap (files.target? path) := by
  induction made with
  | nil => rfl
  | cons here _ inductionHypothesis =>
    rw [List.map_cons, List.filterMap_cons_some here.1, inductionHypothesis]

/-- A document that loading gives is as its file spells it, all its includes have canonical paths,
and these are the paths that are given beside it.

Proof: by the steps in which a document is loaded: its file is read, its bytes are a text, the text
is parsed and its includes are made canonical. A step that fails is excluded by the premise. -/
theorem loads_of_document {document : Document} {targets : List FilePath}
    (ran : files.document path = Except.ok (document, targets)) :
    files.Loads path document ∧ targets = files.includedPaths path := by
  simp only [FileSystem.document, Id, bind, pure] at ran
  split at ran
  · cases ran
  · next bytes isRead =>
    split at ran
    · cases ran
    · next text isText =>
      split at ran
      · cases ran
      · next parsed spelled =>
        split at ran
        · cases ran
        · next includes made =>
          obtain ⟨rfl, rfl⟩ := Prod.mk.inj (Except.ok.inj ran)
          have isParsed : files.parsedAt? path = some parsed := by
            simp only [parsedAt?, isRead, isText, spelled, Except.toOption]
          have resolves := resolves_includes made
          refine ⟨⟨parsed, _, isParsed, ?_, rfl⟩, ?_⟩
          · refine List.forall₂_map_right_iff.mpr (resolves.imp fun _ loaded resolved => ?_)
            exact ⟨loaded.2, resolved⟩
          · rw [includedPaths, isParsed]
            exact map_snd_of_resolves resolves

end Steps

section Queue

variable {limit bound : Nat} {queue loaded paths : List FilePath} {documents : List Document}

/-- The first path of a queue that is not loaded yet stands behind some that are. -/
theorem exists_front_of_dropWhile {path : FilePath} {rest : List FilePath}
    (left : queue.dropWhile (· ∈ loaded) = path :: rest) :
    ∃ front, queue = front ++ path :: rest ∧ (∀ other ∈ front, other ∈ loaded) ∧ path ∉ loaded := by
  refine ⟨queue.takeWhile (· ∈ loaded), ?_, fun other passed => ?_, fun known => ?_⟩
  · rw [← left, List.takeWhile_append_dropWhile]
  · simpa using List.mem_takeWhile_imp passed
  · have isNew := List.head?_dropWhile_not (· ∈ loaded) queue
    rw [left] at isNew
    simp [known] at isNew

/-- What a run over a queue has loaded, where some paths were loaded before: the paths in order, and
the document at each of them. -/
inductive Loading (files : FileSystem Id) :
    List FilePath → List FilePath → List FilePath → List Document → Prop where
  /-- All paths of the queue are loaded. -/
  | done {queue loaded : List FilePath} (known : ∀ path ∈ queue, path ∈ loaded) :
      Loading files queue loaded [] []
  /-- The document at the first path that is not loaded is, and the run goes on with what waits
  behind that path and with what the document includes. -/
  | step {front rest loaded paths : List FilePath} {path : FilePath} {document : Document}
      {documents : List Document} (passed : ∀ other ∈ front, other ∈ loaded)
      (new : path ∉ loaded) (loads : files.Loads path document)
      (onwards : Loading files (rest ++ files.includedPaths path) (path :: loaded) paths
        documents) :
      Loading files (front ++ path :: rest) loaded (path :: paths) (document :: documents)

/-- A run of the loader that gives documents has loaded them, each from a path. The induction is on
the bound, which only counts the documents. -/
theorem exists_loading_of_loadWithin
    (ran : files.loadWithin limit bound queue loaded = Except.ok documents) :
    ∃ paths, files.Loading queue loaded paths documents := by
  induction bound generalizing queue loaded documents with
  | zero =>
    unfold loadWithin at ran
    split at ran
    · next left =>
      obtain rfl := Except.ok.inj ran
      have allSeen := List.dropWhile_eq_nil_iff.mp left
      exact ⟨[], .done fun path waits => by simpa using allSeen path waits⟩
    · cases ran
    · next isSucc => cases isSucc
  | succ bound inductionHypothesis =>
    unfold loadWithin at ran
    split at ran
    · next left =>
      obtain rfl := Except.ok.inj ran
      have allSeen := List.dropWhile_eq_nil_iff.mp left
      exact ⟨[], .done fun path waits => by simpa using allSeen path waits⟩
    · next isZero => cases isZero
    · next path rest fewer left same =>
      obtain rfl := Nat.succ.inj same
      simp only [Id, bind, pure] at ran
      split at ran
      · cases ran
      · next document targets isLoaded =>
        obtain ⟨loads, rfl⟩ := loads_of_document isLoaded
        split at ran
        · cases ran
        · next behind onwards =>
          obtain rfl := Except.ok.inj ran
          obtain ⟨front, rfl, passed, new⟩ := exists_front_of_dropWhile left
          obtain ⟨paths, others⟩ := inductionHypothesis onwards
          exact ⟨path :: paths, .step passed new loads others⟩

/-- What has been loaded when a queue is worked off. -/
structure WorksOff (files : FileSystem Id) (queue loaded paths : List FilePath)
    (documents : List Document) : Prop where
  new : SeenOnce id loaded paths
  loads : List.Forall₂ files.Loads paths documents
  queued : ∀ path ∈ queue, path ∈ loaded ∨ path ∈ paths
  onwards : ∀ path ∈ paths, ∀ target ∈ files.includedPaths path, target ∈ loaded ∨ target ∈ paths

/-- Loading works its queue off: each path is loaded once, and what its document includes is
loaded.

Proof: by induction on the run. A step adds its path to those that were loaded before, so what is
known of the run behind it is known here, with that path among those of this run. -/
theorem Loading.worksOff (loading : files.Loading queue loaded paths documents) :
    files.WorksOff queue loaded paths documents := by
  induction loading with
  | done known => exact ⟨seenOnce_nil, .nil, fun path waits => .inl (known path waits), by simp⟩
  | @step front rest loaded paths path document documents passed new loads _ later =>
    -- What is loaded behind the path is loaded, or it is the path.
    have settled : ∀ {target}, target ∈ path :: loaded ∨ target ∈ paths →
        target ∈ loaded ∨ target ∈ path :: paths := by
      intro target known
      rw [List.mem_cons] at known ⊢
      tauto
    refine ⟨seenOnce_cons.mpr ⟨new, later.new⟩, .cons loads later.loads, fun target waits => ?_, ?_⟩
    · rcases List.mem_append.mp waits with before | isBehind
      · exact .inl (passed target before)
      rcases List.mem_cons.mp isBehind with rfl | isRest
      · exact .inr List.mem_cons_self
      · exact settled (later.queued target (List.mem_append_left _ isRest))
    · refine List.forall_mem_cons.mpr
        ⟨fun target isNext => ?_, fun other member target isNext => ?_⟩
      · exact settled (later.queued target (List.mem_append_right _ isNext))
      · exact settled (later.onwards other member target isNext)

/-- Loading lists the paths that a search in breadth-first order lists, along edges that agree with
the includes of the documents. -/
theorem Loading.reachWithin_eq {next : FilePath → List FilePath}
    (loading : files.Loading queue loaded paths documents)
    (agree : ∀ path ∈ paths, next path = files.includedPaths path) :
    reachWithin next paths.length queue paths = paths := by
  induction loading with
  | done => rfl
  | @step front rest loaded paths path document documents passed new loads onwards
      inductionHypothesis =>
    have works := (Loading.step passed new loads onwards).worksOff
    obtain ⟨here, later⟩ := List.forall_mem_cons.mp agree
    have seen : ∀ other ∈ front, other ∉ path :: paths :=
      fun other before member => works.new.2 other member (passed other before)
    have first : reachWithin next (path :: paths).length (path :: rest) (path :: paths) = _ :=
      BreadthFirst.reachWithin_cons_of_unseen List.mem_cons_self
    rw [List.erase_cons_head, here] at first
    rw [BreadthFirst.reachWithin_append_of_seen seen, first, inductionHypothesis later]

end Queue

end FileSystem

end SchemaCodec

import FirmwareMatch.Proofs.Corpus.Discovery
import FirmwareMatch.Proofs.Disk.Paths
import FirmwareMatch.Proofs.Disk.Programs

/-
  Corpora in archives.

  The files that are found, and their order, depend on the names that lead to them and not on where
  their bytes are. So an archive has the sources of the directory at which it starts. That is the
  directory it was made from, unless this holds a single directory and nothing else that counts:
  then the archive starts one directory further down.

  Proved:
  * `discover_eq_map_foundFiles`: what files hold does not matter for discovery.
  * `run_sourcesWith_directory`, `run_sourcesWith_archive`: the sources at a path.
  * `exists_onlyDirectory?_of_reordered`: where an archive starts, whatever the order of entries.
  * `sourcesWith_archive`: the sources of an archive and of the directory it was made from, however
    archives are unpacked.
  * `sourcesAt_archive_single`: a directory with one project.
-/

namespace FirmwareMatch

namespace FoundListing

variable {α β : Type} {c : Config} {top : List (String × FileTree α)}

/-- The files that are found, in the order of their listings. -/
def foundFiles (c : Config) (top : List (String × FileTree α)) : List (List String × α) :=
  ((FileTree.filesOf top).filter fun x => isFound c x.1).mergeSort fun x y =>
    sortsBefore (foundAt x) (foundAt y)

theorem mem_of_mem_foundFiles {x : List String × α} (h : x ∈ foundFiles c top) :
    x ∈ FileTree.filesOf top :=
  (List.mem_filter.mp (List.mem_mergeSort.mp h)).1

/-- Under the same names other contents are found in the same order. -/
theorem discover_eq_map_foundFiles {top' : List (String × FileTree β)} (g : List String × α → β)
    (h : FileTree.filesOf top' = (FileTree.filesOf top).map fun x => (x.1, g x)) :
    discover c top' = (foundFiles c top).map fun x => foundAt (x.1, g x) := by
  rw [discover, collect_eq, h, List.filter_map, List.map_map, foundFiles]
  exact (List.map_mergeSort (f := fun x => foundAt (x.1, g x)) fun _ _ _ _ => rfl).symm

/-- A file that is found alone is the only listing. -/
theorem discover_of_singleton {file : List String × α} (hfiles : FileTree.filesOf top = [file])
    (hfound : isFound c file.1) : discover c top = [foundAt file] := by
  have hkept : [file].filter (fun x => isFound c x.1) = [file] := by simpa using hfound
  rw [discover, collect_eq, hfiles, hkept, List.map_singleton, List.mergeSort_singleton]

/-- The source that a listing with these bytes is. -/
def toSource (l : FoundListing ByteArray) : Source :=
  ⟨l.project, l.version, l.path, Text.decodeUtf8Lossy l.content⟩

theorem map_toSource_discover (c : Config) (top : List (String × FileTree ByteArray)) :
    (discover c top).map toSource = (foundFiles c top).map fun x => toSource (foundAt x) := by
  have hself : FileTree.filesOf top = (FileTree.filesOf top).map fun x => (x.1, x.2) := by simp
  rw [discover_eq_map_foundFiles Prod.snd hself, List.map_map]
  rfl

end FoundListing

namespace OpenedCorpus

open FoundListing

variable {c : Config} {root archive : Path} {es : List (String × FileTree ByteArray)}
  {tree : FileTree ByteArray} {unpack? : Unpacker} {v : Volume}

section

variable {m : Type → Type} [Monad m] [Disk m]

/-- The sources of the corpus at a path: its listings with their texts. -/
def sourcesWith (unpack? : Unpacker) (c : Config) (p : Path) : Access m (List Source) := do
  let opened ← openWith unpack? p
  (opened.listings c).mapM source

/-- The sources of the corpus at a path, where archives are zip files. -/
def sourcesAt (c : Config) (p : Path) : Access m (List Source) :=
  sourcesWith Zip.unpack? c p

end

/-- Listings that are read one after another, each from bytes that can be had. -/
theorem run_mapM_source {files : List (List String × ByteArray)}
    {text : List String × ByteArray → ListingText}
    (h : ∀ x ∈ files, (readText (text x) : Access (StateM Volume) String).run.run v =
      (.ok (Text.decodeUtf8Lossy x.2), v)) :
    ((files.map fun x => foundAt (x.1, text x)).mapM source :
        Access (StateM Volume) (List Source)).run.run v =
      (.ok (files.map fun x => toSource (foundAt x)), v) := by
  rw [List.mapM_map]
  refine Access.run_mapM_of_forall fun x hx => ?_
  have htext := h x hx
  rw [Function.comp_apply, source, foundAt, Access.run_bind_of_ok htext]
  rfl

/-! ## Directories -/

/-- A listing is read by decoding the bytes of its file. -/
theorem run_readListing {path : Path} {bytes : ByteArray} (h : v.get? path = some (.file bytes)) :
    (Access.readListing path : Access (StateM Volume) String).run.run v =
      (.ok (Text.decodeUtf8Lossy bytes), v) := by
  have hkind : v.kindOf path = .file := by rw [Volume.kindOf, h]
  have hread : v.read? path = some bytes := by rw [Volume.read?, h]
  rw [Access.readListing, Volume.run_kindOf_bind, hkind]
  exact Access.run_bind_of_ok (Volume.run_readBytes hread) fun bytes =>
    pure (Text.decodeUtf8Lossy bytes)

/-- The sources of a corpus in a directory. -/
theorem run_sourcesWith_directory (unpack? : Unpacker) (c : Config) (hroot : v.get? root = some (.directory es))
    (hstorable : (FileTree.directory es).Storable) :
    (sourcesWith unpack? c root : Access (StateM Volume) (List Source)).run.run v =
      (.ok ((discover c es).map toSource), v) := by
  have hlistings : (ofDirectory root (surveyed root es)).listings c =
      (foundFiles c es).map fun x =>
        foundAt (x.1, ListingText.onDisk (x.1.foldl Path.entry root)) :=
    discover_eq_map_foundFiles (fun x => ListingText.onDisk (x.1.foldl Path.entry root))
      filesOf_top_ofDirectory
  rw [sourcesWith, Access.run_bind_of_ok (run_openWith unpack? hroot), hlistings, map_toSource_discover]
  refine run_mapM_source fun x hx => ?_
  exact run_readListing (Volume.get?_of_mem_files hroot hstorable (mem_of_mem_foundFiles hx))

/-! ## Archives -/

/-- The bytes at a path are those of an archive that is unpacked to these contents. -/
structure IsArchiveOf (unpack? : Unpacker) (v : Volume) (archive : Path)
    (tree : FileTree ByteArray) : Prop where
  hasExtension : archive.hasExtension archiveExtension
  unpacks : ∃ bytes, v.get? archive = some (.file bytes) ∧ unpack? bytes = some tree

/-- An archive is opened by unpacking it. -/
theorem run_openWith_archive (h : IsArchiveOf unpack? v archive tree) :
    (openWith unpack? archive : Access (StateM Volume) OpenedCorpus).run.run v =
      (.ok (ofArchive archive tree), v) := by
  obtain ⟨bytes, hfile, hunpack⟩ := h.unpacks
  have hkind : v.kindOf archive = .file := by rw [Volume.kindOf, hfile]
  have hread : v.read? archive = some bytes := by rw [Volume.read?, hfile]
  rw [openWith, Volume.run_kindOf_bind, hkind]
  dsimp only
  rw [if_pos h.hasExtension, Access.run_bind_of_ok (Volume.run_readBytes hread), hunpack]
  rfl

/-- The sources of a corpus in an archive are those below the top of the archive. -/
theorem run_sourcesWith_archive (c : Config) (h : IsArchiveOf unpack? v archive tree) :
    (sourcesWith unpack? c archive : Access (StateM Volume) (List Source)).run.run v =
      (.ok ((discover c (topOfArchive tree)).map toSource), v) := by
  have hfiles : FileTree.filesOf (ofArchive archive tree).top =
      (FileTree.filesOf (topOfArchive tree)).map fun x => (x.1, ListingText.unpacked x.2) :=
    FileTree.files_mapFiles (fun _ bytes => ListingText.unpacked bytes) []
      (.directory (topOfArchive tree))
  have hlistings : (ofArchive archive tree).listings c =
      (foundFiles c (topOfArchive tree)).map fun x => foundAt (x.1, ListingText.unpacked x.2) :=
    discover_eq_map_foundFiles (fun x => ListingText.unpacked x.2) hfiles
  rw [sourcesWith, Access.run_bind_of_ok (run_openWith_archive h), hlistings, map_toSource_discover]
  exact run_mapM_source fun x _ => rfl

/-! ## Where an archive starts -/

/-- The directory at the top and its entries, if nothing else that counts stands there. -/
def onlyDirectory? {α : Type} (es : List (String × FileTree α)) :
    Option (String × List (String × FileTree α)) :=
  match es.filter fun (name, _) => name != archiverDirectory with
  | [(name, .directory inner)] => some (name, inner)
  | _ => none

theorem onlyDirectory?_eq_some {name : String} {inner : List (String × FileTree ByteArray)} :
    onlyDirectory? es = some (name, inner) ↔
      (es.filter fun e => e.1 != archiverDirectory) = [(name, .directory inner)] := by
  unfold onlyDirectory?
  split
  · rename_i h
    simp [h]
  · rename_i h
    exact iff_of_false (by simp) (h name inner)

theorem topOfArchive_of_some {name : String} {inner : List (String × FileTree ByteArray)}
    (h : onlyDirectory? tree.entries = some (name, inner)) : topOfArchive tree = inner := by
  rw [topOfArchive, onlyDirectory?_eq_some.mp h]

theorem topOfArchive_of_none (h : onlyDirectory? tree.entries = none) :
    topOfArchive tree = tree.entries := by
  unfold onlyDirectory? at h
  unfold topOfArchive
  split at h
  · simp at h
  · rename_i hnot
    split
    · rename_i heq
      exact absurd heq (hnot _ _)
    · rfl

/-- Where the order of entries differs, the same directory is the only one at the top. -/
theorem exists_onlyDirectory?_of_reordered {t u : FileTree ByteArray} (h : t.Reordered u)
    {name : String} {inner : List (String × FileTree ByteArray)}
    (honly : onlyDirectory? t.entries = some (name, inner)) :
    ∃ inner', onlyDirectory? u.entries = some (name, inner') ∧
      (FileTree.directory inner).Reordered (.directory inner') := by
  simp only [onlyDirectory?_eq_some] at honly ⊢
  induction h generalizing inner with
  | refl t => exact ⟨inner, honly, .refl _⟩
  | trans _ _ ih ih' =>
    obtain ⟨inner', honly', hinner'⟩ := ih honly
    obtain ⟨inner'', honly'', hinner''⟩ := ih' honly'
    exact ⟨inner'', honly'', hinner'.trans hinner''⟩
  | entries hperm =>
    have hfilter := hperm.filter fun e => e.1 != archiverDirectory
    simp only [FileTree.entries] at honly ⊢
    rw [honly] at hfilter
    exact ⟨inner, (List.singleton_perm.mp hfilter).symm, .refl _⟩
  | @inside t u es fs other hinside =>
    simp only [FileTree.entries, List.filter_append, List.filter_cons] at honly ⊢
    by_cases hcounts : (other != archiverDirectory) = true
    · -- the changed entry is the only directory, so what is beside it does not count
      rw [if_pos hcounts] at honly
      obtain ⟨hes, hone⟩ | ⟨-, hone⟩ := List.append_eq_singleton_iff.mp honly
      · obtain ⟨hentry, hfs⟩ := List.cons.inj hone
        obtain ⟨rfl, rfl⟩ := Prod.mk.inj hentry
        obtain ⟨inner', rfl⟩ := hinside.exists_directory
        exact ⟨inner', by rw [if_pos hcounts, hes, hfs, List.nil_append], hinside⟩
      · simp at hone
    · rw [if_neg hcounts] at honly ⊢
      exact ⟨inner, honly, .refl _⟩

/-! ## Archives of directories -/

/-- The sources of an archive and of the directory it was made from, for any tree of files in it,
    in any order of entries, any way to unpack archives and any configuration. Both are had without
    a fault. If the directory
    holds a single directory and nothing else but what an archiver adds, the archive has the sources
    of that one; otherwise it has those of the directory. -/
theorem sourcesWith_archive (unpack? : Unpacker) (c : Config) {v w : Volume} {root archive : Path}
    {es : List (String × FileTree ByteArray)} {tree : FileTree ByteArray}
    (hroot : v.get? root = some (.directory es)) (hstorable : (FileTree.directory es).Storable)
    (harchive : IsArchiveOf unpack? w archive tree) (hsame : (FileTree.directory es).Reordered tree) :
    ∃ sources : List Source,
      (sourcesWith unpack? c archive : Access (StateM Volume) (List Source)).run.run w =
        (.ok sources, w) ∧
      (onlyDirectory? es = none →
        (sourcesWith unpack? c root : Access (StateM Volume) (List Source)).run.run v =
          (.ok sources, v)) ∧
      ∀ name inner, onlyDirectory? es = some (name, inner) →
        (sourcesWith unpack? c (root.entry name) :
          Access (StateM Volume) (List Source)).run.run v = (.ok sources, v) := by
  refine ⟨_, run_sourcesWith_archive c harchive, fun hnone => ?_, fun name inner honly => ?_⟩
  · have htree : onlyDirectory? tree.entries = none := by
      rw [Option.eq_none_iff_forall_ne_some]
      rintro ⟨name, inner⟩ honly
      obtain ⟨inner', honly', -⟩ := exists_onlyDirectory?_of_reordered hsame.symm honly
      rw [FileTree.entries, hnone] at honly'
      cases honly'
    obtain ⟨fs, rfl⟩ := hsame.exists_directory
    rw [run_sourcesWith_directory unpack? c hroot hstorable, topOfArchive_of_none htree,
      discover_eq_of_perm c hstorable.wellNamed hsame.files]
    rfl
  · obtain ⟨inner', honly', hinner⟩ := exists_onlyDirectory?_of_reordered hsame honly
    have hentry : (name, FileTree.directory inner) ∈ es := by
      have hmem : (name, FileTree.directory inner) ∈
          es.filter fun e => e.1 != archiverDirectory := by
        rw [onlyDirectory?_eq_some.mp honly]
        exact List.mem_singleton_self _
      exact (List.mem_filter.mp hmem).1
    obtain ⟨distinct, named, below⟩ := hstorable.directory_inv
    have hinside : v.get? (root.entry name) = some (.directory inner) := by
      rw [Volume.get?_entry (Volume.text_ne_of_get? hroot) (named _ hentry), hroot,
        Option.bind_some]
      exact (FileTree.mem_iff_lookup distinct).mp hentry
    rw [run_sourcesWith_directory unpack? c hinside (below _ hentry), topOfArchive_of_some honly',
      discover_eq_of_perm c (below _ hentry).wellNamed hinner.files]

/-- Two projects in a directory, and an archive of it with the entries in another order. -/
theorem sourcesAt_archive_two :
    let zip : String :=
      "PK\x03\x04\x14\x00\x00\x00\x00\x00\x00\x00!\x00\x00\x00\x00\x00\x00\x00\x00\x00\x00" ++
      "\x00\x00\x00\x09\x00\x00\x00a/v/x.asm" ++
      "PK\x03\x04\x14\x00\x00\x00\x00\x00\x00\x00!\x00\x00\x00\x00\x00\x00\x00\x00\x00\x00" ++
      "\x00\x00\x00\x07\x00\x00\x00b/y.asm" ++
      "PK\x01\x02\x14\x00\x14\x00\x00\x00\x00\x00\x00\x00!\x00\x00\x00\x00\x00\x00\x00\x00" ++
      "\x00\x00\x00\x00\x00\x09\x00\x00\x00\x00\x00\x00\x00\x00\x00\x00\x00$\x01\x00\x00\x00" ++
      "\x00a/v/x.asm" ++
      "PK\x01\x02\x14\x00\x14\x00\x00\x00\x00\x00\x00\x00!\x00\x00\x00\x00\x00\x00\x00\x00" ++
      "\x00\x00\x00\x00\x00\x07\x00\x00\x00\x00\x00\x00\x00\x00\x00\x00\x00$\x01'\x00\x00" ++
      "\x00b/y.asm" ++
      "PK\x05\x06\x00\x00\x00\x00\x02\x00\x02\x00l\x00\x00\x00L\x00\x00\x00\x00\x00"
    let es : List (String × FileTree ByteArray) :=
      [("b", .directory [("y.asm", .file "".toUTF8)]),
        ("a", .directory [("v", .directory [("x.asm", .file "".toUTF8)])])]
    let v : Volume := ⟨.directory [("corpus", .directory es), ("t.zip", .file zip.toUTF8)], []⟩
    (FileTree.directory es).Storable ∧ IsArchiveOf Zip.unpack? v ⟨"t.zip"⟩ (.directory es.reverse) ∧
    ∃ sources : List Source,
      (sourcesAt .standard ⟨"t.zip"⟩ : Access (StateM Volume) (List Source)).run.run v =
        (.ok sources, v) ∧
      (sourcesAt .standard ⟨"corpus"⟩ : Access (StateM Volume) (List Source)).run.run v =
        (.ok sources, v) := by
  intro zip es v
  have hstorable : (FileTree.directory es).Storable := by
    have hv := FileTree.storable_singleton (show IsEntryName "x.asm" by decide) (.file "".toUTF8)
    have hb := FileTree.storable_singleton (show IsEntryName "y.asm" by decide) (.file "".toUTF8)
    have ha := FileTree.storable_singleton (show IsEntryName "v" by decide) hv
    exact .directory (by decide) (by decide) (by simpa [es] using ⟨hb, ha⟩)
  have harchive : IsArchiveOf Zip.unpack? v ⟨"t.zip"⟩ (.directory es.reverse) :=
    ⟨by decide +kernel, zip.toUTF8, rfl, by decide +kernel⟩
  have hroot : v.get? ⟨"corpus"⟩ = some (.directory es) := rfl
  obtain ⟨sources, hzip, hdirectory, -⟩ := sourcesWith_archive Zip.unpack? .standard hroot hstorable
    harchive (.entries (List.reverse_perm es).symm)
  exact ⟨hstorable, harchive, sources, hzip, hdirectory rfl⟩

/-- A directory with one project, and an archive of it: in the archive the version takes the place
    of the project. -/
theorem sourcesAt_archive_single :
    let zip : String :=
      "PK\x03\x04\x14\x00\x00\x00\x00\x00\x00\x00!\x00\x00\x00\x00\x00\x00\x00\x00\x00\x00" ++
      "\x00\x00\x00\x0f\x00\x00\x00alpha/v1/fw.asm" ++
      "PK\x01\x02\x14\x00\x14\x00\x00\x00\x00\x00\x00\x00!\x00\x00\x00\x00\x00\x00\x00\x00" ++
      "\x00\x00\x00\x00\x00\x0f\x00\x00\x00\x00\x00\x00\x00\x00\x00\x00\x00$\x01\x00\x00\x00" ++
      "\x00alpha/v1/fw.asm" ++
      "PK\x05\x06\x00\x00\x00\x00\x01\x00\x01\x00=\x00\x00\x00-\x00\x00\x00\x00\x00"
    let es : List (String × FileTree ByteArray) :=
      [("alpha", .directory [("v1", .directory [("fw.asm", .file "".toUTF8)])])]
    let v : Volume := ⟨.directory [("corpus", .directory es), ("t.zip", .file zip.toUTF8)], []⟩
    (FileTree.directory es).Storable ∧ IsArchiveOf Zip.unpack? v ⟨"t.zip"⟩ (.directory es) ∧
    ∃ sources sources' : List Source,
      (sourcesAt .standard ⟨"corpus"⟩ : Access (StateM Volume) (List Source)).run.run v =
        (.ok sources, v) ∧
      (sourcesAt .standard ⟨"t.zip"⟩ : Access (StateM Volume) (List Source)).run.run v =
        (.ok sources', v) ∧
      sources = [⟨"alpha", "v1", "v1/fw.asm", ""⟩] ∧
      sources' = [⟨"v1", "default", "fw.asm", ""⟩] ∧ sources' ≠ sources := by
  intro zip es v
  have hversion := FileTree.storable_singleton (show IsEntryName "fw.asm" by decide)
    (.file "".toUTF8)
  have hproject := FileTree.storable_singleton (show IsEntryName "v1" by decide) hversion
  have hstorable := FileTree.storable_singleton (show IsEntryName "alpha" by decide) hproject
  have harchive : IsArchiveOf Zip.unpack? v ⟨"t.zip"⟩ (.directory es) :=
    ⟨by decide +kernel, zip.toUTF8, rfl, by decide +kernel⟩
  have hcontents : Text.decodeUtf8Lossy "".toUTF8 = "" := by decide +kernel
  have hdirectory : (discover .standard es).map toSource =
      [⟨"alpha", "v1", "v1/fw.asm", ""⟩] := by
    rw [discover_of_singleton rfl (by decide +kernel)]
    exact congrArg (fun text => [(⟨"alpha", "v1", "v1/fw.asm", text⟩ : Source)]) hcontents
  have hzip : (discover .standard (topOfArchive (.directory es))).map toSource =
      [⟨"v1", "default", "fw.asm", ""⟩] := by
    rw [discover_of_singleton rfl (by decide +kernel)]
    exact congrArg (fun text => [(⟨"v1", "default", "fw.asm", text⟩ : Source)]) hcontents
  exact ⟨hstorable, harchive, _, _, run_sourcesWith_directory _ .standard rfl hstorable,
    run_sourcesWith_archive .standard harchive, hdirectory, hzip, by simp [hdirectory, hzip]⟩

end OpenedCorpus

end FirmwareMatch

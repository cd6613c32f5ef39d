import FirmwareMatch.Proofs.Disk.Programs
import FirmwareMatch.Proofs.Store.Records
import FirmwareMatch.Proofs.Table.Files

/-
  A feature store that was saved in a file is loaded as it was.

  The document has one object per record, and reading a record asks for the members that writing
  gave it. Lists are decoded member by member, and the digests of a version, whose names ascend,
  are inserted one after another into a map that ends as the one that was written. Empty lists and
  maps are brackets without anything between them, which is a matter of the text only.

  Counts of a document have 64 bits, so the numbers of a file must fit into them. Nothing else is
  asked of a store: names may be any texts, and stand twice.

  Proved:
  * `Json.asMap_record`: a map is decoded from its entries.
  * `FileRecord.ofJson_toJson`, `VersionRecord.ofJson_toJson`, `ProjectRecord.ofJson_toJson`,
    `FeatureStore.ofJson_toJson`: one level of the document after the other.
  * `FeatureStore.load_save`: what is loaded from a file to which a store was saved.
-/

namespace FirmwareMatch

open Json Std SortedMap

/-- A map is decoded from its entries if each value is. -/
theorem Json.asMap_record {α : Type} {item : Json → Decoded α} {f : α → Json}
    (h : ∀ x, item (f x) = .ok x) (m : ExtTreeMap String α) :
    asMap item (.record (m.toList.map fun e => (e.1, f e.2))) = .ok m := by
  have hentries : ((m.toList.map fun e => (e.1, f e.2)).mapM fun e =>
      (item e.2).map fun x => (e.1, x)) = .ok m.toList := by
    rw [List.mapM_map]
    have hpure : ((fun e : String × Json => (item e.2).map fun x => (e.1, x)) ∘
        fun e : String × α => (e.1, f e.2)) = fun e => (pure e : Decoded (String × α)) := by
      funext e
      simp only [Function.comp_apply, h]
      rfl
    rw [hpure]
    exact (List.mapM_pure (m := Except String) (f := id)).trans (by rw [List.map_id]; rfl)
  unfold asMap
  rw [asMembers_record]
  simp only [bind, Except.bind]
  rw [hentries]
  exact congrArg Except.ok (foldl_insert_toList m)

/-! ## Records -/

/-- Both numbers of a file have 64 bits, as every count of a document. -/
def FileRecord.HasCounts (f : FileRecord) : Prop :=
  f.instructionCount ≤ maxCount ∧ f.skippedLines ≤ maxCount

/-- A file is decoded from its members. -/
theorem FileRecord.ofJson_toJson {f : FileRecord} (h : f.HasCounts) : ofJson f.toJson = .ok f := by
  unfold ofJson toJson
  rw [asRecord_record (by simp) (by simp)]
  simp only [Members.required, List.lookup_cons, bind, Except.bind, pure, Except.pure, asString_str,
    String.reduceBEq, asCount_ofNat h.1, asCount_ofNat h.2]

/-- A version is decoded from its members. -/
theorem VersionRecord.ofJson_toJson {v : VersionRecord} (h : ∀ f ∈ v.files, f.HasCounts) :
    ofJson v.toJson = .ok v := by
  have hfiles : asList FileRecord.ofJson (.array (v.files.map FileRecord.toJson)) = .ok v.files :=
    asList_map fun f hf => FileRecord.ofJson_toJson (h f hf)
  have hfeatures : asMap asString (featuresToJson v.features) = .ok v.features :=
    asMap_record asString_str v.features
  unfold ofJson toJson
  rw [asRecord_record (by simp) (by simp)]
  simp only [Members.required, List.lookup_cons, bind, Except.bind, pure, Except.pure, asString_str,
    String.reduceBEq, hfiles, hfeatures]

/-- A project is decoded from its members. -/
theorem ProjectRecord.ofJson_toJson {p : ProjectRecord} (h : ∀ f ∈ p.files, f.HasCounts) :
    ofJson p.toJson = .ok p := by
  have hversions : asList VersionRecord.ofJson (.array (p.versions.map VersionRecord.toJson)) =
      .ok p.versions :=
    asList_map fun v hv => VersionRecord.ofJson_toJson fun f hf =>
      h f (List.mem_flatMap.mpr ⟨v, hv, hf⟩)
  unfold ofJson toJson
  rw [asRecord_record (by simp) (by simp)]
  simp only [Members.required, List.lookup_cons, bind, Except.bind, pure, Except.pure, asString_str,
    String.reduceBEq, hversions]

namespace FeatureStore

/-- The numbers of all files have 64 bits. -/
def HasCounts (s : FeatureStore) : Prop :=
  ∀ f ∈ s.files, f.HasCounts

/-- A store is decoded from its members. -/
theorem ofJson_toJson {s : FeatureStore} (h : s.HasCounts) : ofJson s.toJson = .ok s := by
  have hprojects : asList ProjectRecord.ofJson (.array (s.projects.map ProjectRecord.toJson)) =
      .ok s.projects :=
    asList_map fun p hp => ProjectRecord.ofJson_toJson fun f hf =>
      h f (List.mem_flatMap.mpr ⟨p, hp, hf⟩)
  unfold ofJson toJson
  rw [asRecord_record (by simp) (by simp)]
  simp only [Members.required, List.lookup_cons, bind, Except.bind, pure, Except.pure, asString_str,
    String.reduceBEq, hprojects]

/-- The text of a store is read as the store. -/
theorem ofText_render {s : FeatureStore} (h : s.HasCounts) : ofText s.render = .ok s := by
  rw [ofText, render, Json.parse, parse?_pretty]
  exact ofJson_toJson h

/-! ## Files -/

/-- Loading a store decodes the text at its path and changes nothing. -/
theorem run_load {v : Volume} {path : Path} {text : String}
    (hread : v.read? path = some text.toUTF8) :
    (load path : Access (StateM Volume) FeatureStore).run.run v =
      ((ofText text).mapError .json, v) := by
  have htext : (Access.readText path : Access (StateM Volume) String).run.run v =
      (.ok text, v) := by
    rw [Access.readText, Access.run_bind_of_ok (Volume.run_readBytes hread),
      Text.decodeUtf8?_toUTF8]
    rfl
  rw [load, Access.run_bind_of_ok htext]
  rfl

/-- For every store, with any texts as names, paths, opcodes and digests, any numbers of 64 bits and
    any lists and maps, also empty ones: what is loaded from a file to which the store was saved is
    the store. -/
theorem load_save {s : FeatureStore} (hcounts : s.HasCounts) {path : Path} {v v' : Volume}
    (hsave : (save path s : Access (StateM Volume) PUnit).run.run v = (.ok ⟨⟩, v')) :
    (load path : Access (StateM Volume) FeatureStore).run.run v' = (.ok s, v') := by
  rw [run_load (Volume.read?_write? (Volume.write?_of_run_writeText hsave)), ofText_render hcounts]
  rfl

/-- Two projects of one name, one of them without versions; a version without files; names with
    characters that are escaped, and the largest number that a count can be. -/
theorem load_save_escaped :
    let file : FileRecord := ⟨"v\x01/\"fw\".asm", "\u00e9", Json.maxCount, 0⟩
    let features : ExtTreeMap String Digest :=
      ((∅ : ExtTreeMap String Digest).insert "mov" "d").insert "b\n" "\\"
    let full : VersionRecord := ⟨"", [file, file], features⟩
    let s : FeatureStore := ⟨"now", "0.1.0", [⟨"p", [full, .fresh "v\t2"]⟩, ⟨"p", []⟩]⟩
    let path : Path := ⟨"firmware_database.json"⟩
    ∃ v' : Volume,
      (save path s : Access (StateM Volume) PUnit).run.run ⟨.directory [], []⟩ = (.ok ⟨⟩, v') ∧
      (load path : Access (StateM Volume) FeatureStore).run.run v' = (.ok s, v') := by
  intro file features full s path
  have hcounts : s.HasCounts := by
    intro f hf
    obtain rfl : f = file := by
      simpa [s, full, files, ProjectRecord.files, VersionRecord.fresh] using hf
    exact ⟨Nat.le_refl _, Nat.zero_le _⟩
  obtain ⟨v', hwrite⟩ : ∃ v', (⟨.directory [], []⟩ : Volume).write? path s.render.toUTF8 =
      some v' := Option.isSome_iff_exists.mp (by decide +kernel)
  have hsave : (save path s : Access (StateM Volume) PUnit).run.run ⟨.directory [], []⟩ =
      (.ok ⟨⟩, v') := by
    rw [save, Volume.run_writeText, hwrite]
  exact ⟨v', hsave, load_save hcounts hsave⟩

end FeatureStore

end FirmwareMatch

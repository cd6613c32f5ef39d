import FirmwareMatch.Proofs.Json.RoundTrip
import FirmwareMatch.Proofs.Table.Rows
import FirmwareMatch.Table.Document

/-
  A table is its document.

  The document has one entry for each set of the table, and an entry has all that a set has. Read
  back, an entry is merged into an empty set, which gives the set again: the larger of zero and a
  number is the number, and the features are inserted one after another.

  Counts of a document have 64 bits, so the numbers of all digests must fit into them.

  Proved:
  * `ProjectEntry.ofJson_toJson`, `ofJson_toJson`: entries and documents are decoded.
  * `getElem?_projects_ofEntries`: a project in the table of any entries.
  * `projects_ofEntries_entries`: the table of the entries of a table.
  * `parse_renderJson`: the text of a table is read as its entries.
-/

namespace FirmwareMatch

open Json Std SortedMap

/-! ## Decoding -/

namespace ProjectEntry

theorem featureOfJson_record (f : String × Digest) :
    featureOfJson (.record [("opcode", .str f.1), ("hash", .str f.2)]) = .ok f := by
  unfold featureOfJson
  rw [asRecord_record (by simp) (by simp)]
  simp [Members.required, List.lookup_cons, asString_str, bind, Except.bind, pure, Except.pure]

/-- An entry is decoded from its members if its number of digests has 64 bits. -/
theorem ofJson_toJson {e : ProjectEntry} (h : e.rawFeatureCount ≤ maxCount) :
    ofJson e.toJson = .ok e := by
  have hfeatures : asList featureOfJson (.array (e.features.map fun f =>
      .record [("opcode", .str f.1), ("hash", .str f.2)])) = .ok e.features :=
    asList_map fun f _ => featureOfJson_record f
  unfold ofJson toJson
  rw [asRecord_record (by simp) (by simp)]
  simp only [Members.required, Members.optional, List.lookup_cons, bind, Except.bind, pure,
    Except.pure, asString_str, String.reduceBEq, asCount_ofNat h, hfeatures]

end ProjectEntry

namespace UniqueTable

/-- What a document says of a table. -/
def entries (t : UniqueTable) : List ProjectEntry :=
  t.projects.values.map ProjectEntry.ofSet

/-- The numbers of all digests have 64 bits, as every count of a document. -/
def HasCounts (t : UniqueTable) : Prop :=
  ∀ (p : String) (s : UniqueSet), t.projects[p]? = some s → s.rawCount ≤ maxCount

theorem ofJson_toJson {t : UniqueTable} (h : t.HasCounts) :
    ofJson t.toJson = .ok (ofEntries t.entries) := by
  have hentries : asList ProjectEntry.ofJson (.array (t.projects.values.map fun s =>
      (ProjectEntry.ofSet s).toJson)) = .ok t.entries := by
    rw [← Function.comp_def, ← List.map_map]
    refine asList_map fun e he => ?_
    obtain ⟨s, hs, rfl⟩ := List.mem_map.mp he
    rw [values_eq_map_snd] at hs
    obtain ⟨⟨p, s⟩, hp, rfl⟩ := List.mem_map.mp hs
    exact ProjectEntry.ofJson_toJson (h p s (ExtTreeMap.mem_toList_iff_getElem?_eq_some.mp hp))
  unfold ofJson toJson
  rw [asRecord_record (by simp) (by simp)]
  simp [Members.required, hentries, bind, Except.bind, pure, Except.pure]

/-! ## Merging -/

/-- A project is known if an entry names it, and has what its entries say. -/
theorem getElem?_projects_ofEntries (es : List ProjectEntry) (name : String) :
    (ofEntries es).projects[name]? =
      if (es.filter fun e => e.name == name).isEmpty then none
      else some ((es.filter fun e => e.name == name).foldl (fun s e => mergeEntry e s)
        ⟨name, 0, ∅⟩) :=
  getElem?_projects_foldl_changeSet ProjectEntry.name (fun s e => mergeEntry e s) es name

/-- The entry of a set, merged into an empty set, gives the set. -/
theorem mergeEntry_ofSet (s : UniqueSet) :
    mergeEntry (ProjectEntry.ofSet s) ⟨s.project, 0, ∅⟩ = s := by
  have hfeatures : (ProjectEntry.ofSet s).features.foldl (fun m f => m.insert f.2 f.1) ∅ =
      s.features := by
    rw [ProjectEntry.ofSet, List.foldl_map]
    exact foldl_insert_toList s.features
  rw [mergeEntry, hfeatures]
  simp [ProjectEntry.ofSet]

/-- The table of the entries of a table has its projects, each with its set. -/
theorem projects_ofEntries_entries {t : UniqueTable} (h : t.Keyed) :
    (ofEntries t.entries).projects = t.projects := by
  apply ExtTreeMap.ext_getElem?
  intro name
  have hown : (t.entries.filter fun e => e.name == name) =
      t.projects[name]?.toList.map ProjectEntry.ofSet := by
    rw [← filter_values h, entries, List.filter_map]
    rfl
  rw [getElem?_projects_ofEntries, hown]
  cases hs : t.projects[name]? with
  | none => rfl
  | some s =>
    have hname := h name s hs
    subst hname
    exact congrArg some (mergeEntry_ofSet s)

/-! ## Text -/

/-- The text of a table is read as its entries. -/
theorem parse_renderJson {t : UniqueTable} (h : t.HasCounts) :
    (Json.parse t.renderJson >>= ofJson) = .ok (ofEntries t.entries) := by
  rw [renderJson, Json.parse, parse?_pretty]
  exact ofJson_toJson h

end UniqueTable

end FirmwareMatch

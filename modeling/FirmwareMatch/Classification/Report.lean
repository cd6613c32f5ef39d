import FirmwareMatch.Classification.Score
import FirmwareMatch.Fingerprint
import FirmwareMatch.Text.Columns

/-
  Reports: the ranking of one firmware, with the counts of its fingerprint, and its text.

  Main statement: the ranks of a report are 1, 2, 3 and so on.
-/

namespace FirmwareMatch

open Text

/-- The result for one firmware. -/
structure Report where
  /-- The name under which the firmware is shown. -/
  firmware : String
  instructionCount : Nat
  distinctDigests : Nat
  /-- The records in the order of their ranks. -/
  records : List ScoreRecord
deriving Repr

namespace Report

/-- The records with their ranks. -/
def ranked (r : Report) : List (Nat × ScoreRecord) :=
  (r.records.zipIdx 1).map fun (record, rank) => (rank, record)

/-- Ranks count from one. -/
theorem map_fst_ranked (r : Report) : r.ranked.map Prod.fst = List.range' 1 r.records.length := by
  simp only [ranked, List.map_map, Function.comp_def]
  exact List.zipIdx_map_snd 1 r.records

/-- The record of the first rank. -/
def best? (r : Report) : Option ScoreRecord :=
  r.records.head?

/-- Classifies a text against a table. -/
def ofText (c : Config) (t : UniqueTable) (name text : String) : Except Fault Report :=
  let f := Fingerprint.ofText c text
  (rankProjects f.digests t c.thresholds).map fun records =>
    ⟨name, f.listing.instructionCount, f.digests.size, records⟩

/-! ## Text -/

/-- The line above and below the heading. -/
def rule : String :=
  String.ofList (List.replicate 80 '=')

/-- One line of the table: five padded columns and the tier. -/
def tableLine (rank project similarity matched total tier : String) : String :=
  padRight 5 rank ++ " " ++ padRight 20 project ++ " " ++ padRight 12 similarity ++ " " ++
    padRight 10 matched ++ " " ++ padRight 10 total ++ " " ++ tier

/-- The line of a record. -/
def recordLine (rank : Nat) (r : ScoreRecord) : String :=
  tableLine (toString rank) r.project (Decimal.placesText 3 r.similarity) (toString r.matched)
    (toString r.total) r.tier.name

/-- The lines that tell the best match. -/
def bestLines (r : ScoreRecord) : List String :=
  ["",
   "Best Match:",
   "  Project: " ++ r.project,
   "  Similarity: " ++ Decimal.placesText 3 r.similarity ++ " (" ++
     Decimal.placesText 1 (r.similarity * 100.0) ++ "%)",
   "  Matched Features: " ++ toString r.matched ++ "/" ++ toString r.total,
   "  Confidence: " ++ r.tier.name]

/-- The text of a report with at most `limit` records in the table. -/
def render (r : Report) (limit : Nat) : String :=
  joinLines <|
    ["Classification Results for " ++ r.firmware,
     "Instructions: " ++ toString r.instructionCount ++ "  Distinct features: " ++
       toString r.distinctDigests,
     rule,
     tableLine "Rank" "Project" "Similarity" "Matched" "Total" "Confidence",
     rule] ++
    (r.ranked.take limit).map (fun (rank, record) => recordLine rank record) ++
    (r.best?.map bestLines).getD []

/-! ## JSON -/

/-- The members of a record. -/
def recordMembers (r : ScoreRecord) : List (String × Json) :=
  [("project", .str r.project),
   ("similarity", .ofFloat r.similarity),
   ("matched_count", .ofNat r.matched),
   ("total_unique_count", .ofNat r.total),
   ("confidence", .str r.tier.name)]

/-- A report as a JSON value; a rank stands beside the members of its record. -/
def toJson (r : Report) : Json :=
  .record
    [("firmware", .str r.firmware),
     ("instruction_count", .ofNat r.instructionCount),
     ("distinct_digests", .ofNat r.distinctDigests),
     ("records", .array <|
       r.ranked.map fun (rank, record) => .record (("rank", .ofNat rank) :: recordMembers record))]

end Report

end FirmwareMatch

import FirmwareMatch.Config.Basic
import FirmwareMatch.Listing.Reader
import FirmwareMatch.Text.Columns
import Std.Data.ExtTreeSet

/-
  Fingerprints: the features of a listing with their digests, as text and as JSON.

  Main statement: a fingerprint has one feature per instruction that was read.
-/

namespace FirmwareMatch

/-- The features of one listing, and the listing they come from. -/
structure Fingerprint where
  listing : Listing
  /-- One feature per instruction, in the order of the text. -/
  features : List DigestedFeature

namespace Fingerprint

/-- The fingerprint of a text. -/
def ofText (c : Config) (text : String) : Fingerprint :=
  let listing := Listing.parse c.codeSections text
  ⟨listing, (extractFeatures c.branchPolicy listing.blocks).map Feature.digested⟩

/-- The distinct digests. -/
def digests (f : Fingerprint) : Std.ExtTreeSet Digest :=
  f.features.foldl (fun s d => s.insert d.digest) ∅

/-- The features of a text carry the mnemonics of its instructions, in order. -/
theorem map_mnemonic_features (c : Config) (text : String) :
    (ofText c text).features.map (·.feature.mnemonic) =
      (Listing.parse c.codeSections text).instructions.map Instruction.mnemonic := by
  have h := map_mnemonic_extractFeatures c.branchPolicy (Listing.parse c.codeSections text).blocks
  simpa [ofText, Listing.instructions, Feature.digested, Function.comp_def] using h

/-! ## Text -/

/-- The line of a feature. -/
def featureLine (d : DigestedFeature) : String :=
  "  - " ++ Text.padRight 8 d.feature.mnemonic ++ " " ++
    Text.padRight 16 d.feature.vector.render ++ " " ++ d.digest

/-- The text of a fingerprint under the name `name`. -/
def render (f : Fingerprint) (name : String) : String :=
  Text.joinLines <|
    ["Features for " ++ name ++ ":",
     "  Lines: " ++ toString f.listing.lineCount ++ "  Instructions: " ++
       toString f.listing.instructionCount ++ "  Blocks: " ++ toString f.listing.blockCount ++
       "  Skipped: " ++ toString f.listing.skippedCount,
     "  Distinct digests: " ++ toString f.digests.size] ++
    if f.features.isEmpty then ["  (none)"] else f.features.map featureLine

/-! ## JSON -/

/-- The counts of a listing as a JSON value. -/
def countsJson (l : Listing) : Json :=
  .record
    [("lines", .ofNat l.lineCount),
     ("instructions", .ofNat l.instructionCount),
     ("skipped_lines", .ofNat l.skippedCount),
     ("blocks", .ofNat l.blockCount)]

/-- A feature and its digest as a JSON value. -/
def featureJson (d : DigestedFeature) : Json :=
  .record
    [("feature", .record
      [("mnemonic", .str d.feature.mnemonic),
       ("vector", .record
         [("opcode_offset", .ofInt d.feature.vector.opcode.toInt),
          ("codeblock_offset", .ofInt d.feature.vector.block.toInt),
          ("branch_offset", .ofInt d.feature.vector.branch.toInt)])]),
     ("digest", .str d.digest)]

/-- A fingerprint as a JSON value. -/
def toJson (f : Fingerprint) : Json :=
  .record
    [("stats", countsJson f.listing), ("features", .array (f.features.map featureJson))]

end Fingerprint

end FirmwareMatch

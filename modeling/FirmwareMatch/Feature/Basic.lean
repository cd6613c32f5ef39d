import FirmwareMatch.Json.Printer
import FirmwareMatch.Sha256

/-
  Features: a mnemonic with the place of its instruction, independent of addresses, and the digest
  under which features are compared. The digest is one of the canonical encoding, a JSON object.
-/

namespace FirmwareMatch

/-- Where an instruction stands: its position in its block, the index of the block in its section,
and for a branch the signed distance to its target. -/
structure OffsetVector where
  opcode : Int64
  block : Int64
  branch : Int64
deriving DecidableEq, Repr

/-- The text of a vector, `[1, 0, -2]`. -/
def OffsetVector.render (v : OffsetVector) : String :=
  "[" ++ toString v.opcode.toInt ++ ", " ++ toString v.block.toInt ++ ", " ++
    toString v.branch.toInt ++ "]"

/-- A mnemonic and a place. -/
structure Feature where
  mnemonic : String
  vector : OffsetVector
deriving DecidableEq, Repr

/-- The text under which features are compared. -/
abbrev Digest := String

/-- The members of the canonical encoding, in ascending order of their names. -/
def Feature.canonical (f : Feature) : Json :=
  .record
    [("branch_offset", .ofInt f.vector.branch.toInt),
     ("codeblock_offset", .ofInt f.vector.block.toInt),
     ("mnemonic", .str f.mnemonic),
     ("opcode_offset", .ofInt f.vector.opcode.toInt)]

/-- The canonical encoding: a JSON object on one line. -/
def Feature.encoding (f : Feature) : String :=
  f.canonical.compact

/-- The SHA-256 digest of the canonical encoding. -/
def Feature.digest (f : Feature) : Digest :=
  Sha256.hexDigest f.encoding.toUTF8

/-- A feature with the digest under which it is compared. -/
structure DigestedFeature where
  feature : Feature
  digest : Digest
deriving DecidableEq, Repr

/-- A feature with its own digest. -/
def Feature.digested (f : Feature) : DigestedFeature :=
  ⟨f, f.digest⟩

end FirmwareMatch

import FirmwareMatch.Proofs.Feature.Placement
import FirmwareMatch.Proofs.Listing.Progress

/-
  Text that is appended to another one.

  No line of a listing depends on a later one. So a text that goes on from another one, behind a
  line feed, is read as if the reader of the first had gone on, and the blocks of the first are
  continued (`Continues`). The features of the first stay in their places; only the distances of
  branches may change, since more targets can be named.

  Proved:
  * `run_ofText_append`: reading goes on where the first text ends.
  * `countsUp_run`: no counter falls.
  * `Continues.places_prefix`: features keep their mnemonics and places.
  * `parse_append`: the listing and the features of the longer text.
-/

namespace FirmwareMatch

open Std Text

/-! ## Texts -/

/-- Behind a line feed a text is read as if it stood on its own. -/
theorem run_ofText_append (sections : List String) (text more : String) (r : Reader) :
    r.run (Line.ofText sections (text ++ "\n" ++ more)) =
      (r.run (Line.ofText sections text)).run (Line.ofText sections more) := by
  have hchars : (text ++ "\n" ++ more).toList = text.toList ++ '\n' :: more.toList := by
    simp [String.toList_append]
  rw [run_ofText_fields, run_ofText_fields, run_ofText_fields, hchars, fields_append rfl,
    List.map_append, Reader.run_append]

/-! ## Counters -/

namespace Reader

/-- No counter of lines has fallen from `r` to `s`. -/
structure CountsUp (r s : Reader) : Prop where
  instructionCount : r.instructionCount ≤ s.instructionCount
  skippedCount : r.skippedCount ≤ s.skippedCount

theorem CountsUp.refl (r : Reader) : CountsUp r r :=
  ⟨Nat.le_refl _, Nat.le_refl _⟩

theorem CountsUp.trans {r s t : Reader} (h : CountsUp r s) (h' : CountsUp s t) : CountsUp r t :=
  ⟨Nat.le_trans h.1 h'.1, Nat.le_trans h.2 h'.2⟩

theorem countsUp_close (r : Reader) : CountsUp r r.close :=
  ⟨by rw [close_instructionCount], by rw [close_skippedCount]⟩

theorem countsUp_enter (r : Reader) (code : Option String) : CountsUp r (r.enter code) :=
  ⟨(countsUp_close r).instructionCount, (countsUp_close r).skippedCount⟩

theorem countsUp_addLabel (r : Reader) (name : String) : CountsUp r (r.addLabel name) :=
  ⟨(countsUp_close r).instructionCount, (countsUp_close r).skippedCount⟩

theorem countsUp_addContent (r : Reader) (name : String) (c : Content) :
    CountsUp r (r.addContent name c) := by
  cases c with
  | instruction s => exact ⟨Nat.le_succ _, Nat.le_refl _⟩
  | unknown => exact ⟨Nat.le_refl _, Nat.le_succ _⟩

theorem countsUp_addCodeLine (r : Reader) (name : String) (l : Line) :
    CountsUp r (r.addCodeLine name l) := by
  cases l with
  | blank => exact .refl r
  | marker code => exact .refl r
  | content c => exact countsUp_addContent r name c
  | label label after =>
    have hlabel := countsUp_addLabel r label
    cases after with
    | none => exact hlabel
    | some c => exact hlabel.trans (countsUp_addContent _ name c)

theorem countsUp_step (r : Reader) (l : Line) : CountsUp r (r.step l) := by
  rcases step_cases r l with ⟨code, -, hstep⟩ | ⟨-, -, hstep⟩ | ⟨name, -, -, hstep⟩ <;> rw [hstep]
  · exact countsUp_enter r code
  · exact .refl r
  · exact countsUp_addCodeLine r name l

theorem countsUp_run (r : Reader) (ls : List Line) : CountsUp r (r.run ls) := by
  induction ls generalizing r with
  | nil => exact .refl r
  | cons l ls ih => exact (countsUp_step r l).trans (ih (r.step l))

end Reader

/-! ## Blocks -/

/-- Every block stands in its place in blocks that go on, perhaps with more instructions. -/
theorem Continues.exists_getElem? {bs bs' : List Block} (h : Continues bs bs') {k : Nat}
    {b : Block} (hb : bs[k]? = some b) :
    ∃ more, bs'[k]? = some { b with instructions := b.instructions ++ more } := by
  obtain ⟨hk, rfl⟩ := List.getElem?_eq_some_iff.mp hb
  have hprefix : bs.take k ++ [bs[k]] <+: bs := by
    rw [List.take_append_getElem]
    exact List.take_prefix _ _
  obtain ⟨more, rest, rfl⟩ := h.exists_append hprefix
  refine ⟨more, ?_⟩
  rw [List.append_assoc, List.getElem?_append_right (by simp)]
  simp [Nat.min_eq_left (Nat.le_of_lt hk)]

/-- All but the last one stay as they are. -/
theorem Continues.getElem?_of_lt {bs bs' : List Block} (h : Continues bs bs') {k : Nat}
    (hk : k + 1 < bs.length) : bs'[k]? = bs[k]? := by
  rcases List.eq_nil_or_concat' bs with rfl | ⟨cs, b, rfl⟩
  · simp at hk
  · obtain ⟨more, rest, rfl⟩ := h cs b rfl
    rw [List.length_append, List.length_singleton] at hk
    rw [List.append_assoc, List.getElem?_append_left (by omega),
      List.getElem?_append_left (by omega)]

theorem Continues.length_le {bs bs' : List Block} (h : Continues bs bs') :
    bs.length ≤ bs'.length := by
  rcases List.eq_nil_or_concat' bs with rfl | ⟨cs, b, rfl⟩
  · exact Nat.zero_le _
  · obtain ⟨more, hmore⟩ := h cs b rfl
    simpa using hmore.length_le

/-! ## Features -/

/-- A feature without its branch distance. -/
def Feature.place (f : Feature) : String × Int64 × Int64 :=
  (f.mnemonic, f.vector.opcode, f.vector.block)

/-- The mnemonics of blocks with the places that the blocks themselves say. -/
def places (blocks : List Block) : List (String × Int64 × Int64) :=
  blocks.flatMap fun b =>
    b.instructions.map fun i => (i.mnemonic, Int64.ofNat i.position, Int64.ofNat b.index)

/-- The distance of a branch is all that features take from other blocks. -/
theorem map_place_extractFeatures (policy : BranchPolicy) (blocks : List Block) :
    (extractFeatures policy blocks).map Feature.place = places blocks := by
  have hplaces : places blocks = (occurrences blocks).map fun o =>
      (o.instruction.mnemonic, Int64.ofNat o.instruction.position, Int64.ofNat o.block.index) := by
    induction blocks using List.reverseRecOn with
    | nil => rfl
    | append_singleton bs b ih =>
      rw [occurrences_concat, List.map_append, ← ih, places, List.flatMap_append, List.map_map]
      simp [places, Function.comp_def]
  rw [extractFeatures_eq, List.map_map, hplaces]
  rfl

theorem Continues.places_prefix {bs bs' : List Block} (h : Continues bs bs') :
    places bs <+: places bs' := by
  rcases List.eq_nil_or_concat' bs with rfl | ⟨cs, b, rfl⟩
  · exact List.nil_prefix
  · obtain ⟨more, rest, rfl⟩ := h cs b rfl
    simp [places]

/-! ## The longer text -/

/-- A listing is stable under appended text: of the blocks only the last one may get more
    instructions, no counter falls, and every feature stays where it is, apart from the distance of
    its branch. -/
theorem Listing.parse_append (sections : List String) (text more : String) :
    let l := Listing.parse sections text
    let l' := Listing.parse sections (text ++ "\n" ++ more)
    (∀ (k : Nat) (b : Block), l.blocks[k]? = some b →
      (k + 1 < l.blocks.length → l'.blocks[k]? = some b) ∧
      ∃ added, l'.blocks[k]? = some { b with instructions := b.instructions ++ added }) ∧
    l.instructionCount ≤ l'.instructionCount ∧ l.skippedCount ≤ l'.skippedCount ∧
    l.blockCount ≤ l'.blockCount ∧
    ∀ policy,
      (extractFeatures policy l.blocks).length ≤ (extractFeatures policy l'.blocks).length ∧
      ∀ (k : Nat) (f : Feature), (extractFeatures policy l.blocks)[k]? = some f →
        ∃ f', (extractFeatures policy l'.blocks)[k]? = some f' ∧ f'.mnemonic = f.mnemonic ∧
          f'.vector.opcode = f.vector.opcode ∧ f'.vector.block = f.vector.block := by
  intro l l'
  let r := Reader.start.run (Line.ofText sections text)
  have hrun : Reader.start.run (Line.ofText sections (text ++ "\n" ++ more)) =
      r.run (Line.ofText sections more) := run_ofText_append sections text more Reader.start
  have hblocks : Continues l.blocks l'.blocks := by
    have hcontinues := Reader.continues_run r (Line.ofText sections more)
    rwa [← hrun] at hcontinues
  have hcounts := Reader.countsUp_run r (Line.ofText sections more)
  rw [← hrun] at hcounts
  refine ⟨fun k b hb => ⟨fun hk => ?_, hblocks.exists_getElem? hb⟩, ?_, ?_, ?_, fun policy => ?_⟩
  · rw [hblocks.getElem?_of_lt hk, hb]
  · simpa [l, l', Listing.parse] using hcounts.instructionCount
  · simpa [l, l', Listing.parse] using hcounts.skippedCount
  · rw [(Listing.wellFormed_parse sections text).blockCount,
      (Listing.wellFormed_parse sections _).blockCount]
    exact hblocks.length_le
  · have hplaces := hblocks.places_prefix
    rw [← map_place_extractFeatures policy, ← map_place_extractFeatures policy] at hplaces
    refine ⟨by simpa using hplaces.length_le, fun k f hf => ?_⟩
    have hplace : ((extractFeatures policy l'.blocks).map Feature.place)[k]? = some f.place := by
      have hk : ((extractFeatures policy l.blocks).map Feature.place)[k]? = some f.place := by
        rw [List.getElem?_map, hf, Option.map_some]
      obtain ⟨rest, hrest⟩ := hplaces
      rw [← hrest, List.getElem?_append_left (List.getElem?_eq_some_iff.mp hk).1, hk]
    rw [List.getElem?_map, Option.map_eq_some_iff] at hplace
    obtain ⟨f', hf', heq⟩ := hplace
    simp only [Feature.place, Prod.mk.injEq] at heq
    exact ⟨f', hf', heq.1, heq.2.1, heq.2.2⟩

/-- Appended text that goes on with the last block and ends with the target of a branch of the first
    text: the distance of this branch is not the same. -/
theorem Listing.parse_append_target :
    let text := ".text\nfirst: nop\nlast: b end"
    let l := Listing.parse [".text"] text
    let l' := Listing.parse [".text"] (text ++ "\n" ++ "nop\n.align 2\nend: nop\n")
    let first : Block := ⟨".text", 0, some "first", [], [⟨"nop", [], 0, none⟩]⟩
    let last : Block := ⟨".text", 1, some "last", [], [⟨"b", ["end"], 0, none⟩]⟩
    l.blocks = [first, last] ∧ l'.blocks[0]? = some first ∧ l'.blocks[1]? ≠ some last ∧
    (∃ added, l'.blocks[1]? = some { last with instructions := last.instructions ++ added }) ∧
    l.skippedCount ≤ l'.skippedCount ∧
    let features := extractFeatures .sectionLinear l.blocks
    let features' := extractFeatures .sectionLinear l'.blocks
    features = [⟨"nop", ⟨0, 0, 0⟩⟩, ⟨"b", ⟨0, 1, 0⟩⟩] ∧
    features'.map (·.vector.branch) = [0, 2, 0, 0] ∧
    ∃ f, features'[1]? = some f ∧ f.mnemonic = "b" ∧ f.vector.opcode = 0 ∧ f.vector.block = 1 := by
  intro text l l' first last
  obtain ⟨hblocks, -, hskipped, -, hfeatures⟩ :=
    Listing.parse_append [".text"] text "nop\n.align 2\nend: nop\n"
  have hl : l.blocks = [first, last] := by decide +kernel
  have hfirst := (hblocks 0 first (by rw [hl]; rfl)).1 (by rw [hl]; decide)
  have hlast := (hblocks 1 last (by rw [hl]; rfl)).2
  refine ⟨hl, hfirst, by decide +kernel, hlast, hskipped, ?_⟩
  intro features features'
  have hf : features = [⟨"nop", ⟨0, 0, 0⟩⟩, ⟨"b", ⟨0, 1, 0⟩⟩] := by decide +kernel
  have hbranch : features[1]? = some ⟨"b", ⟨0, 1, 0⟩⟩ := by rw [hf]; rfl
  obtain ⟨f, hf', hmnemonic, hopcode, hblock⟩ := (hfeatures .sectionLinear).2 1 _ hbranch
  exact ⟨hf, by decide +kernel, f, hf', hmnemonic, hopcode, hblock⟩

end FirmwareMatch

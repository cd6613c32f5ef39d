import FirmwareMatch.Feature.Target
import FirmwareMatch.Proofs.SortedMap

/-
  What the index of branch targets holds: of several instructions at one address, and of several
  blocks under one name, the first.

  Proved:
  * `getElem?_byAddress_ofPlaced`: an address names the first instruction that has it.
  * `getElem?_byLabel_ofPlaced`: a label names the start of the first block that carries it.
  * `getElem?_labelAddress_ofPlaced`: offsets count from the first address that a block with the
    label starts at.
  * `resolve?_eq_some`: what an operand names was found by one of the two.
-/

namespace FirmwareMatch

open Std Text

namespace PlacedBlock

/-- The place of the first instruction of a block that has the address. -/
def siteAt? (p : PlacedBlock) (a : UInt64) : Option Site :=
  (p.block.instructions.find? fun i => i.address == some a).map fun i => p.site i.position

/-- The start of a block that carries the name. -/
def siteOf? (p : PlacedBlock) (name : String) : Option Site :=
  if p.block.labels.contains name then some (p.site 0) else none

/-- The address at which a block that carries the name starts. -/
def baseOf? (p : PlacedBlock) (name : String) : Option UInt64 :=
  if p.block.labels.contains name then p.block.instructions.head?.bind Instruction.address else none

end PlacedBlock

namespace TargetIndex

/-! ## One block -/

@[simp] theorem byAddress_addLabel (p : PlacedBlock) (t : TargetIndex) (name : String) :
    (addLabel p t name).byAddress = t.byAddress := rfl

@[simp] theorem byLabel_addInstruction (p : PlacedBlock) (t : TargetIndex) (i : Instruction) :
    (addInstruction p t i).byLabel = t.byLabel := by
  unfold addInstruction
  split <;> rfl

@[simp] theorem labelAddress_addInstruction (p : PlacedBlock) (t : TargetIndex)
    (i : Instruction) : (addInstruction p t i).labelAddress = t.labelAddress := by
  unfold addInstruction
  split <;> rfl

theorem byAddress_foldl_addLabel (p : PlacedBlock) (names : List String) (t : TargetIndex) :
    (names.foldl (addLabel p) t).byAddress = t.byAddress := by
  induction names generalizing t with
  | nil => rfl
  | cons name names ih => rw [List.foldl_cons, ih, byAddress_addLabel]

theorem byLabel_foldl_addInstruction (p : PlacedBlock) (is : List Instruction) (t : TargetIndex) :
    (is.foldl (addInstruction p) t).byLabel = t.byLabel := by
  induction is generalizing t with
  | nil => rfl
  | cons i is ih => rw [List.foldl_cons, ih, byLabel_addInstruction]

theorem labelAddress_foldl_addInstruction (p : PlacedBlock) (is : List Instruction)
    (t : TargetIndex) : (is.foldl (addInstruction p) t).labelAddress = t.labelAddress := by
  induction is generalizing t with
  | nil => rfl
  | cons i is ih => rw [List.foldl_cons, ih, labelAddress_addInstruction]

theorem getElem?_byLabel_foldl_addLabel (p : PlacedBlock) (names : List String) (t : TargetIndex)
    (name : String) :
    (names.foldl (addLabel p) t).byLabel[name]? =
      t.byLabel[name]?.or (if names.contains name then some (p.site 0) else none) := by
  induction names generalizing t with
  | nil => simp
  | cons n names ih =>
    rw [List.foldl_cons, ih]
    simp only [addLabel, SortedMap.getElem?_insertIfNew_or, Option.or_assoc]
    congr 1
    by_cases h : n = name
    · simp [h]
    · simp [h, Ne.symm h]

theorem getElem?_labelAddress_addLabel (p : PlacedBlock) (t : TargetIndex) (n name : String) :
    (addLabel p t n).labelAddress[name]? = t.labelAddress[name]?.or
      (if n = name then p.block.instructions.head?.bind Instruction.address else none) := by
  unfold addLabel
  cases p.block.instructions.head?.bind Instruction.address with
  | none => simp
  | some a => exact SortedMap.getElem?_insertIfNew_or t.labelAddress n name a

theorem getElem?_labelAddress_foldl_addLabel (p : PlacedBlock) (names : List String)
    (t : TargetIndex) (name : String) :
    (names.foldl (addLabel p) t).labelAddress[name]? = t.labelAddress[name]?.or
      (if names.contains name then p.block.instructions.head?.bind Instruction.address
        else none) := by
  induction names generalizing t with
  | nil => simp
  | cons n names ih =>
    rw [List.foldl_cons, ih, getElem?_labelAddress_addLabel, Option.or_assoc]
    congr 1
    by_cases h : n = name
    · cases p.block.instructions.head?.bind Instruction.address <;> simp [h]
    · simp [h, Ne.symm h]

theorem getElem?_byAddress_addInstruction (p : PlacedBlock) (t : TargetIndex) (i : Instruction)
    (a : UInt64) :
    (addInstruction p t i).byAddress[a]? =
      t.byAddress[a]?.or (if i.address = some a then some (p.site i.position) else none) := by
  unfold addInstruction
  split
  · rename_i b hb
    simp only [SortedMap.getElem?_insertIfNew_or, hb, Option.some.injEq]
  · rename_i hnone
    simp [hnone]

theorem getElem?_byAddress_foldl_addInstruction (p : PlacedBlock) (is : List Instruction)
    (t : TargetIndex) (a : UInt64) :
    (is.foldl (addInstruction p) t).byAddress[a]? =
      t.byAddress[a]?.or
        ((is.find? fun i => i.address == some a).map fun i => p.site i.position) := by
  induction is generalizing t with
  | nil => simp
  | cons i is ih =>
    rw [List.foldl_cons, ih, getElem?_byAddress_addInstruction, Option.or_assoc]
    congr 1
    by_cases h : i.address = some a
    · simp [h]
    · simp [h]

theorem getElem?_byAddress_addBlock (t : TargetIndex) (p : PlacedBlock) (a : UInt64) :
    (t.addBlock p).byAddress[a]? = t.byAddress[a]?.or (p.siteAt? a) := by
  unfold addBlock
  rw [getElem?_byAddress_foldl_addInstruction, byAddress_foldl_addLabel]
  rfl

theorem getElem?_byLabel_addBlock (t : TargetIndex) (p : PlacedBlock) (name : String) :
    (t.addBlock p).byLabel[name]? = t.byLabel[name]?.or (p.siteOf? name) := by
  unfold addBlock
  rw [byLabel_foldl_addInstruction, getElem?_byLabel_foldl_addLabel]
  rfl

theorem getElem?_labelAddress_addBlock (t : TargetIndex) (p : PlacedBlock) (name : String) :
    (t.addBlock p).labelAddress[name]? = t.labelAddress[name]?.or (p.baseOf? name) := by
  unfold addBlock
  rw [labelAddress_foldl_addInstruction, getElem?_labelAddress_foldl_addLabel]
  rfl

/-! ## A listing -/

/-- If every step adds what `g` finds behind what `f` looks up, a fold adds the first find. -/
theorem foldl_or_findSome? {σ γ β : Type} {step : σ → γ → σ} {f : σ → Option β}
    {g : γ → Option β} (h : ∀ s x, f (step s x) = (f s).or (g x)) (xs : List γ) (s : σ) :
    f (xs.foldl step s) = (f s).or (xs.findSome? g) := by
  induction xs generalizing s with
  | nil => simp
  | cons x xs ih =>
    rw [List.foldl_cons, ih, h, Option.or_assoc]
    congr 1
    cases hx : g x <;> simp [hx]

/-- An address names the first instruction that has it. -/
theorem getElem?_byAddress_ofPlaced (placed : List PlacedBlock) (a : UInt64) :
    (ofPlaced placed).byAddress[a]? = placed.findSome? fun p => p.siteAt? a := by
  unfold ofPlaced
  rw [foldl_or_findSome? (f := fun t : TargetIndex => t.byAddress[a]?)
    fun t p => getElem?_byAddress_addBlock t p a]
  simp [empty]

/-- A label names the start of the first block that carries it. -/
theorem getElem?_byLabel_ofPlaced (placed : List PlacedBlock) (name : String) :
    (ofPlaced placed).byLabel[name]? = placed.findSome? fun p => p.siteOf? name := by
  unfold ofPlaced
  rw [foldl_or_findSome? (f := fun t : TargetIndex => t.byLabel[name]?)
    fun t p => getElem?_byLabel_addBlock t p name]
  simp [empty]

/-- Offsets from a label count from the first address that a block with this label starts at. -/
theorem getElem?_labelAddress_ofPlaced (placed : List PlacedBlock) (name : String) :
    (ofPlaced placed).labelAddress[name]? = placed.findSome? fun p => p.baseOf? name := by
  unfold ofPlaced
  rw [foldl_or_findSome? (f := fun t : TargetIndex => t.labelAddress[name]?)
    fun t p => getElem?_labelAddress_addBlock t p name]
  simp [empty]

/-! ## Operands -/

theorem ofSymbol?_eq_some {t : TargetIndex} {symbol : List Char} {s : Site}
    (h : t.ofSymbol? symbol = some s) :
    (∃ a : UInt64, t.byAddress[a]? = some s) ∨ ∃ name : String, t.byLabel[name]? = some s := by
  unfold ofSymbol? at h
  split at h
  · exact Or.inr ⟨_, h⟩
  · obtain ⟨offset, _, h⟩ := Option.bind_eq_some_iff.mp h
    split at h
    · exact Or.inr ⟨_, h⟩
    · obtain ⟨base, _, h⟩ := Option.bind_eq_some_iff.mp h
      obtain ⟨a, _, h⟩ := Option.bind_eq_some_iff.mp h
      exact Or.inl ⟨a, h⟩

/-- What an operand names is an entry of the index, under an address or under a name. -/
theorem resolve?_eq_some {t : TargetIndex} {i : Instruction} {s : Site}
    (h : t.resolve? i = some s) :
    (∃ a : UInt64, t.byAddress[a]? = some s) ∨ ∃ name : String, t.byLabel[name]? = some s := by
  unfold resolve? at h
  obtain ⟨operand, _, h⟩ := Option.bind_eq_some_iff.mp h
  unfold ofOperand? at h
  dsimp only at h
  split at h
  · rename_i site hsite
    obtain ⟨a, _, ha⟩ := Option.bind_eq_some_iff.mp hsite
    exact Or.inl ⟨a, ha.trans h⟩
  · split at h
    · exact ofSymbol?_eq_some h
    · exact Or.inr ⟨_, h⟩

end TargetIndex

end FirmwareMatch

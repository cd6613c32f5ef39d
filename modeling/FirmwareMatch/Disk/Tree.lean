/-
  Trees of directories and files, whatever the files hold.

  Main statement: changing what the files hold changes neither the names nor the shape.
-/

namespace FirmwareMatch

/-- A file, or a directory with its entries in no particular order. -/
inductive FileTree (α : Type) where
  | file (content : α)
  | directory (entries : List (String × FileTree α))

namespace FileTree

variable {α β : Type}

/-- The entries of a directory; a file has none. -/
def entries : FileTree α → List (String × FileTree α)
  | .file _ => []
  | .directory es => es

/-- Whether a tree is a directory. -/
def isDirectory : FileTree α → Bool
  | .file _ => false
  | .directory _ => true

/-- The entry of that name. -/
def child? (t : FileTree α) (name : String) : Option (FileTree α) :=
  t.entries.lookup name

/-- The tree below the given names. -/
def descend? : FileTree α → List String → Option (FileTree α)
  | t, [] => some t
  | t, name :: names => (t.child? name).bind fun c => c.descend? names

@[simp] theorem descend?_nil (t : FileTree α) : t.descend? [] = some t := rfl

theorem descend?_append (t : FileTree α) (xs ys : List String) :
    t.descend? (xs ++ ys) = (t.descend? xs).bind fun c => c.descend? ys := by
  induction xs generalizing t with
  | nil => rfl
  | cons x xs ih =>
    simp only [List.cons_append, descend?]
    cases t.child? x with
    | none => rfl
    | some c => simpa using ih c

/-- Entries with `tree` under `name`, in the place of what stood there. -/
def setEntry (name : String) (tree : FileTree α) :
    List (String × FileTree α) → List (String × FileTree α)
  | [] => [(name, tree)]
  | e :: es => if e.1 == name then (name, tree) :: es else e :: setEntry name tree es

theorem lookup_setEntry (name other : String) (tree : FileTree α)
    (es : List (String × FileTree α)) :
    (setEntry name tree es).lookup other =
      if other = name then some tree else es.lookup other := by
  induction es with
  | nil =>
    by_cases h : other = name
    · simp [setEntry, h]
    · have : (other == name) = false := by simpa using h
      simp [setEntry, List.lookup_cons, this, h]
  | cons e es ih =>
    obtain ⟨key, t⟩ := e
    by_cases hk : key = name
    · by_cases h : other = name
      · simp [setEntry, hk, h]
      · have : (other == name) = false := by simpa using h
        simp [setEntry, hk, h, List.lookup_cons, this]
    · have hkb : (key == name) = false := by simpa using hk
      by_cases h : other = key
      · subst h; simp [setEntry, hkb, hk]
      · have : (other == key) = false := by simpa using h
        simp [setEntry, hkb, List.lookup_cons, this, ih]

/-- Puts `tree` below the given names. Directories on the way must be there. -/
def put? (tree : FileTree α) : List String → FileTree α → Option (FileTree α)
  | [], _ => some tree
  | _ :: _, .file _ => none
  | [name], .directory es => some (.directory (setEntry name tree es))
  | name :: names, .directory es =>
    match es.lookup name with
    | some c => (put? tree names c).map fun c => .directory (setEntry name c es)
    | none => none

mutual

/-- What every file holds, with the names that lead to it. -/
def files : FileTree α → List (List String × α)
  | .file content => [([], content)]
  | .directory es => filesOf es

/-- What every file below entries holds, with the names that lead to it. -/
def filesOf : List (String × FileTree α) → List (List String × α)
  | [] => []
  | (name, t) :: es => (files t).map (fun (names, content) => (name :: names, content)) ++ filesOf es

end

mutual

/-- The same tree with other contents; `f` also gets the names that lead to a file, backwards. -/
def mapFiles (f : List String → α → β) (above : List String) : FileTree α → FileTree β
  | .file content => .file (f above content)
  | .directory es => .directory (mapEntries f above es)

/-- The same entries with other contents. -/
def mapEntries (f : List String → α → β) (above : List String) :
    List (String × FileTree α) → List (String × FileTree β)
  | [] => []
  | (name, t) :: es => (name, mapFiles f (name :: above) t) :: mapEntries f above es

end

theorem map_fst_mapEntries (f : List String → α → β) (above : List String)
    (es : List (String × FileTree α)) :
    (mapEntries f above es).map Prod.fst = es.map Prod.fst := by
  induction es with
  | nil => rfl
  | cons e es ih => simp [mapEntries, ih]

end FileTree

end FirmwareMatch

import ArgusBackend.Library.Table
import ArgusBackend.Library.Words

/-!
# Flat diffs of JSON objects

A diff of two objects names the members that differ by their paths, and the changes of two diffs are
merged path by path.

* `Value` : JSON, over the values that are neither null nor nested;
* `createFlatDiff`, `compareChanges` : diffs and their merging;
* `setByPath`, `applyChanges` : what a diff does to an object.
-/

namespace ArgusBackend

namespace Text

namespace JsonDiff

/-- The name of a member, or a path as the names with dots between. -/
abbrev Name := List Char

/-- JSON; numbers, strings and booleans are scalars.  An object names each member once. -/
inductive Value (σ : Type) where
  | null
  | scalar (value : σ)
  | arr (items : List (Value σ))
  | obj (fields : List (Name × Value σ))

variable {σ : Type}

namespace Value

mutual

/-- `operator==` -/
def same [DecidableEq σ] : Value σ → Value σ → Bool
  | .null, .null => true
  | .scalar a, .scalar b => a = b
  | .arr items, .arr items' => sameItems items items'
  | .obj fields, .obj fields' => sameFields fields fields'
  | _, _ => false

/-- Two arrays are equal. -/
def sameItems [DecidableEq σ] : List (Value σ) → List (Value σ) → Bool
  | [], [] => true
  | a :: items, b :: items' => same a b && sameItems items items'
  | _, _ => false

/-- Two objects are equal, name by name. -/
def sameFields [DecidableEq σ] : List (Name × Value σ) → List (Name × Value σ) → Bool
  | [], [] => true
  | (k, a) :: fields, (k', b) :: fields' => k = k' && same a b && sameFields fields fields'
  | _, _ => false

end

/-- The members of an object; other values have none. -/
def fields : Value σ → List (Name × Value σ)
  | .obj fields => fields
  | _ => []

/-- `value[name]`, which is null where there is none. -/
def member (value : Value σ) (name : Name) : Value σ := (value.fields.lookup name).getD .null

/-- `value[name] = member`; an object keeps its members in the order of their names. -/
def setField (name : Name) (member : Value σ) :
    List (Name × Value σ) → List (Name × Value σ)
  | [] => [(name, member)]
  | (k, v) :: rest =>
    if name = k then (name, member) :: rest
    else if name < k then (name, member) :: (k, v) :: rest
    else (k, v) :: setField name member rest

/-- `value[index] = item`; an array is filled up with nulls. -/
def setItem (index : ℕ) (item : Value σ) (items : List (Value σ)) : List (Value σ) :=
  (items ++ List.replicate (index + 1 - items.length) Value.null).set index item

/-- The items of an array; other values have none. -/
def items : Value σ → List (Value σ)
  | .arr items => items
  | _ => []

/-- Null, or an object without members. -/
def isEmpty : Value σ → Bool
  | .null | .obj [] => true
  | _ => false

end Value

/-- A name that is read as an index. -/
def isIndex (name : Name) : Bool := name ≠ [] && name.all Char.isDigit

/-- `std::stoul`, without its `out_of_range` and the 32 bits of an index: no name that `NameOk`
allows is read as an index. -/
def toIndex (name : Name) : ℕ := name.foldl (fun n c => 10 * n + (c.toNat - 48)) 0

/-- The names of a path. -/
def splitPath (path : Name) : List Name := if path = [] then [] else Words.pieces '.' path

/-- A path with one name more. -/
def child (path name : Name) : Name := if path = [] then name else path ++ '.' :: name

/-- Null is the same as an empty object. -/
def valuesEqual [DecidableEq σ] (a b : Value σ) : Bool := (a.isEmpty && b.isEmpty) || a.same b

/-- A value before and after. -/
structure Change (σ : Type) where
  previous : Value σ := .null
  current : Value σ := .null

/-- The changes by path. -/
abbrev ChangesDiff (σ : Type) := Table Name (Change σ)

/-! ### Diffs -/

mutual

/-- The changes below a path; objects are looked into. -/
def diffRecursive [DecidableEq σ] : Value σ → Value σ → Name → ChangesDiff σ → ChangesDiff σ
  | .obj fields, .obj fields', path, out =>
    -- the names of both objects come in no particular order
    (fields'.filter fun f => (fields.lookup f.1).isNone).foldl
      (fun out f => out.insert (child path f.1) ⟨.null, f.2⟩) (diffFields fields fields' path out)
  | orig, upd, path, out => if valuesEqual orig upd then out else out.insert path ⟨orig, upd⟩

/-- The loop over the members of the first object. -/
def diffFields [DecidableEq σ] : List (Name × Value σ) → List (Name × Value σ) → Name →
    ChangesDiff σ → ChangesDiff σ
  | [], _, _, out => out
  | (k, v) :: fields, fields', path, out =>
    diffFields fields fields' path
      (match fields'.lookup k with
      | none => out.insert (child path k) ⟨v, .null⟩
      | some v' => diffRecursive v v' (child path k) out)

end

/-- `createFlatDiff` -/
def createFlatDiff [DecidableEq σ] (original updated : Value σ) : ChangesDiff σ :=
  diffRecursive original updated [] ∅

/-- Whether anything is left of two diffs together. -/
inductive ComparisonType where
  | delete | snapshot
  deriving DecidableEq, Repr

/-- Two diffs together. -/
structure ChangesComparisonResult (σ : Type) where
  type : ComparisonType
  changes : ChangesDiff σ

/-- What becomes of a change that was there, when the next diff has its path or not. -/
def combine [DecidableEq σ] (prev : Change σ) : Option (Change σ) → Change σ
  | some next =>
    if valuesEqual next.current prev.previous then ⟨prev.current, prev.previous⟩
    else ⟨prev.previous, next.current⟩
  | none => prev

/-- `compareChanges` -/
def compareChanges [DecidableEq σ] (prevChanges startChanges : ChangesDiff σ) :
    ChangesComparisonResult σ :=
  let combined := prevChanges.collect
    (fun key prev => some (combine prev (startChanges.lookup key))) ∅
  let combined := startChanges.collect
    (fun key next => if (prevChanges.lookup key).isNone then some next else none) combined
  if combined.entries = [] then ⟨.delete, ∅⟩ else ⟨.snapshot, combined⟩

/-- The changes that are kept of two diffs, the older one first. -/
def kept [DecidableEq σ] (older newer : ChangesDiff σ) : ChangesDiff σ :=
  if (compareChanges older newer).type = .delete then newer
  else (compareChanges older newer).changes

/-! ### Application -/

/-- `setByPath`: the value at a path is set, and what leads there is made. -/
def setByPath (cur : Value σ) (segments : List Name) (value : Value σ) : Value σ :=
  match segments with
  | [] => cur
  | [seg] =>
    if isIndex seg then .arr (Value.setItem (toIndex seg) value cur.items)
    else .obj (Value.setField seg value cur.fields)
  | seg :: next :: rest =>
    let start : Value σ := if isIndex next then .arr [] else .obj []
    if isIndex seg then
      let item := match cur.items[toIndex seg]? with
        | none | some .null => start
        | some item => item
      .arr (Value.setItem (toIndex seg) (setByPath item (next :: rest) value) cur.items)
    else
      let member := match cur.fields.lookup seg with
        | none | some .null => start
        | some member => member
      .obj (Value.setField seg (setByPath member (next :: rest) value) cur.fields)

/-- The entries of the diff in some order. -/
def applyChanges (changes : List (Name × Change σ)) (target : Value σ) : Value σ :=
  changes.foldl (fun target e => setByPath target (splitPath e.1) e.2.current) target

/-- The entries of a diff, in the order of the table. -/
def entriesOf (changes : ChangesDiff σ) : List (Name × Change σ) :=
  changes.entries.map fun e => (e.1, e.2)

/-! ### The wire -/

/-- The JSON of a diff. -/
def toJson (changes : ChangesDiff σ) : Value σ :=
  .obj ((entriesOf changes).foldl (fun fields e => Value.setField e.1
    (.obj (Value.setField "current".toList e.2.current
      (Value.setField "previous".toList e.2.previous []))) fields) [])

/-- What a member of the wire form says. -/
def changeOf (node : Value σ) : Change σ :=
  match node with
  | .obj _ => ⟨node.member "previous".toList, node.member "current".toList⟩
  | .arr items => ⟨items[0]?.getD .null, items[1]?.getD .null⟩
  | node => ⟨.null, node⟩

/-- `fromJsonString`, once the text is parsed. -/
def fromJson (root : Value σ) : ChangesDiff σ :=
  root.fields.foldl (fun out f =>
    if (out.lookup f.1).isSome then out else out.insert f.1 (changeOf f.2)) ∅

/-- The changes that `AuditLogService::create` stores in the place of those of an entry. -/
def create [DecidableEq σ] (existing : Value σ) (changes : ChangesDiff σ) : Value σ :=
  toJson (kept (fromJson existing) changes)

/-- The changes that `AuditLogService::compact` stores for two entries. -/
def compact [DecidableEq σ] (older newer : Value σ) : Value σ :=
  let merged := compareChanges (fromJson older) (fromJson newer)
  if merged.type = .delete then newer else toJson merged.changes

end JsonDiff

end Text

end ArgusBackend

import Mathlib.Data.List.Basic

/-!
# Spoken names

How a name or a room that was spoken is compared with a stored one (`text_norm`): without
accents, in lower case, its words separated by one space.  A text is a string of Unicode
characters; a character outside ASCII, several bytes in the source, becomes one space instead
of several, which `whitespace` makes one in any case.
-/

namespace ArgusBackend

namespace Whereabouts

/-- `kFolds`: the letters with an accent, with the letter that replaces each. -/
def kFolds : List (Char × Char) :=
  [('á', 'a'), ('é', 'e'), ('í', 'i'), ('ó', 'o'), ('ú', 'u'),
   ('ü', 'u'), ('ñ', 'n'), ('à', 'a'), ('è', 'e'), ('ì', 'i'),
   ('ò', 'o'), ('ù', 'u'), ('â', 'a'), ('ê', 'e'), ('î', 'i'),
   ('ô', 'o'), ('û', 'u'), ('ä', 'a'), ('ë', 'e'), ('ï', 'i'),
   ('ö', 'o'), ('ÿ', 'y'), ('ç', 'c'), ('Á', 'a'), ('É', 'e'),
   ('Í', 'i'), ('Ó', 'o'), ('Ú', 'u'), ('Ü', 'u'), ('Ñ', 'n'),
   ('À', 'a'), ('È', 'e'), ('Ì', 'i'), ('Ò', 'o'), ('Ù', 'u')]

/-- `stripAccents` -/
def stripAccents (text : List Char) : List Char :=
  text.map fun c => ((kFolds.find? fun fold => fold.1 = c).map (·.2)).getD c

/-- `std::isspace` in the C locale. -/
def isSpace (c : Char) : Bool :=
  c = ' ' || c = '\t' || c = '\n' || c = '\x0b' || c = '\x0c' || c = '\r'

/-- The loop of `whitespace`, with `lastSpace` when the character before was a space. -/
def whitespaceFrom (lastSpace : Bool) : List Char → List Char
  | [] => []
  | c :: text =>
      if isSpace c then
        if lastSpace then whitespaceFrom true text else ' ' :: whitespaceFrom true text
      else c.toLower :: whitespaceFrom false text

/-- `whitespace`, in lower case -/
def whitespace (text : List Char) : List Char := whitespaceFrom true text

/-- `folded` -/
def folded (text : List Char) : List Char :=
  let spaced := whitespace
    ((stripAccents text).map fun c => if c.isAlphanum then c.toLower else ' ')
  if spaced.getLast? = some ' ' then spaced.dropLast else spaced

/-- `wordsOf` -/
def wordsOf (text : List Char) : List (List Char) :=
  ((folded text).splitOn ' ').filter (· ≠ [])

/-- Every word that was asked for is in the name. -/
def holdsAll (name asked : List (List Char)) : Bool := asked.all fun word => name.contains word

/-- How many names fit. -/
inductive NameMatchKind where
  | exact | missing | ambiguous
  deriving DecidableEq, Repr

/-- The names that fit. -/
structure NameMatch where
  kind : NameMatchKind
  hits : List ℕ
  deriving DecidableEq, Repr

/-- `matchName`: the one name spelled as asked, else the names that hold all its words. -/
def matchName (names : List String) (asked : String) : NameMatch :=
  let words := wordsOf asked.toList
  if words = [] then ⟨.missing, []⟩
  else
    match names.findIdx? fun name => folded name.toList = folded asked.toList with
    | some index => ⟨.exact, [index]⟩
    | none =>
        let hits := (List.range names.length).filter fun index =>
          holdsAll (wordsOf (names.getD index "").toList) words
        match hits with
        | [] => ⟨.missing, []⟩
        | [hit] => ⟨.exact, [hit]⟩
        | _ => ⟨.ambiguous, hits⟩

/-- A match that is neither missing nor ambiguous names an index of the list. -/
theorem matchName_exact {names : List String} {asked : String} {m : NameMatch}
    (hm : matchName names asked = m) (hkind : m.kind = .exact) :
    ∃ index < names.length, m.hits = [index] := by
  subst hm
  unfold matchName at hkind ⊢
  by_cases hwords : wordsOf asked.toList = []
  · simp [hwords] at hkind
  · simp only [hwords, if_false] at hkind ⊢
    cases hfind : names.findIdx? fun name => folded name.toList = folded asked.toList with
    | some index =>
        exact ⟨index, (List.findIdx?_eq_some_iff_findIdx_eq.1 hfind).1, rfl⟩
    | none =>
        simp only [hfind] at hkind ⊢
        rcases hhits : (List.range names.length).filter fun index =>
          holdsAll (wordsOf (names.getD index "").toList) (wordsOf asked.toList)
          with _ | ⟨hit, _ | ⟨other, rest⟩⟩
        · rw [hhits] at hkind
          cases hkind
        · have hmem : hit ∈ (List.range names.length).filter fun index =>
              holdsAll (wordsOf (names.getD index "").toList) (wordsOf asked.toList) := by
            rw [hhits]
            exact List.mem_cons_self
          exact ⟨hit, List.mem_range.1 (List.mem_filter.1 hmem).1, by simp⟩
        · rw [hhits] at hkind
          cases hkind

example : matchName ["Ana María", "José"] "jose" = ⟨.exact, [1]⟩ := by decide

end Whereabouts

end ArgusBackend

import ArgusBackend.Library.Utf8
import Mathlib.Data.List.DropRight
import Mathlib.Logic.Relation

/-!
# The rule parser

What somebody says to remember comes with a trigger, with fillers before it and confirmations after
it.  The parser cuts them off byte by byte, along the hits of the phrase catalog.

* `RuleParser.stripTrailingConfirmation`, `RuleParser.stripFillers` : loops of rounds, each of which
  matches the shortened text again;
* `RuleParser.parse` : the content before or after the trigger.
-/

namespace ArgusBackend

namespace Phrase

/-- A text as its bytes. -/
abbrev Text := List UInt8

/-- The kinds of phrase in a catalog. -/
inductive PhraseKind where
  | trigger | confirmation | statementStart | recallMarker | interrogative | filler | cancellation
  | command
  deriving DecidableEq, Repr

/-- The types of memory. -/
inductive MemoryType where
  | persona | episodic | instruction | system
  deriving DecidableEq, Repr

/-- A phrase that was found. -/
structure PhraseHit where
  kind : PhraseKind
  memoryType : MemoryType
  begin : ℕ
  end_ : ℕ
  deriving DecidableEq, Repr

/-- A catalog whose phrases are valid and not empty, and whose hits are inside the text. -/
structure PhraseCatalog where
  match_ : Text → String → List PhraseHit
  nonempty : ∀ lowered lang, ∀ hit ∈ match_ lowered lang, hit.begin < hit.end_
  inside : ∀ lowered lang, ∀ hit ∈ match_ lowered lang, hit.end_ ≤ lowered.length
  valid : ∀ lowered lang, ∀ hit ∈ match_ lowered lang,
    Utf8.Valid ((lowered.take hit.end_).drop hit.begin)

/-- The priority of a type. -/
def priorityFor : MemoryType → ℤ
  | .instruction => 90
  | .episodic => 70
  | _ => 85

/-- A byte in lower case. -/
def lowerByte (c : UInt8) : UInt8 := if 0x41 ≤ c ∧ c ≤ 0x5a then c + 0x20 else c

/-- A text with its ASCII letters in lower case. -/
def toLower (text : Text) : Text := text.map lowerByte

/-- `find_last_not_of`. -/
def findLastNotOf (set : List UInt8) : Text → Option ℕ
  | [] => none
  | c :: rest =>
    match findLastNotOf set rest with
    | some i => some (i + 1)
    | none => if c ∈ set then none else some 0

/-- `find_first_not_of`. -/
def findFirstNotOf (set : List UInt8) : Text → Option ℕ
  | [] => none
  | c :: rest => if c ∈ set then (findFirstNotOf set rest).map (· + 1) else some 0

/-- `lowered[i]`, where a string ends in a zero. -/
def byteAt (lowered : Text) (i : ℕ) : UInt8 := lowered.getD i 0

/-- Blank, tabulator, carriage return and line feed. -/
def spaces : List UInt8 := [0x20, 0x09, 0x0d, 0x0a]

/-- The bytes of `?¿!`. -/
def marks : List UInt8 := [0x3f, 0xc2, 0xbf, 0x21]

/-- `" ,.;:"` -/
def isBoundary (c : UInt8) : Bool := c ∈ ([0x20, 0x2c, 0x2e, 0x3b, 0x3a] : List UInt8)

/-- A phrase may begin here. -/
def openerOk (lowered : Text) (begin : ℕ) : Bool :=
  begin = 0 || isBoundary (byteAt lowered (begin - 1))

/-- A phrase may end here. -/
def closerOk (lowered : Text) (end_ : ℕ) : Bool :=
  end_ ≥ lowered.length || isBoundary (byteAt lowered end_) || byteAt lowered end_ = 0x3f

/-- The words of a text, from inside one or between two. -/
def countWords (inWord : Bool) : Text → ℕ
  | [] => 0
  | c :: rest =>
    if inWord then countWords (c ≠ 0x20) rest
    else if c = 0x20 ∨ c = 0x2c then countWords false rest
    else countWords true rest + 1

/-- The words before a position. -/
def wordsBefore (lowered : Text) (anchorPos : ℕ) : ℕ := countWords false (lowered.take anchorPos)

/-- There are few words before a position. -/
def isNearStart (lowered : Text) (anchorPos : ℕ) : Bool := wordsBefore lowered anchorPos < 5

/-- Which phrases are looked for. -/
structure HitFilter where
  kind : PhraseKind
  requireCloser : Bool := false
  requireNearStart : Bool := false

/-- The start of the blanks before `i`. -/
def skipBlanksBack (lowered : Text) : ℕ → ℕ
  | 0 => 0
  | i + 1 => if byteAt lowered i = 0x20 then skipBlanksBack lowered i else i + 1

/-- The end of the statement in front of a tag. -/
def tagCut (lowered : Text) (begin : ℕ) : Option ℕ :=
  match skipBlanksBack lowered begin with
  | 0 => some 0
  | i + 1 => if byteAt lowered i ∈ ([0x2c, 0x3b, 0x2e, 0x3a] : List UInt8) then some i else none

/-- A phrase that is looked for. -/
def HitFilter.takes (filter : HitFilter) (lowered : Text) (hit : PhraseHit) : Bool :=
  hit.kind = filter.kind && openerOk lowered hit.begin &&
    (!filter.requireCloser || closerOk lowered hit.end_) &&
    (!filter.requireNearStart || isNearStart lowered hit.begin)

/-- The longest of the hits that the filter takes, the first one of these. -/
def bestHit (hits : List PhraseHit) (lowered : Text) (filter : HitFilter) : Option PhraseHit :=
  hits.foldl (fun best hit =>
    if filter.takes lowered hit then
      match best with
      | none => some hit
      | some other =>
        if hit.end_ - hit.begin > other.end_ - other.begin then some hit else some other
    else best) none

/-- The earliest cut before a confirmation or filler that ends the text. -/
def confirmationCut (hits : List PhraseHit) (lowered : Text) : Option ℕ :=
  hits.foldl (fun cut hit =>
    if (hit.kind = .confirmation ∨ hit.kind = .filler) ∧ hit.end_ = lowered.length then
      -- without a comma or a stop before it, the phrase belongs to the sentence
      match tagCut lowered hit.begin, cut with
      | none, _ => cut
      | some at_, none => some at_
      | some at_, some other => if at_ < other then some at_ else some other
    else cut) none

/-- The end of the longest filler that starts the text. -/
def fillerCut (hits : List PhraseHit) (lowered : Text) : ℕ :=
  hits.foldl (fun cut hit =>
    if hit.kind = .filler ∧ hit.begin = 0 ∧ closerOk lowered hit.end_ then max cut hit.end_
    else cut) 0

/-! ### What the searches find -/

section Searches

variable {set : List UInt8} {text lowered : Text} {i : ℕ} {c : UInt8}

lemma findLastNotOf_concat (h : c ∉ set) : findLastNotOf set (text ++ [c]) = some text.length := by
  induction text with
  | nil => simp [findLastNotOf, h]
  | cons b text ih => simp [findLastNotOf, ih]

lemma findLastNotOf_none (h : findLastNotOf set text = none) : ∀ b ∈ text, b ∈ set := by
  induction text with
  | nil => simp
  | cons b rest ih =>
    rw [findLastNotOf] at h
    split at h
    · cases h
    · next hrest =>
      split_ifs at h with hb
      exact List.forall_mem_cons.mpr ⟨hb, ih hrest⟩

lemma findLastNotOf_some (h : findLastNotOf set text = some i) :
    (∃ c, text[i]? = some c ∧ c ∉ set) ∧ ∀ k b, i < k → text[k]? = some b → b ∈ set := by
  induction text generalizing i with
  | nil => cases h
  | cons a rest ih =>
    rw [findLastNotOf] at h
    split at h
    · next j hj =>
      obtain rfl := Option.some.inj h
      obtain ⟨⟨c, hc, hset⟩, hafter⟩ := ih hj
      refine ⟨⟨c, by simpa using hc, hset⟩, ?_⟩
      rintro (_ | k) b hk hb
      · exact absurd hk (Nat.not_lt_zero _)
      · exact hafter k b (Nat.lt_of_succ_lt_succ hk) (by simpa using hb)
    · next hnone =>
      split_ifs at h with ha
      obtain rfl := Option.some.inj h
      refine ⟨⟨a, rfl, ha⟩, ?_⟩
      rintro (_ | k) b hk hb
      · exact absurd hk (Nat.lt_irrefl _)
      · exact findLastNotOf_none hnone b (List.mem_of_getElem? (by simpa using hb))

lemma take_succ_eq (h : text[i]? = some c) : text.take (i + 1) = text.take i ++ [c] := by
  rw [List.take_add_one, h]
  rfl

lemma findLastNotOf_take (h : findLastNotOf set text = some i) :
    findLastNotOf set (text.take (i + 1)) = some i := by
  obtain ⟨⟨c, hc, hset⟩, -⟩ := findLastNotOf_some h
  have hi : i < text.length := (List.getElem?_eq_some_iff.mp hc).1
  rw [take_succ_eq hc, findLastNotOf_concat hset, List.length_take, Nat.min_eq_left hi.le]

lemma findFirstNotOf_some (h : findFirstNotOf set text = some i) :
    (∃ rest, text.drop i = text.getD i 0 :: rest ∧ text.getD i 0 ∉ set) ∧
      ∀ b ∈ text.take i, b ∈ set := by
  induction text generalizing i with
  | nil => cases h
  | cons a rest ih =>
    rw [findFirstNotOf] at h
    split_ifs at h with ha
    · obtain ⟨j, hj, rfl⟩ := Option.map_eq_some_iff.mp h
      obtain ⟨hhead, htake⟩ := ih hj
      refine ⟨by simpa using hhead, ?_⟩
      rw [List.take_succ_cons]
      exact List.forall_mem_cons.mpr ⟨ha, htake⟩
    · obtain rfl := Option.some.inj h
      exact ⟨⟨rest, rfl, ha⟩, by simp⟩

lemma skipBlanksBack_le (lowered : Text) (n : ℕ) : skipBlanksBack lowered n ≤ n := by
  induction n with
  | zero => exact le_rfl
  | succ n ih =>
    rw [skipBlanksBack]
    split_ifs
    · exact ih.trans (Nat.le_succ n)
    · exact le_rfl

lemma tagCut_some {begin cut : ℕ} (h : tagCut lowered begin = some cut) :
    cut ≤ begin ∧ (cut = 0 ∨
      byteAt lowered cut ∈ ([0x2c, 0x3b, 0x2e, 0x3a] : List UInt8)) := by
  have hle := skipBlanksBack_le lowered begin
  unfold tagCut at h
  split at h
  · obtain rfl := Option.some.inj h
    exact ⟨Nat.zero_le _, .inl rfl⟩
  · next j hj =>
    split_ifs at h with hsep
    obtain rfl := Option.some.inj h
    exact ⟨by omega, .inr hsep⟩

/-- A fold that keeps what it has or takes it from an element. -/
lemma foldl_keeps_or_takes {α β : Type} {step : β → α → β} {Q : α → β → Prop} {l : List α}
    (hstep : ∀ acc, ∀ x ∈ l, step acc x = acc ∨ Q x (step acc x)) (acc : β) :
    l.foldl step acc = acc ∨ ∃ x ∈ l, Q x (l.foldl step acc) := by
  induction l generalizing acc with
  | nil => exact .inl rfl
  | cons x l ih =>
    rw [List.foldl_cons]
    rcases ih (fun acc y hy => hstep acc y (List.mem_cons_of_mem _ hy)) (step acc x) with
      heq | ⟨y, hy, hQ⟩
    · rw [heq]
      rcases hstep acc x (List.mem_cons_self ..) with hkeep | htake
      · exact .inl hkeep
      · exact .inr ⟨x, List.mem_cons_self .., htake⟩
    · exact .inr ⟨y, List.mem_cons_of_mem _ hy, hQ⟩

/-- A cut comes from a hit that ends the text. -/
lemma confirmationCut_some {hits : List PhraseHit} {cut : ℕ}
    (h : confirmationCut hits lowered = some cut) :
    ∃ hit ∈ hits, hit.end_ = lowered.length ∧ tagCut lowered hit.begin = some cut := by
  have hfold : confirmationCut hits lowered = none ∨
      ∃ hit ∈ hits, hit.end_ = lowered.length ∧
        tagCut lowered hit.begin = confirmationCut hits lowered := by
    refine foldl_keeps_or_takes
      (Q := fun (hit : PhraseHit) cut => hit.end_ = lowered.length ∧ tagCut lowered hit.begin = cut)
      ?_ none
    intro acc hit _
    split_ifs with htail
    · split
      · exact .inl rfl
      · next hat => exact .inr ⟨htail.2, hat⟩
      · next hat =>
        split_ifs
        · exact .inr ⟨htail.2, hat⟩
        · exact .inl rfl
    · exact .inl rfl
  rcases hfold with hnone | ⟨hit, hmem, hend, hcut⟩
  · exact absurd (h.symm.trans hnone) (Option.some_ne_none _)
  · exact ⟨hit, hmem, hend, hcut.trans h⟩

/-- The cut is none, or the end of a hit that starts the text and is closed there. -/
lemma fillerCut_cases (hits : List PhraseHit) (lowered : Text) :
    fillerCut hits lowered = 0 ∨ ∃ hit ∈ hits, closerOk lowered hit.end_ = true ∧
      fillerCut hits lowered = hit.end_ := by
  refine foldl_keeps_or_takes
    (Q := fun (hit : PhraseHit) cut => closerOk lowered hit.end_ = true ∧ cut = hit.end_) ?_ 0
  intro acc hit _
  split_ifs with hfiller
  · rcases Nat.le_total acc hit.end_ with hle | hle
    · exact .inr ⟨hfiller.2.2, Nat.max_eq_right hle⟩
    · exact .inl (Nat.max_eq_left hle)
  · exact .inl rfl

lemma bestHit_some {hits : List PhraseHit} {filter : HitFilter} {best : PhraseHit}
    (h : bestHit hits lowered filter = some best) :
    best ∈ hits ∧ filter.takes lowered best = true := by
  have hfold : bestHit hits lowered filter = none ∨
      ∃ hit ∈ hits, filter.takes lowered hit = true ∧
        bestHit hits lowered filter = some hit := by
    refine foldl_keeps_or_takes
      (Q := fun (hit : PhraseHit) best => filter.takes lowered hit = true ∧ best = some hit) ?_ none
    intro acc hit _
    split_ifs with hhit
    · split
      · exact .inr ⟨hhit, rfl⟩
      · split_ifs
        · exact .inr ⟨hhit, rfl⟩
        · exact .inl rfl
    · exact .inl rfl
  rcases hfold with hnone | ⟨hit, hmem, htakes, heq⟩
  · exact absurd (h.symm.trans hnone) (Option.some_ne_none _)
  · obtain rfl := Option.some.inj (h.symm.trans heq)
    exact ⟨hmem, htakes⟩

end Searches

namespace RuleParser

variable (catalog_ : PhraseCatalog) (lang : String)

/-- A round of `stripTrailingConfirmation`, and whether another one follows. -/
def confirmationRound (text : Text) : Text × Bool :=
  match findLastNotOf spaces text with
  | none => (text, false)
  | some last =>
    let text := text.take (last + 1)
    let lowered := toLower text
    match confirmationCut (catalog_.match_ lowered lang) lowered with
    | some cut => (text.take cut, true)
    | none =>
      match findLastNotOf marks text with
      | none => (text, false)
      | some q => if q + 1 ≥ text.length then (text, false) else (text.take (q + 1), true)

/-- `" \t\r\n,.;:"` -/
def separators : List UInt8 := spaces ++ [0x2c, 0x2e, 0x3b, 0x3a]

/-- A round of `stripFillers`, and whether another one follows. -/
def fillerRound (text : Text) : Text × Bool :=
  match findFirstNotOf separators text with
  | none => ([], false)
  | some first =>
    let text := text.drop first
    let lowered := toLower text
    let cut := fillerCut (catalog_.match_ lowered lang) lowered
    if cut = 0 then (text, false) else (text.drop cut, true)

variable {catalog_ lang}

lemma length_toLower (text : Text) : (toLower text).length = text.length := List.length_map ..

variable (catalog_ lang) in
/-- What a round does: it ends, cuts a tail off, or cuts marks off. -/
lemma confirmationRound_cases (text : Text) :
    (findLastNotOf spaces text = none ∧ confirmationRound catalog_ lang text = (text, false)) ∨
    ∃ last trimmed, findLastNotOf spaces text = some last ∧ text.take (last + 1) = trimmed ∧
      ((∃ cut, confirmationCut (catalog_.match_ (toLower trimmed) lang) (toLower trimmed) =
          some cut ∧ confirmationRound catalog_ lang text = (trimmed.take cut, true)) ∨
        confirmationCut (catalog_.match_ (toLower trimmed) lang) (toLower trimmed) = none ∧
        (confirmationRound catalog_ lang text = (trimmed, false) ∧
            (∀ q, findLastNotOf marks trimmed = some q → q + 1 ≥ trimmed.length) ∨
          ∃ q, findLastNotOf marks trimmed = some q ∧ q + 1 < trimmed.length ∧
            confirmationRound catalog_ lang text = (trimmed.take (q + 1), true))) := by
  unfold confirmationRound
  cases hlast : findLastNotOf spaces text with
  | none => exact .inl ⟨rfl, rfl⟩
  | some last =>
    refine .inr ⟨last, _, rfl, rfl, ?_⟩
    dsimp only
    cases hcut : confirmationCut (catalog_.match_ (toLower (text.take (last + 1))) lang)
        (toLower (text.take (last + 1))) with
    | some cut => exact .inl ⟨cut, rfl, rfl⟩
    | none =>
      refine .inr ⟨rfl, ?_⟩
      dsimp only
      cases hq : findLastNotOf marks (text.take (last + 1)) with
      | none => exact .inl ⟨rfl, by simp⟩
      | some q =>
        dsimp only
        split_ifs with hend
        · exact .inl ⟨rfl, fun q' hq' => Option.some.inj hq' ▸ hend⟩
        · exact .inr ⟨q, rfl, Nat.lt_of_not_le hend, rfl⟩

/-- A cut is before the end: the hit that it comes from is not empty. -/
lemma confirmationCut_lt {trimmed : Text} {cut : ℕ}
    (h : confirmationCut (catalog_.match_ (toLower trimmed) lang) (toLower trimmed) = some cut) :
    cut < trimmed.length := by
  obtain ⟨hit, hmem, hend, htag⟩ := confirmationCut_some h
  have hlt := catalog_.nonempty _ _ hit hmem
  rw [hend, length_toLower] at hlt
  exact (tagCut_some htag).1.trans_lt hlt

/-- A round that another one follows has shortened the text. -/
lemma confirmationRound_length {text : Text} (h : (confirmationRound catalog_ lang text).2 = true) :
    (confirmationRound catalog_ lang text).1.length < text.length := by
  rcases confirmationRound_cases catalog_ lang text with
    ⟨-, hround⟩ | ⟨last, trimmed, -, htrim, ⟨cut, hcut, hround⟩ | ⟨-, ⟨hround, -⟩ |
      ⟨q, -, hq, hround⟩⟩⟩
  · rw [hround] at h
    cases h
  · have hlt := confirmationCut_lt hcut
    have hle : trimmed.length ≤ text.length := htrim ▸ List.length_take_le' ..
    rw [hround, List.length_take]
    omega
  · rw [hround] at h
    cases h
  · have hle : trimmed.length ≤ text.length := htrim ▸ List.length_take_le' ..
    rw [hround, List.length_take]
    omega

lemma fillerRound_length {text : Text} (h : (fillerRound catalog_ lang text).2 = true) :
    (fillerRound catalog_ lang text).1.length < text.length := by
  unfold fillerRound at h ⊢
  split at h
  · cases h
  · next first hfirst =>
    obtain ⟨⟨rest, hdrop, -⟩, -⟩ := findFirstNotOf_some hfirst
    have hlen := congrArg List.length hdrop
    rw [List.length_drop, List.length_cons] at hlen
    dsimp only at h ⊢
    split_ifs at h ⊢ with hcut
    rw [List.length_drop, List.length_drop]
    omega

variable (catalog_ lang)

/-- A text without the confirmations at its end. -/
def stripTrailingConfirmation (text : Text) : Text :=
  if _h : (confirmationRound catalog_ lang text).2 = true then
    stripTrailingConfirmation (confirmationRound catalog_ lang text).1
  else (confirmationRound catalog_ lang text).1
termination_by text.length
decreasing_by exact confirmationRound_length _h

/-- A text without the fillers at its ends. -/
def stripFillers (text : Text) : Text :=
  if _h : (fillerRound catalog_ lang text).2 = true then
    stripFillers (fillerRound catalog_ lang text).1
  else (fillerRound catalog_ lang text).1
termination_by text.length
decreasing_by exact fillerRound_length _h

/-- The content in front of a trigger that ends the text. -/
def contentBeforeTrigger (text lowered : Text) (begin end_ : ℕ) : Option Text :=
  if begin = 0 then none
  else if findFirstNotOf (spaces ++ [0x2c, 0x2e, 0x3b, 0x3a, 0x21]) (lowered.drop end_) ≠ none then
    none
  else
    let before := (text.take begin).rdropWhile (· ∈ ([0x20, 0x2c, 0x2e, 0x3b] : List UInt8))
    if before = [] then none else some before

/-- The memory that a text asks for. -/
structure RuleParseResult where
  type : MemoryType
  content : Text
  priority : ℤ
  deriving DecidableEq, Repr

/-- The trigger that `parse` chooses. -/
def trigger (text : Text) : Option PhraseHit :=
  bestHit (catalog_.match_ (toLower text) lang) (toLower text)
    { kind := .trigger, requireCloser := true }

/-- What follows the trigger, from its first byte that is not blank. -/
def contentAfter (text : Text) (best : PhraseHit) : Option Text :=
  (findFirstNotOf spaces (text.drop best.end_)).map (text.drop best.end_).drop

/-- `parse` -/
def parse (text : Text) : Option RuleParseResult :=
  match trigger catalog_ lang text with
  | none => none
  | some best =>
    match contentBeforeTrigger text (toLower text) best.begin best.end_ with
    | some trailing => some ⟨best.memoryType, trailing, priorityFor best.memoryType⟩
    | none =>
      match contentAfter text best with
      | none => none
      | some content =>
        let content := stripTrailingConfirmation catalog_ lang content
        if content = [] then none
        else some ⟨best.memoryType, content, priorityFor best.memoryType⟩

end RuleParser

end Phrase

end ArgusBackend

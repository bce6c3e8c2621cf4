import Mathlib.Data.List.DropRight
import Mathlib.Data.List.Infix
import Mathlib.Tactic.Common

/-!
# Words

The words of a text are its longest parts without spaces.  `join` puts words one blank apart.

* `splitFrom` : the words, with the one that is being read;
* `split_join` : the words of joined words;
* `infix_split` : a part without spaces lies in one of the words;
* `infix_iff_window` : a part stands in a window of its length;
* `splitFrom_map` : what keeps the spaces keeps the words;
* `pieces`, `cut` : the parts of a text between separators, and the first of them;
* `strip` : a text without the spaces at its ends.
-/

namespace ArgusBackend

namespace Words

variable {α β : Type} (space : α → Bool)

/-- The words of a text after a word that is being read. -/
def splitFrom (current : List α) : List α → List (List α)
  | [] => if current = [] then [] else [current]
  | c :: text =>
    if space c then
      if current = [] then splitFrom [] text else current :: splitFrom [] text
    else splitFrom (current ++ [c]) text

/-- The words between separators; separators in a row count as one. -/
def split (text : List α) : List (List α) := splitFrom space [] text

/-- Words one blank apart. -/
def join (blank : α) : List (List α) → List α
  | [] => []
  | [w] => w
  | w :: ws => w ++ blank :: join blank ws

/-- A word: letters, and no spaces. -/
def Word (w : List α) : Prop := w ≠ [] ∧ ∀ c ∈ w, space c = false

variable {space} {blank : α} {current text w w' : List α} {ws ws' : List (List α)} {c : α}

theorem join_cons (hws : ws ≠ []) : join blank (w :: ws) = w ++ blank :: join blank ws := by
  cases ws with
  | nil => exact absurd rfl hws
  | cons w' ws => rfl

theorem join_concat (hws : ws ≠ []) :
    join blank (ws ++ [w]) = join blank ws ++ blank :: w := by
  induction ws with
  | nil => exact absurd rfl hws
  | cons w' ws ih =>
    by_cases hnil : ws = []
    · subst hnil
      rfl
    · rw [List.cons_append, join_cons (by simp), join_cons hnil, ih hnil, List.append_assoc,
        List.cons_append]

theorem word_splitFrom (hcurrent : ∀ c ∈ current, space c = false) :
    ∀ w ∈ splitFrom space current text, Word space w := by
  induction text generalizing current with
  | nil =>
    unfold splitFrom
    split_ifs with hnil
    · simp
    · simpa using ⟨hnil, hcurrent⟩
  | cons c text ih =>
    unfold splitFrom
    split_ifs with hspace hnil
    · exact ih (by simp)
    · rw [List.forall_mem_cons]
      exact ⟨⟨hnil, hcurrent⟩, ih (by simp)⟩
    · refine ih fun c' hc' => ?_
      rcases List.mem_append.1 hc' with hc' | hc'
      · exact hcurrent c' hc'
      · exact List.mem_singleton.1 hc' ▸ Bool.eq_false_iff.2 hspace

theorem word_split : ∀ w ∈ split space text, Word space w := word_splitFrom (by simp)

/-- Letters go to the word that is being read. -/
theorem splitFrom_append (current text : List α) (hw : ∀ c ∈ w, space c = false) :
    splitFrom space current (w ++ text) = splitFrom space (current ++ w) text := by
  induction w generalizing current with
  | nil => simp
  | cons c w ih =>
    rw [List.forall_mem_cons] at hw
    rw [List.cons_append, splitFrom, if_neg (by simp [hw.1]), ih _ hw.2, List.append_assoc,
      List.singleton_append]

theorem split_join (hblank : space blank = true) (hws : ∀ w ∈ ws, Word space w) :
    split space (join blank ws) = ws := by
  induction ws with
  | nil => rfl
  | cons w ws ih =>
    rw [List.forall_mem_cons] at hws
    obtain ⟨⟨hne, hw⟩, hws⟩ := hws
    by_cases hnil : ws = []
    · subst hnil
      have h := splitFrom_append [] [] hw
      rw [List.append_nil, List.nil_append] at h
      rw [join, split, h, splitFrom, if_neg hne]
    · rw [join_cons hnil, split, splitFrom_append [] _ hw, List.nil_append, splitFrom, if_pos hblank,
        if_neg hne]
      exact congrArg _ (ih hws)

theorem splitFrom_map {space' : β → Bool} {f : α → β} (hf : ∀ c, space' (f c) = space c)
    (current : List α) :
    splitFrom space' (current.map f) (text.map f) = (splitFrom space current text).map (·.map f) := by
  induction text generalizing current with
  | nil =>
    simp only [splitFrom, List.map_nil, List.map_eq_nil_iff]
    split_ifs <;> rfl
  | cons c text ih =>
    have hnil := ih []
    rw [List.map_nil] at hnil
    simp only [splitFrom, List.map_cons, hf, List.map_eq_nil_iff]
    split_ifs with hspace hempty
    · exact hnil
    · rw [hnil, List.map_cons]
    · rw [← ih, List.map_append, List.map_singleton]

theorem split_map {space' : β → Bool} {f : α → β} (hf : ∀ c, space' (f c) = space c) :
    split space' (text.map f) = (split space text).map (·.map f) :=
  splitFrom_map hf []

/-- A part without a letter lies before or after that letter. -/
theorem infix_append_cons (hc : c ∉ w) (a b : List α) :
    w <:+: a ++ c :: b ↔ w <:+: a ∨ w <:+: b := by
  refine ⟨?_, ?_⟩
  · rintro ⟨s, t, heq⟩
    rw [List.append_assoc, List.append_eq_append_iff] at heq
    rcases heq with ⟨a', rfl, heq⟩ | ⟨s', rfl, heq⟩
    · rw [List.append_eq_append_iff] at heq
      rcases heq with ⟨t', rfl, -⟩ | ⟨w', rfl, heq⟩
      · exact .inl ⟨s, t', by rw [List.append_assoc]⟩
      · cases w' with
        | nil => exact .inl ⟨s, [], by simp⟩
        | cons d w' =>
          obtain ⟨rfl, -⟩ := List.cons.inj heq
          exact absurd (List.mem_append_right _ List.mem_cons_self) hc
    · cases s' with
      | nil =>
        cases w with
        | nil => exact .inr (List.nil_infix)
        | cons d w =>
          obtain ⟨rfl, -⟩ := List.cons.inj heq
          exact absurd List.mem_cons_self hc
      | cons d s' =>
        obtain ⟨-, rfl⟩ := List.cons.inj heq
        exact .inr ⟨s', t, List.append_assoc ..⟩
  · rintro (h | h)
    · exact h.trans List.infix_append_left
    · exact (List.infix_cons h).trans List.infix_append_right

theorem infix_splitFrom (hw : Word space w) (current : List α)
    (hcurrent : ∀ c ∈ current, space c = false) :
    w <:+: current ++ text ↔ ∃ u ∈ splitFrom space current text, w <:+: u := by
  induction text generalizing current with
  | nil =>
    rw [List.append_nil, splitFrom]
    split_ifs with hnil
    · subst hnil
      simpa using hw.1
    · simp
  | cons c text ih =>
    unfold splitFrom
    split_ifs with hspace hnil
    · subst hnil
      have hc : c ∉ w := fun hmem => by simp [hw.2 c hmem] at hspace
      rw [infix_append_cons hc, ← ih [] (by simp), List.nil_append, List.infix_nil]
      exact or_iff_right hw.1
    · have hc : c ∉ w := fun hmem => by simp [hw.2 c hmem] at hspace
      have hrest := ih [] (by simp)
      rw [List.nil_append] at hrest
      rw [infix_append_cons hc, hrest]
      simp
    · rw [← ih, List.append_assoc, List.singleton_append]
      intro c' hc'
      rcases List.mem_append.1 hc' with hc' | hc'
      · exact hcurrent c' hc'
      · exact List.mem_singleton.1 hc' ▸ Bool.eq_false_iff.2 hspace

/-- A part without spaces lies in one of the words. -/
theorem infix_split (hw : Word space w) : w <:+: text ↔ ∃ u ∈ split space text, w <:+: u :=
  infix_splitFrom hw [] (by simp)

/-- A part of a list is what stands there in a window of its length. -/
theorem infix_iff_window : w <:+: text ↔
    ∃ start < text.length + 1 - w.length, (text.drop start).take w.length = w := by
  constructor
  · rintro ⟨l, r, rfl⟩
    refine ⟨l.length, by simp only [List.length_append]; omega, ?_⟩
    rw [List.append_assoc, List.drop_left, List.take_left]
  · rintro ⟨start, -, hwindow⟩
    rw [← hwindow]
    exact (List.take_prefix _ _).isInfix.trans (List.drop_suffix _ _).isInfix

theorem flatten_splitFrom (current text : List α) :
    (splitFrom space current text).flatten = current ++ text.filter (fun c => !space c) := by
  induction text generalizing current with
  | nil =>
    unfold splitFrom
    split_ifs with hnil <;> simp [hnil]
  | cons c text ih =>
    unfold splitFrom
    split_ifs with hspace hnil
    · rw [ih, hnil]
      simp [hspace]
    · rw [List.flatten_cons, ih]
      simp [hspace]
    · rw [ih]
      simp [hspace]

/-- The letters of a text are those of its words. -/
theorem flatten_split (text : List α) :
    (split space text).flatten = text.filter (fun c => !space c) :=
  flatten_splitFrom [] text

/-! ### Pieces -/

section Pieces

variable [DecidableEq α] (sep : α)

/-- The parts of a text between separators, with the one that is being read. -/
def piecesFrom (current : List α) : List α → List (List α)
  | [] => [current]
  | c :: text =>
    if c = sep then current :: piecesFrom [] text else piecesFrom (current ++ [c]) text

/-- The pieces between separators; there may be empty ones. -/
def pieces (text : List α) : List (List α) := piecesFrom sep [] text

theorem piecesFrom_append {sep : α} (current text : List α) (hw : sep ∉ w) :
    piecesFrom sep current (w ++ text) = piecesFrom sep (current ++ w) text := by
  induction w generalizing current with
  | nil => simp
  | cons c w ih =>
    rw [List.mem_cons, not_or] at hw
    rw [List.cons_append, piecesFrom, if_neg (Ne.symm hw.1), ih _ hw.2, List.append_assoc,
      List.singleton_append]

theorem pieces_join {sep : α} (hws : ∀ w ∈ ws, sep ∉ w) (hne : ws ≠ []) :
    pieces sep (join sep ws) = ws := by
  induction ws with
  | nil => exact absurd rfl hne
  | cons w ws ih =>
    rw [List.forall_mem_cons] at hws
    by_cases hnil : ws = []
    · subst hnil
      have h := piecesFrom_append [] [] hws.1
      rw [List.append_nil, List.nil_append] at h
      rw [join, pieces, h, piecesFrom]
    · rw [join_cons hnil, pieces, piecesFrom_append [] _ hws.1, List.nil_append, piecesFrom,
        if_pos rfl]
      exact congrArg _ (ih hws.2 hnil)

/-- The text before the first separator and the text after it. -/
def cut : List α → Option (List α × List α)
  | [] => none
  | c :: text => if c = sep then some ([], text) else (cut text).map fun p => (c :: p.1, p.2)

variable {sep : α} {a b : List α}

theorem cut_eq_none : cut sep text = none ↔ sep ∉ text := by
  induction text with
  | nil => simp [cut]
  | cons c text ih =>
    rw [cut, List.mem_cons, not_or]
    split_ifs with hc
    · simp [hc]
    · rw [Option.map_eq_none_iff, ih]
      exact (and_iff_right (Ne.symm hc)).symm

theorem cut_eq_some : cut sep text = some (a, b) ↔ text = a ++ sep :: b ∧ sep ∉ a := by
  induction text generalizing a with
  | nil => simp [cut]
  | cons c text ih =>
    rw [cut]
    split_ifs with hc
    · subst hc
      cases a with
      | nil => simp
      | cons d a =>
        simp only [Option.some.injEq, Prod.mk.injEq, List.nil_eq, reduceCtorEq, false_and,
          List.cons_append, List.cons.injEq, List.mem_cons, not_or, false_iff, not_and]
        exact fun heq hne => absurd heq.1 hne
    · rw [Option.map_eq_some_iff]
      constructor
      · rintro ⟨⟨a', b'⟩, hcut, heq⟩
        obtain ⟨rfl, rfl⟩ := Prod.mk.inj heq
        obtain ⟨rfl, hmem⟩ := ih.1 hcut
        exact ⟨rfl, by simpa [List.mem_cons] using ⟨Ne.symm hc, hmem⟩⟩
      · rintro ⟨heq, hmem⟩
        cases a with
        | nil => exact absurd (List.cons.inj heq).1 hc
        | cons d a =>
          obtain ⟨rfl, rfl⟩ := List.cons.inj heq
          exact ⟨(a, b), ih.2 ⟨rfl, fun h => hmem (List.mem_cons_of_mem _ h)⟩, rfl⟩

theorem length_of_cut (h : cut sep text = some (a, b)) : b.length < text.length := by
  obtain ⟨rfl, -⟩ := cut_eq_some.1 h
  simp
  omega

theorem pieces_of_cut (h : cut sep text = some (a, b)) :
    pieces sep text = a :: pieces sep b := by
  obtain ⟨rfl, hmem⟩ := cut_eq_some.1 h
  rw [pieces, piecesFrom_append [] _ hmem, List.nil_append, piecesFrom, if_pos rfl, pieces]

theorem pieces_of_not_mem (h : sep ∉ text) : pieces sep text = [text] := by
  have hpieces := piecesFrom_append [] [] h
  rw [List.append_nil, List.nil_append] at hpieces
  rw [pieces, hpieces, piecesFrom]

end Pieces

/-! ### Blanks at the ends -/

section Strip

variable (space)

/-- A text without the spaces at its ends. -/
def strip (text : List α) : List α := (text.dropWhile space).rdropWhile space

variable {space} {l r b : List α}

theorem strip_spec (text : List α) : ∃ l r, (∀ c ∈ l, space c = true) ∧
    (∀ c ∈ r, space c = true) ∧ text = l ++ strip space text ++ r := by
  refine ⟨text.takeWhile space, (text.dropWhile space).rtakeWhile space,
    fun c hc => List.mem_takeWhile_imp hc, fun c hc => List.mem_rtakeWhile_imp hc, ?_⟩
  rw [strip, List.append_assoc, List.rdropWhile_append_rtakeWhile, List.takeWhile_append_dropWhile]

theorem strip_append (hl : ∀ c ∈ l, space c = true) (hr : ∀ c ∈ r, space c = true) (hb : b ≠ [])
    (hhead : space (b.head hb) = false) (hlast : space (b.getLast hb) = false) :
    strip space (l ++ b ++ r) = b := by
  have hdrop : (l ++ b ++ r).dropWhile space = b ++ r := by
    rw [List.append_assoc, List.dropWhile_append_of_pos hl]
    cases b with
    | nil => exact absurd rfl hb
    | cons c b => rw [List.cons_append, List.dropWhile_cons_of_neg (by simpa using hhead)]
  have hright : (b ++ r).rdropWhile space = b.rdropWhile space := by
    rw [List.rdropWhile, List.rdropWhile, List.reverse_append, List.dropWhile_append_of_pos]
    simpa using hr
  rw [strip, hdrop, hright, List.rdropWhile_eq_self_iff]
  exact fun _ => by simpa using hlast

end Strip

end Words

end ArgusBackend

import ArgusBackend.Library.Words
import Mathlib.Algebra.BigOperators.Group.List.Basic
import Mathlib.Data.Bool.AllAny
import Mathlib.Data.List.DropRight
import Mathlib.Tactic.IntervalCases

/-!
# Spoken guard lines

What the guard says comes from a model, and `sanitizeLine` refuses a line with a banned word, a
private token, a number, an address or too many words.  A text is a string of Unicode characters; a
character outside ASCII, several bytes in the source, is one here.

* `sanitizeLine` : the checks, and the line with its words one space apart;
* `Same`, `Occurs` : comparison without regard to case, accents and runs of whitespace;
* `line_clean` : when a line that is returned is clean.
-/

namespace ArgusBackend

namespace Guard

namespace Dialogue

/-- A text as its characters. -/
abbrev Text := List Char

/-- `std::isspace` in the C locale. -/
def isspace (c : Char) : Bool :=
  c = ' ' || c = '\t' || c = '\n' || c = '\x0b' || c = '\x0c' || c = '\r'

/-- `std::ispunct` in the C locale. -/
def ispunct (c : Char) : Bool := 33 ≤ c.toNat && c.toNat ≤ 126 && !c.isAlphanum

/-- A text in lower case. -/
def lowercase (value : Text) : Text := value.map Char.toLower

/-- The letters that lose their accents. -/
def kMap : List (Char × Char) :=
  [('á', 'a'), ('é', 'e'), ('í', 'i'), ('ó', 'o'), ('ú', 'u'),
   ('ü', 'u'), ('à', 'a'), ('è', 'e'), ('ì', 'i'), ('ò', 'o'),
   ('ù', 'u'), ('â', 'a'), ('ê', 'e'), ('î', 'i'), ('ô', 'o')]

/-- A letter without its accent. -/
def stripAccent (c : Char) : Char := (kMap.lookup c).getD c

/-- A text without those accents. -/
def stripAccents (value : Text) : Text := value.map stripAccent

/-- A text in lower case without accents. -/
def normalize (value : Text) : Text := stripAccents (lowercase value)

/-- The words of a text. -/
def words (value : Text) : List Text := Words.split isspace value

/-- One of the words is somewhere in a text. -/
def containsAnyWord (normalized : Text) (banned : List Text) : Bool :=
  banned.any fun token => decide (token <:+: normalized)

/-- The words that the house does not say to a visitor. -/
def bannedVocabulary : List Text :=
  ["camara", "grabando", "grabacion", "grabar",
   "vigilancia", "vigilando", "vigilar", "monitoreo",
   "monitoreando", "peligro", "alerta", "sistema",
   "analisis", "seguridad", "alarma", "sirena",
   "camera", "recording", "surveillance", "monitoring",
   "danger", "alert", "system", "analysis",
   "security", "alarm", "siren", "prompt",
   "instruccion", "instrucciones", "ignora", "ignore",
   "jailbreak", "olvida"].map String.toList

/-- The marks that `looksLikeDomain` takes off a token. -/
def isMark (c : Char) : Bool := ispunct c && c ≠ '.'

/-- A word that looks like the name of a site. -/
def looksLikeDomain (token : Text) : Bool :=
  let token := (token.dropWhile isMark).rdropWhile isMark
  if token = [] then false
  else if token = "www".toList ∨ "www.".toList <+: token then true
  else
    let dot := (token.takeWhile (· ≠ '.')).length
    if '.' ∉ token ∨ dot = 0 ∨ token.length ≤ dot + 1 then false
    else
      let tld := token.rtakeWhile (· ≠ '.')
      if tld.length < 2 ∨ 24 < tld.length then false else tld.all Char.isAlpha

/-- A text with a link, an address or a number. -/
def hasUnsafeCharacters (value : Text) : Bool :=
  decide ("http".toList <:+: value) || decide ('@' ∈ value) || value.any Char.isDigit ||
    (words value).any looksLikeDomain

/-- A line that is to be said, and what it may not say. -/
structure LineInput where
  text : Text
  maxWords : ℤ
  privateTokens : List Text

/-- The size of a text in bytes. -/
def size (value : Text) : ℕ := (value.map Char.utf8Size).sum

/-- The loop that puts the words one space apart. -/
def trimLoop (trimmed : Text) (previousSpace : Bool) : Text → Text
  | [] => trimmed
  | c :: text =>
    if isspace c then
      trimLoop (if trimmed ≠ [] ∧ previousSpace = false then trimmed ++ [' '] else trimmed) true text
    else trimLoop (trimmed ++ [c]) false text

/-- A text with single spaces, and none at its ends. -/
def trim (text : Text) : Text := (trimLoop [] false text).rdropWhile (· = ' ')

section Lines

variable (input : LineInput)

/-- A check before or after the comparisons fails. -/
def Refused : Bool :=
  decide (words input.text = []) || decide (max 1 input.maxWords < (words input.text).length) ||
    hasUnsafeCharacters (normalize input.text) || decide (1 < input.text.count '?')

/-- `sanitizeLine` -/
def sanitizeLine : Text :=
  if words input.text = [] then []
  else if max 1 input.maxWords < (words input.text).length then []
  else if containsAnyWord (normalize input.text) bannedVocabulary then []
  else if hasUnsafeCharacters (normalize input.text) then []
  else if 1 < input.text.count '?' then []
  else if input.privateTokens.any fun token =>
      !decide (size token < 3) && decide (normalize token <:+: normalize input.text) then []
  else trim input.text

end Lines

/-! ### Comparison -/

/-- The letter case of the ASCII letters and of the letters of Latin-1; other letters are kept. -/
def lower (c : Char) : Char :=
  if 'À' ≤ c ∧ c ≤ 'Þ' ∧ c ≠ '×' then Char.ofNat (c.toNat + 32) else c.toLower

/-- A letter without case and accent. -/
def fold (c : Char) : Char := stripAccent (lower c)

/-- Every run of whitespace becomes one space. -/
def collapse (previousSpace : Bool) : Text → Text
  | [] => []
  | c :: text =>
    if isspace c then
      if previousSpace then collapse true text else ' ' :: collapse true text
    else c :: collapse false text

/-- Two texts are the same but for case, accents and runs of whitespace. -/
def Same (a b : Text) : Prop := collapse false (a.map fold) = collapse false (b.map fold)

/-- A part of a text is the same as a token. -/
def Occurs (token text : Text) : Prop := ∃ part, part <:+: text ∧ Same part token

/-- The words and tokens that a line must not have. -/
def forbidden (privateTokens : List Text) : List Text :=
  bannedVocabulary ++ privateTokens.filter fun token => !decide (size token < 3)

/-- A line that may be spoken. -/
structure Clean (maxWords : ℤ) (privateTokens : List Text) (line : Text) : Prop where
  tokens : ∀ token ∈ forbidden privateTokens, ¬Occurs token line
  short : ((words line).length : ℤ) ≤ max 1 maxWords
  questions : line.count '?' ≤ 1
  digits : ∀ c ∈ line, c.isDigit = false
  address : '@' ∉ line
  domains : ∀ w ∈ words line, looksLikeDomain w = false
  stable : sanitizeLine ⟨line, maxWords, privateTokens⟩ = line

/-- A forbidden word is in a text, its words one space apart. -/
def Present (input : LineInput) : Prop :=
  ∃ token ∈ forbidden input.privateTokens, Occurs token (Words.join ' ' (words input.text))

/-- The comparison by `normalize` finds one. -/
def Seen (input : LineInput) : Prop :=
  ∃ token ∈ forbidden input.privateTokens, normalize token <:+: normalize input.text

/-- No letter is a capital outside ASCII, and no forbidden word has a space. -/
structure Plain (input : LineInput) : Prop where
  text : ∀ c ∈ input.text, lower c = c.toLower
  tokens : ∀ token ∈ forbidden input.privateTokens,
    Words.Word isspace token ∧ ∀ c ∈ token, lower c = c.toLower

/-! ### Letters -/

/-- What `normalize` makes of a letter. -/
def norm (c : Char) : Char := stripAccent c.toLower

theorem normalize_eq (value : Text) : normalize value = value.map norm := by
  rw [normalize, stripAccents, lowercase, List.map_map]
  rfl

/-- The capitals of ASCII, and the letters of `kMap`. -/
def kChanged : List Char := "ABCDEFGHIJKLMNOPQRSTUVWXYZ".toList ++ kMap.map (·.1)

theorem mem_upper {c : Char} (hc : c.toLower ≠ c) : c ∈ "ABCDEFGHIJKLMNOPQRSTUVWXYZ".toList := by
  have hrange : 65 ≤ c.toNat ∧ c.toNat ≤ 90 := by
    unfold Char.toLower at hc
    split_ifs at hc with h
    · exact ⟨h.1, h.2⟩
    · exact absurd rfl hc
  obtain ⟨hlo, hhi⟩ := hrange
  rw [← Char.ofNat_toNat c, String.toList_ofList]
  interval_cases c.toNat <;> decide

theorem stripAccent_eq {c : Char} (hc : c ∉ kMap.map (·.1)) : stripAccent c = c := by
  have hnone : kMap.lookup c = none := by
    rw [List.lookup_eq_none_iff]
    intro p hp
    rw [bne_iff_ne]
    rintro rfl
    exact hc (List.mem_map_of_mem hp)
  rw [stripAccent, hnone, Option.getD_none]

theorem norm_eq_or (c : Char) : norm c = c ∨ c ∈ kChanged := by
  by_cases hlower : c.toLower = c
  · by_cases hmem : c ∈ kMap.map (·.1)
    · exact .inr (List.mem_append_right _ hmem)
    · exact .inl (by rw [norm, hlower, stripAccent_eq hmem])
  · exact .inr (List.mem_append_left _ (mem_upper hlower))

/-- The capitals of Latin letters outside ASCII. -/
def kCapitals : List Char := "ÀÁÂÃÄÅÆÇÈÉÊËÌÍÎÏÐÑÒÓÔÕÖØÙÚÛÜÝÞ".toList

theorem kCapitals_eq : kCapitals =
    ['À', 'Á', 'Â', 'Ã', 'Ä', 'Å', 'Æ', 'Ç', 'È', 'É', 'Ê', 'Ë', 'Ì', 'Í', 'Î', 'Ï', 'Ð', 'Ñ', 'Ò',
      'Ó', 'Ô', 'Õ', 'Ö', 'Ø', 'Ù', 'Ú', 'Û', 'Ü', 'Ý', 'Þ'] :=
  String.toList_ofList

theorem lower_eq_or (c : Char) : lower c = c.toLower ∨ c ∈ kCapitals := by
  unfold lower
  split_ifs with h
  · obtain ⟨hlo, hhi, hne⟩ := h
    have hlo' : 192 ≤ c.toNat := hlo
    have hhi' : c.toNat ≤ 222 := hhi
    have hne' : c.toNat ≠ 215 := fun heq => hne (by rw [← Char.ofNat_toNat c, heq])
    have hall : ∀ n < 31, n ≠ 23 → Char.ofNat (192 + n) ∈ kCapitals := by
      rw [kCapitals_eq]
      decide +kernel
    have hmem := hall (c.toNat - 192) (by omega) (by omega)
    rw [show 192 + (c.toNat - 192) = c.toNat by omega, Char.ofNat_toNat] at hmem
    exact .inr hmem
  · exact .inl rfl

theorem fold_eq_or (c : Char) : fold c = norm c ∨ c ∈ kCapitals := by
  rcases lower_eq_or c with hlower | hmem
  · exact .inl (by rw [fold, hlower, norm])
  · exact .inr hmem

/-- The letters that `normalize` changes are letters, and stay letters of the same kind. -/
theorem kChanged_spec : ∀ c ∈ kChanged,
    (fold (norm c) = fold c ∧ isspace (norm c) = isspace c ∧ isMark (norm c) = isMark c) ∧
      ((norm c).isAlpha = true ∧ norm c ≠ '.') ∧ c ≠ '.' ∧ c.isDigit = false ∧ c ≠ '@' :=
  List.all_iff_forall_prop.1 (by decide +kernel)

/-- `normalize` forgets nothing but case and accents. -/
theorem fold_norm (c : Char) : fold (norm c) = fold c := by
  rcases norm_eq_or c with heq | hmem
  · rw [heq]
  · exact (kChanged_spec c hmem).1.1

theorem isspace_norm (c : Char) : isspace (norm c) = isspace c := by
  rcases norm_eq_or c with heq | hmem
  · rw [heq]
  · exact (kChanged_spec c hmem).1.2.1

theorem isspace_fold (c : Char) : isspace (fold c) = isspace c := by
  rcases fold_eq_or c with heq | hmem
  · rw [heq, isspace_norm]
  · have hall : ∀ c ∈ kCapitals, isspace (fold c) = isspace c := by
      rw [kCapitals_eq]
      exact List.all_iff_forall_prop.1 (by decide +kernel)
    exact hall c hmem

theorem isMark_norm (c : Char) : isMark (norm c) = isMark c := by
  rcases norm_eq_or c with heq | hmem
  · rw [heq]
  · exact (kChanged_spec c hmem).1.2.2

theorem isAlpha_norm {c : Char} (hc : c.isAlpha = true) : (norm c).isAlpha = true := by
  rcases norm_eq_or c with heq | hmem
  · rwa [heq]
  · exact (kChanged_spec c hmem).2.1.1

theorem norm_eq_dot (c : Char) : norm c = '.' ↔ c = '.' := by
  rcases norm_eq_or c with heq | hmem
  · rw [heq]
  · obtain ⟨-, ⟨-, hnorm⟩, hdot, -⟩ := kChanged_spec c hmem
    exact iff_of_false hnorm hdot

/-- Digits and `@` stay. -/
theorem norm_eq_self {c : Char} (hc : c.isDigit = true ∨ c = '@') : norm c = c := by
  rcases norm_eq_or c with heq | hmem
  · exact heq
  · obtain ⟨-, -, -, hdigit, hat⟩ := kChanged_spec c hmem
    rcases hc with hc | hc
    · simp [hdigit] at hc
    · exact absurd hc hat

/-! ### The words of a line -/

/-- Words with a space after each. -/
def lead (ws : List Text) : Text := ws.flatMap fun w => w ++ [' ']

theorem lead_append (ws : List Text) (w : Text) : lead ws ++ w = Words.join ' ' (ws ++ [w]) := by
  induction ws with
  | nil => rfl
  | cons w' ws ih =>
    rw [List.cons_append, Words.join_cons (by simp), ← ih, lead, List.flatMap_cons, ← lead]
    simp

theorem rdropWhile_word {w : Text} (hw : Words.Word isspace w) (before : Text) :
    (before ++ w).rdropWhile (· = ' ') = before ++ w := by
  obtain rfl | ⟨w, c, rfl⟩ := List.eq_nil_or_concat w
  · exact absurd rfl hw.1
  · have hc : ¬(decide (c = ' ') = true) := fun heq => by
      have := hw.2 c (by simp)
      rw [of_decide_eq_true heq] at this
      exact absurd this (by decide)
    rw [List.concat_eq_append, ← List.append_assoc]
    exact List.rdropWhile_concat_neg _ _ _ hc

theorem rdropWhile_lead {ws : List Text} (hws : ∀ w ∈ ws, Words.Word isspace w) :
    (lead ws).rdropWhile (· = ' ') = Words.join ' ' ws := by
  obtain rfl | ⟨ws, w, rfl⟩ := List.eq_nil_or_concat ws
  · rfl
  · rw [List.concat_eq_append] at hws ⊢
    have hlead : lead (ws ++ [w]) = lead ws ++ w ++ [' '] := by simp [lead]
    rw [hlead, List.rdropWhile_concat_pos _ _ _ (by decide),
      rdropWhile_word (hws w (by simp)), lead_append]

/-- The loop of `sanitizeLine` after some words and a part of the next. -/
theorem trimLoop_eq (ws : List Text) {current text : Text} {previousSpace : Bool}
    (hws : ∀ w ∈ ws, Words.Word isspace w) (hcurrent : ∀ c ∈ current, isspace c = false)
    (hbetween : current = [] → previousSpace = true ∨ ws = [])
    (hwithin : current ≠ [] → previousSpace = false) :
    (trimLoop (lead ws ++ current) previousSpace text).rdropWhile (· = ' ') =
      Words.join ' ' (ws ++ Words.splitFrom isspace current text) := by
  induction text generalizing ws current previousSpace with
  | nil =>
    unfold trimLoop Words.splitFrom
    split_ifs with hnil
    · rw [hnil, List.append_nil, List.append_nil, rdropWhile_lead hws]
    · rw [rdropWhile_word ⟨hnil, hcurrent⟩, lead_append]
  | cons c text ih =>
    unfold trimLoop Words.splitFrom
    split_ifs with hspace hfirst hnil hnil
    · -- a space before which there is none, after a word
      rcases hbetween hnil with hprev | rfl
      · rw [hprev] at hfirst
        cases hfirst.2
      · rw [hnil] at hfirst
        exact absurd rfl hfirst.1
    · have hword : Words.Word isspace current := ⟨hnil, hcurrent⟩
      have hlead : lead ws ++ current ++ [' '] = lead (ws ++ [current]) ++ [] := by simp [lead]
      rw [hlead, ih _ (fun w hw => ?_) (by simp) (fun _ => .inl rfl) (fun h => absurd rfl h),
        List.append_assoc, List.singleton_append]
      rcases List.mem_append.1 hw with hw | hw
      · exact hws w hw
      · exact List.mem_singleton.1 hw ▸ hword
    · rw [hnil]
      exact ih ws hws (by simp) (fun _ => .inl rfl) (fun h => absurd rfl h)
    · exact absurd ⟨by simp [hnil], hwithin hnil⟩ hfirst
    · rw [List.append_assoc]
      refine ih ws hws (fun c' hc' => ?_) (fun h => by simp at h) fun _ => rfl
      rcases List.mem_append.1 hc' with hc' | hc'
      · exact hcurrent c' hc'
      · exact List.mem_singleton.1 hc' ▸ Bool.eq_false_iff.2 hspace

theorem trim_eq (text : Text) : trim text = Words.join ' ' (words text) :=
  trimLoop_eq [] (by simp) (by simp) (fun _ => .inr rfl) fun h => absurd rfl h

theorem words_join (text : Text) : words (Words.join ' ' (words text)) = words text :=
  Words.split_join rfl Words.word_split

theorem words_normalize (value : Text) : words (normalize value) = (words value).map normalize := by
  rw [normalize_eq, words, Words.split_map isspace_norm]
  exact List.map_congr_left fun w _ => (normalize_eq w).symm

section Congr

variable {a b : Text} (hwords : words a = words b)

include hwords

theorem count_congr {c : Char} (hc : isspace c = false) : a.count c = b.count c := by
  have hcount (text : Text) : text.count c = (words text).flatten.count c := by
    rw [words, Words.flatten_split, List.count_filter (by simp [hc])]
  rw [hcount a, hcount b, hwords]

theorem mem_congr {c : Char} (hc : isspace c = false) : c ∈ a ↔ c ∈ b := by
  rw [← List.count_pos_iff, count_congr hwords hc, List.count_pos_iff]

/-- The checks on characters see only the words. -/
theorem hasUnsafeCharacters_congr : hasUnsafeCharacters a = hasUnsafeCharacters b := by
  have hhttp : "http".toList <:+: a ↔ "http".toList <:+: b := by
    have hword : Words.Word isspace "http".toList :=
      ⟨by decide, List.all_iff_forall_prop.1 (by decide)⟩
    rw [Words.infix_split hword, Words.infix_split hword]
    change (∃ u ∈ words a, _) ↔ ∃ u ∈ words b, _
    rw [hwords]
  have hdigits : a.any Char.isDigit = b.any Char.isDigit := by
    rw [Bool.eq_iff_iff, List.any_eq_true, List.any_eq_true]
    refine exists_congr fun c => and_congr_left fun hc => mem_congr hwords ?_
    by_contra hspace
    rw [Bool.not_eq_false] at hspace
    have hall : ∀ c ∈ [' ', '\t', '\n', '\x0b', '\x0c', '\r'], c.isDigit = false :=
      List.all_iff_forall_prop.1 (by decide)
    have := hall c (by simpa [isspace, or_assoc] using hspace)
    simp [this] at hc
  simp only [hasUnsafeCharacters, hhttp, hdigits, hwords, mem_congr hwords (c := '@') (by decide)]

end Congr

/-! ### Domains -/

theorem strip_normalize (w : Text) :
    ((w.map norm).dropWhile isMark).rdropWhile isMark =
      ((w.dropWhile isMark).rdropWhile isMark).map norm := by
  have hmark : isMark ∘ norm = isMark := funext isMark_norm
  rw [List.dropWhile_map, hmark, List.rdropWhile, List.rdropWhile, ← List.map_reverse,
    List.dropWhile_map, hmark, List.map_reverse]

/-- A domain is one in lower case, too. -/
theorem looksLikeDomain_normalize {w : Text} (hw : looksLikeDomain w = true) :
    looksLikeDomain (normalize w) = true := by
  rw [normalize_eq]
  unfold looksLikeDomain at hw ⊢
  dsimp only at hw ⊢
  rw [strip_normalize]
  generalize (w.dropWhile isMark).rdropWhile isMark = t at hw ⊢
  have hdot : (fun c => decide (c ≠ '.')) ∘ norm = fun c => decide (c ≠ '.') := by
    funext c
    simp [norm_eq_dot]
  have htake : ((t.map norm).takeWhile (· ≠ '.')).length = (t.takeWhile (· ≠ '.')).length := by
    rw [List.takeWhile_map, hdot, List.length_map]
  have hrtake : (t.map norm).rtakeWhile (· ≠ '.') = (t.rtakeWhile (· ≠ '.')).map norm := by
    rw [List.rtakeWhile, List.rtakeWhile, ← List.map_reverse, List.takeWhile_map, hdot,
      List.map_reverse]
  have hmem : '.' ∈ t.map norm ↔ '.' ∈ t := by
    rw [List.mem_map]
    refine ⟨?_, fun h => ⟨'.', h, (norm_eq_dot '.').2 rfl⟩⟩
    rintro ⟨c, hc, heq⟩
    exact (norm_eq_dot c).1 heq ▸ hc
  have hall (h : (t.rtakeWhile (· ≠ '.')).all Char.isAlpha = true) :
      ((t.rtakeWhile (· ≠ '.')).map norm).all Char.isAlpha = true := by
    rw [List.all_eq_true] at h ⊢
    intro c hc
    obtain ⟨d, hd, rfl⟩ := List.mem_map.1 hc
    exact isAlpha_norm (h d hd)
  have hwww : t = "www".toList ∨ "www.".toList <+: t →
      t.map norm = "www".toList ∨ "www.".toList <+: t.map norm := by
    rintro (rfl | ⟨rest, rfl⟩)
    · exact .inl (by decide)
    · refine .inr ⟨rest.map norm, ?_⟩
      rw [List.map_append]
      rfl
  simp only [hrtake, htake, List.length_map, hmem]
  split_ifs at hw ⊢ <;> simp_all

/-! ### Which lines are clean -/

section Main

variable {input : LineInput}

theorem normalize_banned : ∀ token ∈ bannedVocabulary, normalize token = token := by
  unfold bannedVocabulary
  repeat rw [List.map_cons, String.toList_ofList]
  decide +kernel

theorem seen_iff : Seen input ↔
    containsAnyWord (normalize input.text) bannedVocabulary = true ∨
      (input.privateTokens.any fun token =>
        !decide (size token < 3) && decide (normalize token <:+: normalize input.text)) = true := by
  simp only [Seen, forbidden, containsAnyWord, List.mem_append, or_and_right, exists_or,
    List.any_eq_true, List.mem_filter, decide_eq_true_eq, Bool.and_eq_true, and_assoc]
  refine or_congr (exists_congr fun token => and_congr_right fun hmem => ?_) Iff.rfl
  rw [normalize_banned token hmem]

theorem sanitizeLine_of_refused (h : Refused input = true ∨ Seen input) :
    sanitizeLine input = [] := by
  rw [seen_iff] at h
  unfold sanitizeLine
  split_ifs with h₁ h₂ h₃ h₄ h₅ h₆
  any_goals rfl
  simp [Refused, h₁, h₂, h₃, h₄, h₅, h₆] at h

theorem sanitizeLine_of_not_refused (hrefused : Refused input = false) (hseen : ¬Seen input) :
    sanitizeLine input = Words.join ' ' (words input.text) := by
  rw [seen_iff, not_or] at hseen
  simp only [Refused, Bool.or_eq_false_iff, decide_eq_false_iff_not] at hrefused
  obtain ⟨⟨⟨h₁, h₂⟩, h₄⟩, h₅⟩ := hrefused
  rw [sanitizeLine, if_neg h₁, if_neg h₂, if_neg hseen.1, if_neg (by simp [h₄]), if_neg h₅,
    if_neg hseen.2, trim_eq]

/-- A line is refused like the text it was made of. -/
theorem refused_join (input : LineInput) :
    Refused { input with text := Words.join ' ' (words input.text) } = Refused input := by
  have hwords := words_join input.text
  have hnormalize : words (normalize (Words.join ' ' (words input.text))) =
      words (normalize input.text) := by
    rw [words_normalize, words_normalize, hwords]
  simp only [Refused, hwords, hasUnsafeCharacters_congr hnormalize,
    count_congr hwords (c := '?') (by decide)]

/-- What `normalize` finds in a line is there. -/
theorem occurs_of_part {token line : Text} (h : normalize token <:+: normalize line) :
    Occurs token line := by
  rw [normalize_eq, normalize_eq, List.infix_map_iff] at h
  obtain ⟨part, hpart, heq⟩ := h
  have hfold (text : Text) : text.map fold = (text.map norm).map fold := by
    rw [List.map_map]
    exact List.map_congr_left fun c _ => (fold_norm c).symm
  exact ⟨part, hpart, by rw [Same, hfold part, hfold token, heq]⟩

theorem clean_of_accepted (hrefused : Refused input = false)
    (hpresent : ¬Present input) :
    Clean input.maxWords input.privateTokens (Words.join ' ' (words input.text)) := by
  have hwords := words_join input.text
  have hline := refused_join input
  rw [hrefused] at hline
  have htokens : ∀ token ∈ forbidden input.privateTokens,
      ¬Occurs token (Words.join ' ' (words input.text)) :=
    fun token hmem hoccurs => hpresent ⟨token, hmem, hoccurs⟩
  have hstable := sanitizeLine_of_not_refused hline fun ⟨token, hmem, hinfix⟩ =>
    htokens token hmem (occurs_of_part hinfix)
  simp only [Refused, hasUnsafeCharacters, Bool.or_eq_false_iff, decide_eq_false_iff_not,
    List.any_eq_false] at hline
  obtain ⟨⟨⟨-, hshort⟩, ⟨⟨-, haddress⟩, hdigits⟩, hdomains⟩, hquestions⟩ := hline
  rw [normalize_eq] at haddress hdigits
  refine ⟨htokens, not_lt.1 hshort, not_lt.1 hquestions, fun c hc => ?_, fun hmem => ?_,
    fun w hw => ?_, ?_⟩
  · by_contra hdigit
    rw [Bool.not_eq_false] at hdigit
    exact hdigits c (List.mem_map.2 ⟨c, hc, norm_eq_self (.inl hdigit)⟩) hdigit
  · exact haddress (List.mem_map.2 ⟨'@', hmem, norm_eq_self (.inr rfl)⟩)
  · by_contra hdomain
    rw [Bool.not_eq_false] at hdomain
    refine hdomains (normalize w) ?_ (looksLikeDomain_normalize hdomain)
    rw [words_normalize]
    exact List.mem_map_of_mem hw
  · rw [hstable, hwords]

theorem collapse_letters {text : Text} (htext : ∀ c ∈ text, isspace c = false)
    (previousSpace : Bool) : collapse previousSpace text = text := by
  induction text generalizing previousSpace with
  | nil => rfl
  | cons c text ih =>
    rw [List.forall_mem_cons] at htext
    rw [collapse, if_neg (by simp [htext.1]), ih htext.2]

theorem mem_collapse {text : Text} {c : Char} (hc : c ∈ text) (hspace : isspace c = true) :
    ' ' ∈ collapse false text := by
  induction text with
  | nil => cases hc
  | cons d text ih =>
    unfold collapse
    split_ifs with hd hfalse
    · cases hfalse
    · exact List.mem_cons_self
    · rcases List.mem_cons.1 hc with rfl | hc
      · exact absurd hspace hd
      · exact List.mem_cons_of_mem _ (ih hc)

/-- Without capitals outside ASCII and without spaces, `normalize` finds what is there. -/
theorem seen_of_plain (hplain : Plain input) (hpresent : Present input) : Seen input := by
  obtain ⟨token, hmem, part, hpart, hsame⟩ := hpresent
  obtain ⟨⟨hne, hletters⟩, hlower⟩ := hplain.tokens token hmem
  have hfolded (text : Text) (htext : ∀ c ∈ text, isspace c = false) :
      collapse false (text.map fold) = text.map fold :=
    collapse_letters (fun c hc => by
      obtain ⟨d, hd, rfl⟩ := List.mem_map.1 hc
      rw [isspace_fold, htext d hd]) false
  rw [Same, hfolded token hletters] at hsame
  have hpartLetters : ∀ c ∈ part, isspace c = false := by
    intro c hc
    by_contra hspace
    rw [Bool.not_eq_false] at hspace
    have hblank := mem_collapse (List.mem_map_of_mem (f := fold) hc)
      (by rw [isspace_fold, hspace])
    rw [hsame] at hblank
    obtain ⟨d, hd, heq⟩ := List.mem_map.1 hblank
    have := hletters d hd
    rw [← isspace_fold, heq] at this
    exact absurd this (by decide)
  rw [hfolded part hpartLetters] at hsame
  have hword : Words.Word isspace part := ⟨fun hnil => hne (by simpa [hnil] using hsame),
    hpartLetters⟩
  rw [Words.infix_split hword] at hpart
  change ∃ u ∈ words _, _ at hpart
  rw [words_join, words, ← Words.infix_split hword] at hpart
  have hnorm (text : Text) (htext : ∀ c ∈ text, lower c = c.toLower) :
      text.map fold = text.map norm :=
    List.map_congr_left fun c hc => by rw [fold, norm, htext c hc]
  refine ⟨token, hmem, ?_⟩
  rw [normalize_eq, normalize_eq, ← hnorm token hlower, ← hsame,
    hnorm part fun c hc => hplain.text c (hpart.subset hc)]
  exact hpart.map norm

/-- A line that is returned is clean exactly if the comparison by `normalize` finds a forbidden word
wherever there is one, or another check refuses the text.  It does where no letter is a capital
outside ASCII and no forbidden word has a space. -/
theorem line_clean (input : LineInput) :
    ((sanitizeLine input = [] ∨
        Clean input.maxWords input.privateTokens (sanitizeLine input)) ↔
      (Present input → Seen input ∨ Refused input = true)) ∧
    (Plain input → Present input → Seen input) := by
  refine ⟨?_, seen_of_plain⟩
  by_cases hout : Refused input = true ∨ Seen input
  · exact iff_of_true (.inl (sanitizeLine_of_refused hout)) fun _ => hout.symm
  · rw [not_or, Bool.not_eq_true] at hout
    have hline := sanitizeLine_of_not_refused hout.1 hout.2
    rw [hline]
    constructor
    · rintro (hempty | hclean) ⟨token, hmem, hoccurs⟩
      · have hnone : words input.text = [] := by
          rw [← words_join input.text, hempty]
          rfl
        simp [Refused, hnone] at hout
      · exact absurd hoccurs (hclean.tokens token hmem)
    · intro hpresent
      refine .inr (clean_of_accepted hout.1 fun h => ?_)
      rcases hpresent h with hseen | hrefused
      · exact hout.2 hseen
      · simp [hout.1] at hrefused

/-- A banned word in capitals. -/
def capitals : LineInput := ⟨"CÁMARA".toList, 5, []⟩

theorem capitals_pass : sanitizeLine capitals = "CÁMARA".toList ∧
    ¬Clean capitals.maxWords capitals.privateTokens (sanitizeLine capitals) := by
  have hline : sanitizeLine capitals = "CÁMARA".toList := by decide +kernel
  refine ⟨hline, fun hclean => hclean.tokens "camara".toList (by decide +kernel) ?_⟩
  rw [hline]
  exact ⟨_, List.infix_refl _, by unfold Same; decide +kernel⟩

end Main

end Dialogue

end Guard

end ArgusBackend

import ArgusBackend.Library.Deletion
import ArgusBackend.Voice.VisitorConsent

/-!
# Yes and no

`consentAnswer` works on letters and deletes phrase after phrase.  Here its answer is compared with
the words: no when a phrase of `kNo` is among them, yes when they can be cut into phrases.

* `readIdioms` : the words with the idioms read as `si`;
* `Consents` : the words can be cut into phrases of yes and fillers;
* `Plain` : no broken phrase is among words that consent, and others are not joined by deletions;
* `heard_iff` : when the answer is the one that the grammar gives.
-/

namespace ArgusBackend

namespace Voice

namespace Consent

/-- The words of a phrase. -/
def wordsOf (phrase : Word) : List Word := Words.split (· == ' ') phrase

/-- The phrases that are deleted, in their order. -/
def phrases : List (List Word) := (kYes ++ kFiller).map wordsOf

/-- The words of phrases that an earlier phrase breaks: `that s ok`, `thats fine`, `ok then`. -/
def ghosts : List Word := ["that".toList, "s".toList, "thats".toList, "then".toList]

/-- The phrases that no word which is deleted before breaks. -/
def deletable : List (List Word) := Words.unbroken [] phrases

lemma apart_deletable : Words.apart deletable = true := by
  decide +kernel

lemma spelled : (kYes ++ kNo ++ kFiller ++ kYesIdioms).all (fun phrase =>
    decide (needleOf phrase = Words.padded ' ' (wordsOf phrase) ∧ wordsOf phrase ≠ [])) = true := by
  decide +kernel

/-- A phrase has a word that stays, or it is deletable itself or word by word. -/
lemma deleted_somehow : phrases.all (fun seg => (seg.any fun w => ghosts.contains w) ||
    deletable.contains seg || seg.all fun w => deletable.contains [w]) = true := by
  decide +kernel

lemma no_ghost_deletable : deletable.all (fun seg => seg.all fun w => !ghosts.contains w) = true := by
  decide +kernel

lemma yes_marked : ∀ y ∈ kYes, ∃ w ∈ wordsOf y, ∀ f ∈ kFiller, w ∉ wordsOf f := by
  decide +kernel

/-! ### The words of an answer -/

/-- A word without blanks that is not empty. -/
abbrev Spoken (w : Word) : Prop := Words.Word (· == ' ') w

lemma Spoken.not_mem {w : Word} (h : Spoken w) : ' ' ∉ w := fun hmem => by
  simpa using h.2 ' ' hmem

lemma spoken_si : Spoken "si".toList := by
  have hall : ("si".toList.all fun c => !(c == ' ')) = true := by decide
  exact ⟨by decide, fun c hc => by simpa using List.all_eq_true.mp hall c hc⟩

lemma not_mem_wordsOf (phrase : Word) : ∀ w ∈ wordsOf phrase, ' ' ∉ w := fun _ hw =>
  Spoken.not_mem (Words.word_split _ hw)

lemma scanAt_letter {byte : UInt8} {rest : List UInt8} {c : Char}
    (h : (scanAt byte rest).letter = some c) : c ≠ ' ' := by
  have hplain : ∀ n < 128, 0x30 ≤ n → Char.ofNat n ≠ ' ' := by decide
  unfold scanAt at h
  dsimp only at h
  split_ifs at h with hascii hplainLetter hupper
  · obtain rfl := Option.some.inj h
    have hlt : byte.toNat < 128 := UInt8.lt_iff_toNat_lt.mp hascii
    refine hplain _ hlt ?_
    simp only [UInt8.le_iff_toNat_le, UInt8.reduceToNat] at hplainLetter
    omega
  · obtain rfl := Option.some.inj h
    simp only [UInt8.le_iff_toNat_le, UInt8.reduceToNat] at hupper
    exact hplain _ (by omega) (by omega)
  · have hletter : foldLatin (rest.headD 0) = some c := h
    unfold foldLatin at hletter
    split_ifs at hletter <;> (obtain rfl := Option.some.inj hletter; decide)

lemma mem_scans {text : List UInt8} {scanned : Scanned} (h : scanned ∈ scans text) {c : Char}
    (hc : scanned.letter = some c) : c ≠ ' ' := by
  induction text using scans.induct with
  | case1 => simp [scans] at h
  | case2 byte rest ih =>
    rw [scans] at h
    rcases List.mem_cons.mp h with rfl | h
    · exact scanAt_letter hc
    · exact ih h

/-- The words that were read are spoken ones, and so is the one that is being read. -/
structure Reading.Sound (r : Reading) : Prop where
  words : ∀ word ∈ r.words, Spoken word.folded
  current : ' ' ∉ r.current

lemma Reading.Sound.close {r : Reading} (h : r.Sound) : r.close.Sound := by
  unfold Reading.close
  split_ifs with hnil
  · exact h
  · refine ⟨fun word hword => ?_, by simp⟩
    rcases List.mem_append.mp hword with hword | hword
    · exact h.words word hword
    · rw [List.mem_singleton.mp hword]
      refine ⟨hnil, fun c hc => ?_⟩
      have hne : c ≠ ' ' := fun heq => h.current (heq ▸ hc)
      simpa using hne

lemma Reading.Sound.read {r : Reading} (h : r.Sound) {scanned : Scanned}
    (hscanned : ∀ c, scanned.letter = some c → c ≠ ' ') : (r.read scanned).Sound := by
  unfold Reading.read
  split
  · next c hc =>
    refine ⟨h.words, fun hmem => ?_⟩
    rcases List.mem_append.mp hmem with hmem | hmem
    · exact h.current hmem
    · exact hscanned c hc (List.mem_singleton.mp hmem).symm
  · exact ⟨h.close.words, h.close.current⟩

lemma spoken_wakeWordsOf (text : List UInt8) : ∀ word ∈ wakeWordsOf text, Spoken word.folded := by
  have hfold : ∀ (l : List Scanned) (r : Reading), r.Sound →
      (∀ scanned ∈ l, ∀ c, scanned.letter = some c → c ≠ ' ') → (l.foldl Reading.read r).Sound := by
    intro l
    induction l with
    | nil => exact fun r h _ => h
    | cons scanned l ih =>
      intro r h hl
      rw [List.forall_mem_cons] at hl
      exact ih _ (h.read hl.1) hl.2
  exact (hfold _ {} ⟨by simp, by simp⟩ fun _ h _ => mem_scans h).close.words

lemma spoken_answerWords (text : List UInt8) (wakeMaxDistance : ℤ) :
    ∀ w ∈ answerWords text wakeMaxDistance, Spoken w := by
  intro w hw
  obtain ⟨word, hword, rfl⟩ := List.mem_map.mp hw
  exact spoken_wakeWordsOf text word (List.mem_of_mem_filter hword)

/-! ### From letters to words -/

/-- The deletions that a text of these words has room for. -/
def fuel (ws : List Word) : ℕ := (Words.padded ' ' ws).length

lemma length_le_fuel (ws : List Word) : ws.length ≤ fuel ws := by
  induction ws with
  | nil => exact Nat.zero_le _
  | cons w ws ih =>
    rw [fuel, Words.padded_cons, List.length_cons, List.length_cons, List.length_append]
    exact Nat.succ_le_succ (ih.trans (Nat.le_add_left _ _))

/-- The words without the phrases of a list, each rewritten in turn. -/
def rewritePhrases (q : List Word) (list : List Word) (ws : List Word) : List Word :=
  list.foldl (fun ws phrase => Words.rewriteLoop (wordsOf phrase) q (fuel ws) ws) ws

/-- The words with the idioms read as `si`, in the order of the list. -/
def readIdioms (ws : List Word) : List Word := rewritePhrases ["si".toList] kYesIdioms ws

variable {q ws : List Word} {list : List Word}

/-- The phrases that are looked for. -/
def allPhrases : List Word := kYes ++ kNo ++ kFiller ++ kYesIdioms

lemma yes_listed : ∀ phrase ∈ kYes, phrase ∈ allPhrases := fun _ h =>
  List.mem_append_left _ (List.mem_append_left _ (List.mem_append_left _ h))

lemma no_listed : ∀ phrase ∈ kNo, phrase ∈ allPhrases := fun _ h =>
  List.mem_append_left _ (List.mem_append_left _ (List.mem_append_right _ h))

lemma filler_listed : ∀ phrase ∈ kFiller, phrase ∈ allPhrases := fun _ h =>
  List.mem_append_left _ (List.mem_append_right _ h)

lemma idioms_listed : ∀ phrase ∈ kYesIdioms, phrase ∈ allPhrases := fun _ h =>
  List.mem_append_right _ h

lemma spelled_of_mem {phrase : Word} (h : phrase ∈ allPhrases) :
    needleOf phrase = Words.padded ' ' (wordsOf phrase) ∧ wordsOf phrase ≠ [] :=
  of_decide_eq_true (List.all_eq_true.mp spelled phrase h)

lemma spoken_step (phrase : Word) (hws : ∀ w ∈ ws, Spoken w) (hq : ∀ w ∈ q, Spoken w) :
    ∀ w ∈ Words.rewriteLoop (wordsOf phrase) q (fuel ws) ws, Spoken w := by
  intro w hw
  rcases Words.mem_of_rewriteLoop hw with hw | hw
  · exact hws w hw
  · exact hq w hw

lemma spoken_rewritePhrases (hws : ∀ w ∈ ws, Spoken w) (hq : ∀ w ∈ q, Spoken w) :
    ∀ w ∈ rewritePhrases q list ws, Spoken w := by
  induction list generalizing ws with
  | nil => exact hws
  | cons phrase list ih => exact ih (spoken_step phrase hws hq)

lemma replacePhrases_padded (hlist : ∀ phrase ∈ list, phrase ∈ allPhrases)
    (hws : ∀ w ∈ ws, Spoken w) (hq : ∀ w ∈ q, Spoken w) :
    replacePhrases list (Words.padded ' ' q) (Words.padded ' ' ws) =
      Words.padded ' ' (rewritePhrases q list ws) := by
  induction list generalizing ws with
  | nil => rfl
  | cons phrase list ih =>
    rw [List.forall_mem_cons] at hlist
    obtain ⟨hneedle, hne⟩ := spelled_of_mem hlist.1
    have hstep : Words.replaceLoop (needleOf phrase) (Words.padded ' ' q) (fuel ws)
        (Words.padded ' ' ws) =
          Words.padded ' ' (Words.rewriteLoop (wordsOf phrase) q (fuel ws) ws) := by
      rw [hneedle]
      exact Words.replaceLoop_padded hne (not_mem_wordsOf phrase)
        (fun w hw => (hq w hw).not_mem) fun w hw => (hws w hw).not_mem
    have hrest := ih hlist.2 (spoken_step phrase hws hq)
    rw [← hstep] at hrest
    exact hrest

lemma hasPhrase_padded (hlist : ∀ phrase ∈ list, phrase ∈ allPhrases)
    (hws : ∀ w ∈ ws, Spoken w) :
    hasPhrase (Words.padded ' ' ws) list = true ↔ ∃ phrase ∈ list, wordsOf phrase <:+: ws := by
  rw [hasPhrase, List.any_eq_true]
  refine exists_congr fun phrase => and_congr_right fun hmem => ?_
  obtain ⟨hneedle, hne⟩ := spelled_of_mem (hlist phrase hmem)
  rw [hneedle]
  exact Words.find_padded hne (not_mem_wordsOf phrase) fun w hw => (hws w hw).not_mem

lemma all_blank_padded (hws : ∀ w ∈ ws, Spoken w) :
    (Words.padded ' ' ws).all (· = ' ') = true ↔ ws = [] := by
  constructor
  · intro hall
    cases ws with
    | nil => rfl
    | cons w ws =>
      obtain ⟨hne, hletters⟩ := hws w (by simp)
      obtain ⟨c, w', rfl⟩ := List.exists_cons_of_ne_nil hne
      have hc := List.all_eq_true.mp hall c (by simp [Words.padded])
      have hletter := hletters c (by simp)
      simp only [decide_eq_true_eq] at hc
      simp [hc] at hletter
  · rintro rfl
    rfl

lemma rewritePhrases_deleteAll (ws : List Word) :
    rewritePhrases [] kFiller (rewritePhrases [] kYes ws) = Words.deleteAll fuel phrases ws := by
  rw [Words.deleteAll, phrases, List.foldl_map, List.foldl_append]
  rfl

/-- What the answer is, in words. -/
lemma consentAnswer_eq (text : List UInt8) (maxWords wakeMaxDistance : ℤ) :
    let words := answerWords text wakeMaxDistance
    let read := readIdioms words
    (consentAnswer text maxWords wakeMaxDistance = .no ↔
      (words ≠ [] ∧ (words.length : ℤ) ≤ maxWords) ∧ ∃ phrase ∈ kNo, wordsOf phrase <:+: read) ∧
    (consentAnswer text maxWords wakeMaxDistance = .yes ↔
      (words ≠ [] ∧ (words.length : ℤ) ≤ maxWords) ∧ (¬∃ phrase ∈ kNo, wordsOf phrase <:+: read) ∧
        (∃ phrase ∈ kYes, wordsOf phrase <:+: read) ∧ Words.deleteAll fuel phrases read = []) := by
  intro words read
  have hwords := spoken_answerWords text wakeMaxDistance
  have hread : ∀ w ∈ read, Spoken w :=
    spoken_rewritePhrases hwords (by simpa using spoken_si)
  have hidioms : replacePhrases kYesIdioms " si ".toList (Words.padded ' ' words) =
      Words.padded ' ' read :=
    replacePhrases_padded (q := ["si".toList]) idioms_listed hwords (by simpa using spoken_si)
  have hafter : ∀ w ∈ rewritePhrases [] kYes read, Spoken w :=
    spoken_rewritePhrases hread (by simp)
  have hdeleted : replacePhrases kFiller [' '] (replacePhrases kYes [' '] (Words.padded ' ' read)) =
      Words.padded ' ' (Words.deleteAll fuel phrases read) := by
    have hyes := replacePhrases_padded (q := []) yes_listed hread (by simp)
    have hfiller := replacePhrases_padded (q := []) filler_listed hafter (by simp)
    rw [show Words.padded ' ' [] = [' '] from rfl] at hyes hfiller
    rw [hyes, hfiller, rewritePhrases_deleteAll]
  have hspoken : ∀ w ∈ Words.deleteAll fuel phrases read, Spoken w := by
    rw [← rewritePhrases_deleteAll]
    exact spoken_rewritePhrases hafter (by simp)
  have hno := hasPhrase_padded no_listed hread
  have hyes := hasPhrase_padded yes_listed hread
  have hblank := all_blank_padded hspoken
  unfold consentAnswer
  dsimp only
  rw [hidioms, hdeleted, ← hno, ← hyes, ← hblank]
  by_cases hrange : words = [] ∨ (words.length : ℤ) > maxWords
  · rw [if_pos hrange]
    have hout : ¬(words ≠ [] ∧ (words.length : ℤ) ≤ maxWords) := by
      rintro ⟨hne, hle⟩
      rcases hrange with hnil | hgt
      · exact hne hnil
      · omega
    exact ⟨iff_of_false (by decide) fun h => hout h.1, iff_of_false (by decide) fun h => hout h.1⟩
  · rw [if_neg hrange]
    have hin : words ≠ [] ∧ (words.length : ℤ) ≤ maxWords := by
      rw [not_or] at hrange
      exact ⟨hrange.1, by omega⟩
    cases hasPhrase (Words.padded ' ' read) kNo <;>
      cases hasPhrase (Words.padded ' ' read) kYes <;>
      cases (Words.padded ' ' (Words.deleteAll fuel phrases read)).all (· = ' ') <;>
      simp [hin]

/-! ### Against the plain grammar -/

/-- The words can be cut into phrases of yes and fillers, with one of yes at least. -/
def Consents (ws : List Word) : Prop :=
  ∃ segs : List (List Word), (∀ seg ∈ segs, seg ∈ phrases) ∧
    (∃ seg ∈ segs, ∃ y ∈ kYes, seg = wordsOf y) ∧ segs.flatten = ws

/-- The deletions join the words to phrases until nothing is left: phrases of which those of two
words are interrupted by phrases up to them. -/
def Joined (ws : List Word) : Prop := Words.Nested deletable ws

/-- Words that can be cut have no phrase that an earlier one breaks, and the deletions do not join
others. -/
def Plain (ws : List Word) : Prop :=
  (Consents ws → ∀ w ∈ ws, w ∉ ghosts) ∧ (¬Consents ws → ¬Joined ws)

lemma mem_phrases {seg : List Word} :
    seg ∈ phrases ↔ ∃ phrase, (phrase ∈ kYes ∨ phrase ∈ kFiller) ∧ wordsOf phrase = seg := by
  simp only [phrases, List.mem_map, List.mem_append]

lemma consents_iff :
    Consents ws ↔ Words.Cut phrases ws ∧ ∃ phrase ∈ kYes, wordsOf phrase <:+: ws := by
  constructor
  · rintro ⟨segs, hsegs, ⟨seg, hseg, y, hy, rfl⟩, rfl⟩
    exact ⟨⟨segs, hsegs, rfl⟩, y, hy, List.infix_of_mem_flatten hseg⟩
  · rintro ⟨⟨segs, hsegs, rfl⟩, y, hy, hin⟩
    -- a word that is in no filler shows which phrase is one of yes
    obtain ⟨w, hw, hfiller⟩ := yes_marked y hy
    obtain ⟨seg, hseg, hwseg⟩ := List.mem_flatten.mp (hin.subset hw)
    obtain ⟨phrase, hmem | hmem, rfl⟩ := mem_phrases.mp (hsegs seg hseg)
    · exact ⟨segs, hsegs, ⟨_, hseg, phrase, hmem, rfl⟩, rfl⟩
    · exact absurd hwseg (hfiller phrase hmem)

lemma deleteAll_iff : Words.deleteAll fuel phrases ws = [] ↔ Joined ws :=
  Words.deleteAll_eq_nil_iff length_le_fuel apart_deletable

/-- Words that can be cut are joined exactly when no broken phrase is among them. -/
lemma joined_iff_of_cut (hcut : Words.Cut phrases ws) : Joined ws ↔ ∀ w ∈ ws, w ∉ ghosts := by
  constructor
  · intro hjoined w hw
    obtain ⟨seg, hseg, hwseg⟩ := hjoined.mem hw
    have hnone := List.all_eq_true.mp (List.all_eq_true.mp no_ghost_deletable seg hseg) w hwseg
    simpa using hnone
  · intro hghosts
    obtain ⟨segs, hsegs, rfl⟩ := hcut
    have hcut : Words.Cut segs segs.flatten := ⟨segs, fun _ h => h, rfl⟩
    refine Words.Nested.of_cut hcut fun seg hseg => ?_
    have hseg' := List.all_eq_true.mp deleted_somehow seg (hsegs seg hseg)
    simp only [Bool.or_eq_true, List.any_eq_true, List.all_eq_true, List.contains_iff_mem] at hseg'
    rcases hseg' with (⟨w, hw, hghost⟩ | hmem) | hwords
    · exact absurd hghost (hghosts w (List.mem_flatten.mpr ⟨seg, hseg, hw⟩))
    · exact .of_mem hmem (Words.short_of_apart apart_deletable seg hmem)
    · -- it is deleted word by word
      have hall : ∀ ws : List Word, (∀ w ∈ ws, [w] ∈ deletable) → Joined ws := by
        intro ws
        induction ws with
        | nil => exact fun _ => .nil
        | cons w ws ih =>
          intro h
          rw [List.forall_mem_cons] at h
          exact .word h.1 (ih h.2)
      exact hall seg hwords

/-- The deletions find what the grammar says exactly under the condition. -/
theorem joined_iff_plain : (Joined ws ↔ Consents ws) ↔ Plain ws := by
  by_cases hconsents : Consents ws
  · have hghosts := joined_iff_of_cut (consents_iff.mp hconsents).1
    constructor
    · exact fun h => ⟨fun _ => hghosts.mp (h.mpr hconsents), fun hnot => absurd hconsents hnot⟩
    · exact fun h => iff_of_true (hghosts.mpr (h.1 hconsents)) hconsents
  · constructor
    · exact fun h => ⟨fun hcut => absurd hcut hconsents, fun _ hjoined => hconsents (h.mp hjoined)⟩
    · exact fun h => iff_of_false (h.2 hconsents) hconsents

/-- The words are within the limits. -/
def InRange (words : List Word) (maxWords : ℤ) : Prop :=
  words ≠ [] ∧ (words.length : ℤ) ≤ maxWords

/-- What `consentAnswer` should say of a text. -/
structure Heard (text : List UInt8) (maxWords wakeMaxDistance : ℤ) : Prop where
  no : consentAnswer text maxWords wakeMaxDistance = .no ↔
    InRange (answerWords text wakeMaxDistance) maxWords ∧
      ∃ phrase ∈ kNo, wordsOf phrase <:+: readIdioms (answerWords text wakeMaxDistance)
  yes : consentAnswer text maxWords wakeMaxDistance = .yes ↔
    InRange (answerWords text wakeMaxDistance) maxWords ∧
      (¬∃ phrase ∈ kNo, wordsOf phrase <:+: readIdioms (answerWords text wakeMaxDistance)) ∧
      Consents (readIdioms (answerWords text wakeMaxDistance))

/-- What the grammar and the deletions agree on: a text that is out of range, has a phrase of `kNo`
or none of `kYes` is answered before any deletion, and others are plain. -/
def PlainAnswer (text : List UInt8) (maxWords wakeMaxDistance : ℤ) : Prop :=
  InRange (answerWords text wakeMaxDistance) maxWords →
    (¬∃ phrase ∈ kNo, wordsOf phrase <:+: readIdioms (answerWords text wakeMaxDistance)) →
    (∃ phrase ∈ kYes, wordsOf phrase <:+: readIdioms (answerWords text wakeMaxDistance)) →
    Plain (readIdioms (answerWords text wakeMaxDistance))

/-- **An answer is heard exactly under the condition.** -/
theorem heard_iff (text : List UInt8) (maxWords wakeMaxDistance : ℤ) :
    Heard text maxWords wakeMaxDistance ↔ PlainAnswer text maxWords wakeMaxDistance := by
  obtain ⟨hno, hyes⟩ := consentAnswer_eq text maxWords wakeMaxDistance
  simp only [deleteAll_iff] at hyes
  constructor
  · intro hheard hrange hnone hsome
    refine joined_iff_plain.mp ⟨fun hjoined => ?_, fun hconsents => ?_⟩
    · exact (hheard.yes.mp (hyes.mpr ⟨hrange, hnone, hsome, hjoined⟩)).2.2
    · exact (hyes.mp (hheard.yes.mpr ⟨hrange, hnone, hconsents⟩)).2.2.2
  · intro hplain
    refine ⟨hno, hyes.trans ?_⟩
    refine and_congr_right fun hrange => and_congr_right fun hnone => ?_
    constructor
    · rintro ⟨hsome, hjoined⟩
      exact (joined_iff_plain.mpr (hplain hrange hnone hsome)).mp hjoined
    · intro hconsents
      have hsome := (consents_iff.mp hconsents).2
      exact ⟨hsome, (joined_iff_plain.mpr (hplain hrange hnone hsome)).mpr hconsents⟩

/-! ### The loops end -/

lemma idioms_long : kYesIdioms.all (fun phrase => decide (1 < (wordsOf phrase).length)) = true := by
  decide +kernel

/-- A loop has ended: its phrase is not in the text any more. -/
lemma loop_ends {phrase : Word} (hphrase : phrase ∈ allPhrases) (hws : ∀ w ∈ ws, Spoken w)
    (hq : ∀ w ∈ q, Spoken w) (hshort : q.length < (wordsOf phrase).length) :
    Words.find (needleOf phrase) (Words.replaceLoop (needleOf phrase) (Words.padded ' ' q)
      (Words.padded ' ' ws).length (Words.padded ' ' ws)) = none := by
  obtain ⟨hneedle, hne⟩ := spelled_of_mem hphrase
  rw [hneedle, Words.replaceLoop_padded hne (not_mem_wordsOf phrase)
    (fun w hw => (hq w hw).not_mem) fun w hw => (hws w hw).not_mem]
  have hgone : ¬wordsOf phrase <:+: Words.rewriteLoop (wordsOf phrase) q (fuel ws) ws :=
    Words.rewriteLoop_none hshort (length_le_fuel ws)
  have hafter := spoken_step phrase hws hq
  rw [← Words.find_padded hne (not_mem_wordsOf phrase) fun w hw => (hafter w hw).not_mem] at hgone
  simpa [fuel] using hgone

/-- Every replacement loop of `consentAnswer` ends with none of its phrase left. -/
def LoopsEnd : Prop :=
  ∀ ws : List Word, (∀ w ∈ ws, Spoken w) →
    (∀ phrase ∈ kYesIdioms, Words.find (needleOf phrase) (Words.replaceLoop (needleOf phrase)
      " si ".toList (Words.padded ' ' ws).length (Words.padded ' ' ws)) = none) ∧
    ∀ phrase ∈ kYes ++ kFiller, Words.find (needleOf phrase) (Words.replaceLoop (needleOf phrase)
      [' '] (Words.padded ' ' ws).length (Words.padded ' ' ws)) = none

theorem loops_end : LoopsEnd := by
  intro ws hws
  constructor
  · intro phrase hphrase
    have hlong := of_decide_eq_true (List.all_eq_true.mp idioms_long phrase hphrase)
    exact loop_ends (q := ["si".toList]) (idioms_listed phrase hphrase) hws
      (by simpa using spoken_si) hlong
  · intro phrase hphrase
    have hlisted : phrase ∈ allPhrases := by
      rcases List.mem_append.mp hphrase with hmem | hmem
      · exact yes_listed phrase hmem
      · exact filler_listed phrase hmem
    exact loop_ends (q := []) hlisted hws (by simp)
      (List.length_pos_iff.mpr (spelled_of_mem hlisted).2)

end Consent

end Voice

end ArgusBackend

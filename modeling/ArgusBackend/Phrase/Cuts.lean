import ArgusBackend.Phrase.RuleParser

/-!
# Where the parser cuts

A cut is clean when it is before the first byte of a character.  The cuts at blanks, separators and
hits are; the cut behind the last byte that is not one of `?¿!` is not when a character other than
`¿` ends in the last byte of `¿`.

* `RuleParser.Splits` : the round makes that cut;
* `RuleParser.parser_cuts` : the parser's results are valid, and pieces of the text, exactly when no
  round splits.
-/

namespace ArgusBackend

namespace Phrase

open Utf8 (Valid Cut)

namespace RuleParser

variable {catalog_ : PhraseCatalog} {lang : String} {text : Text} {n : ℕ}

/-! ### Clean cuts -/

lemma lowerByte_ascii (b : UInt8) (h : b < 0x80) : lowerByte b < 0x80 := by
  unfold lowerByte
  split_ifs with hupper
  · rw [UInt8.le_iff_toNat_le, UInt8.le_iff_toNat_le] at hupper
    rw [UInt8.lt_iff_toNat_lt, UInt8.toNat_add]
    simp only [UInt8.reduceToNat] at hupper ⊢
    omega
  · exact h

lemma lowerByte_other (b : UInt8) (h : ¬b < 0x80) : lowerByte b = b := by
  refine if_neg fun hupper => h ?_
  rw [UInt8.le_iff_toNat_le, UInt8.le_iff_toNat_le] at hupper
  rw [UInt8.lt_iff_toNat_lt]
  simp only [UInt8.reduceToNat] at hupper ⊢
  omega

lemma valid_toLower (h : Valid text) : Valid (toLower text) :=
  h.map lowerByte_ascii lowerByte_other

lemma getElem?_toLower (text : Text) (i : ℕ) : (toLower text)[i]? = text[i]?.map lowerByte :=
  List.getElem?_map ..

lemma byteAt_toLower {b : UInt8} (h : text[n]? = some b) :
    byteAt (toLower text) n = lowerByte b := by
  rw [byteAt, List.getD_eq_getElem?_getD, getElem?_toLower, h]
  rfl

lemma cut_of_lower_ascii (h : byteAt (toLower text) n < 0x80) : Cut text n := by
  intro b hb
  rw [byteAt_toLower hb] at h
  by_cases hascii : b < 0x80
  · exact Utf8.isFirst_ascii hascii
  · rw [lowerByte_other b hascii] at h
    exact absurd h hascii

lemma cut_of_length_le (h : text.length ≤ n) : Cut text n := by
  intro b hb
  rw [List.getElem?_eq_none h] at hb
  cases hb

lemma isBoundary_ascii {c : UInt8} (h : isBoundary c = true) : c < 0x80 := by
  have hall : ∀ c ∈ ([0x20, 0x2c, 0x2e, 0x3b, 0x3a] : List UInt8), c < 0x80 := by simp
  exact hall c (of_decide_eq_true h)

lemma spaces_ascii : ∀ c ∈ spaces, c < 0x80 := by simp [spaces]

lemma separators_ascii : ∀ c ∈ separators, c < 0x80 := by simp [separators, spaces]

lemma cut_of_closerOk (h : closerOk (toLower text) n = true) : Cut text n := by
  simp only [closerOk, Bool.or_eq_true, decide_eq_true_eq, length_toLower] at h
  rcases h with (hend | hboundary) | hmark
  · exact cut_of_length_le hend
  · exact cut_of_lower_ascii (isBoundary_ascii hboundary)
  · exact cut_of_lower_ascii (hmark ▸ by decide)

lemma valid_take_of_openerOk (hvalid : Valid text) (hn : n ≤ text.length)
    (h : openerOk (toLower text) n = true) : Valid (text.take n) := by
  simp only [openerOk, Bool.or_eq_true, decide_eq_true_eq] at h
  rcases h with rfl | hboundary
  · exact Utf8.valid_nil
  · cases n with
    | zero => exact Utf8.valid_nil
    | succ n =>
      rw [Nat.add_sub_cancel] at hboundary
      have hascii := isBoundary_ascii hboundary
      have hb : text[n]? = some text[n] := List.getElem?_eq_getElem hn
      rw [take_succ_eq hb]
      refine (hvalid.split (cut_of_lower_ascii hascii)).1.append (Utf8.valid_ascii ?_)
      rw [byteAt_toLower hb] at hascii
      by_contra hother
      rw [lowerByte_other _ hother] at hascii
      exact hother hascii

lemma valid_trim {last : ℕ} (hvalid : Valid text) (h : findLastNotOf spaces text = some last) :
    Valid (text.take (last + 1)) := by
  refine (hvalid.split fun b hb => ?_).1
  exact Utf8.isFirst_ascii (spaces_ascii b ((findLastNotOf_some h).2 _ b (Nat.lt_succ_self _) hb))

lemma valid_drop_ascii (hvalid : Valid text) (h : ∀ b ∈ text.take n, b < 0x80) :
    Valid (text.drop n) := by
  induction n generalizing text with
  | zero => exact hvalid
  | succ n ih =>
    cases text with
    | nil => exact hvalid
    | cons b rest =>
      rw [List.take_succ_cons] at h
      obtain ⟨hb, hrest⟩ := List.forall_mem_cons.mp h
      exact ih (hvalid.of_ascii_cons hb) hrest

lemma valid_cut {cut : ℕ} (hvalid : Valid text)
    (h : confirmationCut (catalog_.match_ (toLower text) lang) (toLower text) = some cut) :
    Valid (text.take cut) := by
  obtain ⟨hit, -, -, htag⟩ := confirmationCut_some h
  rcases (tagCut_some htag).2 with rfl | hsep
  · exact Utf8.valid_nil
  · have hall : ∀ c ∈ ([0x2c, 0x3b, 0x2e, 0x3a] : List UInt8), c < 0x80 := by simp
    exact (hvalid.split (cut_of_lower_ascii (hall _ hsep))).1

/-! ### The rounds of `stripTrailingConfirmation` -/

variable (catalog_ lang)

/-- The round finds no tail, and behind the last byte that is not one of `?¿!` comes the last byte
of `¿` alone: it cuts inside a character. -/
def Splits (text : Text) : Prop :=
  ∃ last q, findLastNotOf spaces text = some last ∧
    confirmationCut (catalog_.match_ (toLower (text.take (last + 1))) lang)
      (toLower (text.take (last + 1))) = none ∧
    findLastNotOf marks (text.take (last + 1)) = some q ∧
    (text.take (last + 1))[q + 1]? = some 0xbf

/-- One round leads to another one. -/
def Leads (text text' : Text) : Prop := confirmationRound catalog_ lang text = (text', true)

/-- No round of the loop splits. -/
def Clean (text : Text) : Prop :=
  ∀ text', Relation.ReflTransGen (Leads catalog_ lang) text text' → ¬Splits catalog_ lang text'

variable {catalog_ lang}

lemma valid_round (hvalid : Valid text) (hsplits : ¬Splits catalog_ lang text) :
    Valid (confirmationRound catalog_ lang text).1 := by
  rcases confirmationRound_cases catalog_ lang text with
    ⟨-, hround⟩ | ⟨last, trimmed, hlast, rfl, ⟨cut, hcut, hround⟩ | ⟨hno, ⟨hround, -⟩ |
      ⟨q, hq, -, hround⟩⟩⟩
  · rw [hround]
    exact hvalid
  · rw [hround]
    exact valid_cut (valid_trim hvalid hlast) hcut
  · rw [hround]
    exact valid_trim hvalid hlast
  · rw [hround]
    refine ((valid_trim hvalid hlast).split fun b hb => ?_).1
    have hmark := (findLastNotOf_some hq).2 _ b (Nat.lt_succ_self _) hb
    have hne : b ≠ 0xbf := fun heq => hsplits ⟨last, q, hlast, hno, hq, heq ▸ hb⟩
    have hall : ∀ c ∈ marks, c ≠ 0xbf → c.IsUTF8FirstByte := by
      simp only [marks, List.forall_mem_cons, List.not_mem_nil, IsEmpty.forall_iff, implies_true,
        and_true]
      decide
    exact hall b hmark hne

/-- A beginning that ends inside a character has no valid end. -/
lemma not_valid_end {begin : ℕ} (hvalid : Valid text) (hn : begin < n) (hcut : ¬Cut text n) :
    ¬Valid ((text.take n).drop begin) := by
  intro hend
  have hlt : n < text.length := by
    by_contra hle
    exact hcut (cut_of_length_le (Nat.le_of_not_lt hle))
  have hbegin : Cut text begin := by
    intro b hb
    -- the valid end starts with a first byte
    have hne : (text.take n).drop begin ≠ [] := by
      rw [Ne, List.drop_eq_nil_iff, List.length_take]
      omega
    obtain ⟨c, more, heq, -⟩ := hend.exists_cons hne
    have hget : (String.utf8EncodeChar c ++ more)[0]? = some b := by
      rw [← heq, List.getElem?_drop, List.getElem?_take, if_pos (by omega)]
      exact hb
    have hpos : 0 < (String.utf8EncodeChar c).length :=
      List.length_pos_iff.mpr String.utf8EncodeChar_ne_nil
    rw [List.getElem?_append_left hpos] at hget
    exact (Utf8.isFirst_getElem? hget).mpr rfl
  have hdrop := (hvalid.split hbegin).2
  rw [List.drop_take] at hend
  refine hcut fun b hb => hdrop.isFirst_of_take hend b ?_
  rw [List.getElem?_drop]
  rwa [Nat.add_sub_cancel' hn.le]

/-- A text whose trailing marks and tails are gone stays as it is. -/
lemma round_of_settled {last : ℕ} (hlast : findLastNotOf spaces text = some last)
    (hlen : text.length ≤ last + 1)
    (hno : confirmationCut (catalog_.match_ (toLower text) lang) (toLower text) = none)
    (hmarks : ∀ q, findLastNotOf marks text = some q → q + 1 ≥ text.length) :
    confirmationRound catalog_ lang text = (text, false) := by
  rcases confirmationRound_cases catalog_ lang text with
    ⟨-, hround⟩ | ⟨last', trimmed, hlast', htrim, hcases⟩
  · exact hround
  · obtain rfl := Option.some.inj (hlast.symm.trans hlast')
    obtain rfl : text = trimmed := (List.take_of_length_le hlen).symm.trans htrim
    rcases hcases with ⟨cut, hcut, -⟩ | ⟨-, ⟨hround, -⟩ | ⟨q, hq, hlt, -⟩⟩
    · exact absurd (hcut.symm.trans hno) (Option.some_ne_none _)
    · exact hround
    · exact absurd hlt (Nat.not_lt_of_le (hmarks q hq))

/-- A round that splits leaves an invalid text, which no other round changes. -/
lemma splits_stuck (hvalid : Valid text) (hsplits : Splits catalog_ lang text) :
    ∃ text', Leads catalog_ lang text text' ∧ ¬Valid text' ∧
      confirmationRound catalog_ lang text' = (text', false) := by
  obtain ⟨last, q, hlast, hno, hq, hbf⟩ := hsplits
  have htrim := valid_trim hvalid hlast
  rcases confirmationRound_cases catalog_ lang text with
    ⟨hnone, -⟩ | ⟨last', trimmed, hlast', htrim', hcases⟩
  · exact absurd (hlast.symm.trans hnone) (Option.some_ne_none _)
  obtain rfl := Option.some.inj (hlast.symm.trans hlast')
  rw [htrim'] at htrim hno hq hbf
  have hlt : q + 1 < trimmed.length := (List.getElem?_eq_some_iff.mp hbf).1
  have hcut : ¬Cut trimmed (q + 1) := fun hcut => absurd (hcut _ hbf) (by decide)
  have hround : confirmationRound catalog_ lang text = (trimmed.take (q + 1), true) := by
    rcases hcases with ⟨cut, hsome, -⟩ | ⟨-, ⟨-, hall⟩ | ⟨q', hq', -, hround⟩⟩
    · exact absurd (hsome.symm.trans hno) (Option.some_ne_none _)
    · exact absurd hlt (Nat.not_lt_of_le (hall q hq))
    · obtain rfl := Option.some.inj (hq.symm.trans hq')
      exact hround
  have hinvalid : ¬Valid (trimmed.take (q + 1)) := fun htake => hcut (htrim.isFirst_of_take htake)
  refine ⟨_, hround, hinvalid, ?_⟩
  obtain ⟨⟨c, hc, hmark⟩, -⟩ := findLastNotOf_some hq
  have hsucc := take_succ_eq hc
  have hlen : (trimmed.take q).length = q := by
    rw [List.length_take]
    omega
  -- a character that ended in the byte before the cut would make the beginning valid
  have hascii : ¬c < 0x80 := by
    intro hascii
    refine hinvalid ?_
    rw [hsucc]
    refine (htrim.split fun b hb => ?_).1.append (Utf8.valid_ascii hascii)
    obtain rfl := Option.some.inj (hc.symm.trans hb)
    exact Utf8.isFirst_ascii hascii
  have hspace : c ∉ spaces := fun hmem => hascii (spaces_ascii c hmem)
  have hlast' : findLastNotOf spaces (trimmed.take (q + 1)) = some q := by
    rw [hsucc, findLastNotOf_concat hspace, hlen]
  have hq' : findLastNotOf marks (trimmed.take (q + 1)) = some q := by
    rw [hsucc, findLastNotOf_concat hmark, hlen]
  refine round_of_settled hlast' (List.length_take_le ..) ?_ fun r hr => ?_
  · -- a phrase at the end would end inside the character
    refine Option.eq_none_iff_forall_not_mem.mpr fun cut hmem => ?_
    obtain ⟨hit, hhit, hend, -⟩ := confirmationCut_some hmem
    have hlower : toLower (trimmed.take (q + 1)) = (toLower trimmed).take (q + 1) :=
      List.map_take ..
    have hne := catalog_.nonempty _ _ hit hhit
    have hphrase := catalog_.valid _ _ hit hhit
    rw [hend, List.take_length, hlower] at hphrase
    have hend' : hit.end_ = q + 1 := by
      rw [hend, length_toLower, List.length_take]
      omega
    rw [hend'] at hne
    refine not_valid_end (valid_toLower htrim) hne (fun hcut' => hcut ?_) hphrase
    intro b hb
    have hbyte := hcut' (lowerByte 0xbf) (by rw [getElem?_toLower, hbf]; rfl)
    exact absurd hbyte (by decide)
  · obtain rfl := Option.some.inj (hq'.symm.trans hr)
    exact List.length_take_le ..

lemma strip_of_leads {text' : Text} (h : Leads catalog_ lang text text') :
    stripTrailingConfirmation catalog_ lang text =
      stripTrailingConfirmation catalog_ lang text' := by
  have hround : confirmationRound catalog_ lang text = (text', true) := h
  rw [stripTrailingConfirmation, dif_pos (by rw [hround]), hround]

lemma strip_of_stop {text' : Text} (h : confirmationRound catalog_ lang text = (text', false)) :
    stripTrailingConfirmation catalog_ lang text = text' := by
  rw [stripTrailingConfirmation, dif_neg (by simp [h]), h]

variable (catalog_ lang) in
/-- The loop ends in a round that changes nothing, whatever holds of all its rounds. -/
lemma strip_induction {P : Text → Prop} (text : Text)
    (hstop : ∀ text text', confirmationRound catalog_ lang text = (text', false) → P text)
    (hleads : ∀ text text', Leads catalog_ lang text text' → P text' → P text) : P text := by
  induction hn : text.length using Nat.strong_induction_on generalizing text with
  | _ n ih =>
    rcases hround : confirmationRound catalog_ lang text with ⟨text', goesOn⟩
    cases goesOn with
    | false => exact hstop text text' hround
    | true =>
      have hgoes : (confirmationRound catalog_ lang text).2 = true := by rw [hround]
      have hlt := confirmationRound_length hgoes
      rw [hround, hn] at hlt
      exact hleads text text' hround (ih _ hlt text' rfl)

lemma clean_of_stop {text' : Text} (h : confirmationRound catalog_ lang text = (text', false))
    (hsplits : ¬Splits catalog_ lang text) : Clean catalog_ lang text := by
  intro other hreach
  rcases Relation.ReflTransGen.cases_head hreach with rfl | ⟨next, hnext, -⟩
  · exact hsplits
  · cases h.symm.trans hnext

lemma clean_iff_of_leads {text' : Text} (h : Leads catalog_ lang text text')
    (hsplits : ¬Splits catalog_ lang text) :
    Clean catalog_ lang text ↔ Clean catalog_ lang text' := by
  refine ⟨fun hclean other hreach => hclean other (.head h hreach), fun hclean other hreach => ?_⟩
  rcases Relation.ReflTransGen.cases_head hreach with rfl | ⟨next, hnext, hrest⟩
  · exact hsplits
  · cases h.symm.trans hnext
    exact hclean other hrest

/-- What the loop leaves is valid exactly when no round splits. -/
theorem valid_strip_iff (hvalid : Valid text) :
    Valid (stripTrailingConfirmation catalog_ lang text) ↔ Clean catalog_ lang text := by
  revert hvalid
  refine strip_induction catalog_ lang
    (P := fun text => Valid text →
      (Valid (stripTrailingConfirmation catalog_ lang text) ↔ Clean catalog_ lang text)) text ?_ ?_
  · intro text text' hstop hvalid
    have hsplits : ¬Splits catalog_ lang text := by
      intro hsplits
      obtain ⟨next, hnext, -⟩ := splits_stuck hvalid hsplits
      cases hstop.symm.trans hnext
    have hround := valid_round hvalid hsplits
    rw [hstop] at hround
    rw [strip_of_stop hstop]
    exact iff_of_true hround (clean_of_stop hstop hsplits)
  · intro text text' hleads ih hvalid
    by_cases hsplits : Splits catalog_ lang text
    · obtain ⟨next, hnext, hinvalid, hstop⟩ := splits_stuck hvalid hsplits
      rw [strip_of_leads hnext, strip_of_stop hstop]
      exact iff_of_false hinvalid fun hclean => hclean text .refl hsplits
    · have hround := valid_round hvalid hsplits
      rw [show confirmationRound catalog_ lang text = (text', true) from hleads] at hround
      rw [strip_of_leads hleads, clean_iff_of_leads hleads hsplits]
      exact ih hround

lemma round_of_stop {text' : Text} (h : confirmationRound catalog_ lang text = (text', false)) :
    confirmationRound catalog_ lang text' = (text', false) := by
  rcases confirmationRound_cases catalog_ lang text with
    ⟨hnone, hround⟩ | ⟨last, trimmed, hlast, rfl, ⟨cut, -, hround⟩ | ⟨hno, ⟨hround, hall⟩ |
      ⟨q, -, -, hround⟩⟩⟩
  · cases h.symm.trans hround
    exact hround
  · cases h.symm.trans hround
  · cases h.symm.trans hround
    exact round_of_settled (findLastNotOf_take hlast) (List.length_take_le ..) hno hall
  · cases h.symm.trans hround

theorem strip_strip (text : Text) :
    stripTrailingConfirmation catalog_ lang (stripTrailingConfirmation catalog_ lang text) =
      stripTrailingConfirmation catalog_ lang text := by
  refine strip_induction catalog_ lang
    (P := fun text => stripTrailingConfirmation catalog_ lang
      (stripTrailingConfirmation catalog_ lang text) =
        stripTrailingConfirmation catalog_ lang text) text ?_ ?_
  · intro text text' hstop
    rw [strip_of_stop hstop, strip_of_stop (round_of_stop hstop)]
  · intro text text' hleads ih
    rw [strip_of_leads hleads, ih]

variable (catalog_ lang) in
lemma round_prefix (text : Text) : (confirmationRound catalog_ lang text).1 <+: text := by
  rcases confirmationRound_cases catalog_ lang text with
    ⟨-, hround⟩ | ⟨last, trimmed, -, rfl, ⟨cut, -, hround⟩ | ⟨-, ⟨hround, -⟩ | ⟨q, -, -, hround⟩⟩⟩
  · exact ⟨[], by rw [hround, List.append_nil]⟩
  · rw [hround]
    exact (List.take_prefix ..).trans (List.take_prefix ..)
  · rw [hround]
    exact List.take_prefix ..
  · rw [hround]
    exact (List.take_prefix ..).trans (List.take_prefix ..)

theorem strip_prefix (text : Text) : stripTrailingConfirmation catalog_ lang text <+: text := by
  refine strip_induction catalog_ lang
    (P := fun text => stripTrailingConfirmation catalog_ lang text <+: text) text ?_ ?_
  · intro text text' hstop
    have hbegins := round_prefix catalog_ lang text
    rw [hstop] at hbegins
    rwa [strip_of_stop hstop]
  · intro text text' hleads ih
    have hbegins := round_prefix catalog_ lang text
    rw [show confirmationRound catalog_ lang text = (text', true) from hleads] at hbegins
    rw [strip_of_leads hleads]
    exact ih.trans hbegins

/-! ### The rounds of `stripFillers` -/

variable (catalog_ lang) in
/-- What a round does: it takes the separators off, and a filler if there is one. -/
lemma fillerRound_cases (text : Text) :
    fillerRound catalog_ lang text = ([], false) ∨
    ∃ first, findFirstNotOf separators text = some first ∧
      ((fillerCut (catalog_.match_ (toLower (text.drop first)) lang)
            (toLower (text.drop first)) = 0 ∧
          fillerRound catalog_ lang text = (text.drop first, false)) ∨
        ∃ cut, closerOk (toLower (text.drop first)) cut = true ∧
          fillerRound catalog_ lang text = ((text.drop first).drop cut, true)) := by
  unfold fillerRound
  cases hfirst : findFirstNotOf separators text with
  | none => exact .inl rfl
  | some first =>
    refine .inr ⟨first, rfl, ?_⟩
    dsimp only
    rcases fillerCut_cases (catalog_.match_ (toLower (text.drop first)) lang)
      (toLower (text.drop first)) with hzero | ⟨hit, -, hcloser, heq⟩
    · exact .inl ⟨hzero, if_pos hzero⟩
    · split_ifs with hzero
      · exact .inl ⟨hzero, rfl⟩
      · exact .inr ⟨_, heq ▸ hcloser, rfl⟩

lemma valid_drop_first {set : List UInt8} {first : ℕ} (hset : ∀ c ∈ set, c < 0x80)
    (hvalid : Valid text) (h : findFirstNotOf set text = some first) :
    Valid (text.drop first) :=
  valid_drop_ascii hvalid fun b hb => hset b ((findFirstNotOf_some h).2 b hb)

variable (catalog_ lang) in
lemma valid_fillerRound (hvalid : Valid text) : Valid (fillerRound catalog_ lang text).1 := by
  rcases fillerRound_cases catalog_ lang text with
    hround | ⟨first, hfirst, ⟨-, hround⟩ | ⟨cut, hcloser, hround⟩⟩
  · rw [hround]
    exact Utf8.valid_nil
  · rw [hround]
    exact valid_drop_first separators_ascii hvalid hfirst
  · rw [hround]
    exact ((valid_drop_first separators_ascii hvalid hfirst).split (cut_of_closerOk hcloser)).2

variable (catalog_ lang) in
lemma fillerRound_suffix (text : Text) : (fillerRound catalog_ lang text).1 <:+ text := by
  rcases fillerRound_cases catalog_ lang text with
    hround | ⟨first, -, ⟨-, hround⟩ | ⟨cut, -, hround⟩⟩
  · rw [hround]
    exact List.nil_suffix
  · rw [hround]
    exact List.drop_suffix ..
  · rw [hround]
    exact (List.drop_suffix ..).trans (List.drop_suffix ..)

lemma fillerRound_of_stop {text' : Text} (h : fillerRound catalog_ lang text = (text', false)) :
    fillerRound catalog_ lang text' = (text', false) := by
  rcases fillerRound_cases catalog_ lang text with
    hround | ⟨first, hfirst, ⟨hzero, hround⟩ | ⟨cut, -, hround⟩⟩
  · cases h.symm.trans hround
    rfl
  · cases h.symm.trans hround
    obtain ⟨⟨rest, hdrop, hset⟩, -⟩ := findFirstNotOf_some hfirst
    have hagain : findFirstNotOf separators (text.drop first) = some 0 := by
      rw [hdrop, findFirstNotOf, if_neg hset]
    simp only [fillerRound, hagain, List.drop_zero, hzero, if_true]
  · cases h.symm.trans hround

variable (catalog_ lang) in
lemma stripFillers_induction {P : Text → Prop} (text : Text)
    (hstop : ∀ text text', fillerRound catalog_ lang text = (text', false) → P text)
    (hleads : ∀ text text', fillerRound catalog_ lang text = (text', true) → P text' → P text) :
    P text := by
  induction hn : text.length using Nat.strong_induction_on generalizing text with
  | _ n ih =>
    rcases hround : fillerRound catalog_ lang text with ⟨text', goesOn⟩
    cases goesOn with
    | false => exact hstop text text' hround
    | true =>
      have hgoes : (fillerRound catalog_ lang text).2 = true := by rw [hround]
      have hlt := fillerRound_length hgoes
      rw [hround, hn] at hlt
      exact hleads text text' hround (ih _ hlt text' rfl)

lemma stripFillers_of_leads {text' : Text} (h : fillerRound catalog_ lang text = (text', true)) :
    stripFillers catalog_ lang text = stripFillers catalog_ lang text' := by
  rw [stripFillers, dif_pos (by rw [h]), h]

lemma stripFillers_of_stop {text' : Text} (h : fillerRound catalog_ lang text = (text', false)) :
    stripFillers catalog_ lang text = text' := by
  rw [stripFillers, dif_neg (by simp [h]), h]

theorem stripFillers_stripFillers (text : Text) :
    stripFillers catalog_ lang (stripFillers catalog_ lang text) =
      stripFillers catalog_ lang text := by
  refine stripFillers_induction catalog_ lang
    (P := fun text => stripFillers catalog_ lang (stripFillers catalog_ lang text) =
      stripFillers catalog_ lang text) text ?_ ?_
  · intro text text' hstop
    rw [stripFillers_of_stop hstop, stripFillers_of_stop (fillerRound_of_stop hstop)]
  · intro text text' hleads ih
    rw [stripFillers_of_leads hleads, ih]

variable (catalog_ lang) in
/-- The fillers leave a valid end of the text. -/
theorem stripFillers_suffix (hvalid : Valid text) :
    stripFillers catalog_ lang text <:+ text ∧ Valid (stripFillers catalog_ lang text) := by
  revert hvalid
  refine stripFillers_induction catalog_ lang
    (P := fun text => Valid text → stripFillers catalog_ lang text <:+ text ∧
      Valid (stripFillers catalog_ lang text)) text ?_ ?_
  · intro text text' hstop hvalid
    have hsuffix := fillerRound_suffix catalog_ lang text
    have hround := valid_fillerRound catalog_ lang hvalid
    rw [hstop] at hsuffix hround
    rw [stripFillers_of_stop hstop]
    exact ⟨hsuffix, hround⟩
  · intro text text' hleads ih hvalid
    have hsuffix := fillerRound_suffix catalog_ lang text
    have hround := valid_fillerRound catalog_ lang hvalid
    rw [hleads] at hsuffix hround
    rw [stripFillers_of_leads hleads]
    exact ⟨(ih hround).1.trans hsuffix, (ih hround).2⟩

/-! ### The content -/

variable (catalog_ lang)

/-- No round on what follows the trigger splits, where `parse` cuts it. -/
def ParsesClean (text : Text) : Prop :=
  ∀ best content, trigger catalog_ lang text = some best →
    contentBeforeTrigger text (toLower text) best.begin best.end_ = none →
    contentAfter text best = some content → Clean catalog_ lang content

/-- `content` is a piece of the text beside the trigger. -/
def Beside (text content : Text) (best : PhraseHit) : Prop :=
  ∃ at_, content <+: text.drop at_ ∧ (at_ + content.length ≤ best.begin ∨ best.end_ ≤ at_)

variable {catalog_ lang}

lemma valid_rdropWhile {set : List UInt8} (hset : ∀ c ∈ set, c < 0x80) (hvalid : Valid text) :
    Valid (text.rdropWhile (· ∈ set)) := by
  induction text using List.reverseRecOn with
  | nil => exact hvalid
  | append_singleton text c ih =>
    rw [List.rdropWhile_concat]
    split_ifs with hc
    · exact ih (hvalid.of_concat_ascii (hset c (of_decide_eq_true hc)))
    · exact hvalid

lemma trigger_some {best : PhraseHit} (h : trigger catalog_ lang text = some best) :
    best.begin < best.end_ ∧ best.end_ ≤ text.length ∧
      openerOk (toLower text) best.begin = true ∧ closerOk (toLower text) best.end_ = true := by
  obtain ⟨hmem, htakes⟩ := bestHit_some h
  simp only [HitFilter.takes, Bool.and_eq_true, Bool.or_eq_true, Bool.not_eq_true'] at htakes
  refine ⟨catalog_.nonempty _ _ best hmem, ?_, htakes.1.1.2, ?_⟩
  · rw [← length_toLower]
    exact catalog_.inside _ _ best hmem
  · exact htakes.1.2.resolve_left (by simp)

lemma contentBeforeTrigger_some {content : Text} {begin end_ : ℕ} {lowered : Text}
    (h : contentBeforeTrigger text lowered begin end_ = some content) :
    content ≠ [] ∧ content =
      (text.take begin).rdropWhile (· ∈ ([0x20, 0x2c, 0x2e, 0x3b] : List UInt8)) := by
  unfold contentBeforeTrigger at h
  dsimp only at h
  split_ifs at h with hbegin hrest hempty
  obtain rfl := Option.some.inj h
  exact ⟨hempty, rfl⟩

/-- What `parse` returns came from in front of the trigger, or from behind it. -/
lemma parse_some {r : RuleParseResult} (h : parse catalog_ lang text = some r) :
    ∃ best, trigger catalog_ lang text = some best ∧
      (contentBeforeTrigger text (toLower text) best.begin best.end_ = some r.content ∨
        contentBeforeTrigger text (toLower text) best.begin best.end_ = none ∧
          ∃ content, contentAfter text best = some content ∧
            r.content = stripTrailingConfirmation catalog_ lang content ∧ r.content ≠ []) := by
  unfold parse at h
  split at h
  · cases h
  · next best hbest =>
    refine ⟨best, hbest, ?_⟩
    split at h
    · next trailing hbefore =>
      cases h
      exact .inl hbefore
    · next hbefore =>
      split at h
      · cases h
      · next content hafter =>
        dsimp only at h
        split_ifs at h with hempty
        cases h
        exact .inr ⟨hbefore, content, hafter, rfl, hempty⟩

lemma contentAfter_some {best : PhraseHit} {content : Text}
    (h : contentAfter text best = some content) :
    ∃ first, findFirstNotOf spaces (text.drop best.end_) = some first ∧
      content = (text.drop best.end_).drop first := by
  obtain ⟨first, hfirst, heq⟩ := Option.map_eq_some_iff.mp h
  exact ⟨first, hfirst, heq.symm⟩

lemma valid_contentAfter {best : PhraseHit} {content : Text} (hvalid : Valid text)
    (hbest : trigger catalog_ lang text = some best) (h : contentAfter text best = some content) :
    Valid content := by
  obtain ⟨first, hfirst, rfl⟩ := contentAfter_some h
  have hdrop := (hvalid.split (cut_of_closerOk (trigger_some hbest).2.2.2)).2
  exact valid_drop_first spaces_ascii hdrop hfirst

/-- The content is a piece beside the trigger. -/
theorem parse_beside {r : RuleParseResult} (h : parse catalog_ lang text = some r) :
    r.content ≠ [] ∧ ∃ best, trigger catalog_ lang text = some best ∧
      Beside text r.content best := by
  obtain ⟨best, hbest, hbefore | ⟨-, content, hafter, heq, hne⟩⟩ := parse_some h
  · obtain ⟨hne, heq⟩ := contentBeforeTrigger_some hbefore
    have hbegins : r.content <+: text.take best.begin := heq ▸ List.rdropWhile_prefix ..
    refine ⟨hne, best, hbest, 0, hbegins.trans (List.take_prefix ..), .inl ?_⟩
    have hlen := hbegins.length_le.trans (List.length_take_le ..)
    omega
  · obtain ⟨first, -, rfl⟩ := contentAfter_some hafter
    refine ⟨hne, best, hbest, best.end_ + first, ?_, .inr (Nat.le_add_right ..)⟩
    rw [heq, ← List.drop_drop]
    exact strip_prefix _

/-- The content is valid exactly when no round on what follows the trigger splits. -/
theorem valid_parse_iff (hvalid : Valid text) :
    (∀ r, parse catalog_ lang text = some r → Valid r.content) ↔ ParsesClean catalog_ lang text := by
  constructor
  · intro hall best content hbest hbefore hafter
    refine (valid_strip_iff (valid_contentAfter hvalid hbest hafter)).mp ?_
    by_cases hempty : stripTrailingConfirmation catalog_ lang content = []
    · rw [hempty]
      exact Utf8.valid_nil
    · refine hall ⟨best.memoryType, _, priorityFor best.memoryType⟩ ?_
      simp only [parse, hbest, hbefore, hafter, hempty, if_false]
  · intro hclean r hr
    obtain ⟨best, hbest, hbefore | ⟨hbefore, content, hafter, heq, -⟩⟩ := parse_some hr
    · obtain ⟨-, heq⟩ := contentBeforeTrigger_some hbefore
      obtain ⟨hlt, hle, hopener, -⟩ := trigger_some hbest
      rw [heq]
      exact valid_rdropWhile (by simp)
        (valid_take_of_openerOk hvalid (hlt.le.trans hle) hopener)
    · rw [heq]
      exact (valid_strip_iff (valid_contentAfter hvalid hbest hafter)).mpr
        (hclean best content hbest hbefore hafter)

variable (catalog_ lang)

/-- What the parser cuts off this text leaves clean pieces, and a second time changes nothing. -/
structure CutsCleanly (text : Text) : Prop where
  strip_prefix : stripTrailingConfirmation catalog_ lang text <+: text
  strip_valid : Valid (stripTrailingConfirmation catalog_ lang text)
  strip_strip : stripTrailingConfirmation catalog_ lang
    (stripTrailingConfirmation catalog_ lang text) = stripTrailingConfirmation catalog_ lang text
  fillers_suffix : stripFillers catalog_ lang text <:+ text
  fillers_valid : Valid (stripFillers catalog_ lang text)
  fillers_fillers : stripFillers catalog_ lang (stripFillers catalog_ lang text) =
    stripFillers catalog_ lang text
  parse_valid : ∀ r, parse catalog_ lang text = some r → Valid r.content
  parse_beside : ∀ r, parse catalog_ lang text = some r → r.content ≠ [] ∧
    ∃ best, trigger catalog_ lang text = some best ∧ Beside text r.content best

variable {catalog_ lang}

/-- Every round that another one follows shortens the text, so that both loops end; and the parser
cuts a valid text cleanly exactly when no round splits, neither on the text nor on what follows its
trigger. -/
theorem parser_cuts (hvalid : Valid text) :
    (∀ t, (confirmationRound catalog_ lang t).2 = true →
      (confirmationRound catalog_ lang t).1.length < t.length) ∧
    (∀ t, (fillerRound catalog_ lang t).2 = true →
      (fillerRound catalog_ lang t).1.length < t.length) ∧
    (CutsCleanly catalog_ lang text ↔
      Clean catalog_ lang text ∧ ParsesClean catalog_ lang text) := by
  refine ⟨fun _ => confirmationRound_length, fun _ => fillerRound_length, ?_⟩
  obtain ⟨hsuffix, hfillers⟩ := stripFillers_suffix catalog_ lang hvalid
  constructor
  · intro h
    exact ⟨(valid_strip_iff hvalid).mp h.strip_valid, (valid_parse_iff hvalid).mp h.parse_valid⟩
  · rintro ⟨hclean, hparses⟩
    exact {
      strip_prefix := RuleParser.strip_prefix text
      strip_valid := (valid_strip_iff hvalid).mpr hclean
      strip_strip := RuleParser.strip_strip text
      fillers_suffix := hsuffix
      fillers_valid := hfillers
      fillers_fillers := stripFillers_stripFillers text
      parse_valid := (valid_parse_iff hvalid).mpr hparses
      parse_beside := fun _ => RuleParser.parse_beside }

/-- A catalog whose phrases are not in the text. -/
def silent : PhraseCatalog where
  match_ _ _ := []
  nonempty _ _ := by simp
  inside _ _ := by simp
  valid _ _ := by simp

theorem parser_cuts_mark : CutsCleanly silent "es" [0x68, 0x69, 0x3f] := by
  have hvalid : Valid [0x68, 0x69, 0x3f] := ⟨['h', 'i', Char.ofNat 0x3f], by decide⟩
  have hleads : Leads silent "es" [0x68, 0x69, 0x3f] [0x68, 0x69] := rfl
  have hstop : confirmationRound silent "es" [0x68, 0x69] = ([0x68, 0x69], false) := rfl
  refine (parser_cuts hvalid).2.2.mpr ⟨?_, fun best content hbest => ?_⟩
  · refine (clean_iff_of_leads hleads ?_).mpr (clean_of_stop hstop ?_)
    · rintro ⟨last, q, hlast, -, hq, hbf⟩
      obtain rfl : last = 2 := (Option.some.inj hlast).symm
      obtain rfl : q = 1 := (Option.some.inj hq).symm
      exact absurd hbf (by decide)
    · rintro ⟨last, q, hlast, -, hq, hbf⟩
      obtain rfl : last = 1 := (Option.some.inj hlast).symm
      obtain rfl : q = 1 := (Option.some.inj hq).symm
      exact absurd hbf (by decide)
  · cases hbest

/-- The letter a, a blank and a sprig, whose fourth byte is the last one of `¿`. -/
def sprig : Text := [0x61, 0x20, 0xf0, 0x9f, 0x8c, 0xbf]

/-- The sprig loses its last byte. -/
theorem sprig_is_cut : Valid sprig ∧
    stripTrailingConfirmation silent "es" sprig = [0x61, 0x20, 0xf0, 0x9f, 0x8c] ∧
    ¬CutsCleanly silent "es" sprig := by
  have hvalid : Valid sprig := ⟨['a', Char.ofNat 0x20, Char.ofNat 0x1f33f], by decide⟩
  have hleads : Leads silent "es" sprig [0x61, 0x20, 0xf0, 0x9f, 0x8c] := rfl
  refine ⟨hvalid, (strip_of_leads hleads).trans (strip_of_stop rfl), fun h => ?_⟩
  have hsplits : Splits silent "es" sprig := ⟨5, 4, rfl, rfl, rfl, rfl⟩
  exact (valid_strip_iff hvalid).mp h.strip_valid sprig .refl hsplits

end RuleParser

end Phrase

end ArgusBackend

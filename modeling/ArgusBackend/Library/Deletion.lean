import ArgusBackend.Library.Rewriting

/-!
# Deleting phrases in the order of a list

Phrases of one word or two are deleted from a sequence of words one after the other, each as often
as it is there.  A deletion joins the words around it, so that more can be deleted than what can be
cut into phrases.

* `Cut` : the words can be cut into phrases;
* `Nested` : phrases one after the other, of which those of two words may be interrupted by phrases
  up to them;
* `unbroken` : the phrases that no word deleted before them breaks;
* `deleteAll_eq_nil_iff` : nothing is left exactly of unbroken phrases that are nested, when the list
  is `Apart`.
-/

namespace ArgusBackend

namespace Words

variable {α : Type}

/-- The words can be cut into consecutive phrases. -/
def Cut (phrases : List (List (List α))) (ws : List (List α)) : Prop :=
  ∃ segs : List (List (List α)), (∀ seg ∈ segs, seg ∈ phrases) ∧ segs.flatten = ws

/-- Phrases of one word or two, one after the other; between the words of one there may be such a
sequence of the phrases up to it. -/
inductive Nested : List (List (List α)) → List (List α) → Prop
  | nil {phrases : List (List (List α))} : Nested phrases []
  | word {phrases : List (List (List α))} {w : List α} {ws : List (List α)} (h : [w] ∈ phrases)
      (hrest : Nested phrases ws) : Nested phrases (w :: ws)
  | pair {phrases done rest : List (List (List α))} {a b : List α} {gap ws : List (List α)}
      (h : phrases = done ++ [a, b] :: rest) (hgap : Nested (done ++ [[a, b]]) gap)
      (hrest : Nested phrases ws) : Nested phrases (a :: (gap ++ b :: ws))

/-- A phrase of one word or two. -/
def Short (p : List (List α)) : Prop := (∃ a, p = [a]) ∨ ∃ a b, p = [a, b]

namespace Nested

variable {phrases done rest : List (List (List α))} {p ws ws' l r : List (List α)} {a b w : List α}

lemma append (h : Nested phrases ws) (h' : Nested phrases ws') : Nested phrases (ws ++ ws') := by
  induction h with
  | nil => exact h'
  | word h _ ih => exact .word h (ih h')
  | pair h hgap _ _ ih =>
    rw [List.cons_append, List.append_assoc, List.cons_append]
    exact .pair h hgap (ih h')

lemma mono (h : Nested phrases ws) (more : List (List (List α))) :
    Nested (phrases ++ more) ws := by
  induction h with
  | nil => exact .nil
  | word h _ ih => exact .word (List.mem_append_left _ h) ih
  | pair h hgap _ _ ih =>
    subst h
    rw [List.append_assoc] at ih ⊢
    exact .pair rfl hgap ih

/-- A phrase that is not interrupted. -/
lemma of_mem (h : p ∈ phrases) (hshort : Short p) : Nested phrases p := by
  rcases hshort with ⟨a, rfl⟩ | ⟨a, b, rfl⟩
  · exact .word h .nil
  · obtain ⟨done, rest, heq⟩ := List.append_of_mem h
    exact .pair heq .nil .nil

lemma of_cut (h : Cut phrases ws) (hnested : ∀ p ∈ phrases, Nested done p) : Nested done ws := by
  obtain ⟨segs, hsegs, rfl⟩ := h
  induction segs with
  | nil => exact .nil
  | cons seg segs ih =>
    rw [List.forall_mem_cons] at hsegs
    exact (hnested seg hsegs.1).append (ih hsegs.2)

lemma eq_nil (h : Nested [] ws) : ws = [] := by
  cases h with
  | nil => rfl
  | word h _ => cases h
  | pair h _ _ => cases List.append_eq_nil_iff.mp h.symm |>.2

lemma mem (h : Nested phrases ws) (hw : w ∈ ws) : ∃ p ∈ phrases, w ∈ p := by
  induction h with
  | nil => cases hw
  | word h _ ih =>
    rcases List.mem_cons.mp hw with rfl | hw
    · exact ⟨_, h, List.mem_singleton_self _⟩
    · exact ih hw
  | @pair phrases done rest a b gap ws h _ _ ihgap ih =>
    subst h
    simp only [List.mem_cons, List.mem_append] at hw
    rcases hw with rfl | hw | rfl | hw
    · exact ⟨[w, b], by simp, by simp⟩
    · obtain ⟨p, hp, hwp⟩ := ihgap hw
      exact ⟨p, by simp at hp ⊢; tauto, hwp⟩
    · exact ⟨[a, w], by simp, by simp⟩
    · exact ih hw

/-- The first word is that of a phrase. -/
lemma head (h : Nested phrases (w :: ws)) : ∃ p ∈ phrases, p.head? = some w := by
  cases h with
  | word h _ => exact ⟨_, h, rfl⟩
  | pair h _ _ => exact ⟨_, h ▸ List.mem_append_right _ List.mem_cons_self, rfl⟩

/-- The last word is that of a phrase. -/
lemma getLast (h : Nested phrases ws) (hw : ws.getLast? = some w) :
    ∃ p ∈ phrases, p.getLast? = some w := by
  induction h with
  | nil => cases hw
  | @word phrases w' ws h _ ih =>
    cases ws with
    | nil => exact ⟨_, h, hw⟩
    | cons w'' ws => exact ih (by simpa using hw)
  | @pair phrases done rest a b gap ws h _ _ _ ih =>
    rw [← List.cons_append, List.getLast?_append_cons] at hw
    cases ws with
    | nil => exact ⟨[a, b], h ▸ List.mem_append_right _ List.mem_cons_self, hw⟩
    | cons w'' ws => exact ih (by simpa using hw)

/-- Phrases of a list of one are nested around one that is whole. -/
lemma infix_of_singleton (h : Nested [p] ws) (hne : ws ≠ []) : p <:+: ws := by
  generalize hphrases : [p] = phrases at h
  induction h with
  | nil => exact absurd rfl hne
  | word h _ _ =>
    subst hphrases
    rw [← List.mem_singleton.mp h]
    exact ⟨[], _, rfl⟩
  | @pair phrases done rest a b gap ws h _ _ ihgap _ =>
    have hdone : done = [] ∧ p = [a, b] := by
      cases done with
      | nil => exact ⟨rfl, (List.cons.inj (hphrases.trans h)).1⟩
      | cons q done => exact absurd (congrArg List.length (hphrases.trans h)) (by simp)
    obtain ⟨rfl, rfl⟩ := hdone
    by_cases hgap : gap = []
    · subst hgap
      exact ⟨[], ws, rfl⟩
    · exact (ihgap hgap rfl).trans ⟨[a], b :: ws, by simp⟩

/-- What has no whole phrase of the head of the list has none of it. -/
lemma tail (h : Nested (p :: rest) ws) (hnone : ¬p <:+: ws) : Nested rest ws := by
  generalize hphrases : p :: rest = phrases at h
  induction h generalizing rest with
  | nil => exact .nil
  | @word phrases w ws h _ ih =>
    subst hphrases
    refine .word ((List.mem_cons.mp h).resolve_left ?_) (ih (fun hin => hnone ?_) rfl)
    · rintro rfl
      exact hnone ⟨[], ws, rfl⟩
    · exact hin.trans (List.suffix_cons _ _).isInfix
  | @pair phrases done rest' a b gap ws h hgap _ ihgap ih =>
    subst hphrases
    have hgapped : gap <:+: a :: (gap ++ b :: ws) := ⟨[a], b :: ws, by simp⟩
    have hbehind : ws <:+: a :: (gap ++ b :: ws) := ⟨a :: (gap ++ [b]), [], by simp⟩
    cases done with
    | nil =>
      -- the head itself, whose gap would have a whole one
      obtain ⟨rfl, rfl⟩ := List.cons.inj h
      refine absurd ?_ hnone
      by_cases hnil : gap = []
      · subst hnil
        exact ⟨[], ws, rfl⟩
      · exact (infix_of_singleton hgap hnil).trans hgapped
    | cons q done =>
      obtain ⟨rfl, rfl⟩ := List.cons.inj h
      exact .pair rfl (ihgap (fun hin => hnone (hin.trans hgapped)) rfl)
        (ih (fun hin => hnone (hin.trans hbehind)) rfl)

/-- Where a word stands in words with another one among them. -/
lemma split_cons {gap : List (List α)} (h : l ++ a :: r = gap ++ b :: ws) :
    (∃ l', l = gap ++ b :: l' ∧ ws = l' ++ a :: r) ∨ (l = gap ∧ a = b) ∨
      ∃ x, gap = l ++ a :: x ∧ r = x ++ b :: ws := by
  rcases List.append_eq_append_iff.mp h with ⟨x, rfl, hx⟩ | ⟨x, rfl, hx⟩
  · cases x with
    | nil => exact .inr (.inl ⟨by simp, (List.cons.inj hx).1⟩)
    | cons w x =>
      obtain ⟨rfl, hr⟩ := List.cons.inj hx
      exact .inr (.inr ⟨x, rfl, hr⟩)
  · cases x with
    | nil => exact .inr (.inl ⟨by simp, (List.cons.inj hx).1.symm⟩)
    | cons w x =>
      obtain ⟨rfl, hws⟩ := List.cons.inj hx
      exact .inl ⟨x, rfl, hws⟩

/-- Taking out the head of the list, a word that no other phrase has. -/
lemma remove_word (h : Nested ([a] :: rest) (l ++ a :: r)) (hapart : ∀ q ∈ rest, a ∉ q) :
    Nested ([a] :: rest) (l ++ r) := by
  generalize hphrases : [a] :: rest = phrases at h ⊢
  generalize hws : l ++ a :: r = ws at h
  induction h generalizing rest l r with
  | nil => simp at hws
  | @word phrases w ws h hrest ih =>
    cases l with
    | nil =>
      obtain ⟨-, rfl⟩ := List.cons.inj hws
      exact hrest
    | cons w' l =>
      obtain ⟨rfl, htail⟩ : w' = w ∧ l ++ a :: r = ws := by simpa using hws
      exact .word h (ih hapart hphrases htail)
  | @pair phrases done rest' c d gap ws h hgap hrest ihgap ih =>
    -- the pair is another phrase, which does not have the word
    obtain ⟨done, rfl⟩ : ∃ done', done = [a] :: done' := by
      cases done with
      | nil => exact absurd (List.cons.inj (hphrases.trans h)).1 (by simp)
      | cons q done => exact ⟨done, by rw [(List.cons.inj (hphrases.trans h)).1]⟩
    obtain rfl : rest = done ++ [c, d] :: rest' := (List.cons.inj (hphrases.trans h)).2
    have hpair := hapart [c, d] (by simp)
    simp only [List.mem_cons, List.not_mem_nil, or_false, not_or] at hpair
    cases l with
    | nil => exact absurd (List.cons.inj hws).1 hpair.1
    | cons w' l =>
      obtain ⟨rfl, htail⟩ : w' = c ∧ l ++ a :: r = gap ++ d :: ws := by simpa using hws
      rcases split_cons htail with ⟨l', rfl, hrest'⟩ | ⟨-, heq⟩ | ⟨x, hx, rfl⟩
      · rw [List.cons_append, List.append_assoc, List.cons_append]
        exact .pair h hgap (ih hapart hphrases hrest'.symm)
      · exact absurd heq hpair.2
      · rw [List.cons_append, ← List.append_assoc]
        have hdone : ∀ q ∈ done ++ [[w', d]], q ∈ done ++ [w', d] :: rest' := by
          simp only [List.mem_append, List.mem_cons, List.not_mem_nil, or_false]
          tauto
        exact .pair h (ihgap (fun q hq => hapart q (hdone q hq)) rfl hx.symm) hrest

/-- Taking out the head of the list, two words of which no phrase ends with the first or begins with
the second. -/
lemma remove_pair (h : Nested ([a, b] :: rest) (l ++ a :: b :: r))
    (hapart : ∀ q ∈ [a, b] :: rest, q.head? ≠ some b ∧ q.getLast? ≠ some a) :
    Nested ([a, b] :: rest) (l ++ r) := by
  generalize hphrases : [a, b] :: rest = phrases at h hapart ⊢
  generalize hws : l ++ a :: b :: r = ws at h
  induction h generalizing rest l r with
  | nil => simp at hws
  | @word phrases w ws h hrest ih =>
    cases l with
    | nil =>
      obtain ⟨rfl, -⟩ := List.cons.inj hws
      exact absurd rfl (hapart [a] h).2
    | cons w' l =>
      obtain ⟨rfl, htail⟩ : w' = w ∧ l ++ a :: b :: r = ws := by simpa using hws
      exact .word h (ih hphrases hapart htail)
  | @pair phrases done rest' c d gap ws h hgap hrest ihgap ih =>
    have hpair := hapart [c, d] (h ▸ List.mem_append_right _ List.mem_cons_self)
    have hup : ∀ q ∈ done ++ [[c, d]], q.head? ≠ some b ∧ q.getLast? ≠ some a := by
      intro q hq
      refine hapart q ?_
      rw [h]
      simp only [List.mem_append, List.mem_cons, List.not_mem_nil, or_false] at hq ⊢
      tauto
    cases l with
    | nil =>
      obtain ⟨rfl, htail⟩ : a = c ∧ b :: r = gap ++ d :: ws := by simpa using hws
      cases gap with
      | nil =>
        -- the two words are a phrase of their own
        obtain ⟨-, rfl⟩ := List.cons.inj htail
        exact hrest
      | cons w gap =>
        obtain ⟨rfl, -⟩ := List.cons.inj htail
        obtain ⟨q, hq, hhead⟩ := hgap.head
        exact absurd hhead (hup q hq).1
    | cons w' l =>
      obtain ⟨rfl, htail⟩ : w' = c ∧ l ++ a :: b :: r = gap ++ d :: ws := by simpa using hws
      rcases split_cons htail with ⟨l', rfl, hrest'⟩ | ⟨-, rfl⟩ | ⟨x, hx, hbehind⟩
      · rw [List.cons_append, List.append_assoc, List.cons_append]
        exact .pair h hgap (ih hphrases hapart hrest'.symm)
      · exact absurd rfl hpair.2
      · cases x with
        | nil =>
          obtain ⟨q, hq, hlast⟩ := hgap.getLast (w := a) (by simp [hx])
          exact absurd hlast (hup q hq).2
        | cons w x =>
          obtain ⟨rfl, rfl⟩ : b = w ∧ r = x ++ d :: ws := by simpa using hbehind
          rw [List.cons_append, ← List.append_assoc]
          obtain ⟨rest'', hhead⟩ : ∃ rest'', [a, b] :: rest'' = done ++ [[w', d]] := by
            cases done with
            | nil => exact ⟨[], by rw [(List.cons.inj (hphrases.trans h)).1]; rfl⟩
            | cons q done => exact ⟨done ++ [[w', d]], by
                rw [(List.cons.inj (hphrases.trans h)).1]; rfl⟩
          exact .pair h (ihgap hhead hup hx.symm) hrest

end Nested

/-! ### Deletions -/

/-- What is left of `full` when blocks that meet `C` are taken out between the words. -/
inductive Gapped (C : List (List α) → Prop) : List (List α) → List (List α) → Prop
  | last {g : List (List α)} (h : C g) : Gapped C [] g
  | word {g ws full : List (List α)} {w : List α} (h : C g) (hrest : Gapped C ws full) :
      Gapped C (w :: ws) (g ++ w :: full)

namespace Gapped

variable {C C' : List (List α) → Prop} {ws full l p r g : List (List α)}

lemma mono (h : Gapped C ws full) (hC : ∀ g, C g → C' g) : Gapped C' ws full := by
  induction h with
  | last h => exact .last (hC _ h)
  | word h _ ih => exact .word (hC _ h) ih

lemma refl (hnil : C []) (ws : List (List α)) : Gapped C ws ws := by
  induction ws with
  | nil => exact .last hnil
  | cons w ws ih => exact .word hnil ih

lemma prepend (happend : ∀ g g', C g → C g' → C (g ++ g')) (hg : C g) (h : Gapped C ws full) :
    Gapped C ws (g ++ full) := by
  cases h with
  | last h => exact .last (happend _ _ hg h)
  | word h hrest =>
    rw [← List.append_assoc]
    exact .word (happend _ _ hg h) hrest

lemma split (hnil : C []) (h : Gapped C (p ++ r) full) :
    ∃ g f, full = g ++ f ∧ Gapped C p g ∧ Gapped C r f := by
  induction p generalizing full with
  | nil => exact ⟨[], full, rfl, .last hnil, h⟩
  | cons w p ih =>
    cases h with
    | @word g _ full' _ hg hrest =>
      obtain ⟨g', f, rfl, hp, hr⟩ := ih hrest
      exact ⟨g ++ w :: g', f, by simp, .word hg hp, hr⟩

/-- Deleting words makes the gap longer by them and the gaps between them. -/
lemma delete (hnil : C []) (happend : ∀ g g', C g → C g' → C (g ++ g'))
    (hp : ∀ g, Gapped C p g → C g) (h : Gapped C (l ++ p ++ r) full) : Gapped C (l ++ r) full := by
  induction l generalizing full with
  | nil =>
    obtain ⟨g, f, rfl, hg, hf⟩ := split hnil h
    exact hf.prepend happend (hp g hg)
  | cons w l ih =>
    cases h with
    | word hg hrest => exact .word hg (ih hrest)

end Gapped

/-- A phrase with gaps before, in and behind it is nested. -/
lemma Nested.of_gapped {done : List (List (List α))} {p g : List (List α)} (hshort : Short p)
    (h : Gapped (Nested (done ++ [p])) p g) : Nested (done ++ [p]) g := by
  rcases hshort with ⟨a, rfl⟩ | ⟨a, b, rfl⟩
  · cases h with
    | word hbefore hrest =>
      cases hrest with
      | last hbehind => exact hbefore.append (.word (by simp) hbehind)
  · cases h with
    | word hbefore hrest =>
      cases hrest with
      | word hgap hrest =>
        cases hrest with
        | last hbehind => exact hbefore.append (.pair rfl hgap hbehind)

variable [DecidableEq α]

/-- The phrases deleted in the order of the list; `fuel` bounds the deletions of each. -/
def deleteAll (fuel : List (List α) → ℕ) (phrases : List (List (List α))) (ws : List (List α)) :
    List (List α) :=
  phrases.foldl (fun ws p => rewriteLoop p [] (fuel ws) ws) ws

/-- The head of the list is a word that no other phrase has, or two words of which no phrase ends
with the first or begins with the second. -/
def apartFrom : List (List α) → List (List (List α)) → Bool
  | [a], rest => rest.all fun q => !q.contains a
  | [a, b], rest => ([a, b] :: rest).all fun q => q.head? ≠ some b && q.getLast? ≠ some a
  | _, _ => false

/-- Every phrase is apart from those after it. -/
def apart : List (List (List α)) → Bool
  | [] => true
  | p :: rest => apartFrom p rest && apart rest

/-- The phrases without those that have a word which is deleted before. -/
def unbroken (done : List (List (List α))) : List (List (List α)) → List (List (List α))
  | [] => []
  | p :: rest =>
    if p.any fun w => done.contains [w] then unbroken done rest
    else p :: unbroken (p :: done) rest

variable {fuel : List (List α) → ℕ} {phrases done rest : List (List (List α))}
  {p ws ws' : List (List α)}

lemma short_of_apartFrom (h : apartFrom p rest = true) : Short p := by
  unfold apartFrom at h
  split at h
  next a => exact .inl ⟨a, rfl⟩
  next a b => exact .inr ⟨a, b, rfl⟩
  next => cases h

lemma short_of_apart (h : apart phrases = true) : ∀ p ∈ phrases, Short p := by
  induction phrases with
  | nil => exact fun p hp => absurd hp List.not_mem_nil
  | cons p rest ih =>
    rw [apart, Bool.and_eq_true] at h
    exact List.forall_mem_cons.mpr ⟨short_of_apartFrom h.1, ih h.2⟩

/-- Deleting the head of the list keeps nested phrases nested. -/
lemma Nested.rewrite (hapart : apartFrom p rest = true) (h : Nested (p :: rest) ws)
    (hstep : Words.rewrite p [] ws = some ws') : Nested (p :: rest) ws' := by
  obtain ⟨l, r, rfl, rfl⟩ := rewrite_some hstep
  rw [List.append_nil]
  rw [List.append_assoc] at h
  unfold apartFrom at hapart
  split at hapart
  next a => exact h.remove_word (by simpa using hapart)
  next a b => exact h.remove_pair (by simpa using hapart)
  next => cases hapart

/-- Nothing is left of nested phrases. -/
theorem deleteAll_of_nested (hfuel : ∀ ws, ws.length ≤ fuel ws) (hapart : apart phrases = true)
    (h : Nested phrases ws) : deleteAll fuel phrases ws = [] := by
  induction phrases generalizing ws with
  | nil => exact h.eq_nil
  | cons p rest ih =>
    rw [apart, Bool.and_eq_true] at hapart
    have hpos : 0 < p.length := by
      rcases short_of_apartFrom hapart.1 with ⟨a, rfl⟩ | ⟨a, b, rfl⟩
      · exact Nat.one_pos
      · exact Nat.two_pos
    have hkept : Nested (p :: rest) (rewriteLoop p [] (fuel ws) ws) :=
      rewriteLoop_invariant (P := Nested (p :: rest)) (fun _ _ h => h.rewrite hapart.1) h
    exact ih hapart.2 (hkept.tail (rewriteLoop_none hpos (hfuel ws)))

/-- Nothing is left only of nested phrases. -/
theorem nested_of_deleteAll (hshort : ∀ p ∈ phrases, Short p)
    (h : deleteAll fuel phrases ws = []) : Nested phrases ws := by
  have hgaps : ∀ (rest done : List (List (List α))) (left : List (List α)),
      phrases = done ++ rest → Gapped (Nested done) left ws →
      Gapped (Nested phrases) (deleteAll fuel rest left) ws := by
    intro rest
    induction rest with
    | nil =>
      rintro done left rfl hleft
      simpa [deleteAll] using hleft
    | cons p rest ih =>
      intro done left heq hleft
      refine ih (done ++ [p]) _ (by simp [heq]) ?_
      refine rewriteLoop_invariant (P := fun left => Gapped (Nested (done ++ [p])) left ws) ?_
        (hleft.mono fun g hg => hg.mono [p])
      intro left left' hleft hstep
      obtain ⟨l, r, rfl, rfl⟩ := rewrite_some hstep
      rw [List.append_nil]
      exact hleft.delete .nil (fun _ _ => Nested.append) fun g =>
        .of_gapped (hshort p (by simp [heq]))
  have hall := hgaps phrases [] ws rfl (.refl .nil ws)
  rw [h] at hall
  cases hall with
  | last hnested => exact hnested

/-- A phrase with a word that is deleted before it is never found. -/
theorem deleteAll_unbroken (hfuel : ∀ ws, ws.length ≤ fuel ws)
    (hdone : ∀ w, [w] ∈ done → w ∉ ws) :
    deleteAll fuel (unbroken done phrases) ws = deleteAll fuel phrases ws := by
  induction phrases generalizing done ws with
  | nil => rfl
  | cons p rest ih =>
    rw [unbroken]
    split_ifs with hbroken
    · obtain ⟨w, hw, hwdone⟩ := List.any_eq_true.mp hbroken
      have hnone : ¬p <:+: ws := fun hin => hdone w (by simpa using hwdone) (hin.subset hw)
      rw [ih hdone]
      show _ = deleteAll fuel rest (rewriteLoop p [] (fuel ws) ws)
      rw [rewriteLoop_absent (List.ne_nil_of_mem hw) hnone]
    · refine ih fun w hw => ?_
      rcases List.mem_cons.mp hw with rfl | hw
      · have hnone := rewriteLoop_none (p := [w]) (q := []) (by simp) (hfuel ws)
        exact fun hin => hnone ((List.singleton_infix_iff _ _).mpr hin)
      · exact fun hin => hdone w hw (by simpa using mem_of_rewriteLoop hin)

/-- **Nothing is left exactly of nested phrases** that no word deleted before them breaks. -/
theorem deleteAll_eq_nil_iff (hfuel : ∀ ws, ws.length ≤ fuel ws)
    (hapart : apart (unbroken [] phrases) = true) :
    deleteAll fuel phrases ws = [] ↔ Nested (unbroken [] phrases) ws := by
  rw [← deleteAll_unbroken hfuel fun _ hw => absurd hw List.not_mem_nil]
  exact ⟨nested_of_deleteAll (short_of_apart hapart), deleteAll_of_nested hfuel hapart⟩

end Words

end ArgusBackend

import Mathlib.Data.List.Basic
import Mathlib.Logic.Function.Basic

/-!
# Tickets that are settled at most once

Tickets `0, 1, 2, …` are handed out, each under a key.  A ticket that has been handed out is held
under its key until it is let go, and letting go comes in kinds.  `History` is the protocol, with
one rule a note; what follows from it holds of every program whose notes obey it.

* `History.held_of_not_left` : a ticket that no note lets go is still held under its key;
* `History.left_once` : a ticket is let go at most once;
* `History.guarded` : the guard of a rule held before the note it let through.
-/

namespace ArgusBackend

namespace Tickets

variable {κ ω μ : Type*}

/-- The notes of the protocol: a ticket is handed out, it is let go, or something else happens. -/
inductive Note (κ ω μ : Type*) where
  | handed (ticket : ℕ) (key : κ)
  | left (ticket : ℕ) (how : ω)
  | other (note : μ)
  deriving DecidableEq, Repr

/-- `History guard n h held` : `n` tickets have been handed out, the notes are `h`, and `held`
gives the key under which a ticket is held.  A ticket is let go only while it is held, and only
when the guard, which sees the notes so far, lets it. -/
inductive History (guard : List (Note κ ω μ) → ℕ → κ → ω → Prop) :
    ℕ → List (Note κ ω μ) → (ℕ → Option κ) → Prop
  | start : History guard 0 [] fun _ => none
  | handed {n h held} (key : κ) : History guard n h held →
      History guard (n + 1) (h ++ [.handed n key]) (Function.update held n (some key))
  | left {n h held} {ticket : ℕ} {key : κ} {how : ω} : History guard n h held →
      held ticket = some key → guard h ticket key how →
      History guard n (h ++ [.left ticket how]) (Function.update held ticket none)
  | other {n h held} (note : μ) : History guard n h held →
      History guard n (h ++ [.other note]) held

/-- Whether a note lets a ticket go. -/
def Note.lets (ticket : ℕ) : Note κ ω μ → Bool
  | .left ticket' _ => ticket = ticket'
  | _ => false

section Lets

variable (ticket ticket' : ℕ) (key : κ) (how : ω) (note : μ)

@[simp] theorem lets_handed : (Note.handed ticket' key : Note κ ω μ).lets ticket = false := rfl
@[simp] theorem lets_left :
    (Note.left ticket' how : Note κ ω μ).lets ticket = decide (ticket = ticket') := rfl
@[simp] theorem lets_other : (Note.other note : Note κ ω μ).lets ticket = false := rfl

end Lets

namespace History

variable {guard : List (Note κ ω μ) → ℕ → κ → ω → Prop} {n : ℕ} {h : List (Note κ ω μ)}
  {held : ℕ → Option κ} {ticket : ℕ} {key : κ}

/-- A held ticket has been handed out. -/
theorem lt_of_held (hist : History guard n h held) (hheld : held ticket = some key) :
    ticket < n := by
  induction hist with
  | start => cases hheld
  | @handed n h held key' _ ih =>
    by_cases heq : ticket = n
    · omega
    · rw [Function.update_of_ne heq] at hheld
      exact Nat.lt_succ_of_lt (ih hheld)
  | @left n h held ticket' key' how _ _ _ ih =>
    by_cases heq : ticket = ticket'
    · rw [heq, Function.update_self] at hheld
      cases hheld
    · rw [Function.update_of_ne heq] at hheld
      exact ih hheld
  | other _ _ ih => exact ih hheld

theorem lt_of_handed (hist : History guard n h held) (hmem : .handed ticket key ∈ h) :
    ticket < n := by
  induction hist with
  | start => cases hmem
  | handed key' _ ih =>
    simp only [List.mem_append, List.mem_singleton, Note.handed.injEq] at hmem
    rcases hmem with hmem | ⟨rfl, -⟩
    · exact Nat.lt_succ_of_lt (ih hmem)
    · exact Nat.lt_succ_self _
  | left _ _ _ ih => exact ih (by simpa using hmem)
  | other _ _ ih => exact ih (by simpa using hmem)

/-- The next ticket is held by nobody. -/
theorem held_fresh (hist : History guard n h held) : held n = none := by
  rcases hheld : held n with _ | key
  · rfl
  · exact absurd (hist.lt_of_held hheld) (Nat.lt_irrefl n)

/-- A ticket that is let go as soon as it is handed out leaves the others as they were. -/
theorem handed_left (hist : History guard n h held) {how : ω}
    (hguard : guard (h ++ [.handed n key]) n key how) :
    History guard (n + 1) (h ++ [.handed n key, .left n how]) held := by
  have hleft := (hist.handed key).left (Function.update_self ..) hguard
  rwa [Function.update_idem, ← hist.held_fresh, Function.update_eq_self,
    List.append_assoc] at hleft

/-- A ticket not handed out yet has not been let go. -/
theorem countP_of_le (hist : History guard n h held) (hle : n ≤ ticket) :
    h.countP (Note.lets ticket) = 0 := by
  induction hist with
  | start => rfl
  | handed key' _ ih => simpa using ih (by omega)
  | left hist hheld _ ih =>
    have hne : ticket ≠ _ := Nat.ne_of_gt (Nat.lt_of_lt_of_le (hist.lt_of_held hheld) hle)
    rw [List.countP_append, ih hle]
    simp [hne]
  | other _ _ ih => simpa using ih hle

/-- A held ticket is under the key it was handed out with and has not been let go. -/
theorem of_held (hist : History guard n h held) (hheld : held ticket = some key) :
    .handed ticket key ∈ h ∧ h.countP (Note.lets ticket) = 0 := by
  induction hist with
  | start => cases hheld
  | @handed n h held key' hist ih =>
    by_cases heq : ticket = n
    · subst heq
      rw [Function.update_self, Option.some.injEq] at hheld
      subst hheld
      exact ⟨by simp, by simpa using hist.countP_of_le (Nat.le_refl _)⟩
    · rw [Function.update_of_ne heq] at hheld
      obtain ⟨hmem, hcount⟩ := ih hheld
      exact ⟨by simp [hmem], by simpa using hcount⟩
  | @left n h held ticket' key' how hist hheld' _ ih =>
    by_cases heq : ticket = ticket'
    · rw [heq, Function.update_self] at hheld
      cases hheld
    · rw [Function.update_of_ne heq] at hheld
      obtain ⟨hmem, hcount⟩ := ih hheld
      exact ⟨by simp [hmem], by simpa [heq] using hcount⟩
  | other _ _ ih =>
    obtain ⟨hmem, hcount⟩ := ih hheld
    exact ⟨by simp [hmem], by simpa using hcount⟩

/-- A ticket that has been handed out and not let go is held under its key. -/
theorem held_of_not_left (hist : History guard n h held) (hmem : .handed ticket key ∈ h)
    (hcount : h.countP (Note.lets ticket) = 0) : held ticket = some key := by
  induction hist with
  | start => cases hmem
  | @handed n h held key' hist ih =>
    simp only [List.mem_append, List.mem_singleton, Note.handed.injEq] at hmem
    rcases hmem with hmem | ⟨rfl, rfl⟩
    · rw [Function.update_of_ne (Nat.ne_of_lt (hist.lt_of_handed hmem))]
      exact ih hmem (by simpa using hcount)
    · exact Function.update_self ..
  | @left n h held ticket' key' how hist _ _ ih =>
    simp only [List.countP_append, Nat.add_eq_zero_iff, List.countP_singleton, lets_left] at hcount
    have hne : ticket ≠ ticket' := by
      rintro rfl
      simp at hcount
    rw [Function.update_of_ne hne]
    exact ih (by simpa using hmem) hcount.1
  | other _ _ ih => exact ih (by simpa using hmem) (by simpa using hcount)

/-- A ticket is let go at most once. -/
theorem left_once (hist : History guard n h held) (ticket : ℕ) :
    h.countP (Note.lets ticket) ≤ 1 := by
  induction hist with
  | start => exact Nat.zero_le 1
  | handed key' _ ih => simpa using ih
  | @left n h held ticket' key' how hist hheld _ ih =>
    by_cases heq : ticket = ticket'
    · subst heq
      simp [(hist.of_held hheld).2]
    · simpa [heq] using ih
  | other _ _ ih => simpa using ih

/-- A note that lets a ticket go met the guard of its kind. -/
theorem guarded (hist : History guard n h held) {before after : List (Note κ ω μ)} {how : ω}
    (heq : h = before ++ .left ticket how :: after) :
    ∃ key, .handed ticket key ∈ before ∧ guard before ticket key how := by
  induction hist generalizing after with
  | start => simp at heq
  | handed key' _ ih =>
    rcases List.eq_nil_or_concat after with rfl | ⟨after', last, rfl⟩
    · simp [← List.concat_eq_append, List.concat_inj] at heq
    · rw [List.concat_eq_append, ← List.cons_append, ← List.append_assoc] at heq
      exact ih (List.append_inj_left' heq rfl)
  | @left n h held ticket' key' how' hist hheld hguard ih =>
    rcases List.eq_nil_or_concat after with rfl | ⟨after', last, rfl⟩
    · obtain ⟨rfl, hlast⟩ := List.append_inj' heq rfl
      simp only [List.cons.injEq, Note.left.injEq, and_true] at hlast
      obtain ⟨rfl, rfl⟩ := hlast
      exact ⟨key', (hist.of_held hheld).1, hguard⟩
    · rw [List.concat_eq_append, ← List.cons_append, ← List.append_assoc] at heq
      exact ih (List.append_inj_left' heq rfl)
  | other _ _ ih =>
    rcases List.eq_nil_or_concat after with rfl | ⟨after', last, rfl⟩
    · simp [← List.concat_eq_append, List.concat_inj] at heq
    · rw [List.concat_eq_append, ← List.cons_append, ← List.append_assoc] at heq
      exact ih (List.append_inj_left' heq rfl)

/-- A ticket is handed out under one key. -/
theorem handed_unique (hist : History guard n h held) {key' : κ} (hmem : .handed ticket key ∈ h)
    (hmem' : .handed ticket key' ∈ h) : key = key' := by
  induction hist with
  | start => cases hmem
  | @handed n h held last hist ih =>
    simp only [List.mem_append, List.mem_singleton, Note.handed.injEq] at hmem hmem'
    rcases hmem with hmem | ⟨rfl, rfl⟩ <;> rcases hmem' with hmem' | ⟨hticket, rfl⟩
    · exact ih hmem hmem'
    · exact absurd (hist.lt_of_handed hmem) (by omega)
    · exact absurd (hist.lt_of_handed hmem') (Nat.lt_irrefl _)
    · rfl
  | left _ _ _ ih => exact ih (by simpa using hmem) (by simpa using hmem')
  | other _ _ ih => exact ih (by simpa using hmem) (by simpa using hmem')

end History

end Tickets

end ArgusBackend

import Mathlib.Data.List.Induction

/-!
# Relays that deliver in order, at least once

Items are offered to a relay, which delivers the oldest one that is still waiting, as often as it
likes, and settles it once it has been delivered.  `History` is the protocol, with one rule a
note; what follows from it holds of every program whose notes obey it.

* `History.offered_eq` : what was offered is what was settled, in order, and then what waits;
* `History.delivered_pairwise` : deliveries follow the order of the offers, up to repeats;
* `History.delivered_before` : at a delivery everything offered earlier has been delivered;
* `History.guarded` : the guard held before every other note;
* `pairwise_firsts` : first deliveries, told apart by a key, are strictly in that order.
-/

namespace ArgusBackend

namespace Relay

variable {α μ κ : Type*}

/-- The notes of the protocol: an item is offered, delivered or settled, or something else
happens. -/
inductive Note (α μ : Type*) where
  | offered (item : α)
  | delivered (item : α)
  | settled (item : α)
  | other (note : μ)
  deriving DecidableEq, Repr

namespace Note

/-- The item that a note offers. -/
def offered? : Note α μ → Option α
  | .offered item => some item
  | _ => none

/-- The item that a note delivers. -/
def delivered? : Note α μ → Option α
  | .delivered item => some item
  | _ => none

/-- The item that a note settles. -/
def settled? : Note α μ → Option α
  | .settled item => some item
  | _ => none

end Note

/-- The items that were offered, oldest first. -/
def offered (h : List (Note α μ)) : List α := h.filterMap Note.offered?

/-- The items that were delivered, oldest first. -/
def delivered (h : List (Note α μ)) : List α := h.filterMap Note.delivered?

/-- The items that were settled, oldest first. -/
def settled (h : List (Note α μ)) : List α := h.filterMap Note.settled?

section Append

variable (h h' : List (Note α μ)) (item : α) (note : μ)

@[simp] theorem offered_append : offered (h ++ h') = offered h ++ offered h' := by
  simp [offered]
@[simp] theorem delivered_append : delivered (h ++ h') = delivered h ++ delivered h' := by
  simp [delivered]
@[simp] theorem settled_append : settled (h ++ h') = settled h ++ settled h' := by
  simp [settled]

@[simp] theorem offered_nil : offered ([] : List (Note α μ)) = [] := rfl
@[simp] theorem delivered_nil : delivered ([] : List (Note α μ)) = [] := rfl
@[simp] theorem settled_nil : settled ([] : List (Note α μ)) = [] := rfl

@[simp] theorem offered_cons_offered : offered (.offered item :: h) = item :: offered h := rfl
@[simp] theorem offered_cons_delivered : offered (.delivered item :: h) = offered h := rfl
@[simp] theorem offered_cons_settled : offered (.settled item :: h) = offered h := rfl
@[simp] theorem offered_cons_other : offered (.other note :: h) = offered h := rfl
@[simp] theorem delivered_cons_offered : delivered (.offered item :: h) = delivered h := rfl
@[simp] theorem delivered_cons_delivered :
    delivered (.delivered item :: h) = item :: delivered h := rfl
@[simp] theorem delivered_cons_settled : delivered (.settled item :: h) = delivered h := rfl
@[simp] theorem delivered_cons_other : delivered (.other note :: h) = delivered h := rfl
@[simp] theorem settled_cons_offered : settled (.offered item :: h) = settled h := rfl
@[simp] theorem settled_cons_delivered : settled (.delivered item :: h) = settled h := rfl
@[simp] theorem settled_cons_settled : settled (.settled item :: h) = item :: settled h := rfl
@[simp] theorem settled_cons_other : settled (.other note :: h) = settled h := rfl

end Append

/-- `History guard waiting h` : the notes are `h`, and `waiting` has been offered and not settled.
Only the oldest waiting item is delivered, and it is settled only after a delivery.  The guard,
which sees the notes so far, lets the other notes through. -/
inductive History (guard : List (Note α μ) → μ → Prop) : List α → List (Note α μ) → Prop
  | start : History guard [] []
  | offered {w h} (item : α) : History guard w h →
      History guard (w ++ [item]) (h ++ [.offered item])
  | delivered {w h} {item : α} : History guard (item :: w) h →
      History guard (item :: w) (h ++ [.delivered item])
  | settled {w h} {item : α} : History guard (item :: w) h → item ∈ Relay.delivered h →
      History guard w (h ++ [.settled item])
  | other {w h} {note : μ} : History guard w h → guard h note →
      History guard w (h ++ [.other note])

namespace History

variable {guard : List (Note α μ) → μ → Prop} {w : List α} {h : List (Note α μ)} {item : α}

/-- Offers in a row. -/
theorem offers (hist : History guard w h) (items : List α) :
    History guard (w ++ items) (h ++ items.map .offered) := by
  induction items generalizing w h with
  | nil => simpa using hist
  | cons item items ih => simpa using ih (hist.offered item)

/-- Other notes in a row, each let through whatever other notes come before it. -/
theorem others (hist : History guard w h) (notes : List μ)
    (hguard : ∀ note ∈ notes, ∀ before : List μ, guard (h ++ before.map .other) note) :
    History guard w (h ++ notes.map .other) := by
  induction notes generalizing h with
  | nil => simpa using hist
  | cons note notes ih =>
    have hnote : guard h note := by simpa using hguard note (by simp) []
    have hrest := ih (hist.other hnote) fun note' hnote' before => by
      simpa using hguard note' (by simp [hnote']) (note :: before)
    simpa using hrest

theorem offered_eq (hist : History guard w h) : Relay.offered h = Relay.settled h ++ w := by
  induction hist with
  | start => rfl
  | offered item _ ih => simp [ih]
  | delivered _ ih => simpa using ih
  | settled _ _ ih => simpa using ih
  | other _ _ ih => simpa using ih

theorem delivered_of_settled (hist : History guard w h) (hitem : item ∈ Relay.settled h) :
    item ∈ Relay.delivered h := by
  induction hist with
  | start => simp at hitem
  | offered _ _ ih => simpa using ih (by simpa using hitem)
  | delivered _ ih => simp [ih (by simpa using hitem)]
  | @settled w h item' _ hdelivered ih =>
    simp only [settled_append, settled_cons_settled, settled_nil, List.mem_append,
      List.mem_singleton] at hitem
    rcases hitem with hitem | rfl
    · simpa using ih hitem
    · simpa using hdelivered
  | other _ _ ih => simpa using ih (by simpa using hitem)

/-- Only what was settled, and the oldest waiting item, has been delivered. -/
theorem settled_or_head (hist : History guard w h) (hitem : item ∈ Relay.delivered h) :
    item ∈ Relay.settled h ∨ w.head? = some item := by
  induction hist with
  | start => simp at hitem
  | @offered w h item' _ ih =>
    rcases ih (by simpa using hitem) with hs | hw
    · exact .inl (by simpa using hs)
    · exact .inr (by simp [List.head?_append, hw])
  | @delivered w h item' _ ih =>
    simp only [delivered_append, delivered_cons_delivered, delivered_nil, List.mem_append,
      List.mem_singleton] at hitem
    rcases hitem with hitem | rfl
    · simpa using ih hitem
    · exact .inr rfl
  | @settled w h item' _ _ ih =>
    rcases ih (by simpa using hitem) with hs | hw
    · exact .inl (by simp [hs])
    · obtain rfl : item' = item := by simpa using hw
      exact .inl (by simp)
  | other _ _ ih => simpa using ih (by simpa using hitem)

/-- Deliveries follow the order of the offers; a repeat delivers the same item. -/
theorem delivered_pairwise {r : α → α → Prop} (hist : History guard w h)
    (hr : (Relay.offered h).Pairwise r) :
    (Relay.delivered h).Pairwise fun a b => r a b ∨ a = b := by
  induction hist with
  | start => exact List.Pairwise.nil
  | offered _ _ ih =>
    simp only [offered_append, offered_cons_offered, offered_nil] at hr
    simpa using ih (List.pairwise_append.1 hr).1
  | @delivered w h item' hist ih =>
    have hr' : (Relay.offered h).Pairwise r := by simpa using hr
    simp only [delivered_append, delivered_cons_delivered, delivered_nil]
    refine List.pairwise_append.2 ⟨ih hr', List.pairwise_singleton _ _, ?_⟩
    intro a ha b hb
    obtain rfl := List.mem_singleton.1 hb
    rcases hist.settled_or_head ha with hs | hw
    · rw [hist.offered_eq, List.pairwise_append] at hr'
      exact .inl (hr'.2.2 a hs b (by simp))
    · exact .inr (by simpa using hw.symm)
  | settled _ _ ih => simpa using ih (by simpa using hr)
  | other _ _ ih => simpa using ih (by simpa using hr)

/-- The notes before any note are a history of their own. -/
theorem of_append {h₁ h₂ : List (Note α μ)} (hist : History guard w (h₁ ++ h₂)) :
    ∃ w₁, History guard w₁ h₁ := by
  induction h₂ using List.reverseRecOn generalizing w with
  | nil => exact ⟨w, by simpa using hist⟩
  | append_singleton h₂ note ih =>
    rw [← List.append_assoc] at hist
    generalize hh : h₁ ++ h₂ ++ [note] = h at hist
    cases hist with
    | start => simp at hh
    | offered _ hist =>
      obtain ⟨rfl, -⟩ := List.append_inj' hh rfl
      exact ih hist
    | delivered hist =>
      obtain ⟨rfl, -⟩ := List.append_inj' hh rfl
      exact ih hist
    | settled hist _ =>
      obtain ⟨rfl, -⟩ := List.append_inj' hh rfl
      exact ih hist
    | other hist _ =>
      obtain ⟨rfl, -⟩ := List.append_inj' hh rfl
      exact ih hist

/-- An item that a delivery note names was offered before that note. -/
theorem head_of_delivered {h₁ h₂ : List (Note α μ)}
    (hist : History guard w (h₁ ++ .delivered item :: h₂)) : ∃ w₁, History guard (item :: w₁) h₁ := by
  rw [show h₁ ++ .delivered item :: h₂ = (h₁ ++ [.delivered item]) ++ h₂ by simp] at hist
  obtain ⟨w₁, hist₁⟩ := hist.of_append
  generalize hh : h₁ ++ [Note.delivered item] = h at hist₁
  cases hist₁ with
  | start => simp at hh
  | offered _ hist => exact absurd (List.append_inj' hh rfl).2 (by simp)
  | @delivered w h item' hist =>
    obtain ⟨rfl, hitem⟩ := List.append_inj' hh rfl
    obtain rfl : item = item' := by simpa using hitem
    exact ⟨w, hist⟩
  | settled hist _ => exact absurd (List.append_inj' hh rfl).2 (by simp)
  | other hist _ => exact absurd (List.append_inj' hh rfl).2 (by simp)

/-- The guard held before every note it let through. -/
theorem guarded {h₁ h₂ : List (Note α μ)} {note : μ}
    (hist : History guard w (h₁ ++ .other note :: h₂)) : guard h₁ note := by
  rw [show h₁ ++ .other note :: h₂ = (h₁ ++ [.other note]) ++ h₂ by simp] at hist
  obtain ⟨w₁, hist₁⟩ := hist.of_append
  generalize hh : h₁ ++ [Note.other note] = h at hist₁
  cases hist₁ with
  | start => simp at hh
  | offered _ hist => exact absurd (List.append_inj' hh rfl).2 (by simp)
  | delivered hist => exact absurd (List.append_inj' hh rfl).2 (by simp)
  | settled hist _ => exact absurd (List.append_inj' hh rfl).2 (by simp)
  | @other w h note' hist hguard =>
    obtain ⟨rfl, hnote⟩ := List.append_inj' hh rfl
    obtain rfl : note = note' := by simpa using hnote
    exact hguard

/-- At a delivery, everything that comes before the delivered item has been delivered. -/
theorem delivered_before {r : α → α → Prop} {h₁ h₂ : List (Note α μ)} {earlier : α}
    (hasymm : ∀ a b, r a b → ¬r b a) (hist : History guard w (h₁ ++ .delivered item :: h₂))
    (hr : (Relay.offered (h₁ ++ .delivered item :: h₂)).Pairwise r)
    (hearlier : earlier ∈ Relay.offered (h₁ ++ .delivered item :: h₂)) (hlt : r earlier item) :
    earlier ∈ Relay.delivered h₁ := by
  obtain ⟨w₁, hist₁⟩ := hist.head_of_delivered
  have hirrefl : ∀ a, ¬r a a := fun a ha => hasymm a a ha ha
  simp only [offered_append, offered_cons_delivered, hist₁.offered_eq, List.append_assoc,
    List.cons_append] at hr hearlier
  obtain ⟨-, htail, -⟩ := List.pairwise_append.1 hr
  rcases List.mem_append.1 hearlier with hs | hrest
  · exact hist₁.delivered_of_settled hs
  -- whatever stands at or after the delivered item does not come before it
  · rcases List.mem_cons.1 hrest with rfl | hrest
    · exact absurd hlt (hirrefl _)
    · exact absurd hlt (hasymm _ _ ((List.pairwise_cons.1 htail).1 _ hrest))

end History

/-! ### First deliveries -/

/-- The items of a list whose key none before them has. -/
def firsts [DecidableEq κ] (key : α → κ) : List α → List α
  | [] => []
  | a :: l => a :: (firsts key l).filter fun b => key b ≠ key a

variable [DecidableEq κ] {key : α → κ}

theorem firsts_sublist (l : List α) : (firsts key l).Sublist l := by
  induction l with
  | nil => exact List.Sublist.slnil
  | cons a l ih => exact (List.filter_sublist.trans ih).cons_cons a

theorem pairwise_firsts {r : α → α → Prop} {l : List α}
    (hl : l.Pairwise fun a b => r a b ∨ a = b) : (firsts key l).Pairwise r := by
  induction l with
  | nil => exact List.Pairwise.nil
  | cons a l ih =>
    rw [List.pairwise_cons] at hl
    refine List.pairwise_cons.2 ⟨?_, (ih hl.2).filter _⟩
    intro b hb
    obtain ⟨hb, hkey⟩ := List.mem_filter.1 hb
    rcases hl.1 b ((firsts_sublist l).subset hb) with hr | rfl
    · exact hr
    · simp at hkey

end Relay

end ArgusBackend

import ArgusBackend.Heartbeat.PresenceBoard
import ArgusBackend.Library.Places
import ArgusBackend.Library.Runs
import Mathlib.Data.Finset.Basic
import Mathlib.Logic.Relation
import Mathlib.Logic.Function.Basic

/-!
# Refills of the presence board

A world is the board with the directory, the live updates on their way and the refills, each
between its mark, its reading of the directory and its filling of the board.  Users change and leave
the directory.

* `World.Step` : the steps;
* `World.Inv` : what every run keeps, for the users that no list read so far leaves out;
* `World.Dropped` : what the runs keep in which no user comes back to the board that a refill left
  out;
* `refills_settle` : what the callers are told, and what the board shows in the end.
-/

namespace ArgusBackend

namespace Heartbeat

open PresenceBoard

/-- The presence of a user. -/
structure Presence where
  overall : String
  since : ℤ
  deriving DecidableEq, Repr

/-- The entry of a user. -/
def Presence.of (p : Presence) (u : ℤ) : PresenceEntry := ⟨u, p.overall, p.since⟩

/-- How far a refill has come. -/
inductive Refill where
  | marked (readMark : ℕ)
  | read (readMark : ℕ) (entries : List PresenceEntry)
  | filled (entries : List PresenceEntry)
  | failed
  deriving DecidableEq, Repr

/-- The mark of a refill that has not ended. -/
def Refill.readMark? : Refill → Option ℕ
  | .marked readMark => some readMark
  | .read readMark _ => some readMark
  | _ => none

/-- The list that a refill has read. -/
def Refill.entries? : Refill → Option (List PresenceEntry)
  | .read _ entries => some entries
  | .filled entries => some entries
  | _ => none

/-- `newest` is the last presence that a user had in the directory, `lastRead` the list that was
read last. -/
structure World where
  board : PresenceBoard := {}
  directory : Finset ℤ
  newest : ℤ → Presence
  updates : ℤ → List Presence := fun _ => []
  refills : List Refill := []
  lastRead : Option (List PresenceEntry) := none

/-- What happens to the directory and to the board. -/
inductive Event where
  | change (u : ℤ) (p : Presence)
  | leave (u : ℤ)
  | arrive (u : ℤ)
  | mark
  | list (i : ℕ) (entries : List PresenceEntry)
  | unavailable (i : ℕ)
  | fill (i : ℕ)

namespace World

/-- The directory may list its users in any order. -/
def Lists (w : World) (entries : List PresenceEntry) : Prop :=
  (entries.map PresenceEntry.userId).Nodup ∧
    ∀ entry, entry ∈ entries ↔
      entry.userId ∈ w.directory ∧ entry = (w.newest entry.userId).of entry.userId

/-- What one event does. -/
inductive Step : World → Event → World → Prop
  | change {w : World} {u : ℤ} {p : Presence} (hu : u ∈ w.directory) :
      Step w (.change u p)
        { w with
          newest := Function.update w.newest u p
          updates := Function.update w.updates u (w.updates u ++ [p]) }
  | leave {w : World} {u : ℤ} :
      Step w (.leave u) { w with directory := w.directory.erase u }
  | arrive {w : World} {u : ℤ} {p : Presence} {rest : List Presence}
      (hp : w.updates u = p :: rest) :
      Step w (.arrive u)
        { w with
          board := (w.board.apply (p.of u)).2
          updates := Function.update w.updates u rest }
  | mark {w : World} :
      Step w .mark { w with refills := w.refills ++ [.marked w.board.mark] }
  | list {w : World} {i readMark : ℕ} {entries : List PresenceEntry}
      (hi : w.refills[i]? = some (.marked readMark)) (hlists : w.Lists entries) :
      Step w (.list i entries)
        { w with refills := w.refills.set i (.read readMark entries), lastRead := some entries }
  | unavailable {w : World} {i readMark : ℕ} (hi : w.refills[i]? = some (.marked readMark)) :
      Step w (.unavailable i) { w with refills := w.refills.set i .failed }
  | fill {w : World} {i readMark : ℕ} {entries : List PresenceEntry}
      (hi : w.refills[i]? = some (.read readMark entries)) :
      Step w (.fill i)
        { w with
          board := (w.board.fill entries readMark).2
          refills := w.refills.set i (.filled entries) }

/-- A run keeps its events and the worlds in which they come. -/
abbrev Runs (w₀ : World) : List (World × Event) → World → Prop :=
  Run (fun w notes w' => ∃ event, Step w event w' ∧ notes = [(w, event)]) w₀

/-- All refills have ended and all live updates have arrived. -/
def Finished (w : World) : Prop :=
  (∀ u, w.updates u = []) ∧ ∀ r ∈ w.refills, r.readMark? = none

/-- A refill has filled the board with a list without the user. -/
def LeftOut (w : World) (u : ℤ) : Prop :=
  ∃ entries, Refill.filled entries ∈ w.refills ∧ u ∉ listed entries

/-- Nothing brings a user back whom a refill left out: no live update, no list, and no live update
before the refill. -/
def Keeps (w : World) : Event → Prop
  | .arrive u => 0 < u → ¬w.LeftOut u
  | .fill i => ∀ readMark entries, w.refills[i]? = some (.read readMark entries) →
      (∀ u ∈ listed entries, ¬w.LeftOut u) ∧
        ∀ u slot, w.board.entries_.lookup u = some slot → u ∉ listed entries →
          slot.appliedSeq ≤ readMark
  | _ => True

/-- A list that some refill has read. -/
def HasRead (w : World) (entries : List PresenceEntry) : Prop :=
  ∃ r ∈ w.refills, r.entries? = some entries

/-- Every list read so far has the user. -/
def Everywhere (w : World) (u : ℤ) : Prop :=
  0 < u ∧ ∀ entries, w.HasRead entries → u ∈ listed entries

/-- What every run keeps. -/
structure Inv (w : World) : Prop where
  keyed : Keyed w.board.entries_
  seqs : ∀ u slot, w.board.entries_.lookup u = some slot → slot.appliedSeq ≤ w.board.sequence_
  marks : ∀ r ∈ w.refills, ∀ readMark, r.readMark? = some readMark → readMark ≤ w.board.sequence_
  nodup : ∀ entries, w.HasRead entries → (entries.map PresenceEntry.userId).Nodup
  directory : ∀ u ∈ w.directory, 0 < u → w.Everywhere u
  last : ∀ entries, w.lastRead = some entries →
    w.HasRead entries ∧ ∀ u ∈ listed entries, w.Everywhere u
  latest : ∀ u, w.updates u ≠ [] → (w.updates u).getLast? = some (w.newest u)
  lists : ∀ readMark entries, Refill.read readMark entries ∈ w.refills → ∀ entry ∈ entries,
    w.Everywhere entry.userId → w.updates entry.userId = [] →
      entry = (w.newest entry.userId).of entry.userId ∨
        ∃ slot, w.board.entries_.lookup entry.userId = some slot ∧ readMark < slot.appliedSeq
  present : ∀ u, w.Everywhere u → ∀ entries, Refill.filled entries ∈ w.refills →
    w.board.entries_.lookup u ≠ none
  current : ∀ u, w.Everywhere u → w.updates u = [] → ∀ slot,
    w.board.entries_.lookup u = some slot → slot.entry = normalizedOf ((w.newest u).of u)

section Steps

variable {w w' : World} {u : ℤ} {p : Presence} {rest : List Presence} {i readMark : ℕ}
  {entries : List PresenceEntry} {r r' : Refill} {refills : List Refill}

/-- A refill that goes on keeps the list it has read. -/
theorem hasRead_set (hi : w.refills[i]? = some r) (hr : r'.entries? = r.entries?) :
    ({ w with refills := w.refills.set i r' } : World).HasRead entries ↔ w.HasRead entries := by
  constructor
  · rintro ⟨x, hx, hentries⟩
    rcases List.mem_or_eq_of_mem_set hx with hx | rfl
    · exact ⟨x, hx, hentries⟩
    · exact ⟨r, List.mem_of_getElem? hi, hr ▸ hentries⟩
  · rintro ⟨x, hx, hentries⟩
    by_cases hne : x = r
    · exact ⟨r', Places.mem_set_self hi, by rw [hr, ← hne, hentries]⟩
    · exact ⟨x, Places.mem_set_of_ne hi hx hne, hentries⟩

/-- A refill reads a list. -/
theorem hasRead_list {ℓ : List PresenceEntry} (hi : w.refills[i]? = some (.marked readMark)) :
    ({ w with refills := w.refills.set i (.read readMark ℓ) } : World).HasRead entries ↔
      entries = ℓ ∨ w.HasRead entries := by
  constructor
  · rintro ⟨x, hx, hentries⟩
    rcases List.mem_or_eq_of_mem_set hx with hx | rfl
    · exact .inr ⟨x, hx, hentries⟩
    · exact .inl (Option.some.inj hentries).symm
  · rintro (rfl | ⟨x, hx, hentries⟩)
    · exact ⟨_, Places.mem_set_self hi, rfl⟩
    · refine ⟨x, Places.mem_set_of_ne hi hx ?_, hentries⟩
      rintro rfl
      cases hentries

theorem hasRead_mark {m : ℕ} :
    ({ w with refills := w.refills ++ [.marked m] } : World).HasRead entries ↔
      w.HasRead entries := by
  simp [HasRead, Refill.entries?, or_and_right, exists_or]

theorem Inv.change (hinv : w.Inv) (hu : u ∈ w.directory) :
    ({ w with
      newest := Function.update w.newest u p
      updates := Function.update w.updates u (w.updates u ++ [p]) } : World).Inv where
  keyed := hinv.keyed
  seqs := hinv.seqs
  marks := hinv.marks
  nodup := hinv.nodup
  directory := hinv.directory
  last := hinv.last
  latest u' hne := by
    by_cases hu' : u' = u
    · subst hu'
      simp
    · simp only [Function.update_of_ne hu'] at hne ⊢
      exact hinv.latest u' hne
  lists readMark entries hr entry hentry heverywhere hnil := by
    by_cases hu' : entry.userId = u
    · simp [hu'] at hnil
    · simp only [Function.update_of_ne hu'] at hnil ⊢
      exact hinv.lists readMark entries hr entry hentry heverywhere hnil
  present := hinv.present
  current u' heverywhere hnil slot hslot := by
    by_cases hu' : u' = u
    · simp [hu'] at hnil
    · simp only [Function.update_of_ne hu'] at hnil ⊢
      exact hinv.current u' heverywhere hnil slot hslot

theorem Inv.leave (hinv : w.Inv) : ({ w with directory := w.directory.erase u } : World).Inv where
  keyed := hinv.keyed
  seqs := hinv.seqs
  marks := hinv.marks
  nodup := hinv.nodup
  directory u' hu' := hinv.directory u' (Finset.mem_of_mem_erase hu')
  last := hinv.last
  latest := hinv.latest
  lists := hinv.lists
  present := hinv.present
  current := hinv.current

/-- A live update leaves everything else as it was. -/
theorem lookup_arrive_ne (hinv : w.Inv) {u' : ℤ} (hne : u' ≠ u) :
    (w.board.apply (p.of u)).2.entries_.lookup u' = w.board.entries_.lookup u' := by
  by_cases hpos : 0 < u
  · rw [lookup_apply hinv.keyed hpos]
    exact if_neg hne
  · rw [apply_nonpos (not_lt.1 hpos)]

theorem lookup_arrive_self (hinv : w.Inv) (hpos : 0 < u) :
    (w.board.apply (p.of u)).2.entries_.lookup u =
      some ⟨normalizedOf (p.of u), w.board.sequence_ + 1⟩ := by
  rw [lookup_apply hinv.keyed hpos]
  exact if_pos rfl

theorem sequence_arrive : w.board.sequence_ ≤ (w.board.apply (p.of u)).2.sequence_ := by
  by_cases hpos : 0 < u
  · rw [sequence_apply hpos]
    exact Nat.le_succ _
  · rw [apply_nonpos (not_lt.1 hpos)]

theorem Inv.arrive (hinv : w.Inv) (hp : w.updates u = p :: rest) :
    ({ w with
      board := (w.board.apply (p.of u)).2
      updates := Function.update w.updates u rest } : World).Inv where
  keyed := hinv.keyed.apply
  seqs u' slot hslot := by
    by_cases hpos : 0 < u
    · have hseq : (w.board.apply (p.of u)).2.sequence_ = w.board.sequence_ + 1 :=
        sequence_apply hpos
      simp only [hseq]
      by_cases hu' : u' = u
      · subst hu'
        simp only [lookup_arrive_self hinv hpos, Option.some.injEq] at hslot
        exact hslot ▸ le_rfl
      · simp only [lookup_arrive_ne hinv hu'] at hslot
        exact Nat.le_succ_of_le (hinv.seqs u' slot hslot)
    · have hsame : w.board.apply (p.of u) = (false, w.board) := apply_nonpos (not_lt.1 hpos)
      simp only [hsame] at hslot ⊢
      exact hinv.seqs u' slot hslot
  marks r hr readMark hmark := (hinv.marks r hr readMark hmark).trans sequence_arrive
  nodup := hinv.nodup
  directory := hinv.directory
  last := hinv.last
  latest u' hne := by
    by_cases hu' : u' = u
    · subst hu'
      simp only [Function.update_self] at hne ⊢
      have hlatest := hinv.latest u' (by simp [hp])
      rw [hp, List.getLast?_cons_of_ne_nil hne] at hlatest
      exact hlatest
    · simp only [Function.update_of_ne hu'] at hne ⊢
      exact hinv.latest u' hne
  lists readMark entries hr entry hentry heverywhere hnil := by
    by_cases hu' : entry.userId = u
    · subst hu'
      exact .inr ⟨_, lookup_arrive_self hinv heverywhere.1,
        Nat.lt_succ_of_le (hinv.marks _ hr readMark rfl)⟩
    · simp only [Function.update_of_ne hu', lookup_arrive_ne hinv hu'] at hnil ⊢
      exact hinv.lists readMark entries hr entry hentry heverywhere hnil
  present u' heverywhere entries hr := by
    by_cases hu' : u' = u
    · subst hu'
      simp [lookup_arrive_self hinv heverywhere.1]
    · simp only [lookup_arrive_ne hinv hu']
      exact hinv.present u' heverywhere entries hr
  current u' heverywhere hnil slot hslot := by
    by_cases hu' : u' = u
    · subst hu'
      simp only [Function.update_self] at hnil
      have hlatest := hinv.latest u' (by simp [hp])
      rw [hp, hnil, List.getLast?_singleton, Option.some.injEq] at hlatest
      simp only [lookup_arrive_self hinv heverywhere.1, Option.some.injEq] at hslot
      rw [← hslot, ← hlatest]
    · simp only [Function.update_of_ne hu', lookup_arrive_ne hinv hu'] at hnil hslot ⊢
      exact hinv.current u' heverywhere hnil slot hslot

/-- A refill begins, or ends without a list. -/
theorem Inv.setRefills (hinv : w.Inv)
    (hmem : ∀ r ∈ refills, r ∈ w.refills ∨ r = .marked w.board.sequence_ ∨ r = .failed)
    (hread : ∀ entries, ({ w with refills } : World).HasRead entries ↔ w.HasRead entries) :
    ({ w with refills } : World).Inv := by
  have heverywhere (u : ℤ) : ({ w with refills } : World).Everywhere u ↔ w.Everywhere u := by
    simp only [Everywhere, hread]
  exact {
    keyed := hinv.keyed
    seqs := hinv.seqs
    marks := by
      intro r hr readMark hmark
      rcases hmem r hr with hr | rfl | rfl
      · exact hinv.marks r hr readMark hmark
      · exact (Option.some.inj hmark).symm.le
      · cases hmark
    nodup := fun entries hentries => hinv.nodup entries ((hread entries).1 hentries)
    directory := fun u hu hpos => (heverywhere u).2 (hinv.directory u hu hpos)
    last := by
      intro entries hlast
      obtain ⟨hentries, hall⟩ := hinv.last entries hlast
      exact ⟨(hread entries).2 hentries, fun u hu => (heverywhere u).2 (hall u hu)⟩
    latest := hinv.latest
    lists := by
      intro readMark entries hr entry hentry hevery
      rcases hmem _ hr with hr | hr | hr
      · exact hinv.lists readMark entries hr entry hentry ((heverywhere _).1 hevery)
      · cases hr
      · cases hr
    present := by
      intro u hevery entries hr
      rcases hmem _ hr with hr | hr | hr
      · exact hinv.present u ((heverywhere u).1 hevery) entries hr
      · cases hr
      · cases hr
    current := fun u hevery => hinv.current u ((heverywhere u).1 hevery) }

theorem Inv.list (hinv : w.Inv) (hi : w.refills[i]? = some (.marked readMark))
    (hlists : w.Lists entries) :
    ({ w with
      refills := w.refills.set i (.read readMark entries)
      lastRead := some entries } : World).Inv := by
  obtain ⟨hnodup, hmem⟩ := hlists
  have hlisted : ∀ u ∈ listed entries, u ∈ w.directory ∧ 0 < u := by
    intro u hu
    obtain ⟨hu, hpos⟩ := List.mem_filter.1 hu
    obtain ⟨entry, hentry, rfl⟩ := List.mem_map.1 hu
    exact ⟨((hmem entry).1 hentry).1, of_decide_eq_true hpos⟩
  have hdirectory : ∀ u ∈ w.directory, 0 < u → u ∈ listed entries := fun u hu hpos =>
    List.mem_filter.2 ⟨List.mem_map.2 ⟨(w.newest u).of u, (hmem _).2 ⟨hu, rfl⟩, rfl⟩,
      decide_eq_true hpos⟩
  have hevery {u : ℤ} (h : Everywhere { w with
      refills := w.refills.set i (.read readMark entries), lastRead := some entries } u) :
      w.Everywhere u :=
    ⟨h.1, fun ℓ hℓ => h.2 ℓ ((hasRead_list hi).2 (.inr hℓ))⟩
  have hevery' {u : ℤ} (h : u ∈ w.directory) (hpos : 0 < u) : Everywhere { w with
      refills := w.refills.set i (.read readMark entries), lastRead := some entries } u := by
    refine ⟨hpos, fun ℓ hℓ => ?_⟩
    rcases (hasRead_list hi).1 hℓ with rfl | hℓ
    · exact hdirectory u h hpos
    · exact (hinv.directory u h hpos).2 ℓ hℓ
  exact {
    keyed := hinv.keyed
    seqs := hinv.seqs
    marks := by
      intro r hr m hmark
      rcases List.mem_or_eq_of_mem_set hr with hr | rfl
      · exact hinv.marks r hr m hmark
      · exact hinv.marks _ (List.mem_of_getElem? hi) m hmark
    nodup := by
      intro ℓ hℓ
      rcases (hasRead_list hi).1 hℓ with rfl | hℓ
      · exact hnodup
      · exact hinv.nodup ℓ hℓ
    directory := fun u hu hpos => hevery' hu hpos
    last := by
      intro ℓ hlast
      obtain rfl := Option.some.inj hlast
      exact ⟨(hasRead_list hi).2 (.inl rfl), fun u hu => hevery' (hlisted u hu).1 (hlisted u hu).2⟩
    latest := hinv.latest
    lists := by
      intro m ℓ hr entry hentry h hnil
      rcases List.mem_or_eq_of_mem_set hr with hr | heq
      · exact hinv.lists m ℓ hr entry hentry (hevery h) hnil
      · cases heq
        exact .inl ((hmem entry).1 hentry).2
    present := by
      intro u h ℓ hr
      rcases List.mem_or_eq_of_mem_set hr with hr | heq
      · exact hinv.present u (hevery h) ℓ hr
      · cases heq
    current := fun u h => hinv.current u (hevery h) }

theorem Inv.fill (hinv : w.Inv) (hi : w.refills[i]? = some (.read readMark entries)) :
    ({ w with
      board := (w.board.fill entries readMark).2
      refills := w.refills.set i (.filled entries) } : World).Inv := by
  have hread : w.HasRead entries := ⟨_, List.mem_of_getElem? hi, rfl⟩
  have hnodup := hinv.nodup entries hread
  have hlookup := lookup_fill readMark hinv.keyed hnodup
  have hHas (ℓ : List PresenceEntry) :
      HasRead { w with refills := w.refills.set i (.filled entries) } ℓ ↔ w.HasRead ℓ :=
    hasRead_set hi rfl
  have hevery {u : ℤ} (h : Everywhere { w with
      board := (w.board.fill entries readMark).2
      refills := w.refills.set i (.filled entries) } u) : w.Everywhere u :=
    ⟨h.1, fun ℓ hℓ => h.2 ℓ ((hHas ℓ).2 hℓ)⟩
  have hevery' {u : ℤ} (h : w.Everywhere u) : Everywhere { w with
      board := (w.board.fill entries readMark).2
      refills := w.refills.set i (.filled entries) } u :=
    ⟨h.1, fun ℓ hℓ => h.2 ℓ ((hHas ℓ).1 hℓ)⟩
  have hlisted {u : ℤ} (h : w.Everywhere u) : ∃ entry, listedAs entries u = some entry := by
    rw [← Option.ne_none_iff_exists', ne_eq, listedAs_eq_none, not_not]
    exact h.2 entries hread
  exact {
    keyed := hinv.keyed.fill hnodup
    seqs := by
      intro u slot hslot
      rw [hlookup] at hslot
      rcases refilled_eq_some hslot with ⟨-, -, -, ⟨-, hseq⟩ | ⟨old, hold, hseq, -⟩⟩ | ⟨hold, -⟩
      · exact hseq ▸ Nat.zero_le _
      · exact hseq ▸ hinv.seqs u old hold
      · exact hinv.seqs u slot hold
    marks := by
      intro r hr m hmark
      rcases List.mem_or_eq_of_mem_set hr with hr | rfl
      · exact hinv.marks r hr m hmark
      · cases hmark
    nodup := fun ℓ hℓ => hinv.nodup ℓ ((hHas ℓ).1 hℓ)
    directory := fun u hu hpos => hevery' (hinv.directory u hu hpos)
    last := by
      intro ℓ hlast
      obtain ⟨hℓ, hall⟩ := hinv.last ℓ hlast
      exact ⟨(hHas ℓ).2 hℓ, fun u hu => hevery' (hall u hu)⟩
    latest := hinv.latest
    lists := by
      intro m ℓ hr entry hentry h hnil
      rcases List.mem_or_eq_of_mem_set hr with hr | heq
      · rcases hinv.lists m ℓ hr entry hentry (hevery h) hnil with hnew | ⟨old, hold, hseq⟩
        · exact .inl hnew
        · obtain ⟨listedEntry, hentry'⟩ := hlisted (hevery h)
          obtain ⟨slot, hslot, hkept⟩ :=
            refilled_listed readMark (w.board.entries_.lookup entry.userId) listedEntry
          refine .inr ⟨slot, ?_, by rw [hkept old hold]; exact hseq⟩
          rw [hlookup, hentry', hslot]
      · cases heq
    present := by
      intro u h ℓ _
      obtain ⟨entry, hentry⟩ := hlisted (hevery h)
      obtain ⟨slot, hslot, -⟩ := refilled_listed readMark (w.board.entries_.lookup u) entry
      rw [hlookup, hentry, hslot]
      exact Option.some_ne_none slot
    current := by
      intro u h hnil slot hslot
      rw [hlookup] at hslot
      rcases refilled_eq_some hslot with ⟨entry, hentry, hnormal, hbefore⟩ | ⟨hold, -⟩
      · obtain ⟨hmem, rfl, -⟩ := (listedAs_eq_some hnodup).1 hentry
        rcases hinv.lists readMark entries (List.mem_of_getElem? hi) entry hmem (hevery h) hnil with
          hnew | ⟨old, hold, hseq⟩
        · rw [hnormal]
          exact congrArg normalizedOf hnew
        · rcases hbefore with ⟨hnone, -⟩ | ⟨old', hold', -, hle⟩
          · rw [hnone] at hold
            cases hold
          · obtain rfl := Option.some.inj (hold.symm.trans hold')
            exact absurd hseq (not_lt.2 hle)
      · exact hinv.current u (hevery h) hnil slot hold }

theorem Inv.step {event : Event} (hinv : w.Inv) (hstep : Step w event w') : w'.Inv := by
  cases hstep with
  | change hu => exact hinv.change hu
  | leave => exact hinv.leave
  | arrive hp => exact hinv.arrive hp
  | mark =>
    refine hinv.setRefills (fun r hr => ?_) fun entries => hasRead_mark
    rcases List.mem_append.1 hr with hr | hr
    · exact .inl hr
    · exact .inr (.inl (List.mem_singleton.1 hr))
  | list hi hlists => exact hinv.list hi hlists
  | unavailable hi =>
    refine hinv.setRefills (fun r hr => ?_) fun entries => hasRead_set hi rfl
    rcases List.mem_or_eq_of_mem_set hr with hr | hr
    · exact .inl hr
    · exact .inr (.inr hr)
  | fill hi => exact hinv.fill hi

/-! ### Users who were left out -/

/-- Nobody is on the board whom a refill left out. -/
def Dropped (w : World) : Prop := ∀ u, 0 < u → w.LeftOut u → w.board.entries_.lookup u = none

theorem Dropped.step {event : Event} (hinv : w.Inv) (hdropped : w.Dropped)
    (hkeeps : w.Keeps event) (hstep : Step w event w') : w'.Dropped := by
  have hold {refills : List Refill} {u : ℤ}
      (hmem : ∀ entries, Refill.filled entries ∈ refills → Refill.filled entries ∈ w.refills)
      (hout : ({ w with refills } : World).LeftOut u) : w.LeftOut u := by
    obtain ⟨entries, hentries, hu⟩ := hout
    exact ⟨entries, hmem entries hentries, hu⟩
  cases hstep with
  | change hu => exact hdropped
  | leave => exact hdropped
  | @arrive u p rest hp =>
    intro u' hpos hout
    have hne : u' ≠ u := by
      rintro rfl
      exact hkeeps hpos hout
    simp only [lookup_arrive_ne hinv hne]
    exact hdropped u' hpos hout
  | mark =>
    refine fun u hpos hout => hdropped u hpos (hold (fun entries hmem => ?_) hout)
    rcases List.mem_append.1 hmem with hmem | hmem
    · exact hmem
    · cases List.mem_singleton.1 hmem
  | list hi hlists =>
    refine fun u hpos hout => hdropped u hpos (hold (fun entries hmem => ?_) hout)
    rcases List.mem_or_eq_of_mem_set hmem with hmem | heq
    · exact hmem
    · cases heq
  | unavailable hi =>
    refine fun u hpos hout => hdropped u hpos (hold (fun entries hmem => ?_) hout)
    rcases List.mem_or_eq_of_mem_set hmem with hmem | heq
    · exact hmem
    · cases heq
  | @fill i readMark entries hi =>
    obtain ⟨hback, hseq⟩ := hkeeps readMark entries hi
    have hread : w.HasRead entries := ⟨_, List.mem_of_getElem? hi, rfl⟩
    rintro u hpos ⟨ℓ, hℓ, hu⟩
    have hnot : u ∉ listed entries := by
      rcases List.mem_or_eq_of_mem_set hℓ with hℓ | heq
      · exact fun hmem => hback u hmem ⟨ℓ, hℓ, hu⟩
      · cases heq
        exact hu
    rw [lookup_fill _ hinv.keyed (hinv.nodup entries hread), listedAs_eq_none.2 hnot]
    cases hslot : w.board.entries_.lookup u with
    | none => rfl
    | some slot => exact if_neg (not_lt.2 (hseq u slot hslot hnot))

/-! ### Users who were updated -/

/-- Steps through which a user stays on the board. -/
def Stays (u : ℤ) : World → World → Prop :=
  Relation.ReflTransGen fun w w' =>
    (∃ event, Step w event w') ∧ w'.board.entries_.lookup u ≠ none

/-- The user has been updated since a mark. -/
def Newer (w : World) (u : ℤ) (readMark : ℕ) : Prop :=
  ∃ slot, w.board.entries_.lookup u = some slot ∧ readMark < slot.appliedSeq

theorem Newer.step {event : Event} (hinv : w.Inv) (hnewer : w.Newer u readMark)
    (hstep : Step w event w') (hstays : w'.board.entries_.lookup u ≠ none) :
    w'.Newer u readMark := by
  obtain ⟨slot, hslot, hseq⟩ := hnewer
  cases hstep with
  | change hu => exact ⟨slot, hslot, hseq⟩
  | leave => exact ⟨slot, hslot, hseq⟩
  | @arrive u' p rest hp =>
    by_cases hu : u = u'
    · subst hu
      have hpos := (hinv.keyed u slot hslot).2
      exact ⟨_, lookup_arrive_self hinv hpos,
        Nat.lt_succ_of_le (hseq.le.trans (hinv.seqs u slot hslot))⟩
    · exact ⟨slot, (lookup_arrive_ne hinv hu).trans hslot, hseq⟩
  | mark => exact ⟨slot, hslot, hseq⟩
  | list hi hlists => exact ⟨slot, hslot, hseq⟩
  | unavailable hi => exact ⟨slot, hslot, hseq⟩
  | @fill i m entries hi =>
    have hread : w.HasRead entries := ⟨_, List.mem_of_getElem? hi, rfl⟩
    obtain ⟨slot', hslot'⟩ := Option.ne_none_iff_exists'.1 hstays
    refine ⟨slot', hslot', ?_⟩
    rw [lookup_fill _ hinv.keyed (hinv.nodup entries hread), hslot] at hslot'
    rcases refilled_eq_some hslot' with ⟨-, -, -, ⟨hnone, -⟩ | ⟨old, hold, hsame, -⟩⟩ | ⟨hold, -⟩
    · cases hnone
    · obtain rfl := Option.some.inj hold
      exact hsame ▸ hseq
    · exact Option.some.inj hold ▸ hseq

/-- A refill keeps its mark. -/
theorem readMark_step {event : Event} (hstep : Step w event w') (hr : w.refills[i]? = some r)
    (hr' : w'.refills[i]? = some r') (hmark : r'.readMark? = some readMark) :
    r.readMark? = some readMark := by
  have hset {j : ℕ} {x y : Refill} (hj : w.refills[j]? = some x)
      (h : (w.refills.set j y)[i]? = some r')
      (hxy : ∀ m, y.readMark? = some m → x.readMark? = some m) : r.readMark? = some readMark := by
    by_cases hij : j = i
    · subst hij
      rw [List.getElem?_set_self (List.getElem?_eq_some_iff.1 hj).1, Option.some.injEq] at h
      obtain rfl := Option.some.inj (hj.symm.trans hr)
      exact hxy readMark (h ▸ hmark)
    · rw [List.getElem?_set_ne hij] at h
      obtain rfl := Option.some.inj (hr.symm.trans h)
      exact hmark
  have hsame (h : w.refills[i]? = some r') : r.readMark? = some readMark := by
    obtain rfl := Option.some.inj (hr.symm.trans h)
    exact hmark
  cases hstep with
  | change hu => exact hsame hr'
  | leave => exact hsame hr'
  | arrive hp => exact hsame hr'
  | mark =>
    rw [List.getElem?_append_left (List.getElem?_eq_some_iff.1 hr).1] at hr'
    exact hsame hr'
  | list hi hlists => exact hset hi hr' fun m hm => hm
  | unavailable hi => exact hset hi hr' fun m hm => nomatch hm
  | fill hi => exact hset hi hr' fun m hm => nomatch hm

/-- The list of the refills only grows. -/
theorem refills_step {event : Event} (hstep : Step w event w') (hr : w.refills[i]? = some r) :
    ∃ r', w'.refills[i]? = some r' := by
  have hlt : i < w.refills.length := (List.getElem?_eq_some_iff.1 hr).1
  have hlt' : i < w'.refills.length := by
    cases hstep <;> simp <;> omega
  exact ⟨_, List.getElem?_eq_getElem hlt'⟩

/-- A refill leaves alone who was updated since its mark. -/
theorem fill_newer (hinv : w.Inv) (hnewer : w.Newer u readMark)
    (hr : w.refills[i]? = some r) (hmark : ∀ m, r.readMark? = some m → m = readMark)
    (hstep : Step w (.fill i) w') : w'.board.entries_.lookup u = w.board.entries_.lookup u := by
  obtain ⟨slot, hslot, hseq⟩ := hnewer
  cases hstep with
  | @fill _ m entries hi =>
    have hread : w.HasRead entries := ⟨_, List.mem_of_getElem? hi, rfl⟩
    obtain rfl := Option.some.inj (hr.symm.trans hi)
    obtain rfl := hmark m rfl
    rw [lookup_fill _ hinv.keyed (hinv.nodup entries hread), hslot]
    cases listedAs entries u with
    | none => exact if_pos hseq
    | some entry => exact if_pos hseq

theorem Stays.newer (hinv : w.Inv) (hnewer : w.Newer u readMark) (hr : w.refills[i]? = some r)
    (hmark : ∀ m, r.readMark? = some m → m = readMark) (hstays : Stays u w w') :
    w'.Inv ∧ w'.Newer u readMark ∧
      ∃ r', w'.refills[i]? = some r' ∧ ∀ m, r'.readMark? = some m → m = readMark := by
  induction hstays with
  | refl => exact ⟨hinv, hnewer, r, hr, hmark⟩
  | tail _ hstep ih =>
    obtain ⟨⟨event, hstep⟩, hon⟩ := hstep
    obtain ⟨hinv, hnewer, r, hr, hmark⟩ := ih
    obtain ⟨r', hr'⟩ := refills_step hstep hr
    exact ⟨hinv.step hstep, hnewer.step hinv hstep hon, r', hr',
      fun m hm => hmark m (readMark_step hstep hr hr' hm)⟩

/-- An entry that is applied after the mark of a refill is neither overwritten nor erased by it. -/
theorem applied_kept (hinv : w.Inv) (hpos : 0 < u) (hr : w.refills[i]? = some r)
    (hmark : r.readMark? = some readMark) {w₁ w₂ : World} (harrive : Step w (.arrive u) w₁)
    (hstays : Stays u w₁ w₂) (hfill : Step w₂ (.fill i) w') :
    w'.board.entries_.lookup u = w₂.board.entries_.lookup u := by
  have hinv₁ := hinv.step harrive
  cases harrive with
  | @arrive _ p rest hp =>
    have hseq : readMark < w.board.sequence_ + 1 :=
      Nat.lt_succ_of_le (hinv.marks r (List.mem_of_getElem? hr) readMark hmark)
    have hnewer : Newer { w with
        board := (w.board.apply (p.of u)).2
        updates := Function.update w.updates u rest } u readMark :=
      ⟨_, lookup_arrive_self hinv hpos, hseq⟩
    have hone : ∀ m, r.readMark? = some m → m = readMark := fun m hm =>
      Option.some.inj (hm.symm.trans hmark)
    obtain ⟨hinv₂, hnewer₂, r', hr', hmark'⟩ := Stays.newer hinv₁ hnewer hr hone hstays
    exact fill_newer hinv₂ hnewer₂ hr' hmark' hfill

end Steps

/-! ### Runs -/

/-- The board is empty before the first step. -/
def start (directory : Finset ℤ) (newest : ℤ → Presence) : World := { directory, newest }

theorem inv_start (directory : Finset ℤ) (newest : ℤ → Presence) :
    (start directory newest).Inv where
  keyed u slot hslot := by simp [start] at hslot
  seqs u slot hslot := by simp [start] at hslot
  marks r hr := by simp [start] at hr
  nodup entries h := by simp [start, HasRead] at h
  directory u _ hpos := ⟨hpos, fun entries h => by simp [start, HasRead] at h⟩
  last entries h := by simp [start] at h
  latest u h := by simp [start] at h
  lists readMark entries hr := by simp [start] at hr
  present u _ entries hr := by simp [start] at hr
  current u _ _ slot hslot := by simp [start] at hslot

theorem Runs.inv {directory : Finset ℤ} {newest : ℤ → Presence} {h : List (World × Event)}
    {w : World} (hrun : Runs (start directory newest) h w) : w.Inv := by
  refine Run.invariant (J := fun _ w => w.Inv) hrun (inv_start directory newest) ?_
  rintro h w notes w' hinv ⟨event, hstep, -⟩
  exact hinv.step hstep

theorem Runs.dropped {directory : Finset ℤ} {newest : ℤ → Presence} {h : List (World × Event)}
    {w : World} (hrun : Runs (start directory newest) h w)
    (hkeeps : ∀ n ∈ h, n.1.Keeps n.2) : w.Dropped := by
  have hboth := Run.invariant_of_notes (J := fun _ w => w.Inv ∧ w.Dropped) hrun hkeeps
    ⟨inv_start directory newest, fun u _ _ => rfl⟩ (by
      rintro h w notes w' ⟨hinv, hdropped⟩ ⟨event, hstep, rfl⟩ hok
      exact ⟨hinv.step hstep, hdropped.step hinv (hok _ List.mem_cons_self) hstep⟩)
  exact hboth.2

/-- In the end the board shows the users of the list that was read last. -/
theorem shown_finished {w : World} {entries : List PresenceEntry} (hinv : w.Inv)
    (hdropped : w.Dropped) (hfinished : w.Finished) (hlast : w.lastRead = some entries) (u : ℤ) :
    w.board.shown u =
      if u ∈ listed entries then some (normalizedOf ((w.newest u).of u)) else none := by
  obtain ⟨hupdates, hended⟩ := hfinished
  obtain ⟨⟨r, hr, hentries⟩, hevery⟩ := hinv.last entries hlast
  have hfilled : Refill.filled entries ∈ w.refills := by
    cases r with
    | marked m => cases hentries
    | read m ℓ => exact absurd (hended _ hr) (Option.some_ne_none m)
    | filled ℓ =>
      obtain rfl := Option.some.inj hentries
      exact hr
    | failed => cases hentries
  split_ifs with hu
  · obtain ⟨slot, hslot⟩ :=
      Option.ne_none_iff_exists'.1 (hinv.present u (hevery u hu) entries hfilled)
    rw [shown, hslot, Option.map_some, hinv.current u (hevery u hu) (hupdates u) slot hslot]
  · rw [shown, Option.map_eq_none_iff]
    cases hslot : w.board.entries_.lookup u with
    | none => rfl
    | some slot =>
      have hnone := hdropped u (hinv.keyed u slot hslot).2 ⟨entries, hfilled, hu⟩
      rw [hnone] at hslot
      cases hslot

end World

open World

/-- A refill does not undo what is newer, the callers are told what changed, and in the end the
board shows the directory, as long as nothing brings back a user whom a refill left out. -/
theorem refills_settle {directory : Finset ℤ} {newest : ℤ → Presence}
    {h : List (World × Event)} {w : World} (hrun : Runs (World.start directory newest) h w) :
    (∀ u, 0 < u → ∀ i r readMark, w.refills[i]? = some r → r.readMark? = some readMark →
      ∀ w₁ w₂ w₃, Step w (.arrive u) w₁ → Stays u w₁ w₂ → Step w₂ (.fill i) w₃ →
        w₃.board.shown u = w₂.board.shown u) ∧
    (∀ (i readMark : ℕ) entries, w.refills[i]? = some (Refill.read readMark entries) →
      (w.board.fill entries readMark).1.Pairwise (· ≤ ·) ∧
        (w.board.fill entries readMark).1.Nodup ∧
        ∀ u, u ∈ (w.board.fill entries readMark).1 ↔
          (w.board.fill entries readMark).2.shown u ≠ w.board.shown u) ∧
    (∀ entry, (w.board.apply entry).1 = true ↔
      (w.board.apply entry).2.shown entry.userId ≠ w.board.shown entry.userId) ∧
    ((∀ n ∈ h, n.1.Keeps n.2) → w.Finished → ∀ entries, w.lastRead = some entries →
      ∀ u, w.board.shown u =
        if u ∈ listed entries then some (normalizedOf ((w.newest u).of u)) else none) := by
  have hinv := Runs.inv hrun
  refine ⟨?_, ?_, fun entry => apply_changed hinv.keyed, ?_⟩
  · intro u hpos i r readMark hr hmark w₁ w₂ w₃ harrive hstays hfill
    rw [shown, shown, applied_kept hinv hpos hr hmark harrive hstays hfill]
  · intro i readMark entries hi
    have hnodup := hinv.nodup entries ⟨_, List.mem_of_getElem? hi, rfl⟩
    exact ⟨sorted_fill _ _ _, nodup_fill hnodup, mem_fill hinv.keyed hnodup⟩
  · intro hkeeps hfinished entries hlast
    exact shown_finished hinv (Runs.dropped hrun hkeeps) hfinished hlast

theorem lists_map {w : World} {ids : List ℤ} (hnodup : ids.Nodup)
    (hids : ∀ u, u ∈ ids ↔ u ∈ w.directory) : w.Lists (ids.map fun u => (w.newest u).of u) := by
  constructor
  · rw [List.map_map]
    exact (List.map_id ids).symm ▸ hnodup
  · intro entry
    rw [List.mem_map]
    constructor
    · rintro ⟨u, hu, rfl⟩
      exact ⟨(hids u).1 hu, rfl⟩
    · rintro ⟨hu, heq⟩
      exact ⟨entry.userId, (hids _).2 hu, heq.symm⟩

/-- A user leaves between the readings of two refills, and the older list comes last. -/
theorem older_list_brings_back :
    ∃ h w, Runs (World.start {7} fun _ => ⟨"home", 0⟩) h w ∧ w.Finished ∧
      w.lastRead = some [] ∧ w.board.shown 7 = some ⟨7, "home", 0⟩ := by
  refine ⟨_, _, ((((((Run.start.next ⟨_, Step.mark, rfl⟩).next ⟨_, Step.mark, rfl⟩).next
    ⟨_, @Step.list _ 0 _ _ rfl (@lists_map _ [7] (by decide) (by simp [World.start])), rfl⟩).next
    ⟨_, Step.leave (u := 7), rfl⟩).next
    ⟨_, @Step.list _ 1 _ [] rfl ⟨List.nodup_nil, ?_⟩, rfl⟩).next
    ⟨_, Step.fill (i := 1) rfl, rfl⟩).next ⟨_, Step.fill (i := 0) rfl, rfl⟩, ⟨fun u => rfl, ?_⟩,
    rfl, rfl⟩
  · decide
  · intro entry
    simp [World.start]

/-- What holds of the items of a table holds of what it finds. -/
theorem of_lookup {P : ℤ → Slot → Prop} {t : Table ℤ Slot} (hall : ∀ item ∈ t.entries, P item.1 item.2)
    (u : ℤ) (slot : Slot) (hslot : t.lookup u = some slot) : P u slot :=
  hall ⟨u, slot⟩ (AList.mem_lookup_iff.1 hslot)

/-- Two users at home, two refills at once: after the first has read its list, one user goes away and
the other leaves the directory.  The live update comes before the refills fill the board. -/
theorem overlapping_refills : ∃ h w, Runs (World.start {7, 8} fun _ => ⟨"home", 0⟩) h w ∧
    (∀ n ∈ h, n.1.Keeps n.2) ∧ w.Finished ∧ w.lastRead = some [⟨7, "away", 5⟩] ∧
      w.newest 7 = ⟨"away", 5⟩ := by
  have hstart : Runs (World.start {7, 8} fun _ => ⟨"home", 0⟩) [] _ := .start
  have hread := ((hstart.next ⟨_, Step.mark, rfl⟩).next ⟨_, Step.mark, rfl⟩).next
    ⟨_, @Step.list _ 0 _ _ rfl (@lists_map _ [7, 8] (by decide) (by simp [World.start])), rfl⟩
  have harrived := ((hread.next ⟨_, @Step.change _ 7 ⟨"away", 5⟩ (by simp [World.start]), rfl⟩).next
    ⟨_, @Step.leave _ 8, rfl⟩).next ⟨_, @Step.arrive _ 7 _ [] rfl, rfl⟩
  have hrun := ((harrived.next
    ⟨_, @Step.list _ 1 _ _ rfl (@lists_map _ [7] (by decide) ?_), rfl⟩).next
    ⟨_, Step.fill (i := 0) rfl, rfl⟩).next ⟨_, Step.fill (i := 1) rfl, rfl⟩
  · refine ⟨_, _, hrun, ?_, ⟨fun u => ?_, by decide⟩, rfl, rfl⟩
    · simp only [List.nil_append, List.cons_append, List.forall_mem_cons]
      refine ⟨trivial, trivial, trivial, trivial, trivial, ?_, trivial, ?_, ?_, nofun⟩
      · rintro - ⟨entries, hentries, -⟩
        simp [World.start] at hentries
      · rintro readMark entries hi
        cases hi
        refine ⟨fun u _ ⟨entries, hentries, _⟩ => ?_, fun u slot hslot hnot => ?_⟩
        · simp [World.start] at hentries
        · exact @of_lookup (fun u slot => u ∉ listed _ → slot.appliedSeq ≤ _) _ (by decide +kernel)
            u slot hslot hnot
      · rintro readMark entries hi
        cases hi
        refine ⟨fun u hu ⟨entries, hentries, hleft⟩ => ?_, fun u slot hslot hnot => ?_⟩
        · obtain rfl : u = 7 := List.mem_singleton.1 hu
          obtain rfl : entries = [⟨7, "home", 0⟩, ⟨8, "home", 0⟩] := by
            simpa [World.start, Presence.of] using hentries
          exact hleft (by decide)
        · exact @of_lookup (fun u slot => u ∉ listed _ → slot.appliedSeq ≤ _) _ (by decide +kernel)
            u slot hslot hnot
    · by_cases hu : u = 7
      · subst hu
        rfl
      · simp [World.start, hu]
  · intro u
    simp only [List.mem_singleton, World.start, Finset.mem_erase, Finset.mem_insert,
      Finset.mem_singleton]
    omega

theorem refills_settle_two : ∃ h w, Runs (World.start {7, 8} fun _ => ⟨"home", 0⟩) h w ∧
    w.board.shown 7 = some ⟨7, "away", 5⟩ ∧ w.board.shown 8 = none := by
  obtain ⟨h, w, hrun, hkeeps, hfinished, hlast, hnewest⟩ := overlapping_refills
  have hshown := (refills_settle hrun).2.2.2 hkeeps hfinished _ hlast
  refine ⟨h, w, hrun, ?_, ?_⟩
  · rw [hshown 7, hnewest]
    decide
  · rw [hshown 8, if_neg (by decide)]

end Heartbeat

end ArgusBackend

import ArgusBackend.Guard.Effects
import ArgusBackend.Tamper.Policy

/-!
# The verdict of the guard

`guard_policy::evaluate` says how dangerous what a camera sees is, from what is known about the
persons, the place and the hour.  `Worse` compares two contexts; what a worse context can lower is
named by `Lowered`.

* `evaluate_mono` : a worse context has no lower verdict, but for what `Lowered` names;
* `verdict_ordered` : the same, and what the floor of an expected guest keeps.
-/

namespace ArgusBackend

namespace Guard

open Tamper (GuardMode)

instance : LinearOrder GuardDanger := LinearOrder.lift' guardDangerRank fun danger danger' => by
  cases danger <;> cases danger' <;> simp [guardDangerRank]

@[simp] theorem GuardDanger.none_le (danger : GuardDanger) : .none ≤ danger := by
  cases danger <;> decide

@[simp] theorem GuardDanger.le_critical (danger : GuardDanger) : danger ≤ .critical := by
  cases danger <;> decide

theorem GuardDanger.le_high {danger : GuardDanger} (h : danger ≠ .critical) : danger ≤ .high := by
  cases danger <;> first | decide | exact absurd rfl h

/-- What the policy knows of an observation. -/
structure GuardContext where
  mode : GuardMode := .home
  severity : String := ""
  hasKnown : Bool := false
  hasUnknown : Bool := false
  strangerCount : ℤ := 0
  accompaniedByResident : Bool := false
  accompaniedByGuest : Bool := false
  expectedGuest : Bool := false
  inAlertZone : Bool := false
  atNight : Bool := false
  escalated : Bool := false
  visitCount : ℤ := 0
  publicPresent : Bool := false
  staffOnly : Bool := false
  areaInUse : Bool := false
  passerby : Bool := false
  watchlist : Bool := false
  deriving DecidableEq

/-- Nobody is in charge of the house. -/
def GuardContext.unattended (context : GuardContext) : Bool :=
  context.mode = .away || context.mode = .armed

/-- The lower grade for an unknown person who comes with a resident or a guest. -/
def companionRelaxation (context : GuardContext) : GuardDanger :=
  if context.unattended then .none
  else if context.inAlertZone || context.atNight || context.escalated then .none
  else if context.accompaniedByResident then .low
  else if context.accompaniedByGuest then .medium
  else .none

/-- The floor that the mode and the place set: an alert zone puts its own in the place of that of
the mode. -/
def placeFloor (context : GuardContext) : GuardDanger :=
  let floor := if context.unattended then .critical else .none
  if context.inAlertZone then (if context.staffOnly then .high else .critical) else floor

/-- The grade that nothing lowers. -/
def hardFloor (context : GuardContext) : GuardDanger :=
  let floor := placeFloor context
  let floor := if context.mode = .night then max floor .high else floor
  let floor := if (context.atNight && !context.staffOnly) || context.escalated then max floor .high
    else floor
  let floor := if 2 ≤ context.strangerCount then max floor .high else floor
  if 3 ≤ context.visitCount then max floor .high else floor

/-- A guest who is expected lowers the grade. -/
def guestLowers (context : GuardContext) : Bool := context.expectedGuest && !context.unattended

/-- The verdict before the floors. -/
def softDanger (context : GuardContext) : GuardDanger :=
  let soft := if guestLowers context then .low else .medium
  let companion := companionRelaxation context
  if companion ≠ .none ∧ companion < soft then companion else soft

/-- The grade that a severity asks for. -/
def severityFloor (severity : String) : GuardDanger :=
  if severity = "critical" then .high else if severity = "warning" then .medium else .none

/-- `guard_policy::evaluate` -/
def evaluate (context : GuardContext) : GuardDanger :=
  if context.watchlist then
    if context.unattended || context.mode = .night then .critical else .high
  else if !context.hasUnknown then
    if context.hasKnown then .none else .low
  else if context.publicPresent || context.areaInUse then
    if context.inAlertZone then .medium else .low
  else if context.passerby then
    if 3 ≤ context.visitCount then .medium else .low
  else
    let danger := max (softDanger context) (hardFloor context)
    let danger := max danger (severityFloor context.severity)
    if guestLowers context then min danger .medium else danger

/-- The same observation without the guest. -/
def GuardContext.unguested (context : GuardContext) : GuardContext :=
  { context with expectedGuest := false }

/-- `guard_policy::guestFloor` -/
def guestFloor (context : GuardContext) : GuardDanger :=
  if !context.expectedGuest then .none
  else
    let floor := evaluate context.unguested
    if floor < .high ∨ floor ≤ evaluate context then .none else floor

/-! ### Worse contexts -/

/-- A severity raised to warning or critical, from another text, or to critical from warning. -/
def Raised (severity severity' : String) : Prop :=
  severity = severity' ∨ severity' = "critical" ∨ (severity' = "warning" ∧ severity ≠ "critical")

/-- The same context with more of what is dangerous. -/
structure Worse (c c' : GuardContext) : Prop where
  mode : c.mode = c'.mode
  hasKnown : c.hasKnown = c'.hasKnown
  hasUnknown : c.hasUnknown = c'.hasUnknown
  accompaniedByResident : c.accompaniedByResident = c'.accompaniedByResident
  accompaniedByGuest : c.accompaniedByGuest = c'.accompaniedByGuest
  expectedGuest : c.expectedGuest = c'.expectedGuest
  publicPresent : c.publicPresent = c'.publicPresent
  staffOnly : c.staffOnly = c'.staffOnly
  areaInUse : c.areaInUse = c'.areaInUse
  passerby : c.passerby = c'.passerby
  severity : Raised c.severity c'.severity
  strangerCount : c.strangerCount ≤ c'.strangerCount
  visitCount : c.visitCount ≤ c'.visitCount
  inAlertZone : c.inAlertZone ≤ c'.inAlertZone
  atNight : c.atNight ≤ c'.atNight
  escalated : c.escalated ≤ c'.escalated
  watchlist : c.watchlist ≤ c'.watchlist

/-- What a worse context lowers: a critical verdict at home when the person is on the watchlist, or
that of an unattended place when it is an alert zone in the hours of the staff. -/
def Lowered (c c' : GuardContext) : Prop :=
  evaluate c = .critical ∧
    ((c'.watchlist ∧ c'.mode = .home) ∨
      (¬c'.watchlist ∧ ¬c.inAlertZone ∧ c'.inAlertZone ∧ c'.staffOnly ∧ c'.unattended))

section Monotone

variable {c c' : GuardContext}

theorem Worse.unattended (h : Worse c c') : c.unattended = c'.unattended := by
  rw [GuardContext.unattended, h.mode, GuardContext.unattended]

theorem Worse.guestLowers (h : Worse c c') : guestLowers c = guestLowers c' := by
  rw [Guard.guestLowers, h.expectedGuest, h.unattended, Guard.guestLowers]

/-- A companion relaxes a worse context as much, or not at all. -/
theorem companionRelaxation_worse (h : Worse c c') :
    companionRelaxation c' = .none ∨ companionRelaxation c' = companionRelaxation c := by
  by_cases hraised : (c'.inAlertZone || c'.atNight || c'.escalated) = true
  · left
    rw [companionRelaxation, if_pos hraised, ite_self]
  · right
    have hbefore : ¬(c.inAlertZone || c.atNight || c.escalated) = true := by
      have hzone := h.inAlertZone
      have hnight := h.atNight
      have hescalated := h.escalated
      revert hraised hzone hnight hescalated
      cases c.inAlertZone <;> cases c.atNight <;> cases c.escalated <;>
        cases c'.inAlertZone <;> cases c'.atNight <;> cases c'.escalated <;> decide
    rw [companionRelaxation, companionRelaxation, if_neg hraised, if_neg hbefore, h.unattended,
      h.accompaniedByResident, h.accompaniedByGuest]

/-- What a companion leaves of the verdict is no higher than without. -/
theorem softDanger_le (c : GuardContext) :
    softDanger c ≤ if guestLowers c then .low else .medium := by
  unfold softDanger
  dsimp only
  generalize (if guestLowers c then GuardDanger.low else GuardDanger.medium) = soft
  split_ifs with hrelaxed
  · exact hrelaxed.2.le
  · exact le_rfl

theorem softDanger_mono (h : Worse c c') : softDanger c ≤ softDanger c' := by
  rcases companionRelaxation_worse h with hnone | hsame
  · refine (softDanger_le c).trans ?_
    simp [softDanger, hnone, h.guestLowers]
  · simp only [softDanger, hsame, h.guestLowers, le_refl]

theorem severityFloor_mono {severity severity' : String} (h : Raised severity severity') :
    severityFloor severity ≤ severityFloor severity' := by
  rcases h with rfl | rfl | ⟨rfl, hne⟩
  · exact le_rfl
  · have hhigh : severityFloor "critical" = .high := rfl
    rw [hhigh, severityFloor]
    split_ifs <;> decide
  · have hmedium : severityFloor "warning" = .medium := rfl
    rw [hmedium, severityFloor, if_neg hne]
    split_ifs <;> decide

theorem placeFloor_mono (h : Worse c c')
    (hplace : ¬(¬c.inAlertZone ∧ c'.inAlertZone ∧ c'.staffOnly ∧ c'.unattended)) :
    placeFloor c ≤ placeFloor c' := by
  have hzone := h.inAlertZone
  unfold placeFloor
  rw [h.staffOnly, h.unattended]
  revert hplace hzone
  cases c.inAlertZone <;> cases c'.inAlertZone <;> cases c'.staffOnly <;> cases c'.unattended <;>
    decide

/-- One more reason raises a floor to high. -/
theorem raise_mono {p p' : Prop} [Decidable p] [Decidable p'] {floor floor' : GuardDanger}
    (hp : p → p') (hfloor : floor ≤ floor') :
    (if p then max floor .high else floor) ≤ if p' then max floor' .high else floor' := by
  split_ifs with hthen hthen' hthen'
  · exact max_le_max_right _ hfloor
  · exact absurd (hp hthen) hthen'
  · exact hfloor.trans (le_max_left _ _)
  · exact hfloor

theorem hardFloor_mono (h : Worse c c')
    (hplace : ¬(¬c.inAlertZone ∧ c'.inAlertZone ∧ c'.staffOnly ∧ c'.unattended)) :
    hardFloor c ≤ hardFloor c' := by
  unfold hardFloor
  refine raise_mono (fun hvisits => hvisits.trans h.visitCount) ?_
  refine raise_mono (fun hstrangers => hstrangers.trans h.strangerCount) ?_
  refine raise_mono ?_ (raise_mono (fun hnight => h.mode ▸ hnight) (placeFloor_mono h hplace))
  have hnight := h.atNight
  have hescalated := h.escalated
  rw [h.staffOnly]
  revert hnight hescalated
  cases c.atNight <;> cases c'.atNight <;> cases c.escalated <;> cases c'.escalated <;>
    cases c'.staffOnly <;> decide

/-- The place of an attended alert zone or of an unattended one has a floor of its own, which a
stranger who is judged by it meets. -/
theorem critical_le_placeFloor (hzone : ¬c.inAlertZone) (haway : c.unattended) :
    .critical ≤ placeFloor c := by
  simp [placeFloor, hzone, haway]

theorem placeFloor_le_hardFloor (c : GuardContext) : placeFloor c ≤ hardFloor c := by
  have hraise {p : Prop} [Decidable p] (floor : GuardDanger) :
      floor ≤ if p then max floor .high else floor := by
    split_ifs
    · exact le_max_left _ _
    · exact le_rfl
  unfold hardFloor
  exact (hraise _).trans ((hraise _).trans ((hraise _).trans (hraise _)))

/-- The verdict on a stranger that neither the hours nor the way explain. -/
def stranger (context : GuardContext) : GuardDanger :=
  let danger := max (max (softDanger context) (hardFloor context))
    (severityFloor context.severity)
  if guestLowers context then min danger .medium else danger

theorem stranger_mono (h : Worse c c')
    (hplace : ¬(¬c.inAlertZone ∧ c'.inAlertZone ∧ c'.staffOnly ∧ c'.unattended)) :
    stranger c ≤ stranger c' := by
  have hdanger := max_le_max (max_le_max (softDanger_mono h) (hardFloor_mono h hplace))
    (severityFloor_mono h.severity)
  unfold stranger
  rw [h.guestLowers]
  split_ifs
  · exact min_le_min_right _ hdanger
  · exact hdanger

/-- An unattended place that is no alert zone has the highest verdict. -/
theorem stranger_unattended (hzone : ¬c.inAlertZone) (haway : c.unattended) :
    stranger c = .critical := by
  have hguest : ¬guestLowers c = true := by simp [guestLowers, haway]
  have hfloor := (critical_le_placeFloor hzone haway).trans (placeFloor_le_hardFloor c)
  rw [stranger, if_neg hguest]
  exact le_antisymm (GuardDanger.le_critical _)
    (le_max_of_le_left (le_max_of_le_right hfloor))

theorem evaluate_listed (hwatch : c.watchlist = true) :
    evaluate c = if c.unattended || c.mode = .night then .critical else .high := by
  rw [evaluate, if_pos hwatch]

theorem evaluate_nobody (hwatch : c.watchlist = false) (hunknown : c.hasUnknown = false) :
    evaluate c = if c.hasKnown then .none else .low := by
  simp [evaluate, hwatch, hunknown]

theorem evaluate_public (hwatch : c.watchlist = false) (hunknown : c.hasUnknown = true)
    (hpublic : (c.publicPresent || c.areaInUse) = true) :
    evaluate c = if c.inAlertZone then .medium else .low := by
  rw [evaluate, if_neg (by simp [hwatch]), if_neg (by simp [hunknown]), if_pos hpublic]

theorem evaluate_passerby (hwatch : c.watchlist = false) (hunknown : c.hasUnknown = true)
    (hpublic : (c.publicPresent || c.areaInUse) = false) (hpasserby : c.passerby = true) :
    evaluate c = if 3 ≤ c.visitCount then .medium else .low := by
  rw [evaluate, if_neg (by simp [hwatch]), if_neg (by simp [hunknown]), if_neg (by simp [hpublic]),
    if_pos hpasserby]

theorem evaluate_stranger (hwatch : c.watchlist = false) (hunknown : c.hasUnknown = true)
    (hpublic : (c.publicPresent || c.areaInUse) = false) (hpasserby : c.passerby = false) :
    evaluate c = stranger c := by
  rw [evaluate, if_neg (by simp [hwatch]), if_neg (by simp [hunknown]), if_neg (by simp [hpublic]),
    if_neg (by simp [hpasserby]), stranger]

/-- The verdict on whoever is not on the watchlist. -/
theorem evaluate_mono_unlisted (h : Worse c c') (hwatch : c.watchlist = false)
    (hwatch' : c'.watchlist = false) (hlowered : ¬Lowered c c') : evaluate c ≤ evaluate c' := by
  have hopen : (c.publicPresent || c.areaInUse) = (c'.publicPresent || c'.areaInUse) := by
    rw [h.publicPresent, h.areaInUse]
  cases hunknown : c'.hasUnknown with
  | false =>
    rw [evaluate_nobody hwatch (h.hasUnknown.trans hunknown), evaluate_nobody hwatch' hunknown,
      h.hasKnown]
  | true =>
    have hunknown' := h.hasUnknown.trans hunknown
    cases hpublic : (c'.publicPresent || c'.areaInUse) with
    | true =>
      rw [evaluate_public hwatch hunknown' (hopen.trans hpublic),
        evaluate_public hwatch' hunknown hpublic]
      have hzone := h.inAlertZone
      revert hzone
      cases c.inAlertZone <;> cases c'.inAlertZone <;> decide
    | false =>
      cases hpasserby : c'.passerby with
      | true =>
        rw [evaluate_passerby hwatch hunknown' (hopen.trans hpublic)
          (h.passerby.trans hpasserby), evaluate_passerby hwatch' hunknown hpublic hpasserby]
        split_ifs with hvisits hvisits'
        · exact le_rfl
        · exact absurd (hvisits.trans h.visitCount) hvisits'
        · decide
        · exact le_rfl
      | false =>
        have hbefore := evaluate_stranger hwatch hunknown' (hopen.trans hpublic)
          (h.passerby.trans hpasserby)
        rw [hbefore, evaluate_stranger hwatch' hunknown hpublic hpasserby]
        refine stranger_mono h fun hplace => hlowered ⟨?_, .inr ⟨by simp [hwatch'], hplace⟩⟩
        rw [hbefore]
        exact stranger_unattended hplace.1 (h.unattended ▸ hplace.2.2.2)

/-- A worse context has no lower verdict, but for what `Lowered` names. -/
theorem evaluate_mono (h : Worse c c') (hlowered : ¬Lowered c c') : evaluate c ≤ evaluate c' := by
  cases hwatch : c'.watchlist with
  | true =>
    rw [evaluate_listed hwatch]
    split_ifs with hguarded
    · exact GuardDanger.le_critical _
    · refine GuardDanger.le_high fun hcritical => hlowered ⟨hcritical, .inl ⟨hwatch, ?_⟩⟩
      revert hguarded
      unfold GuardContext.unattended
      cases c'.mode <;> decide
  | false =>
    have hbefore : c.watchlist = false := by
      have := h.watchlist
      rw [hwatch] at this
      exact Bool.eq_false_of_le_false this
    exact evaluate_mono_unlisted h hbefore hwatch hlowered

end Monotone

section Guests

variable {c : GuardContext}

/-- A companion relaxes a verdict to low at most. -/
theorem low_le_softDanger (c : GuardContext) : .low ≤ softDanger c := by
  have hlow {danger : GuardDanger} (hne : danger ≠ .none) : .low ≤ danger := by
    cases danger <;> first | decide | exact absurd rfl hne
  have hsoft : GuardDanger.low ≤ if guestLowers c then .low else .medium := by
    split_ifs <;> decide
  unfold softDanger
  dsimp only
  revert hsoft
  generalize (if guestLowers c then GuardDanger.low else GuardDanger.medium) = soft
  intro hsoft
  split_ifs with hrelaxed
  · exact hlow hrelaxed.1
  · exact hsoft

theorem low_le_stranger (c : GuardContext) : .low ≤ stranger c := by
  have hlow : .low ≤ max (max (softDanger c) (hardFloor c)) (severityFloor c.severity) :=
    le_max_of_le_left (le_max_of_le_left (low_le_softDanger c))
  unfold stranger
  dsimp only
  split_ifs
  · exact le_min hlow (by decide)
  · exact hlow

/-- An expected guest either changes nothing, or leaves a verdict. -/
theorem evaluate_unguested (c : GuardContext) :
    evaluate c = evaluate c.unguested ∨ .low ≤ evaluate c := by
  cases hwatch : c.watchlist with
  | true => exact .inl ((evaluate_listed hwatch).trans (evaluate_listed (c := c.unguested) hwatch).symm)
  | false =>
    cases hunknown : c.hasUnknown with
    | false =>
      exact .inl ((evaluate_nobody hwatch hunknown).trans
        (evaluate_nobody (c := c.unguested) hwatch hunknown).symm)
    | true =>
      right
      cases hpublic : (c.publicPresent || c.areaInUse) with
      | true =>
        rw [evaluate_public hwatch hunknown hpublic]
        split_ifs <;> decide
      | false =>
        cases hpasserby : c.passerby with
        | true =>
          rw [evaluate_passerby hwatch hunknown hpublic hpasserby]
          split_ifs <;> decide
        | false =>
          rw [evaluate_stranger hwatch hunknown hpublic hpasserby]
          exact low_le_stranger c

/-- What the floor of a guest keeps: a verdict from high on. -/
theorem guest_kept (c : GuardContext) (hguest : c.expectedGuest = true) :
    min .high (evaluate c.unguested) ≤ max (evaluate c) (guestFloor c) ∨
      (evaluate c.unguested = .medium ∧ max (evaluate c) (guestFloor c) = .low) := by
  have hfloor : guestFloor c =
      if evaluate c.unguested < .high ∨ evaluate c.unguested ≤ evaluate c then .none
      else evaluate c.unguested := by
    simp [guestFloor, hguest]
  have hrest := evaluate_unguested c
  rw [hfloor]
  revert hrest
  generalize evaluate c.unguested = without
  cases evaluate c <;> cases without <;> decide

/-- More danger never means a lower verdict, but for what `Lowered` names, and an expected guest
does not take a high verdict away. -/
theorem verdict_ordered :
    (∀ c c', Worse c c' → ¬Lowered c c' → evaluate c ≤ evaluate c') ∧
      ∀ c : GuardContext, c.expectedGuest = true →
        min .high (evaluate c.unguested) ≤ max (evaluate c) (guestFloor c) ∨
          (evaluate c.unguested = .medium ∧ max (evaluate c) (guestFloor c) = .low) :=
  ⟨fun _ _ h hlowered => evaluate_mono h hlowered, guest_kept⟩

/-- A stranger in an alert zone at home. -/
def trespasser : GuardContext := { hasUnknown := true, inAlertZone := true }

/-- A stranger in a shop that is away, in the hours of its staff. -/
def afterHours : GuardContext := { mode := .away, hasUnknown := true, staffOnly := true }

theorem verdict_ordered_escalated :
    evaluate trespasser ≤ evaluate { trespasser with escalated := true } :=
  verdict_ordered.1 _ _ (by constructor <;> first | exact .inl rfl | decide) (by
    rintro ⟨-, ⟨hwatch, -⟩ | ⟨-, hzone, -⟩⟩
    · exact absurd hwatch (by decide)
    · exact hzone rfl)

/-- Being on the watchlist lowers the verdict on the trespasser, the alert zone that on the shop, and
a guest that on a stranger at home. -/
theorem verdict_lowered :
    (Worse trespasser { trespasser with watchlist := true } ∧
      evaluate { trespasser with watchlist := true } < evaluate trespasser) ∧
    (Worse afterHours { afterHours with inAlertZone := true } ∧
      evaluate { afterHours with inAlertZone := true } < evaluate afterHours) ∧
    ∃ c : GuardContext, c.expectedGuest = true ∧
      max (evaluate c) (guestFloor c) < min .high (evaluate c.unguested) := by
  refine ⟨⟨by constructor <;> first | exact .inl rfl | decide, by decide⟩,
    ⟨by constructor <;> first | exact .inl rfl | decide, by decide⟩,
    ⟨{ hasUnknown := true, expectedGuest := true }, by decide, by decide⟩⟩

end Guests

end Guard

end ArgusBackend

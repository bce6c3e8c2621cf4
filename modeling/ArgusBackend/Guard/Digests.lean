import Mathlib.Algebra.Order.Ring.Int
import Mathlib.Data.List.Basic
import Mathlib.Tactic.SplitIfs

/-!
# Digests

Once a day, in the digest hour, an environment gets a digest of its episodes since the last one, and
once a day, in the hour in which the quiet hours end, one of the quiet hours.  The daily digest
leaves out what came before the end of the quiet hours when the other one was sent that day.

* `quietWindow`, `sendEnvironmentDigests` : the schedule;
* `QuietTold`, `DailyTold` : what the digests that were sent cover;
* `digests_meet` : when there is no gap between two daily digests.
-/

namespace ArgusBackend

namespace Guard

namespace Digests

/-- Where the quiet hours of an environment come from. -/
inductive QuietPolicy where
  | inherit | custom | off
  deriving DecidableEq

/-- When an environment has its digest and its quiet hours. -/
structure GuardEnvironment where
  digestHour : ℤ := 21
  quietPolicy : QuietPolicy := .inherit
  quietStartHour : ℤ := 22
  quietEndHour : ℤ := 7
  deriving DecidableEq

/-- The quiet hours of the house. -/
structure GuardConfig where
  quietHoursEnabled : Bool := false
  quietStartHour : ℤ := 22
  quietEndHour : ℤ := 7
  deriving DecidableEq

/-- The quiet hours. -/
structure QuietWindow where
  enabled : Bool
  startHour : ℤ
  endHour : ℤ
  deriving DecidableEq

/-- The quiet hours of an environment. -/
def quietWindow (environment : GuardEnvironment) (config : GuardConfig) : QuietWindow :=
  match environment.quietPolicy with
  | .off => ⟨false, 0, 0⟩
  | .custom => ⟨environment.quietStartHour ≠ environment.quietEndHour, environment.quietStartHour,
      environment.quietEndHour⟩
  | .inherit => ⟨config.quietHoursEnabled, config.quietStartHour, config.quietEndHour⟩

/-- A day in seconds. -/
def kDayS : ℤ := 86400

/-- How far back a digest goes at most. -/
def kDigestLookbackS : ℤ := 2 * kDayS

/-- The episodes of `DIGEST_WINDOW` are those after `from_`, until `to_`. -/
structure Digest where
  day : ℤ
  from_ : ℤ
  to_ : ℤ
  afterQuiet : Bool
  deriving DecidableEq

/-- The states under the keys of an environment; a day is a number, and none is a text that is no
day or no time. -/
structure DigestState where
  quietDay : Option ℤ := none
  dailyDay : Option ℤ := none
  dailyUntil : Option ℤ := none
  deriving DecidableEq

section Schedule

-- the environment with its window, the local time, and whether a digest is sent
variable (environment : GuardEnvironment) (window : QuietWindow) (offset : ℤ)
  (sendDigest : Digest → Bool)

/-- The local hour of a moment. -/
def tmHour (now : ℤ) : ℤ := (now + offset) % kDayS / 3600

/-- The number of the local day. -/
def today (now : ℤ) : ℤ := (now + offset) / kDayS

/-- The local midnight before a moment. -/
def midnight (now : ℤ) : ℤ := now - (now + offset) % kDayS

/-- The first half of `sendEnvironmentDigests`. -/
def sendQuietDigest (state : DigestState) (now : ℤ) : DigestState × List Digest :=
  if window.enabled = true ∧ tmHour offset now = window.endHour ∧
      window.startHour ≠ window.endHour ∧ state.quietDay ≠ some (today offset now) then
    let digest : Digest :=
      { day := today offset now
        from_ :=
          if window.startHour > window.endHour then
            midnight offset now - (24 - window.startHour) * 3600
          else midnight offset now + window.startHour * 3600
        to_ := now
        afterQuiet := true }
    if sendDigest digest then ({ state with quietDay := some (today offset now) }, [digest])
    else (state, [])
  else (state, [])

/-- The second half. -/
def sendDailyDigest (state : DigestState) (now : ℤ) : DigestState × List Digest :=
  if environment.digestHour < 0 ∨ tmHour offset now ≠ environment.digestHour ∨
      state.dailyDay = some (today offset now) then
    (state, [])
  else
    let start := state.dailyUntil.getD (now - kDayS)
    let start :=
      if window.enabled = true ∧ state.quietDay = some (today offset now) then
        max start (midnight offset now + window.endHour * 3600)
      else start
    let digest : Digest :=
      { day := today offset now
        from_ := max start (now - kDigestLookbackS)
        to_ := now
        afterQuiet := false }
    if sendDigest digest then
      ({ state with dailyDay := some (today offset now), dailyUntil := some now }, [digest])
    else (state, [])

/-- `sendEnvironmentDigests` -/
def sendEnvironmentDigests (state : DigestState) (now : ℤ) : DigestState × List Digest :=
  let (state, quiet) := sendQuietDigest window offset sendDigest state now
  let (state, daily) := sendDailyDigest environment window offset sendDigest state now
  (state, quiet ++ daily)

/-- Runs one after the other, and the digests that were sent. -/
def sweeps (r : DigestState × List Digest) (times : List ℤ) : DigestState × List Digest :=
  times.foldl (fun r now =>
    ((sendEnvironmentDigests environment window offset sendDigest r.1 now).1,
      r.2 ++ (sendEnvironmentDigests environment window offset sendDigest r.1 now).2)) r

end Schedule

/-! ### What the digests cover -/

section Coverage

variable (environment : GuardEnvironment) (window : QuietWindow) (offset : ℤ)

/-- The number of the local hour. -/
def hourOf (now : ℤ) : ℤ := (now + offset) / 3600

/-- Quiet hours are told of. -/
def QuietWindow.Told : Prop := window.enabled = true ∧ window.startHour ≠ window.endHour

/-- When the quiet hours that end on a day start. -/
def quietStart (day : ℤ) : ℤ :=
  86400 * day - offset +
    if window.startHour > window.endHour then (window.startHour - 24) * 3600
    else window.startHour * 3600

/-- The digests after quiet hours, of the runs between two hours. -/
structure QuietTold (first last : ℤ) (state : DigestState) (sent : List Digest) : Prop where
  day : ∀ q, state.quietDay = some q ↔ window.Told ∧ first ≤ 24 * q + window.endHour ∧
    24 * q + window.endHour ≤ last ∧ last < 24 * (q + 1) + window.endHour
  sound : ∀ d ∈ sent, d.afterQuiet = true → window.Told ∧
    ∃ q, hourOf offset d.to_ = 24 * q + window.endHour ∧ d.from_ = quietStart window offset q
  complete : window.Told → ∀ q, first ≤ 24 * q + window.endHour → 24 * q + window.endHour ≤ last →
    ∃ d ∈ sent, d.afterQuiet = true ∧ hourOf offset d.to_ = 24 * q + window.endHour

/-- The daily digests; each starts where the one of the day before has ended, or at the end of the
quiet hours. -/
structure DailyTold (first last : ℤ) (state : DigestState) (sent : List Digest) : Prop where
  day : ∀ q, state.dailyDay = some q ↔ first ≤ 24 * q + environment.digestHour ∧
    24 * q + environment.digestHour ≤ last ∧ last < 24 * (q + 1) + environment.digestHour
  ended : ∀ q, state.dailyDay = some q → ∃ d ∈ sent, d.afterQuiet = false ∧
    hourOf offset d.to_ = 24 * q + environment.digestHour ∧ state.dailyUntil = some d.to_
  sound : ∀ d ∈ sent, d.afterQuiet = false →
    ∃ q, hourOf offset d.to_ = 24 * q + environment.digestHour ∧
      first ≤ 24 * q + environment.digestHour ∧ 24 * q + environment.digestHour ≤ last ∧
      ∀ d' ∈ sent, d'.afterQuiet = false →
        hourOf offset d'.to_ = 24 * (q - 1) + environment.digestHour →
          (window.Told ∧ window.endHour ≤ environment.digestHour →
            d.from_ = 86400 * q - offset + window.endHour * 3600) ∧
          (¬(window.Told ∧ window.endHour ≤ environment.digestHour) → d.from_ = d'.to_)
  complete : ∀ q, first ≤ 24 * q + environment.digestHour →
    24 * q + environment.digestHour ≤ last →
      ∃ d ∈ sent, d.afterQuiet = false ∧ hourOf offset d.to_ = 24 * q + environment.digestHour
  unique : ∀ d ∈ sent, ∀ d' ∈ sent, d.afterQuiet = false → d'.afterQuiet = false →
    hourOf offset d.to_ = hourOf offset d'.to_ → d = d'

end Coverage

section Runs

variable {environment : GuardEnvironment} {window : QuietWindow} {offset : ℤ}
  {sendDigest : Digest → Bool} {first last now : ℤ} {state state' : DigestState}
  {sent more : List Digest}

theorem hourOf_eq (offset now : ℤ) :
    hourOf offset now = 24 * today offset now + tmHour offset now ∧ 0 ≤ tmHour offset now ∧
      tmHour offset now < 24 ∧ midnight offset now = 86400 * today offset now - offset := by
  unfold hourOf today tmHour midnight kDayS
  omega

theorem QuietTold.append (htold : QuietTold window offset first last state sent)
    (hday : state'.quietDay = state.quietDay) (hmore : ∀ d ∈ more, d.afterQuiet = false) :
    QuietTold window offset first last state' (sent ++ more) where
  day q := hday ▸ htold.day q
  sound d hd hquiet := by
    rcases List.mem_append.1 hd with hd | hd
    · exact htold.sound d hd hquiet
    · simp [hmore d hd] at hquiet
  complete hopen q hfirst hlast := by
    obtain ⟨d, hd, hrest⟩ := htold.complete hopen q hfirst hlast
    exact ⟨d, List.mem_append_left _ hd, hrest⟩

theorem DailyTold.append (htold : DailyTold environment window offset first last state sent)
    (hday : state'.dailyDay = state.dailyDay) (huntil : state'.dailyUntil = state.dailyUntil)
    (hmore : ∀ d ∈ more, d.afterQuiet = true) :
    DailyTold environment window offset first last state' (sent ++ more) := by
  have hold {d : Digest} (hd : d ∈ sent ++ more) (hdaily : d.afterQuiet = false) : d ∈ sent := by
    rcases List.mem_append.1 hd with hd | hd
    · exact hd
    · simp [hmore d hd] at hdaily
  refine ⟨fun q => hday ▸ htold.day q, fun q hq => ?_, fun d hd hdaily => ?_,
    fun q hfirst hlast => ?_, fun d hd d' hd' hdaily hdaily' =>
      htold.unique d (hold hd hdaily) d' (hold hd' hdaily') hdaily hdaily'⟩
  · obtain ⟨d, hd, hrest⟩ := htold.ended q (hday ▸ hq)
    exact ⟨d, List.mem_append_left _ hd, huntil ▸ hrest⟩
  · obtain ⟨q, hhour, hfirst, hlast, hfrom⟩ := htold.sound d (hold hd hdaily) hdaily
    exact ⟨q, hhour, hfirst, hlast, fun d' hd' hdaily' => hfrom d' (hold hd' hdaily') hdaily'⟩
  · obtain ⟨d, hd, hrest⟩ := htold.complete q hfirst hlast
    exact ⟨d, List.mem_append_left _ hd, hrest⟩

/-- The first half of a run, in the same hour or the next. -/
theorem QuietTold.step (hsent : ∀ d, sendDigest d = true)
    (hend : 0 ≤ window.endHour ∧ window.endHour < 24) (hfirst : first ≤ hourOf offset now)
    (hnext : hourOf offset now = last ∨ hourOf offset now = last + 1)
    (htold : QuietTold window offset first last state sent) :
    QuietTold window offset first (hourOf offset now)
      (sendQuietDigest window offset sendDigest state now).1
      (sent ++ (sendQuietDigest window offset sendDigest state now).2) := by
  obtain ⟨hhour, hnonneg, hlt, hmidnight⟩ := hourOf_eq offset now
  by_cases hdue : window.enabled = true ∧ tmHour offset now = window.endHour ∧
      window.startHour ≠ window.endHour ∧ state.quietDay ≠ some (today offset now)
  · obtain ⟨henabled, htm, hne, hday⟩ := hdue
    have hopen : window.Told := ⟨henabled, hne⟩
    simp only [sendQuietDigest, henabled, htm, ne_eq, hne, not_false_eq_true, hday, and_self,
      if_true, hsent]
    refine ⟨fun q => ?_, fun d hd hquiet => ?_, fun _ q hq hq' => ?_⟩
    · simp only [Option.some.injEq, hopen, true_and]
      omega
    · rcases List.mem_append.1 hd with hd | hd
      · exact htold.sound d hd hquiet
      · obtain rfl := List.mem_singleton.1 hd
        refine ⟨hopen, today offset now, by dsimp only; omega, ?_⟩
        dsimp only [quietStart]
        split_ifs <;> omega
    · by_cases hnew : q = today offset now
      · exact ⟨_, List.mem_append_right _ (List.mem_singleton_self _), rfl, by
          dsimp only
          omega⟩
      · obtain ⟨d, hd, hrest⟩ := htold.complete hopen q hq (by omega)
        exact ⟨d, List.mem_append_left _ hd, hrest⟩
  · have hsame : sendQuietDigest window offset sendDigest state now = (state, []) := if_neg hdue
    rw [hsame, List.append_nil]
    -- a quiet hour has not ended, or it was told of
    have hquiet (hopen : window.Told) :
        tmHour offset now ≠ window.endHour ∨ state.quietDay = some (today offset now) := by
      by_contra hcon
      rw [not_or, not_not] at hcon
      exact hdue ⟨hopen.1, hcon.1, hopen.2, hcon.2⟩
    have hlast (hopen : window.Told) (q : ℤ) :
        24 * q + window.endHour ≤ hourOf offset now ↔ 24 * q + window.endHour ≤ last := by
      rcases hquiet hopen with htm | hday
      · omega
      · have := (htold.day _).1 hday
        omega
    refine ⟨fun q => (htold.day q).trans (and_congr_right fun hopen => ?_), htold.sound,
      fun hopen q hq hq' => htold.complete hopen q hq ((hlast hopen q).1 hq')⟩
    have := hlast hopen q
    have := hlast hopen (q + 1)
    omega

/-- The second half. -/
theorem DailyTold.step (hsent : ∀ d, sendDigest d = true)
    (hend : 0 ≤ window.endHour ∧ window.endHour < 24)
    (hdigest : 0 ≤ environment.digestHour ∧ environment.digestHour < 24)
    (hfirst : first ≤ hourOf offset now)
    (hnext : hourOf offset now = last ∨ hourOf offset now = last + 1)
    (hquiet : QuietTold window offset first (hourOf offset now) state sent)
    (htold : DailyTold environment window offset first last state sent) :
    DailyTold environment window offset first (hourOf offset now)
      (sendDailyDigest environment window offset sendDigest state now).1
      (sent ++ (sendDailyDigest environment window offset sendDigest state now).2) := by
  obtain ⟨hhour, hnonneg, hlt, hmidnight⟩ := hourOf_eq offset now
  by_cases hskip : environment.digestHour < 0 ∨ tmHour offset now ≠ environment.digestHour ∨
      state.dailyDay = some (today offset now)
  · have hsame : sendDailyDigest environment window offset sendDigest state now = (state, []) :=
      if_pos hskip
    rw [hsame, List.append_nil]
    have hlast (q : ℤ) : 24 * q + environment.digestHour ≤ hourOf offset now ↔
        24 * q + environment.digestHour ≤ last := by
      rcases hskip with hneg | htm | hday
      · omega
      · omega
      · have := (htold.day _).1 hday
        omega
    refine ⟨fun q => (htold.day q).trans ?_, htold.ended, fun d hd hdaily => ?_,
      fun q hq hq' => htold.complete q hq ((hlast q).1 hq'), htold.unique⟩
    · have := hlast q
      have := hlast (q + 1)
      omega
    · obtain ⟨q, hq, hq', hq'', hfrom⟩ := htold.sound d hd hdaily
      exact ⟨q, hq, hq', (hlast q).2 hq'', hfrom⟩
  · simp only [sendDailyDigest, if_neg hskip, hsent, if_true]
    rw [not_or, not_or, not_not] at hskip
    obtain ⟨-, htm, hday⟩ := hskip
    -- no digest was sent in this hour
    have hbefore {d : Digest} (hd : d ∈ sent) (hdaily : d.afterQuiet = false) :
        ∃ q, hourOf offset d.to_ = 24 * q + environment.digestHour ∧ q < today offset now := by
      obtain ⟨q, hq, hq', hq'', -⟩ := htold.sound d hd hdaily
      refine ⟨q, hq, ?_⟩
      by_contra hge
      refine hday ((htold.day _).2 ?_)
      omega
    refine ⟨fun q => ?_, fun q hq => ?_, fun d hd hdaily => ?_, fun q hq hq' => ?_,
      fun d hd d' hd' hdaily hdaily' heq => ?_⟩
    · simp only [Option.some.injEq]
      omega
    · obtain rfl := Option.some.inj hq
      exact ⟨_, List.mem_append_right _ (List.mem_singleton_self _), rfl, by dsimp only; omega, rfl⟩
    · rcases List.mem_append.1 hd with hd | hd
      · obtain ⟨q, hq, hq', hq'', hfrom⟩ := htold.sound d hd hdaily
        refine ⟨q, hq, hq', by omega, fun d' hd' hdaily' hhour' => ?_⟩
        rcases List.mem_append.1 hd' with hd' | hd'
        · exact hfrom d' hd' hdaily' hhour'
        · obtain rfl := List.mem_singleton.1 hd'
          obtain ⟨q', hq', hlt'⟩ := hbefore hd hdaily
          dsimp only at hhour'
          omega
      · obtain rfl := List.mem_singleton.1 hd
        refine ⟨today offset now, by dsimp only; omega, by omega, by omega,
          fun d' hd' hdaily' hhour' => ?_⟩
        rcases List.mem_append.1 hd' with hd' | hd'
        · obtain ⟨q, hq, hq', hq'', -⟩ := htold.sound d' hd' hdaily'
          have hyesterday : state.dailyDay = some (today offset now - 1) := by
            refine (htold.day _).2 ⟨by omega, by omega, ?_⟩
            by_contra hge
            refine hday ((htold.day _).2 ?_)
            omega
          obtain ⟨d'', hd'', hdaily'', hhour'', huntil⟩ := htold.ended _ hyesterday
          obtain rfl := htold.unique d' hd' d'' hd'' hdaily' hdaily'' (hhour'.trans hhour''.symm)
          have htoday : (window.enabled = true ∧ state.quietDay = some (today offset now)) ↔
              window.Told ∧ window.endHour ≤ environment.digestHour := by
            rw [hquiet.day]
            refine ⟨fun h => ⟨h.2.1, by omega⟩, fun h => ⟨h.1.1, h.1, by omega⟩⟩
          simp only [huntil, Option.getD_some, kDigestLookbackS, kDayS]
          unfold hourOf at hhour hhour'
          refine ⟨fun htold => ?_, fun htold => ?_⟩
          · rw [if_pos (htoday.2 htold)]
            omega
          · rw [if_neg (mt htoday.1 htold)]
            omega
        · obtain rfl := List.mem_singleton.1 hd'
          dsimp only at hhour'
          omega
    · by_cases hnew : q = today offset now
      · exact ⟨_, List.mem_append_right _ (List.mem_singleton_self _), rfl, by
          dsimp only
          omega⟩
      · obtain ⟨d, hd, hrest⟩ := htold.complete q hq (by omega)
        exact ⟨d, List.mem_append_left _ hd, hrest⟩
    · rcases List.mem_append.1 hd with hd | hd <;> rcases List.mem_append.1 hd' with hd' | hd'
      · exact htold.unique d hd d' hd' hdaily hdaily' heq
      · obtain rfl := List.mem_singleton.1 hd'
        obtain ⟨q, hq, hlt'⟩ := hbefore hd hdaily
        dsimp only at heq
        omega
      · obtain rfl := List.mem_singleton.1 hd
        obtain ⟨q, hq, hlt'⟩ := hbefore hd' hdaily'
        dsimp only at heq
        omega
      · rw [List.mem_singleton.1 hd, List.mem_singleton.1 hd']

/-! ### Runs -/

theorem sendQuietDigest_daily (window : QuietWindow) (offset : ℤ) (sendDigest : Digest → Bool)
    (state : DigestState) (now : ℤ) :
    (sendQuietDigest window offset sendDigest state now).1.dailyDay = state.dailyDay ∧
      (sendQuietDigest window offset sendDigest state now).1.dailyUntil = state.dailyUntil ∧
      ∀ d ∈ (sendQuietDigest window offset sendDigest state now).2, d.afterQuiet = true := by
  unfold sendQuietDigest
  dsimp only
  split_ifs <;> simp

theorem sendDailyDigest_quiet (environment : GuardEnvironment) (window : QuietWindow) (offset : ℤ)
    (sendDigest : Digest → Bool) (state : DigestState) (now : ℤ) :
    (sendDailyDigest environment window offset sendDigest state now).1.quietDay = state.quietDay ∧
      ∀ d ∈ (sendDailyDigest environment window offset sendDigest state now).2,
        d.afterQuiet = false := by
  unfold sendDailyDigest
  dsimp only
  split_ifs <;> simp

/-- Each run comes in the hour of the one before it or in the next. -/
def Steady (offset : ℤ) : ℤ → List ℤ → Prop
  | _, [] => True
  | last, now :: times =>
    (hourOf offset now = last ∨ hourOf offset now = last + 1) ∧ Steady offset (hourOf offset now) times

theorem told_sweeps (hsent : ∀ d, sendDigest d = true)
    (hend : 0 ≤ window.endHour ∧ window.endHour < 24)
    (hdigest : 0 ≤ environment.digestHour ∧ environment.digestHour < 24) {times : List ℤ}
    {r : DigestState × List Digest} (hsteady : Steady offset last times)
    (hfirst : ∀ now ∈ times, first ≤ hourOf offset now)
    (hquiet : QuietTold window offset first last r.1 r.2)
    (hdaily : DailyTold environment window offset first last r.1 r.2) :
    ∃ last', QuietTold window offset first last'
        (sweeps environment window offset sendDigest r times).1
        (sweeps environment window offset sendDigest r times).2 ∧
      DailyTold environment window offset first last'
        (sweeps environment window offset sendDigest r times).1
        (sweeps environment window offset sendDigest r times).2 := by
  induction times generalizing last r with
  | nil => exact ⟨last, hquiet, hdaily⟩
  | cons now times ih =>
    obtain ⟨hnext, hsteady⟩ := hsteady
    rw [List.forall_mem_cons] at hfirst
    obtain ⟨hday, huntil, hmore⟩ := sendQuietDigest_daily window offset sendDigest r.1 now
    have hquiet' := hquiet.step hsent hend hfirst.1 hnext
    have hdaily' := (hdaily.append hday huntil hmore).step hsent hend hdigest hfirst.1 hnext hquiet'
    obtain ⟨hday', hmore'⟩ := sendDailyDigest_quiet environment window offset sendDigest
      (sendQuietDigest window offset sendDigest r.1 now).1 now
    have hquiet'' := hquiet'.append hday' hmore'
    rw [List.append_assoc] at hdaily' hquiet''
    exact ih hsteady hfirst.2 hquiet'' hdaily'

theorem hourOf_mono (offset : ℤ) {now now' : ℤ} (hle : now ≤ now') :
    hourOf offset now ≤ hourOf offset now' := by
  unfold hourOf
  omega

/-- There is a run in every hour between two runs. -/
def Hourly (offset : ℤ) (times : List ℤ) : Prop :=
  ∀ now ∈ times, ∀ now' ∈ times, ∀ hour, hourOf offset now ≤ hour → hour ≤ hourOf offset now' →
    ∃ now'' ∈ times, hourOf offset now'' = hour

theorem steady_of_hourly {times : List ℤ} (hsorted : (now :: times).Pairwise (· ≤ ·))
    (hhourly : Hourly offset (now :: times)) : Steady offset (hourOf offset now) times := by
  induction times generalizing now with
  | nil => trivial
  | cons now' times ih =>
    obtain ⟨hle, hsorted'⟩ := List.pairwise_cons.1 hsorted
    have hnow := hourOf_mono offset (hle now' List.mem_cons_self)
    refine ⟨?_, ih hsorted' fun a ha b hb hour hge hlt => ?_⟩
    · by_contra hgap
      obtain ⟨now'', hmem, hhour⟩ := hhourly now List.mem_cons_self now'
        (List.mem_cons_of_mem _ List.mem_cons_self) (hourOf offset now + 1) (by omega) (by omega)
      rcases List.mem_cons.1 hmem with rfl | hmem
      · omega
      · rcases List.mem_cons.1 hmem with rfl | hmem
        · omega
        · have := hourOf_mono offset ((List.pairwise_cons.1 hsorted').1 now'' hmem)
          omega
    · obtain ⟨now'', hmem, hhour⟩ := hhourly a (List.mem_cons_of_mem _ ha) b
        (List.mem_cons_of_mem _ hb) hour hge hlt
      rcases List.mem_cons.1 hmem with rfl | hmem
      · have := hourOf_mono offset (hle a ha)
        exact ⟨a, ha, by omega⟩
      · exact ⟨now'', hmem, hhour⟩

/-- The windows that leave no gap: nothing is told of the quiet hours, the digest hour lies before
their end, or they start after their end and no later than the digest hour. -/
def QuietWindow.Meets (window : QuietWindow) (digestHour : ℤ) : Prop :=
  window.enabled = false ∨ window.startHour = window.endHour ∨ digestHour < window.endHour ∨
    (window.endHour < window.startHour ∧ window.startHour ≤ digestHour)

/-- Two daily digests that come one after the other. -/
structure Successive (sent : List Digest) (daily daily' : Digest) : Prop where
  mem : daily ∈ sent ∧ daily.afterQuiet = false
  mem' : daily' ∈ sent ∧ daily'.afterQuiet = false
  lt : daily.to_ < daily'.to_
  next : ∀ d ∈ sent, d.afterQuiet = false → daily.to_ < d.to_ → daily'.to_ ≤ d.to_

/-- Every instant after one daily digest until the next is in a digest sent in that time. -/
def Covered (sent : List Digest) (daily daily' : Digest) : Prop :=
  ∀ instant, daily.to_ < instant → instant ≤ daily'.to_ →
    ∃ d ∈ sent, daily.to_ < d.to_ ∧ d.to_ ≤ daily'.to_ ∧ d.from_ < instant ∧ instant ≤ d.to_

theorem covered_iff (hstart : 0 ≤ window.startHour ∧ window.startHour < 24)
    (hend : 0 ≤ window.endHour ∧ window.endHour < 24)
    (hdigest : 0 ≤ environment.digestHour ∧ environment.digestHour < 24)
    (hquiet : QuietTold window offset first last state sent)
    (hdaily : DailyTold environment window offset first last state sent) {daily daily' : Digest}
    (hnext : Successive sent daily daily') :
    Covered sent daily daily' ↔ window.Meets environment.digestHour := by
  obtain ⟨q, hhour, hfirst, hlast, -⟩ := hdaily.sound daily hnext.mem.1 hnext.mem.2
  obtain ⟨q', hhour', hfirst', hlast', hfrom⟩ := hdaily.sound daily' hnext.mem'.1 hnext.mem'.2
  have hlt := hnext.lt
  -- the next daily digest is the one of the next day
  obtain rfl : q' = q + 1 := by
    have hne : q' ≠ q := fun heq => by
      have := hdaily.unique _ hnext.mem.1 _ hnext.mem'.1 hnext.mem.2 hnext.mem'.2
        (by rw [hhour, hhour', heq])
      rw [this] at hlt
      exact lt_irrefl _ hlt
    have hle := hourOf_mono offset hlt.le
    by_contra hne'
    obtain ⟨d, hd, hkind, hbetween⟩ := hdaily.complete (q + 1) (by omega) (by omega)
    have := hnext.next d hd hkind (by unfold hourOf at hhour hbetween; omega)
    have := hourOf_mono offset this
    omega
  obtain ⟨hfromEnd, hfromLast⟩ := hfrom daily hnext.mem.1 hnext.mem.2 (by omega)
  unfold hourOf at hhour hhour'
  by_cases htold : window.Told ∧ window.endHour ≤ environment.digestHour
  · have hfrom := hfromEnd htold
    obtain ⟨⟨henabled, hne⟩, hle⟩ := htold
    have hmeets : window.Meets environment.digestHour ↔
        window.endHour < window.startHour ∧ window.startHour ≤ environment.digestHour := by
      unfold QuietWindow.Meets
      rw [henabled]
      simp only [Bool.true_eq_false, false_or]
      omega
    rw [hmeets]
    constructor
    · intro hcovered
      by_contra hgap
      -- the start of the quiet hours is in no digest
      obtain ⟨d, hd, hafter, hbefore, hin, hin'⟩ := hcovered (quietStart window offset (q + 1))
        (by unfold quietStart; split_ifs <;> omega) (by unfold quietStart; split_ifs <;> omega)
      cases hkind : d.afterQuiet with
      | true =>
        obtain ⟨-, q'', hhour'', hfrom''⟩ := hquiet.sound d hd hkind
        rw [hfrom''] at hin
        unfold hourOf at hhour''
        unfold quietStart at hin hin'
        split_ifs at hin hin' <;> omega
      | false =>
        have hsame : d.to_ = daily'.to_ := le_antisymm hbefore (hnext.next d hd hkind hafter)
        obtain rfl := hdaily.unique d hd daily' hnext.mem'.1 hkind hnext.mem'.2 (by rw [hsame])
        unfold quietStart at hin
        split_ifs at hin <;> omega
    · intro hmeets instant hinstant hinstant'
      obtain ⟨d, hd, hkind, hhour''⟩ := hquiet.complete ⟨henabled, hne⟩ (q + 1) (by omega) (by omega)
      obtain ⟨-, q'', hday, hfrom''⟩ := hquiet.sound d hd hkind
      obtain rfl : q'' = q + 1 := by omega
      unfold hourOf at hhour''
      by_cases hquietly : instant ≤ d.to_
      · refine ⟨d, hd, by omega, by omega, ?_, hquietly⟩
        rw [hfrom'']
        unfold quietStart
        rw [if_pos (by omega)]
        omega
      · exact ⟨daily', hnext.mem'.1, hlt, le_rfl, by omega, hinstant'⟩
  · have hfrom := hfromLast htold
    refine iff_of_true (fun instant hinstant hinstant' =>
      ⟨daily', hnext.mem'.1, hlt, le_rfl, by omega, hinstant'⟩) ?_
    by_contra hgap
    unfold QuietWindow.Meets at hgap
    refine htold ⟨⟨?_, ?_⟩, ?_⟩
    · simpa using fun h => hgap (.inl h)
    · exact fun h => hgap (.inr (.inl h))
    · by_contra hlt
      exact hgap (.inr (.inr (.inl (not_le.1 hlt))))

/-- No run has come before the first hour. -/
theorem quietTold_start (window : QuietWindow) (offset first : ℤ) :
    QuietTold window offset first (first - 1) {} [] where
  day q := iff_of_false (by simp) (by omega)
  sound := by simp
  complete _ q hq hq' := by omega

theorem dailyTold_start (environment : GuardEnvironment) (window : QuietWindow)
    (offset first : ℤ) : DailyTold environment window offset first (first - 1) {} [] where
  day q := iff_of_false (by simp) (by omega)
  ended := by simp
  sound := by simp
  complete q hq hq' := by omega
  unique := by simp

/-- Hours of a day. -/
def Hours (start stop : ℤ) : Prop := (0 ≤ start ∧ start < 24) ∧ 0 ≤ stop ∧ stop < 24

theorem hours_quietWindow {config : GuardConfig}
    (henvironment : Hours environment.quietStartHour environment.quietEndHour)
    (hconfig : Hours config.quietStartHour config.quietEndHour) :
    Hours (quietWindow environment config).startHour (quietWindow environment config).endHour := by
  unfold quietWindow
  split
  · exact ⟨⟨le_rfl, by decide⟩, le_rfl, by decide⟩
  · exact henvironment
  · exact hconfig

/-- When there is a run in every hour and every digest is sent, two successive daily digests leave no
gap exactly if the quiet hours and the digest hour of the environment meet. -/
theorem digests_meet {config : GuardConfig} {times : List ℤ} {daily daily' : Digest}
    (hdigest : 0 ≤ environment.digestHour ∧ environment.digestHour < 24)
    (henvironment : Hours environment.quietStartHour environment.quietEndHour)
    (hconfig : Hours config.quietStartHour config.quietEndHour)
    (hsent : ∀ d, sendDigest d = true) (hsorted : times.Pairwise (· ≤ ·))
    (hhourly : Hourly offset times)
    (hnext : Successive (sweeps environment (quietWindow environment config) offset sendDigest
      ({}, []) times).2 daily daily') :
    Covered (sweeps environment (quietWindow environment config) offset sendDigest
      ({}, []) times).2 daily daily' ↔
        (quietWindow environment config).Meets environment.digestHour := by
  obtain ⟨hstart, hend⟩ := hours_quietWindow henvironment hconfig
  cases times with
  | nil => exact absurd hnext.mem.1 List.not_mem_nil
  | cons now times =>
    have hfirst : ∀ now' ∈ now :: times, hourOf offset now ≤ hourOf offset now' := by
      rw [List.forall_mem_cons]
      exact ⟨le_rfl, fun now' hmem => hourOf_mono offset ((List.pairwise_cons.1 hsorted).1 now' hmem)⟩
    have hsteady : Steady offset (hourOf offset now - 1) (now :: times) :=
      ⟨.inr (by omega), steady_of_hourly hsorted hhourly⟩
    have hquiet := quietTold_start (quietWindow environment config) offset (hourOf offset now)
    have hdaily := dailyTold_start environment (quietWindow environment config) offset
      (hourOf offset now)
    obtain ⟨last, hquiet, hdaily⟩ := told_sweeps (r := ({}, [])) hsent hend hdigest hsteady hfirst
      hquiet hdaily
    exact covered_iff hstart hend hdigest hquiet hdaily hnext

/-- Runs on the hour. -/
def hours (n : ℕ) : List ℤ := (List.range n).map fun k : ℕ => 3600 * (k : ℤ)

theorem hourly_hours (n : ℕ) : Hourly 0 (hours n) := by
  intro now hnow now' hnow' hour hge hle
  obtain ⟨k, -, rfl⟩ := List.mem_map.1 hnow
  obtain ⟨k', hk', rfl⟩ := List.mem_map.1 hnow'
  rw [List.mem_range] at hk'
  unfold hourOf at hge hle
  refine ⟨3600 * hour, List.mem_map.2 ⟨hour.toNat, List.mem_range.2 (by omega), by omega⟩, ?_⟩
  unfold hourOf
  omega

/-- The digest hour lies in the quiet hours. -/
theorem digests_meet_early : Covered (sweeps { digestHour := 5 }
    (quietWindow { digestHour := 5 } { quietHoursEnabled := true }) 0 (fun _ => true) ({}, [])
      (hours 30)).2 ⟨0, -68400, 18000, false⟩ ⟨1, 18000, 104400, false⟩ := by
  have hsent : (sweeps { digestHour := 5 }
      (quietWindow { digestHour := 5 } { quietHoursEnabled := true }) 0 (fun _ => true) ({}, [])
        (hours 30)).2 = [⟨0, -68400, 18000, false⟩, ⟨0, -7200, 25200, true⟩,
          ⟨1, 18000, 104400, false⟩] := by
    decide +kernel
  refine (digests_meet (by decide) ⟨by decide, by decide⟩ ⟨by decide, by decide⟩ (fun _ => rfl)
    (by decide +kernel) (hourly_hours 30) ?_).2 (.inr (.inr (.inl (by decide))))
  rw [hsent]
  exact ⟨by decide, by decide, by decide, by decide⟩

/-- With the hours that are set when nobody chooses others, what happens in the hour of the daily
digest after it is in no digest. -/
theorem evening_gap : Successive (sweeps {} (quietWindow {} { quietHoursEnabled := true }) 0
      (fun _ => true) ({}, []) (hours 46)).2 ⟨0, 25200, 75600, false⟩ ⟨1, 111600, 162000, false⟩ ∧
    ¬Covered (sweeps {} (quietWindow {} { quietHoursEnabled := true }) 0 (fun _ => true) ({}, [])
      (hours 46)).2 ⟨0, 25200, 75600, false⟩ ⟨1, 111600, 162000, false⟩ := by
  have hsent : (sweeps {} (quietWindow {} { quietHoursEnabled := true }) 0 (fun _ => true) ({}, [])
      (hours 46)).2 = [⟨0, -7200, 25200, true⟩, ⟨0, 25200, 75600, false⟩,
        ⟨1, 79200, 111600, true⟩, ⟨1, 111600, 162000, false⟩] := by
    decide +kernel
  rw [hsent]
  refine ⟨⟨by decide, by decide, by decide, by decide⟩, fun hcovered => ?_⟩
  obtain ⟨d, hd, hafter, -, hin, hin'⟩ := hcovered 77400 (by decide) (by decide)
  simp only [List.mem_cons, List.not_mem_nil, or_false] at hd
  rcases hd with rfl | rfl | rfl | rfl <;> simp at hafter hin hin'

end Runs

end Digests

end Guard

end ArgusBackend

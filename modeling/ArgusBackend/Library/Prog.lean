import Mathlib.Data.List.Basic

/-!
# Programs that call back

A callback program changes a state and leaves notes about what it did.  It may run out of fuel,
since a callback can start the program that called it again; such a run has no result.

* `Prog` is the monad of these programs, with `loop` for their loops;
* `Prog.wp ok c Q h s` : from the state `s`, with the notes `h` left before, every result of `c`
  whose notes all meet `ok` is in `Q`;
* the `wp` lemmas say what each construct needs, `Prog.wp_loop` being the rule of invariants;
* `Prog.yields c Q h s` : `c` has a result, and it is in `Q`;
* `Prog.Keeps ok J c` : `c` keeps `J`.
-/

namespace ArgusBackend

variable {σ ν α β : Type}

/-- A program on the states `σ`, leaving notes of type `ν`. -/
def Prog (σ ν α : Type) := σ → Option (α × σ × List ν)

namespace Prog

instance : Monad (Prog σ ν) where
  pure a := fun s => some (a, s, [])
  bind c f := fun s =>
    (c s).bind fun (a, s', notes) =>
      (f a s').map fun (b, s'', notes') => (b, s'', notes ++ notes')

/-- The state. -/
def get : Prog σ ν σ := fun s => some (s, s, [])

/-- The state is changed. -/
def modify (f : σ → σ) : Prog σ ν Unit := fun s => some ((), f s, [])

/-- Leave a note. -/
def note (n : ν) : Prog σ ν Unit := fun s => some ((), s, [n])

/-- Out of fuel. -/
def stuck : Prog σ ν α := fun _ => none

/-- Run the body until it answers `false`, at most `fuel` times. -/
def loop : ℕ → Prog σ ν Bool → Prog σ ν Unit
  | 0, _ => stuck
  | fuel + 1, body => do
    if ← body then loop fuel body else pure ()

/-- Run `f` on each element, from the left. -/
def each (f : α → Prog σ ν Unit) : List α → Prog σ ν Unit
  | [] => pure ()
  | a :: rest => do
    f a
    each f rest

/-- Run `c` if the condition holds. -/
def when (p : Prop) [Decidable p] (c : Prog σ ν Unit) : Prog σ ν Unit :=
  if p then c else pure ()

/-! ### What a program needs -/

variable {ok : ν → Prop} {h : List ν} {s : σ}

/-- Every result of `c` from `s`, after the notes `h`, whose own notes meet `ok` is in `Q`. -/
def wp (ok : ν → Prop) (c : Prog σ ν α) (Q : α → List ν → σ → Prop) (h : List ν) (s : σ) : Prop :=
  ∀ a s' notes, c s = some (a, s', notes) → (∀ n ∈ notes, ok n) → Q a (h ++ notes) s'

theorem wp_mono {c : Prog σ ν α} {Q Q' : α → List ν → σ → Prop} (hc : wp ok c Q h s)
    (hQ : ∀ a h' s', Q a h' s' → Q' a h' s') : wp ok c Q' h s :=
  fun a s' notes hrun hok => hQ a _ s' (hc a s' notes hrun hok)

theorem wp_and {c : Prog σ ν α} {Q Q' : α → List ν → σ → Prop} (hc : wp ok c Q h s)
    (hc' : wp ok c Q' h s) : wp ok c (fun a h s => Q a h s ∧ Q' a h s) h s :=
  fun a s' notes hrun hok => ⟨hc a s' notes hrun hok, hc' a s' notes hrun hok⟩

@[simp] theorem wp_pure {a : α} {Q : α → List ν → σ → Prop} :
    wp ok (pure a) Q h s ↔ Q a h s := by
  constructor
  · intro hc
    simpa using hc a s [] rfl (by simp)
  · rintro hQ a' s' notes hrun -
    obtain ⟨rfl, rfl, rfl⟩ : a = a' ∧ s = s' ∧ [] = notes := by simpa [pure] using hrun
    simpa using hQ

@[simp] theorem wp_get {Q : σ → List ν → σ → Prop} : wp ok get Q h s ↔ Q s h s := by
  constructor
  · intro hc
    simpa using hc s s [] rfl (by simp)
  · rintro hQ a' s' notes hrun -
    obtain ⟨rfl, rfl, rfl⟩ : s = a' ∧ s = s' ∧ [] = notes := by simpa [get] using hrun
    simpa using hQ

@[simp] theorem wp_modify {f : σ → σ} {Q : Unit → List ν → σ → Prop} :
    wp ok (modify f) Q h s ↔ Q () h (f s) := by
  constructor
  · intro hc
    simpa using hc () (f s) [] rfl (by simp)
  · rintro hQ a' s' notes hrun -
    obtain ⟨rfl, rfl⟩ : f s = s' ∧ [] = notes := by simpa [modify] using hrun
    simpa using hQ

@[simp] theorem wp_note {n : ν} {Q : Unit → List ν → σ → Prop} :
    wp ok (note n) Q h s ↔ (ok n → Q () (h ++ [n]) s) := by
  constructor
  · intro hc hn
    exact hc () s [n] rfl (by simpa using hn)
  · rintro hQ a' s' notes hrun hok
    obtain ⟨rfl, rfl⟩ : s = s' ∧ [n] = notes := by simpa [note] using hrun
    exact hQ (hok n (by simp))

@[simp] theorem wp_stuck {Q : α → List ν → σ → Prop} : wp ok stuck Q h s :=
  fun _ _ _ hrun => by cases hrun

@[simp] theorem wp_bind {c : Prog σ ν α} {f : α → Prog σ ν β} {Q : β → List ν → σ → Prop} :
    wp ok (c >>= f) Q h s ↔ wp ok c (fun a h s => wp ok (f a) Q h s) h s := by
  constructor
  · intro hc a s' notes hrun hok b s'' notes' hrun' hok'
    rw [List.append_assoc]
    refine hc b s'' (notes ++ notes') (by simp [bind, hrun, hrun']) fun n hn => ?_
    exact (List.mem_append.1 hn).elim (hok n) (hok' n)
  · intro hc b s'' notes hrun hok
    simp only [bind, Option.bind_eq_some_iff, Option.map_eq_some_iff] at hrun
    obtain ⟨⟨a, s', first⟩, hfirst, ⟨b', s₂, second⟩, hsecond, heq⟩ := hrun
    obtain ⟨rfl, rfl, rfl⟩ : b' = b ∧ s₂ = s'' ∧ first ++ second = notes := by simpa using heq
    rw [← List.append_assoc]
    exact hc a s' first hfirst (fun n hn => hok n (List.mem_append_left _ hn)) b' s₂ second hsecond
      fun n hn => hok n (List.mem_append_right _ hn)

theorem wp_ite {p : Prop} [Decidable p] {c c' : Prog σ ν α} {Q : α → List ν → σ → Prop} :
    wp ok (if p then c else c') Q h s ↔ (p → wp ok c Q h s) ∧ (¬p → wp ok c' Q h s) := by
  split <;> simp [*]

theorem wp_when {p : Prop} [Decidable p] {c : Prog σ ν Unit} {Q : Unit → List ν → σ → Prop} :
    wp ok (when p c) Q h s ↔ (p → wp ok c Q h s) ∧ (¬p → Q () h s) := by
  rw [when, wp_ite, wp_pure]

/-- **The rule of invariants** for a loop. -/
theorem wp_loop {fuel : ℕ} {body : Prog σ ν Bool} {I : List ν → σ → Prop}
    {Q : Unit → List ν → σ → Prop}
    (hbody : ∀ h s, I h s → wp ok body (fun again h s => if again then I h s else Q () h s) h s)
    (hI : I h s) : wp ok (loop fuel body) Q h s := by
  induction fuel generalizing h s with
  | zero => exact wp_stuck
  | succ fuel ih =>
    rw [loop, wp_bind]
    refine wp_mono (hbody h s hI) fun again h' s' hagain => ?_
    cases again with
    | true => exact ih hagain
    | false => exact wp_pure.2 hagain

/-- The rule of invariants for a run over a list. -/
theorem wp_each {f : α → Prog σ ν Unit} {l : List α} {I : List ν → σ → Prop}
    (hf : ∀ a ∈ l, ∀ h s, I h s → wp ok (f a) (fun _ => I) h s) (hI : I h s) :
    wp ok (each f l) (fun _ => I) h s := by
  induction l generalizing h s with
  | nil => exact wp_pure.2 hI
  | cons a rest ih =>
    rw [each, wp_bind]
    refine wp_mono (hf a (by simp) h s hI) fun _ h' s' hI' => ?_
    exact ih (fun b hb => hf b (List.mem_cons_of_mem _ hb)) hI'

/-! ### Programs that have a result -/

/-- `c` has a result from `s`, and after the notes `h` it is in `Q`. -/
def yields (c : Prog σ ν α) (Q : α → List ν → σ → Prop) (h : List ν) (s : σ) : Prop :=
  ∃ a s' notes, c s = some (a, s', notes) ∧ Q a (h ++ notes) s'

theorem yields_mono {c : Prog σ ν α} {Q Q' : α → List ν → σ → Prop} (hc : yields c Q h s)
    (hQ : ∀ a h' s', Q a h' s' → Q' a h' s') : yields c Q' h s := by
  obtain ⟨a, s', notes, hrun, hQa⟩ := hc
  exact ⟨a, s', notes, hrun, hQ a _ s' hQa⟩

@[simp] theorem yields_pure {a : α} {Q : α → List ν → σ → Prop} :
    yields (pure a) Q h s ↔ Q a h s := by
  constructor
  · rintro ⟨a', s', notes, hrun, hQ⟩
    obtain ⟨rfl, rfl, rfl⟩ : a = a' ∧ s = s' ∧ [] = notes := by simpa [pure] using hrun
    simpa using hQ
  · exact fun hQ => ⟨a, s, [], rfl, by simpa using hQ⟩

@[simp] theorem yields_get {Q : σ → List ν → σ → Prop} : yields get Q h s ↔ Q s h s := by
  constructor
  · rintro ⟨a', s', notes, hrun, hQ⟩
    obtain ⟨rfl, rfl, rfl⟩ : s = a' ∧ s = s' ∧ [] = notes := by simpa [get] using hrun
    simpa using hQ
  · exact fun hQ => ⟨s, s, [], rfl, by simpa using hQ⟩

@[simp] theorem yields_modify {f : σ → σ} {Q : Unit → List ν → σ → Prop} :
    yields (modify f) Q h s ↔ Q () h (f s) := by
  constructor
  · rintro ⟨a', s', notes, hrun, hQ⟩
    obtain ⟨rfl, rfl⟩ : f s = s' ∧ [] = notes := by simpa [modify] using hrun
    simpa using hQ
  · exact fun hQ => ⟨(), f s, [], rfl, by simpa using hQ⟩

@[simp] theorem yields_note {n : ν} {Q : Unit → List ν → σ → Prop} :
    yields (note n) Q h s ↔ Q () (h ++ [n]) s := by
  constructor
  · rintro ⟨a', s', notes, hrun, hQ⟩
    obtain ⟨rfl, rfl⟩ : s = s' ∧ [n] = notes := by simpa [note] using hrun
    exact hQ
  · exact fun hQ => ⟨(), s, [n], rfl, hQ⟩

@[simp] theorem yields_bind {c : Prog σ ν α} {f : α → Prog σ ν β} {Q : β → List ν → σ → Prop} :
    yields (c >>= f) Q h s ↔ yields c (fun a h s => yields (f a) Q h s) h s := by
  constructor
  · rintro ⟨b, s'', notes, hrun, hQ⟩
    simp only [bind, Option.bind_eq_some_iff, Option.map_eq_some_iff] at hrun
    obtain ⟨⟨a, s', first⟩, hfirst, ⟨b', s₂, second⟩, hsecond, heq⟩ := hrun
    obtain ⟨rfl, rfl, rfl⟩ : b' = b ∧ s₂ = s'' ∧ first ++ second = notes := by simpa using heq
    exact ⟨a, s', first, hfirst, b', s₂, second, hsecond, by rwa [List.append_assoc]⟩
  · rintro ⟨a, s', first, hfirst, b, s'', second, hsecond, hQ⟩
    exact ⟨b, s'', first ++ second, by simp [bind, hfirst, hsecond], by
      rwa [← List.append_assoc]⟩

@[simp] theorem yields_when {p : Prop} [Decidable p] {c : Prog σ ν Unit}
    {Q : Unit → List ν → σ → Prop} :
    yields (when p c) Q h s ↔ (p → yields c Q h s) ∧ (¬p → Q () h s) := by
  rw [when]
  split <;> simp [*]

theorem yields_ite {p : Prop} [Decidable p] {c c' : Prog σ ν α} {Q : α → List ν → σ → Prop} :
    yields (if p then c else c') Q h s ↔ (p → yields c Q h s) ∧ (¬p → yields c' Q h s) := by
  split <;> simp [*]

/-- One turn of a loop. -/
theorem yields_loop {fuel : ℕ} {body : Prog σ ν Bool} {Q : Unit → List ν → σ → Prop}
    (hbody : yields body (fun again h s =>
      if again then yields (loop fuel body) Q h s else Q () h s) h s) :
    yields (loop (fuel + 1) body) Q h s := by
  rw [loop, yields_bind]
  refine yields_mono hbody fun again h s hagain => ?_
  cases again with
  | true => exact hagain
  | false => exact yields_pure.2 hagain

theorem yields_each {f : α → Prog σ ν Unit} {l : List α} {I : List ν → σ → Prop}
    (hf : ∀ a ∈ l, ∀ h s, I h s → yields (f a) (fun _ => I) h s) (hI : I h s) :
    yields (each f l) (fun _ => I) h s := by
  induction l generalizing h s with
  | nil => exact yields_pure.2 hI
  | cons a rest ih =>
    rw [each, yields_bind]
    refine yields_mono (hf a (by simp) h s hI) fun _ h' s' hI' => ?_
    exact ih (fun b hb => hf b (List.mem_cons_of_mem _ hb)) hI'

/-! ### Programs that keep an invariant -/

/-- `c` keeps `J` in every run whose notes meet `ok`. -/
def Keeps (ok : ν → Prop) (J : List ν → σ → Prop) (c : Prog σ ν α) : Prop :=
  ∀ h s, J h s → wp ok c (fun _ => J) h s

namespace Keeps

variable {J : List ν → σ → Prop}

protected theorem pure (a : α) : Keeps ok J (pure a : Prog σ ν α) :=
  fun _ _ hJ => wp_pure.2 hJ

protected theorem stuck : Keeps ok J (stuck : Prog σ ν α) :=
  fun _ _ _ => wp_stuck

protected theorem bind {c : Prog σ ν α} {f : α → Prog σ ν β} (hc : Keeps ok J c)
    (hf : ∀ a, Keeps ok J (f a)) : Keeps ok J (c >>= f) :=
  fun h s hJ => wp_bind.2 (wp_mono (hc h s hJ) fun a h' s' => hf a h' s')

protected theorem get : Keeps ok J (get : Prog σ ν σ) :=
  fun _ _ hJ => wp_get.2 hJ

protected theorem modify {f : σ → σ} (hf : ∀ h s, J h s → J h (f s)) :
    Keeps ok J (modify f : Prog σ ν Unit) :=
  fun h s hJ => wp_modify.2 (hf h s hJ)

protected theorem note {n : ν} (hn : ∀ h s, ok n → J h s → J (h ++ [n]) s) :
    Keeps ok J (note n : Prog σ ν Unit) :=
  fun h s hJ => wp_note.2 fun hok => hn h s hok hJ

/-- Two invariants are kept together. -/
protected theorem and {J' : List ν → σ → Prop} {c : Prog σ ν α} (hc : Keeps ok J c)
    (hc' : Keeps ok J' c) : Keeps ok (fun h s => J h s ∧ J' h s) c :=
  fun h s hJ => wp_and (hc h s hJ.1) (hc' h s hJ.2)

protected theorem ite {p : Prop} [Decidable p] {c c' : Prog σ ν α} (hc : Keeps ok J c)
    (hc' : Keeps ok J c') : Keeps ok J (if p then c else c') := by
  split
  · exact hc
  · exact hc'

protected theorem when {p : Prop} [Decidable p] {c : Prog σ ν Unit} (hc : Keeps ok J c) :
    Keeps ok J (when p c) :=
  hc.ite (.pure ())

protected theorem each {f : α → Prog σ ν Unit} {l : List α} (hf : ∀ a, Keeps ok J (f a)) :
    Keeps ok J (each f l) :=
  fun _ _ hJ => wp_each (fun a _ => hf a) hJ

protected theorem loop {fuel : ℕ} {body : Prog σ ν Bool} (hbody : Keeps ok J body) :
    Keeps ok J (loop fuel body) :=
  fun _ _ hJ => wp_loop (fun h s hI => wp_mono (hbody h s hI) fun again _ _ hJ' => by
    cases again <;> exact hJ') hJ

end Keeps

end Prog

end ArgusBackend

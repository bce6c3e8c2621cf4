import ArgusBackend.Call.Contract

/-!
# Rules for the tasks of the engine

`Turns post t m after w` : the task `t` keeps to the contract of the engine, its credits go from `m`
to `after`, and what it returns meets `post`.  `Meets` is the case of a task that ends with the
credits it started with.  There is one rule for each construct of a task.
-/

namespace ArgusBackend

namespace Call

variable {α β : Type} {permit : Permit} {lost : Multiset Credit → Prop} {m : Multiset Credit}
  {w w' : World}

/-- The task keeps to the contract: with a result its credits went from `m` to `after` and the
result meets `post`; after a throw the credits meet `lost`, as they do before. -/
def Turns (permit : Permit) (lost : Multiset Credit → Prop) (post : α → World → Prop) (t : Io α)
    (m : Multiset Credit) (after : α → Multiset Credit) (w : World) : Prop :=
  Held m → lost m → t.Safe (contract permit) (fun result m' w' => match result with
    | none => lost m'
    | some a => m' = after a ∧ post a w') m w

/-- A task that ends with the credits it started with. -/
abbrev Meets (permit : Permit) (lost : Multiset Credit → Prop) (post : α → World → Prop)
    (t : Io α) (m : Multiset Credit) (w : World) : Prop :=
  Turns permit lost post t m (fun _ => m) w

/-- Nothing is asked of the result. -/
abbrev any (_ : α) (_ : World) : Prop := True

/-! ### Rules -/

section Rules

variable {post : α → World → Prop} {post' : β → World → Prop} {after : α → Multiset Credit}
  {after' : β → Multiset Credit}

theorem Turns.mono {t : Io α} {post' : α → World → Prop} (h : Turns permit lost post t m after w)
    (hpost : ∀ a w', Later w w' → post a w' → post' a w') :
    Turns permit lost post' t m after w := by
  intro hheld hlost
  refine Task.Safe.mono (h hheld hlost) fun r _ w' _ hw hr => ?_
  cases r with
  | none => exact hr
  | some a => exact ⟨hr.1, hpost a w' hw hr.2⟩

theorem turns_pure {a : α} (hafter : after a = m) (h : ∀ w', Later w w' → post a w') :
    Turns permit lost post (pure a : Io α) m after w :=
  fun hheld _ => Task.safe_pure hheld fun w' hw => ⟨hafter.symm, h w' hw⟩

theorem meets_pure {a : α} (h : ∀ w', Later w w' → post a w') :
    Meets permit lost post (pure a : Io α) m w :=
  turns_pure rfl h

theorem meets_done {a : α} : Meets permit lost any (pure a : Io α) m w :=
  meets_pure fun _ _ => trivial

theorem turns_bind {t : Io α} {f : α → Io β} (ht : Turns permit lost post t m after w)
    (hf : ∀ a w', Later w w' → post a w' → Turns permit lost post' (f a) (after a) after' w')
    (hafter : ∀ a, lost m → lost (after a) := by intros; first | assumption | trivial) :
    Turns permit lost post' (t >>= f) m after' w := by
  intro hheld hlost
  refine Task.safe_bind (Task.Safe.mono (ht hheld hlost) fun r m' w' hm' hw hr => ?_)
  cases r with
  | none => exact fun _ _ => hr
  | some a =>
    obtain ⟨rfl, ha⟩ := hr
    exact hf a w' hw ha hm' (hafter a hlost)

/-- A value that is only named. -/
theorem turns_let {a : α} {f : α → Io β} (P : α → Prop) (ha : P a)
    (hf : ∀ a, P a → Turns permit lost post' (f a) m after' w) :
    Turns permit lost post' (pure a >>= f) m after' w :=
  hf a ha

/-- A task whose result does not matter. -/
theorem meets_then {t : Io α} {f : α → Io β} (ht : Meets permit lost any t m w)
    (hf : ∀ a w', Later w w' → Turns permit lost post' (f a) m after' w') :
    Turns permit lost post' (t >>= f) m after' w :=
  turns_bind ht fun a w' hw _ => hf a w' hw

/-- One operation, and what the task does with its answer. -/
theorem turns_op {op : Op} {f : op.Ans → Io β} {rest : Multiset Credit}
    (hneed : need permit w op) (hcost : m = rest + cost op)
    (hf : ∀ a w', Later w w' → fact permit w' op a →
      Turns permit lost post' (f a) (rest + gain op a) after' w')
    (hheld : ∀ a, Held m → Held (rest + gain op a))
    (hlost : ∀ a, lost m → lost (rest + gain op a)) :
    Turns permit lost post' (Task.call op >>= f) m after' w := by
  intro hm hl
  refine ⟨hm, hneed, fun w' _ => ⟨hm, fun _ _ => hl⟩, rest, hcost, fun w' hw a ha => ?_⟩
  exact hf a w' hw ha (hheld a hm) (hlost a hl)

/-- One operation that neither costs nor gains. -/
theorem meets_op {op : Op} {f : op.Ans → Io β} (hneed : need permit w op) (hcost : cost op = 0)
    (hgain : ∀ a, gain op a = 0)
    (hf : ∀ a w', Later w w' → fact permit w' op a →
      Turns permit lost post' (f a) m after' w') :
    Turns permit lost post' (Task.call op >>= f) m after' w := by
  have hsame : ∀ a, m + gain op a = m := fun a => by rw [hgain a, add_zero]
  refine turns_op hneed (by rw [hcost, add_zero]) (fun a w' hw ha => ?_) (fun a hm => ?_)
    fun a hl => ?_
  · rw [hsame a]
    exact hf a w' hw ha
  · rwa [hsame a]
  · rwa [hsame a]

theorem meets_ask {q : Query} {f : q.Ans → Io β}
    (hf : ∀ a w', Later w w' → Turns permit lost post' (f a) m after' w') :
    Turns permit lost post' (ask q >>= f) m after' w :=
  meets_op trivial rfl (fun _ => rfl) fun a w' hw _ => hf a w' hw

theorem meets_read {r : Read} {f : r.Ans → Io β}
    (hf : ∀ a w', Later w w' → fact permit w' (.read r) a →
      Turns permit lost post' (f a) m after' w') :
    Turns permit lost post' (read r >>= f) m after' w :=
  meets_op trivial rfl (fun _ => by cases r <;> rfl) hf

theorem meets_write {write : Write} {f : write.Ans → Io β}
    (hneed : need permit w (.write write))
    (hf : ∀ a w', Later w w' → fact permit w' (.write write) a →
      Turns permit lost post' (f a) m after' w')
    (hgain : ∀ a, gain (.write write) a = 0 := by intro a; rfl) :
    Turns permit lost post' (Call.write write >>= f) m after' w :=
  meets_op hneed rfl hgain hf

/-- An operation at the end of a task. -/
theorem meets_last {op : Op} (hneed : need permit w op) (hcost : cost op = 0)
    (hgain : ∀ a, gain op a = 0) : Meets permit lost any (Task.call op : Io op.Ans) m w := by
  intro hm hl
  refine ⟨hm, hneed, fun w' _ => ⟨hm, fun _ _ => hl⟩, m, ?_, fun w' _ a _ => ?_⟩
  · exact (add_zero m).symm.trans (congrArg (m + ·) hcost.symm)
  · have hsame : m + (contract permit).gain op a = m :=
      (congrArg (m + ·) (hgain a)).trans (add_zero m)
    rw [hsame]
    exact ⟨hm, fun _ _ => ⟨rfl, trivial⟩⟩

/-- A note that neither costs nor gains. -/
theorem meets_note {n : Note} (hneed : need permit w (.note n)) (hcost : n.cost = 0)
    (hgain : n.gain = 0) : Meets permit lost any (note n) m w :=
  meets_last hneed hcost fun _ => hgain

/-- What is caught leaves the credits as they were. -/
theorem meets_attempt {t : Io α} (h : Meets permit (· = m) post t m w) :
    Meets permit lost (fun r w' => ∀ a, r = some a → post a w') t.attempt m w := by
  intro hheld _
  refine Task.safe_attempt (Task.Safe.mono (h hheld rfl) fun r m' w' _ _ hr => ?_)
  cases r with
  | none => exact ⟨hr, fun _ h => by cases h⟩
  | some a => exact ⟨hr.1, fun _ ha => Option.some.inj ha ▸ hr.2⟩

theorem meets_each {f : α → Io Unit} {l : List α}
    (h : ∀ a ∈ l, ∀ w', Later w w' → Meets permit lost any (f a) m w') :
    Meets permit lost any (Task.each f l) m w := by
  induction l generalizing w with
  | nil => exact meets_done
  | cons a l ih =>
    refine turns_bind (h a List.mem_cons_self w (Later.refl w)) fun _ w' hw _ => ?_
    exact ih fun b hb w'' hw' => h b (List.mem_cons_of_mem _ hb) w'' (hw.trans hw')

theorem meets_collect {f : α → Io β} {l : List α} (post : β → World → Prop)
    (hlater : ∀ b w w', Later w w' → post b w → post b w')
    (h : ∀ a ∈ l, ∀ w', Later w w' → Meets permit lost post (f a) m w') :
    Meets permit lost (fun bs w' => ∀ b ∈ bs, post b w') (Task.collect f l) m w := by
  induction l generalizing w with
  | nil => exact meets_pure fun _ _ => by simp
  | cons a l ih =>
    refine turns_bind (h a List.mem_cons_self w (Later.refl w)) fun b w' hw hb => ?_
    refine turns_bind (ih fun c hc w'' hw' =>
      h c (List.mem_cons_of_mem _ hc) w'' (hw.trans hw')) fun bs w'' hw' hbs => ?_
    refine meets_pure fun w₃ hw'' c hc => ?_
    rcases List.mem_cons.1 hc with rfl | hc
    · exact hlater c w' w₃ (hw'.trans hw'') hb
    · exact hlater c w'' w₃ hw'' (hbs c hc)

end Rules

end Call

end ArgusBackend

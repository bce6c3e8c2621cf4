import Mathlib.Data.List.Basic
import Mathlib.Logic.Relation

/-!
# Readers of a stream that arrives in pieces

A `Scanner` looks at the head of the bytes it has not read yet: it needs more of them, refuses
them, or takes one token off the front.  The three fields say that a token makes progress and
that bytes which arrive later change neither a refusal nor a token.

* `Scanner.Reads xs ts r` : reading `xs` gives the tokens `ts` and ends in `r`, a refusal or the
  bytes left over;
* `Scanner.read` computes it, and `Scanner.reads_iff` says the two agree;
* `Scanner.read_append` : what is read from `xs ++ ys` is what is read from `xs`, then what is
  read from the left-over bytes followed by `ys`.  This is the only fact a buffering parser
  needs to be independent of how its input was cut.
-/

namespace ArgusBackend

/-- What a look at the head of the unread bytes gives. -/
inductive Next (τ ε α : Type*) where
  /-- The bytes end before the next token does. -/
  | more
  /-- The bytes cannot begin a token. -/
  | refused (e : ε)
  /-- One token, and the bytes behind it. -/
  | token (t : τ) (rest : List α)

/-- A reader of tokens whose answers do not change when more bytes arrive. -/
structure Scanner (τ ε α : Type*) where
  /-- One look at the head of the unread bytes. -/
  next : List α → Next τ ε α
  /-- A token takes bytes off the front. -/
  shorter : ∀ {xs t rest}, next xs = .token t rest → rest.length < xs.length
  /-- A refusal stands, whatever arrives behind it. -/
  refused_append : ∀ {xs e} (ys), next xs = .refused e → next (xs ++ ys) = .refused e
  /-- A token stands, and what arrives later is behind it. -/
  token_append : ∀ {xs t rest} (ys), next xs = .token t rest →
    next (xs ++ ys) = .token t (rest ++ ys)

namespace Scanner

variable {τ ε α : Type*} (S : Scanner τ ε α)

/-- Reading `xs` gives the tokens `ts` and ends in a refusal or with bytes left over. -/
inductive Reads : List α → List τ → Except ε (List α) → Prop
  | more {xs} : S.next xs = .more → Reads xs [] (.ok xs)
  | refused {xs e} : S.next xs = .refused e → Reads xs [] (.error e)
  | token {xs t rest ts r} : S.next xs = .token t rest → Reads rest ts r → Reads xs (t :: ts) r

/-- At most `n` tokens of `xs`. -/
def readUpTo : ℕ → List α → List τ × Except ε (List α)
  | 0, xs => ([], .ok xs)
  | n + 1, xs =>
    match S.next xs with
    | .more => ([], .ok xs)
    | .refused e => ([], .error e)
    | .token t rest => (t :: (readUpTo n rest).1, (readUpTo n rest).2)

/-- All the tokens of `xs`: each takes at least one byte, so there are at most `xs.length`. -/
def read (xs : List α) : List τ × Except ε (List α) := S.readUpTo (xs.length + 1) xs

variable {S}

theorem Reads.deterministic {xs : List α} {ts us : List τ} {r r' : Except ε (List α)}
    (h : S.Reads xs ts r) (h' : S.Reads xs us r') : ts = us ∧ r = r' := by
  induction h generalizing us with
  | more hn =>
    cases h' with
    | more => exact ⟨rfl, rfl⟩
    | refused hn' => simp [hn] at hn'
    | token hn' => simp [hn] at hn'
  | refused hn =>
    cases h' with
    | more hn' => simp [hn] at hn'
    | refused hn' => simpa [hn] using hn'
    | token hn' => simp [hn] at hn'
  | token hn _ ih =>
    cases h' with
    | more hn' => simp [hn] at hn'
    | refused hn' => simp [hn] at hn'
    | token hn' hrest =>
      simp only [hn, Next.token.injEq] at hn'
      obtain ⟨rfl, rfl⟩ := hn'
      obtain ⟨rfl, rfl⟩ := ih hrest
      exact ⟨rfl, rfl⟩

theorem reads_readUpTo {n : ℕ} {xs : List α} (hn : xs.length < n) :
    S.Reads xs (S.readUpTo n xs).1 (S.readUpTo n xs).2 := by
  induction n generalizing xs with
  | zero => omega
  | succ n ih =>
    simp only [readUpTo]
    cases hx : S.next xs with
    | more => exact .more hx
    | refused e => exact .refused hx
    | token t rest => exact .token hx (ih (by have := S.shorter hx; omega))

theorem reads_read (xs : List α) : S.Reads xs (S.read xs).1 (S.read xs).2 :=
  reads_readUpTo (Nat.lt_succ_self _)

theorem reads_iff {xs : List α} {ts : List τ} {r : Except ε (List α)} :
    S.Reads xs ts r ↔ S.read xs = (ts, r) := by
  constructor
  · intro h
    obtain ⟨h₁, h₂⟩ := (reads_read xs).deterministic h
    exact Prod.ext h₁ h₂
  · intro h
    have := reads_read (S := S) xs
    rwa [h] at this

theorem Reads.refused_append {xs : List α} {ts : List τ} {e : ε}
    (h : S.Reads xs ts (.error e)) (ys : List α) : S.Reads (xs ++ ys) ts (.error e) := by
  generalize hr : Except.error e = r at h
  induction h with
  | more => cases hr
  | refused hn => cases hr; exact .refused (S.refused_append ys hn)
  | token hn _ ih => exact .token (S.token_append ys hn) (ih hr)

theorem Reads.append {xs rest ys : List α} {ts us : List τ} {r : Except ε (List α)}
    (h : S.Reads xs ts (.ok rest)) (h' : S.Reads (rest ++ ys) us r) :
    S.Reads (xs ++ ys) (ts ++ us) r := by
  generalize hr : Except.ok rest = q at h
  induction h with
  | more => cases hr; exact h'
  | refused => cases hr
  | token hn _ ih => exact .token (S.token_append ys hn) (ih hr)

/-- **Reading in pieces**: the left-over bytes are all a reader has to keep. -/
theorem read_append (xs ys : List α) :
    S.read (xs ++ ys) =
      match S.read xs with
      | (ts, .error e) => (ts, .error e)
      | (ts, .ok rest) => (ts ++ (S.read (rest ++ ys)).1, (S.read (rest ++ ys)).2) := by
  have h := reads_read (S := S) xs
  rcases hx : S.read xs with ⟨ts, e | rest⟩
  · rw [hx] at h
    exact reads_iff.1 (h.refused_append ys)
  · rw [hx] at h
    exact reads_iff.1 (h.append (reads_read _))

/-- What is left over needs more bytes before it gives a token. -/
theorem Reads.next_left {xs rest : List α} {ts : List τ} (h : S.Reads xs ts (.ok rest)) :
    S.next rest = .more := by
  generalize hr : Except.ok rest = r at h
  induction h with
  | more hn => cases hr; exact hn
  | refused => cases hr
  | token _ _ ih => exact ih hr

theorem read_of_more {xs : List α} (h : S.next xs = .more) : S.read xs = ([], .ok xs) :=
  reads_iff.1 (.more h)

end Scanner

end ArgusBackend

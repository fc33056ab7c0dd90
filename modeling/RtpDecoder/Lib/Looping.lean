import Mathlib.Data.List.Range
import Mathlib.Data.Nat.Bitwise
import Mathlib.Logic.Relation
import RtpDecoder.Lib.Advancing

/-!
# Programs with loops that may not end

A program with loops is a family of programs, one for each number of turns its loops may
take; what one of them returns, those with more turns return as well. Such a family carries
the proof of this, so that whatever is put together from them ends, or does not, regardless
of how the turns are counted: `Ends` is a relation without a bound.

The counter of a loop is a machine integer. It wraps around, so that a loop whose test
holds for every integer of that width never ends.
-/

namespace RtpDecoder

/-! ### Counters -/

section

variable {ι : Type} {cond : ι → Bool} {next : ι → ι}

/-- The counters for which the body of a `for` loop runs, if these are less than `n`. -/
def turns (cond : ι → Bool) (next : ι → ι) : Nat → ι → Option (List ι)
  | 0, _ => none
  | n + 1, i => if cond i then (turns cond next n (next i)).map (i :: ·) else some []

theorem turns_more {n k : Nat} (le : n ≤ k) {i : ι} {l : List ι} (ended : turns cond next n i = some l) :
    turns cond next k i = some l := by
  induction n generalizing k i l with
  | zero => cases ended
  | succ n ih =>
    obtain ⟨k, rfl⟩ : ∃ k', k = k' + 1 := ⟨k - 1, by omega⟩
    rw [turns] at ended ⊢
    split at ended
    next again =>
      obtain ⟨rest, later, rfl⟩ := Option.map_eq_some_iff.mp ended
      rw [if_pos again, ih (Nat.le_of_succ_le_succ le) later, Option.map_some]
    next stops =>
      rw [if_neg stops]
      exact ended

/-- A loop does not end from where its test holds for ever. -/
theorem turns_endless {P : ι → Prop} (again : ∀ i, P i → cond i = true) (keeps : ∀ i, P i → P (next i))
    (n : Nat) {i : ι} (here : P i) : turns cond next n i = none := by
  induction n generalizing i with
  | zero => rfl
  | succ n ih => rw [turns, if_pos (again i here), ih (keeps i here), Option.map_none]

end

/-- `++i` in `w` bits. -/
def up (w i : Nat) : Nat := (i + 1) % 2 ^ w

/-- `--i` in `w` bits. -/
def down (w i : Nat) : Nat := (i + 2 ^ w - 1) % 2 ^ w

/-- A bound that the counter can reach. -/
theorem turns_up {w bound : Nat} (reach : bound < 2 ^ w) {i n : Nat} (enough : bound - i < n) :
    turns (fun i => decide (i < bound)) (up w) n i = some (List.range' i (bound - i)) := by
  induction n generalizing i with
  | zero => omega
  | succ n ih =>
    rw [turns]
    by_cases more : i < bound
    · have step : up w i = i + 1 := Nat.mod_eq_of_lt (by omega)
      have left : bound - i = bound - (i + 1) + 1 := by omega
      rw [if_pos (decide_eq_true more), step, ih (by omega), left, List.range'_succ, Option.map_some]
    · have left : bound - i = 0 := by omega
      rw [if_neg (by simpa using more), left, List.range'_zero]

theorem turns_up_le {w last : Nat} (reach : last + 1 < 2 ^ w) {i n : Nat} (enough : last + 1 - i < n) :
    turns (fun i => decide (i ≤ last)) (up w) n i = some (List.range' i (last + 1 - i)) := by
  simp only [← Nat.lt_succ_iff]
  exact turns_up reach enough

theorem turns_down {w i n : Nat} (reach : i < 2 ^ w) (enough : i < n) :
    ∃ l, turns (fun i => decide (0 < i)) (down w) n i = some l := by
  induction n generalizing i with
  | zero => omega
  | succ n ih =>
    rw [turns]
    split
    next more =>
      -- Above 0 the counter does not wrap around.
      have positive : 0 < i := of_decide_eq_true more
      have step : down w i = i - 1 := by
        have wraps : i + 2 ^ w - 1 = i - 1 + 2 ^ w := by omega
        rw [down, wraps, Nat.add_mod_right]
        exact Nat.mod_eq_of_lt (by omega)
      obtain ⟨l, rest⟩ := ih (i := i - 1) (by omega) (by omega)
      rw [step, rest]
      exact ⟨i :: l, rfl⟩
    · exact ⟨[], rfl⟩

/-- No counter of `w` bits is above this bound. -/
theorem turns_up_endless {w last : Nat} (top : 2 ^ w ≤ last + 1) (n : Nat) {i : Nat} (start : i < 2 ^ w) :
    turns (fun i => decide (i ≤ last)) (up w) n i = none := by
  apply turns_endless (P := (· < 2 ^ w))
  · intro i below
    exact decide_eq_true (by omega)
  · intro i _
    exact Nat.mod_lt _ (Nat.two_pow_pos w)
  · exact start

/-! ### Programs -/

structure Looping {σ : Type} (R : σ → σ → Prop) (α : Type) where
  /-- The program, without a result where a loop would take more than that many turns. -/
  within : Nat → Advancing R α
  more : ∀ {n k : Nat} {s t : σ} {a : α}, n ≤ k →
    (within n).run s = some (a, t) → (within k).run s = some (a, t)

namespace Looping

variable {σ α β ι : Type} {R : σ → σ → Prop} {s t u : σ} {a : α} {b : β}

/-- A program without loops. -/
def lift (p : Advancing R α) : Looping R α where
  within _ := p
  more _ returned := returned

instance : MonadLift (Advancing R) (Looping R) where
  monadLift := lift

section Monad

variable [IsPreorder σ R]

protected def bind (p : Looping R α) (f : α → Looping R β) : Looping R β where
  within n := p.within n >>= fun a => (f a).within n
  more le returned := by
    obtain ⟨a, t, first, later⟩ := Advancing.run_bind_eq_some.mp returned
    exact Advancing.run_bind_eq_some.mpr ⟨a, t, p.more le first, (f a).more le later⟩

instance : Monad (Looping R) where
  pure a := lift (pure a)
  bind := Looping.bind

/-- The counters of a loop whose body leaves them alone. -/
def loop (cond : ι → Bool) (next : ι → ι) (start : ι) : Looping R (List ι) where
  within n :=
    { run s := (turns cond next n start).map (·, s)
      forward returned := by
        obtain ⟨l, ended, same⟩ := Option.map_eq_some_iff.mp returned
        cases same
        exact refl_of R _ }
  more le returned := by
    obtain ⟨l, ended, same⟩ := Option.map_eq_some_iff.mp returned
    exact Option.map_eq_some_iff.mpr ⟨l, turns_more le ended, same⟩

/-- The body of a loop, for each of its counters. -/
def forEach (body : ι → Looping R α) : List ι → Looping R (List α)
  | [] => pure []
  | i :: l => do
    let a ← body i
    let rest ← forEach body l
    return a :: rest

/-- At most `k` rounds of a loop that goes on with `inl` and is left with `inr`. -/
def rounds (body : α → Looping R (α ⊕ β)) (n : Nat) : Nat → α → Advancing R β
  | 0, _ => Advancing.fail
  | k + 1, a => (body a).within n >>= fun
    | .inl next => rounds body n k next
    | .inr b => pure b

theorem rounds_more {body : α → Looping R (α ⊕ β)} {n n' k k' : Nat} (le : n ≤ n') (le' : k ≤ k')
    (returned : (rounds body n k a).run s = some (b, t)) : (rounds body n' k' a).run s = some (b, t) := by
  induction k generalizing k' a s with
  | zero => cases returned
  | succ k ih =>
    obtain ⟨k', rfl⟩ : ∃ m, k' = m + 1 := ⟨k' - 1, by omega⟩
    obtain ⟨c, u, first, later⟩ := Advancing.run_bind_eq_some.mp returned
    refine Advancing.run_bind_eq_some.mpr ⟨c, u, (body a).more le first, ?_⟩
    cases c with
    | inl next => exact ih (Nat.le_of_succ_le_succ le') later
    | inr b => exact later

/-- A loop that is left from inside its body. -/
def untilDone (body : α → Looping R (α ⊕ β)) (a : α) : Looping R β where
  within n := rounds body n n a
  more le returned := rounds_more le le returned

end Monad

/-! ### How a program ends -/

def Ends (p : Looping R α) (s : σ) (a : α) (t : σ) : Prop := ∃ n, (p.within n).run s = some (a, t)

def Halts (p : Looping R α) (s : σ) : Prop := ∃ a t, p.Ends s a t

theorem Ends.unique {p : Looping R α} {a' : α} {t' : σ} (one : p.Ends s a t) (other : p.Ends s a' t') :
    a = a' ∧ t = t' := by
  obtain ⟨n, returned⟩ := one
  obtain ⟨k, returned'⟩ := other
  -- With the larger number of turns both have returned.
  have both := p.more (Nat.le_max_left n k) returned
  rw [p.more (Nat.le_max_right n k) returned'] at both
  cases both
  exact ⟨rfl, rfl⟩

theorem ends_lift {p : Advancing R α} : (lift p).Ends s a t ↔ p.run s = some (a, t) := by
  constructor
  · rintro ⟨n, returned⟩
    exact returned
  · intro returned
    exact ⟨0, returned⟩

/-! ### Programs whose loops have been summed up -/

/-- The program with loops ends from everywhere, with such a result, and with what the
program without loops returns, where that one returns. -/
def SumsUp (q : Looping R α) (p : Advancing R α) (Q : α → Prop) : Prop :=
  ∀ s, ∃ a t, q.Ends s a t ∧ Q a ∧ ∀ {b u}, p.run s = some (b, u) → b = a ∧ u = t

variable {P : α → Prop} {Q : β → Prop} {q : Looping R α} {p : Advancing R α}

theorem sumsUp_lift (yields : p.Yields P) : (lift p).SumsUp p P := by
  intro s
  obtain ⟨a, t, returned, holds⟩ := yields s
  refine ⟨a, t, ends_lift.mpr returned, holds, fun other => ?_⟩
  rw [returned] at other
  cases other
  exact ⟨rfl, rfl⟩

theorem sumsUp_ite {c : Prop} [Decidable c] {q' : Looping R α} {p' : Advancing R α}
    (left : c → q.SumsUp p P) (right : ¬ c → q'.SumsUp p' P) :
    (if c then q else q').SumsUp (if c then p else p') P := by
  split
  next holds => exact left holds
  next fails => exact right fails

/-- The program without loops may give up. -/
theorem SumsUp.unless (sums : q.SumsUp p P) (c : Prop) [Decidable c] :
    q.SumsUp (if c then Advancing.fail else p) P := by
  intro s
  obtain ⟨a, t, ended, holds, same⟩ := sums s
  refine ⟨a, t, ended, holds, fun returned => ?_⟩
  split at returned
  · cases returned
  · exact same returned

theorem SumsUp.mono {P' : α → Prop} (sums : q.SumsUp p P) (weaker : ∀ a, P a → P' a) : q.SumsUp p P' := by
  intro s
  obtain ⟨a, t, ended, holds, same⟩ := sums s
  exact ⟨a, t, ended, weaker a holds, same⟩

theorem SumsUp.halts (sums : q.SumsUp p P) (s : σ) : q.Halts s := by
  obtain ⟨a, t, ended, _⟩ := sums s
  exact ⟨a, t, ended⟩

theorem SumsUp.ends (sums : q.SumsUp p P) (returned : p.run s = some (a, t)) : q.Ends s a t ∧ P a := by
  obtain ⟨b, u, ended, holds, same⟩ := sums s
  obtain ⟨rfl, rfl⟩ := same returned
  exact ⟨ended, holds⟩

/-! ### Putting programs together -/

variable [IsPreorder σ R]

theorem ends_bind {p : Looping R α} {f : α → Looping R β} :
    (p >>= f).Ends s b u ↔ ∃ a t, p.Ends s a t ∧ (f a).Ends t b u := by
  constructor
  · rintro ⟨n, returned⟩
    obtain ⟨a, t, first, later⟩ := Advancing.run_bind_eq_some.mp returned
    exact ⟨a, t, ⟨n, first⟩, ⟨n, later⟩⟩
  · rintro ⟨a, t, ⟨n, first⟩, ⟨k, later⟩⟩
    -- The larger number of turns is enough for both parts.
    refine ⟨max n k, Advancing.run_bind_eq_some.mpr ⟨a, t, ?_, ?_⟩⟩
    · exact p.more (Nat.le_max_left n k) first
    · exact (f a).more (Nat.le_max_right n k) later

theorem ends_pure : (pure a : Looping R α).Ends s a s := ends_lift.mpr rfl

theorem not_halts_loop {cond : ι → Bool} {next : ι → ι} {start : ι}
    (endless : ∀ n, turns cond next n start = none) (s : σ) :
    ¬ (loop cond next start : Looping R (List ι)).Halts s := by
  rintro ⟨l, t, n, returned⟩
  obtain ⟨_, ended, _⟩ := Option.map_eq_some_iff.mp returned
  rw [endless n] at ended
  cases ended

theorem ends_read {p : Advancing R α} {f : α → Looping R β} (returned : p.run s = some (a, t))
    (later : (f a).Ends t b u) : (lift p >>= f).Ends s b u :=
  ends_bind.mpr ⟨a, t, ends_lift.mpr returned, later⟩

theorem halts_read {p : Advancing R α} {f : α → Looping R β} (returned : p.run s = some (a, t)) :
    (lift p >>= f).Halts s ↔ (f a).Halts t := by
  constructor
  · rintro ⟨b, u, ended⟩
    obtain ⟨a', t', first, later⟩ := ends_bind.mp ended
    have same := ends_lift.mp first
    rw [returned] at same
    cases same
    exact ⟨b, u, later⟩
  · rintro ⟨b, u, later⟩
    exact ⟨b, u, ends_read returned later⟩

theorem not_halts_bind {p : Looping R α} {f : α → Looping R β} (endless : ¬ p.Halts s) : ¬ (p >>= f).Halts s := by
  rintro ⟨b, u, ended⟩
  obtain ⟨a, t, first, _⟩ := ends_bind.mp ended
  exact endless ⟨a, t, first⟩

/-- Whether a program ends is settled before a part that always does. -/
theorem halts_bind {p : Looping R α} {f : α → Looping R β} (later : ∀ a t, (f a).Halts t) :
    (p >>= f).Halts s ↔ p.Halts s := by
  constructor
  · intro halts
    by_contra endless
    exact not_halts_bind endless halts
  · rintro ⟨a, t, ended⟩
    obtain ⟨b, u, after⟩ := later a t
    exact ⟨b, u, ends_bind.mpr ⟨a, t, ended, after⟩⟩

theorem halts_pure (a : α) (s : σ) : (pure a : Looping R α).Halts s := ⟨a, s, ends_pure⟩

/-! ### Programs that leave the state alone -/

/-- The program ends with this result where it started. -/
def Settles (p : Looping R α) (a : α) : Prop := ∀ s, p.Ends s a s

theorem settles_pure (a : α) : (pure a : Looping R α).Settles a := fun _ => ends_pure

theorem Settles.bind {p : Looping R α} {f : α → Looping R β} (first : p.Settles a) (later : (f a).Settles b) :
    (p >>= f).Settles b :=
  fun s => ends_bind.mpr ⟨a, s, first s, later s⟩

theorem settles_loop {cond : ι → Bool} {next : ι → ι} {start : ι} {n : Nat} {l : List ι}
    (ended : turns cond next n start = some l) : (loop cond next start : Looping R (List ι)).Settles l :=
  fun _ => ⟨n, Option.map_eq_some_iff.mpr ⟨l, ended, rfl⟩⟩

theorem settles_forEach {body : ι → Looping R α} {f : ι → α} {l : List ι}
    (each : ∀ i ∈ l, (body i).Settles (f i)) : (forEach body l).Settles (l.map f) := by
  induction l with
  | nil => exact settles_pure []
  | cons i l ih =>
    have rest := ih fun j inside => each j (List.mem_cons_of_mem i inside)
    exact (each i List.mem_cons_self).bind (rest.bind (settles_pure _))

/-! ### Summing up what is put together -/

theorem sumsUp_pure (holds : P a) : (pure a : Looping R α).SumsUp (pure a) P := by
  intro s
  refine ⟨a, s, ends_pure, holds, fun returned => ?_⟩
  cases returned
  exact ⟨rfl, rfl⟩

theorem SumsUp.bind {f : α → Looping R β} {g : α → Advancing R β} (first : q.SumsUp p P)
    (later : ∀ a, P a → (f a).SumsUp (g a) Q) : (q >>= f).SumsUp (p >>= g) Q := by
  intro s
  obtain ⟨a, t, here, holds, same⟩ := first s
  obtain ⟨b, u, there, after, same'⟩ := later a holds t
  refine ⟨b, u, ends_bind.mpr ⟨a, t, here, there⟩, after, fun returned => ?_⟩
  obtain ⟨a', t', one, two⟩ := Advancing.run_bind_eq_some.mp returned
  obtain ⟨rfl, rfl⟩ := same one
  exact same' two

theorem sumsUp_read {f : α → Looping R β} {g : α → Advancing R β} (yields : p.Yields P)
    (later : ∀ a, P a → (f a).SumsUp (g a) Q) : (lift p >>= f).SumsUp (p >>= g) Q :=
  (sumsUp_lift yields).bind later

/-- Loops that read nothing are not there any more. -/
theorem Settles.sumsUp {f : α → Looping R β} {g : Advancing R β} (first : q.Settles a)
    (later : (f a).SumsUp g Q) : (q >>= f).SumsUp g Q := by
  intro s
  obtain ⟨b, u, there, after, same⟩ := later s
  exact ⟨b, u, ends_bind.mpr ⟨a, s, first s, there⟩, after, same⟩

theorem SumsUp.andThen {f : α → Looping R α} (first : q.SumsUp p P)
    (later : ∀ a, P a → (f a).Settles a) : (q >>= f).SumsUp p P := by
  intro s
  obtain ⟨a, t, here, holds, same⟩ := first s
  exact ⟨a, t, ends_bind.mpr ⟨a, t, here, later a holds t⟩, holds, same⟩

/-! ### Loops that are left from inside -/

/-- A round that leads to another. -/
def Round (body : α → Looping R (α ⊕ β)) (x y : α × σ) : Prop := (body x.1).Ends x.2 (.inl y.1) y.2

variable {body : α → Looping R (α ⊕ β)}

theorem ends_untilDone :
    (untilDone body a).Ends s b u ↔
      (body a).Ends s (.inr b) u ∨ ∃ a' t, Round body (a, s) (a', t) ∧ (untilDone body a').Ends t b u := by
  constructor
  · rintro ⟨n, returned⟩
    cases n with
    | zero => cases returned
    | succ n =>
      obtain ⟨c, t, first, later⟩ := Advancing.run_bind_eq_some.mp returned
      cases c with
      | inl a' => exact .inr ⟨a', t, ⟨_, first⟩, _, rounds_more (Nat.le_refl _) (Nat.le_succ n) later⟩
      | inr b' =>
        cases later
        exact .inl ⟨_, first⟩
  · rintro (⟨n, last⟩ | ⟨a', t, ⟨n, first⟩, k, later⟩)
    · have here := (body a).more (Nat.le_succ n) last
      exact ⟨n + 1, Advancing.run_bind_eq_some.mpr ⟨.inr b, u, here, rfl⟩⟩
    · have here := (body a).more (by omega : n ≤ max n k + 1) first
      have there := rounds_more (by omega : k ≤ max n k + 1) (Nat.le_max_right n k) later
      exact ⟨max n k + 1, Advancing.run_bind_eq_some.mpr ⟨.inl a', t, here, there⟩⟩

/-- Where the rounds cannot go on for ever, the loop ends unless the body of a round does
not. -/
theorem halts_untilDone (size : σ → Nat) (shrinks : ∀ {x y : α × σ}, Round body x y → size y.2 < size x.2)
    {x : α × σ} :
    (untilDone body x.1).Halts x.2 ↔ ∀ y, Relation.ReflTransGen (Round body) x y → (body y.1).Halts y.2 := by
  constructor
  · rintro halts y reached
    -- The loop goes on in the only way it can, so it also ends from every round it gets to.
    have there : (untilDone body y.1).Halts y.2 := by
      induction reached with
      | refl => exact halts
      | tail _ round ih =>
        obtain ⟨b, u, ended⟩ := ih
        rcases ends_untilDone.mp ended with last | ⟨a', t, other, later⟩
        · cases (last.unique round).1
        · obtain ⟨same, same'⟩ := other.unique round
          cases same
          cases same'
          exact ⟨b, u, later⟩
    obtain ⟨b, u, ended⟩ := there
    rcases ends_untilDone.mp ended with last | ⟨a', t, round, _⟩
    · exact ⟨_, _, last⟩
    · exact ⟨_, _, round⟩
  · intro all
    -- By induction on the size: the body ends, and a round that goes on leaves less.
    induction left : size x.2 using Nat.strongRecOn generalizing x with
    | ind n ih =>
      subst left
      obtain ⟨c, t, ended⟩ := all x .refl
      cases c with
      | inr b => exact ⟨b, t, ends_untilDone.mpr (.inl ended)⟩
      | inl a' =>
        have round : Round body x (a', t) := ended
        obtain ⟨b, u, later⟩ := ih _ (shrinks round) (x := (a', t)) (fun y reached => all y (.head round reached)) rfl
        exact ⟨b, u, ends_untilDone.mpr (.inr ⟨a', t, round, later⟩)⟩

end Looping

end RtpDecoder

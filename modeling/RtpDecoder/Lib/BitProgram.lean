import Mathlib.Data.List.Induction
import Mathlib.Data.Nat.Bitwise
import Mathlib.Logic.Relation

/-!
# Programs over a source of bits

A decoder that reads bits one by one, and now and then a whole run of ones, is a
tree: what it does next depends on the bits it got. Writing decoders as such trees
keeps them apart from the buffer the bits come from, so that a fact about every
decoder on one kind of buffer is proved once, by induction on the tree.
-/

variable {σ τ α β : Type}

/-- A place bits come from. Every one bit uses up fuel, so runs of ones end. -/
structure BitSource (σ : Type) where
  bit : σ → Bool × σ
  fuel : σ → Nat
  fuel_lt : ∀ s, (bit s).1 = true → fuel (bit s).2 < fuel s

namespace BitSource

variable (src : BitSource σ)

def onesWithin : Nat → σ → Nat × σ
  | 0, s => (0, (src.bit s).2)
  | n + 1, s =>
    if (src.bit s).1 then
      ((onesWithin n (src.bit s).2).1 + 1, (onesWithin n (src.bit s).2).2)
    else (0, (src.bit s).2)

/-- Read ones up to and including the first zero; the result counts the ones. -/
def ones (s : σ) : Nat × σ := src.onesWithin (src.fuel s) s

private theorem onesWithin_enough (n m : Nat) (s : σ) (first : src.fuel s ≤ n)
    (second : src.fuel s ≤ m) : src.onesWithin n s = src.onesWithin m s := by
  induction n generalizing m s with
  | zero =>
    have zero_bit : ¬ (src.bit s).1 = true := fun one => by
      have less := src.fuel_lt s one
      omega
    cases m with
    | zero => rfl
    | succ m => simp only [onesWithin, zero_bit, if_false, Bool.false_eq_true]
  | succ n ih =>
    cases m with
    | zero =>
      have zero_bit : ¬ (src.bit s).1 = true := fun one => by
        have less := src.fuel_lt s one
        omega
      simp only [onesWithin, zero_bit, if_false, Bool.false_eq_true]
    | succ m =>
      by_cases one : (src.bit s).1 = true
      · have less := src.fuel_lt s one
        simp only [onesWithin, one, if_true]
        rw [ih m (src.bit s).2 (by omega) (by omega)]
      · simp only [onesWithin, one, if_false, Bool.false_eq_true]

/-- The loop as a decoder writes it: stop at a zero, else count and go on. -/
theorem ones_eq (s : σ) : src.ones s =
    if (src.bit s).1 then ((src.ones (src.bit s).2).1 + 1, (src.ones (src.bit s).2).2)
    else (0, (src.bit s).2) := by
  unfold ones
  rw [src.onesWithin_enough (src.fuel s) (src.fuel s + 1) s (Nat.le_refl _) (Nat.le_succ _)]
  by_cases one : (src.bit s).1 = true
  · have less := src.fuel_lt s one
    simp only [onesWithin, one, if_true]
    rw [src.onesWithin_enough (src.fuel s) (src.fuel (src.bit s).2) _ (by omega) (Nat.le_refl _)]
  · simp only [onesWithin, one, if_false, Bool.false_eq_true]

theorem ones_induct {P : σ → Prop} (zero : ∀ s, (src.bit s).1 = false → P s)
    (one : ∀ s, (src.bit s).1 = true → P (src.bit s).2 → P s) (s : σ) : P s := by
  induction fuel : src.fuel s using Nat.strongRecOn generalizing s with
  | ind n ih =>
    cases bit : (src.bit s).1 with
    | false => exact zero s bit
    | true =>
      have less := src.fuel_lt s bit
      exact one s bit (ih _ (by omega) _ rfl)

end BitSource

/-- A decoder, as the tree of what it does with the bits it reads. -/
inductive BitProgram (α : Type) where
  | done (a : α)
  | bit (k : Bool → BitProgram α)
  | ones (k : Nat → BitProgram α)

namespace BitProgram

def bind : BitProgram α → (α → BitProgram β) → BitProgram β
  | done a, f => f a
  | bit k, f => bit fun b => bind (k b) f
  | ones k, f => ones fun n => bind (k n) f

instance : Monad BitProgram where
  pure := done
  bind := bind

def getBit : BitProgram Bool := bit done

def getOnes : BitProgram Nat := ones done

/-- The `n` next bits as a number, most significant first, after the bits in `acc`. -/
def getBitsOnto (acc : Nat) : Nat → BitProgram Nat
  | 0 => pure acc
  | n + 1 => do
    let b ← getBit
    getBitsOnto (2 * acc + b.toNat) n

def getBits (n : Nat) : BitProgram Nat := getBitsOnto 0 n

/-- The `n` next bits as they are. -/
def takeBits : Nat → BitProgram (List Bool)
  | 0 => pure []
  | n + 1 => do
    let b ← getBit
    let l ← takeBits n
    pure (b :: l)

/-- Run a decoder on a source. -/
def run (src : BitSource σ) : BitProgram α → σ → α × σ
  | done a, s => (a, s)
  | bit k, s => run src (k (src.bit s).1) (src.bit s).2
  | ones k, s => run src (k (src.ones s).1) (src.ones s).2

@[simp] theorem run_bind (src : BitSource σ) (p : BitProgram α) (f : α → BitProgram β) (s : σ) :
    run src (p >>= f) s = run src (f (run src p s).1) (run src p s).2 := by
  change run src (bind p f) s = _
  induction p generalizing s with
  | done a => rfl
  | bit k ih => exact ih _ _
  | ones k ih => exact ih _ _

/-! ### Two decoders in step -/

/-- Two decoders that read the same, whatever the bits are, and have related results. -/
inductive InStep (R : α → β → Prop) : BitProgram α → BitProgram β → Prop where
  | done {a : α} {b : β} (related : R a b) : InStep R (done a) (done b)
  | bit {k : Bool → BitProgram α} {l : Bool → BitProgram β} (each : ∀ b, InStep R (k b) (l b)) :
    InStep R (bit k) (bit l)
  | ones {k : Nat → BitProgram α} {l : Nat → BitProgram β} (each : ∀ n, InStep R (k n) (l n)) :
    InStep R (ones k) (ones l)

section InStep

variable {γ δ : Type} {R : α → β → Prop} {Q : γ → δ → Prop} {p : BitProgram α} {q : BitProgram β}

theorem inStep_pure {a : α} {b : β} (related : R a b) : InStep R (pure a) (pure b) := .done related

theorem inStep_self (p : BitProgram α) : InStep Eq p p := by
  induction p with
  | done a => exact .done rfl
  | bit k ih => exact .bit ih
  | ones k ih => exact .ones ih

theorem InStep.mono {R' : α → β → Prop} (inStep : InStep R p q) (weaker : ∀ a b, R a b → R' a b) : InStep R' p q := by
  induction inStep with
  | done related => exact .done (weaker _ _ related)
  | bit _ ih => exact .bit ih
  | ones _ ih => exact .ones ih

theorem InStep.bind {f : α → BitProgram γ} {g : β → BitProgram δ} (first : InStep R p q)
    (later : ∀ a b, R a b → InStep Q (f a) (g b)) : InStep Q (p >>= f) (q >>= g) := by
  induction first with
  | done related => exact later _ _ related
  | bit _ ih => exact .bit ih
  | ones _ ih => exact .ones ih

theorem inStep_bind (p : BitProgram α) {f : α → BitProgram γ} {g : α → BitProgram δ}
    (later : ∀ a, InStep Q (f a) (g a)) : InStep Q (p >>= f) (p >>= g) := by
  induction p with
  | done a => exact later a
  | bit k ih => exact .bit ih
  | ones k ih => exact .ones ih

/-- The second decoder goes on without reading. -/
theorem InStep.bind_right {R' : α → δ → Prop} {g : β → BitProgram δ} (first : InStep R p q)
    (later : ∀ a b, R a b → InStep R' (pure a) (g b)) : InStep R' p (q >>= g) := by
  induction first with
  | done related => exact later _ _ related
  | bit _ ih => exact .bit ih
  | ones _ ih => exact .ones ih

theorem inStep_ite {c : Prop} [Decidable c] {p p' : BitProgram α} {q q' : BitProgram β}
    (left : c → InStep R p q) (right : ¬ c → InStep R p' q') :
    InStep R (if c then p else p') (if c then q else q') := by
  split
  next holds => exact left holds
  next fails => exact right fails

theorem InStep.run (inStep : InStep R p q) (src : BitSource σ) (s : σ) :
    R (p.run src s).1 (q.run src s).1 ∧ (p.run src s).2 = (q.run src s).2 := by
  induction inStep generalizing s with
  | done related => exact ⟨related, rfl⟩
  | bit _ ih => exact ih _ _
  | ones _ ih => exact ih _ _

end InStep

/-! ### What a decoder can end with -/

/-- Every result of a decoder, whatever the bits are. -/
inductive Ends (Q : α → Prop) : BitProgram α → Prop where
  | done {a : α} (holds : Q a) : Ends Q (done a)
  | bit {k : Bool → BitProgram α} (each : ∀ b, Ends Q (k b)) : Ends Q (bit k)
  | ones {k : Nat → BitProgram α} (each : ∀ n, Ends Q (k n)) : Ends Q (ones k)

section Ends

variable {P : α → Prop} {Q : β → Prop} {p : BitProgram α}

theorem ends_pure {a : α} (holds : P a) : Ends P (pure a) := .done holds

/-- Where a decoder gives up, nothing is asked of it. -/
theorem ends_none : Ends (fun o => ∀ a ∈ o, P a) (pure none) := ends_pure fun _ absent => by cases absent

theorem ends_some {a : α} (holds : P a) : Ends (fun o => ∀ a ∈ o, P a) (pure (some a)) := by
  apply ends_pure
  rintro _ ⟨⟩
  exact holds

theorem Ends.bind {f : α → BitProgram β} (first : Ends P p) (later : ∀ a, P a → Ends Q (f a)) : Ends Q (p >>= f) := by
  induction first with
  | done holds => exact later _ holds
  | bit _ ih => exact .bit ih
  | ones _ ih => exact .ones ih

theorem Ends.optionMap {o : BitProgram (Option α)} {f : α → β} (first : Ends (fun o => ∀ a ∈ o, Q (f a)) o) :
    Ends (fun o => ∀ b ∈ o, Q b) (o >>= fun o => pure (o.map f)) := by
  refine first.bind fun o each => ends_pure fun b member => ?_
  obtain ⟨a, there, rfl⟩ := Option.mem_map.mp member
  exact each a there

theorem ends_bind (p : BitProgram α) {f : α → BitProgram β} (later : ∀ a, Ends Q (f a)) : Ends Q (p >>= f) := by
  induction p with
  | done a => exact later a
  | bit k ih => exact .bit ih
  | ones k ih => exact .ones ih

theorem ends_ite {c : Prop} [Decidable c] {q : BitProgram α} (left : c → Ends P p) (right : ¬ c → Ends P q) :
    Ends P (if c then p else q) := by
  split
  next holds => exact left holds
  next fails => exact right fails

theorem Ends.mono {P' : α → Prop} (ends : Ends P p) (weaker : ∀ a, P a → P' a) : Ends P' p := by
  induction ends with
  | done holds => exact .done (weaker _ holds)
  | bit _ ih => exact .bit ih
  | ones _ ih => exact .ones ih

theorem Ends.and {P' : α → Prop} (first : Ends P p) (second : Ends P' p) : Ends (fun a => P a ∧ P' a) p := by
  induction first with
  | done holds =>
    cases second with
    | done holds' => exact .done ⟨holds, holds'⟩
  | bit _ ih =>
    cases second with
    | bit each => exact .bit fun b => ih b (each b)
  | ones _ ih =>
    cases second with
    | ones each => exact .ones fun n => ih n (each n)

theorem Ends.run (ends : Ends P p) (src : BitSource σ) (s : σ) : P (p.run src s).1 := by
  induction ends generalizing s with
  | done holds => exact holds
  | bit _ ih => exact ih _ _
  | ones _ ih => exact ih _ _

/-- A decoder is in step with itself, with what it can end with. -/
theorem Ends.inStep (ends : Ends P p) : InStep (fun a b => a = b ∧ P a) p p := by
  induction ends with
  | done holds => exact .done ⟨rfl, holds⟩
  | bit _ ih => exact .bit ih
  | ones _ ih => exact .ones ih

private theorem ends_getBitsOnto (acc n : Nat) : Ends (· < (acc + 1) * 2 ^ n) (getBitsOnto acc n) := by
  induction n generalizing acc with
  | zero =>
    rw [Nat.pow_zero, Nat.mul_one]
    exact ends_pure (Nat.lt_succ_self acc)
  | succ n ih =>
    apply ends_bind
    intro b
    refine (ih (2 * acc + b.toNat)).mono fun v small => Nat.lt_of_lt_of_le small ?_
    have bit := b.toNat_lt
    rw [Nat.pow_succ', ← Nat.mul_assoc]
    exact Nat.mul_le_mul_right _ (by omega)

theorem ends_getBits (n : Nat) : Ends (· < 2 ^ n) (getBits n) := by
  have ends := ends_getBitsOnto 0 n
  rwa [Nat.zero_add, Nat.one_mul] at ends

end Ends

/-! ### Numbers -/

/-- The number that a list of bits stands for after the bits in `acc`. -/
def numberOnto (acc : Nat) (l : List Bool) : Nat := l.foldl (fun acc b => 2 * acc + b.toNat) acc

def number (l : List Bool) : Nat := numberOnto 0 l

/-- The `n` lowest binary digits, most significant first. -/
def digits (n v : Nat) : List Bool := (List.range n).map fun i => v.testBit (n - 1 - i)

@[simp] theorem number_concat (l : List Bool) (b : Bool) : number (l ++ [b]) = 2 * number l + b.toNat := by
  simp [number, numberOnto]

theorem number_lt (l : List Bool) : number l < 2 ^ l.length := by
  induction l using List.reverseRecOn with
  | nil => decide
  | append_singleton l b ih =>
    have bit := b.toNat_lt
    rw [number_concat, List.length_append, List.length_singleton, Nat.pow_succ]
    omega

theorem digits_succ (n v : Nat) : digits (n + 1) v = digits n (v / 2) ++ [v.testBit 0] := by
  have higher (i : Nat) (inside : i < n) : v.testBit (n - i) = (v / 2).testBit (n - 1 - i) := by
    rw [show n - i = n - 1 - i + 1 by omega, Nat.testBit_succ]
  have earlier : (List.range n).map (fun i => v.testBit (n - i)) = digits n (v / 2) :=
    List.map_congr_left fun i member => higher i (List.mem_range.mp member)
  simp only [digits, Nat.add_sub_cancel, List.range_succ, List.map_append, List.map_cons, List.map_nil,
    Nat.sub_self, earlier]

theorem length_digits (n v : Nat) : (digits n v).length = n := by simp [digits]

theorem digits_number {n : Nat} {l : List Bool} (length : l.length = n) : digits n (number l) = l := by
  subst length
  induction l using List.reverseRecOn with
  | nil => rfl
  | append_singleton l b ih =>
    have bit := b.toNat_lt
    have rest : (2 * number l + b.toNat) / 2 = number l := by omega
    have lowest : (2 * number l + b.toNat).testBit 0 = b := by
      cases b <;> simp
    rw [number_concat, List.length_append, List.length_singleton, digits_succ, rest, lowest, ih]

theorem number_digits {n v : Nat} (small : v < 2 ^ n) : number (digits n v) = v := by
  induction n generalizing v with
  | zero =>
    have zero : v = 0 := Nat.lt_one_iff.mp small
    subst zero
    rfl
  | succ n ih =>
    rw [Nat.pow_succ] at small
    have lowest : (v.testBit 0).toNat = v % 2 := by
      rw [Nat.testBit_zero]
      rcases Nat.mod_two_eq_zero_or_one v with zero | one
      · simp [zero]
      · simp [one]
    rw [digits_succ, number_concat, ih (by omega), lowest]
    omega

@[simp] theorem length_takeBits (src : BitSource σ) (n : Nat) (s : σ) : (run src (takeBits n) s).1.length = n := by
  induction n generalizing s with
  | zero => rfl
  | succ n ih =>
    simp only [takeBits, run_bind]
    exact congrArg (· + 1) (ih _)

theorem run_takeBits_add (src : BitSource σ) (m n : Nat) (s : σ) :
    run src (takeBits (m + n)) s =
      ((run src (takeBits m) s).1 ++ (run src (takeBits n) (run src (takeBits m) s).2).1,
        (run src (takeBits n) (run src (takeBits m) s).2).2) := by
  induction m generalizing s with
  | zero =>
    rw [Nat.zero_add]
    rfl
  | succ m ih =>
    rw [Nat.succ_add]
    simp only [takeBits, run_bind, ih]
    rfl

private theorem run_getBitsOnto (src : BitSource σ) (acc n : Nat) (s : σ) :
    run src (getBitsOnto acc n) s =
      (numberOnto acc (run src (takeBits n) s).1, (run src (takeBits n) s).2) := by
  induction n generalizing acc s with
  | zero => rfl
  | succ n ih =>
    simp only [takeBits, getBitsOnto, run_bind, ih]
    rfl

theorem run_getBits (src : BitSource σ) (n : Nat) (s : σ) :
    run src (getBits n) s = (number (run src (takeBits n) s).1, (run src (takeBits n) s).2) :=
  run_getBitsOnto src 0 n s

/-- What every single bit read does to the source, up to composition, a whole decoder does. -/
theorem run_reach (src : BitSource σ) {R : σ → σ → Prop} (refl : ∀ s, R s s)
    (trans : ∀ s t u, R s t → R t u → R s u) (step : ∀ s, R s (src.bit s).2)
    (p : BitProgram α) (s : σ) : R s (run src p s).2 := by
  have ones (s : σ) : R s (src.ones s).2 := by
    refine src.ones_induct (P := fun s => R s (src.ones s).2) ?_ ?_ s
    · intro s zero
      rw [src.ones_eq, if_neg (by simp [zero])]
      exact step s
    · intro s one later
      rw [src.ones_eq, if_pos one]
      exact trans _ _ _ (step s) later
  induction p generalizing s with
  | done a => exact refl s
  | bit k ih => exact trans _ _ _ (step s) (ih _ _)
  | ones k ih => exact trans _ _ _ (ones s) (ih _ _)

section Local

variable (src : BitSource σ) (src' : BitSource τ) (Rel : σ → τ → Prop) (Inside : τ → Prop)

/-- Two sources give a decoder the same bits as long as the second stays inside the
region where they agree. -/
theorem run_local (back : ∀ t, Inside (src'.bit t).2 → Inside t)
    (step : ∀ s t, Rel s t → Inside (src'.bit t).2 →
      (src.bit s).1 = (src'.bit t).1 ∧ Rel (src.bit s).2 (src'.bit t).2)
    (p : BitProgram α) (s : σ) (t : τ) (related : Rel s t) (inside : Inside (run src' p t).2) :
    (run src p s).1 = (run src' p t).1 ∧ Rel (run src p s).2 (run src' p t).2 := by
  -- What ends inside has started inside.
  have started {u v : τ} {γ : Type} (q : BitProgram γ) (at_end : (run src' q u).2 = v)
      (h : Inside v) : Inside u :=
    run_reach src' (R := fun t u => Inside u → Inside t) (fun _ h => h)
      (fun _ _ _ f g h => f (g h)) back q u (at_end ▸ h)
  have ones (t : τ) : ∀ s, Rel s t → Inside (src'.ones t).2 →
      (src.ones s).1 = (src'.ones t).1 ∧ Rel (src.ones s).2 (src'.ones t).2 := by
    refine src'.ones_induct (P := fun t => ∀ s, Rel s t → Inside (src'.ones t).2 →
      (src.ones s).1 = (src'.ones t).1 ∧ Rel (src.ones s).2 (src'.ones t).2) ?_ ?_ t
    · intro t zero s related inside
      rw [src'.ones_eq, if_neg (by simp [zero])] at inside ⊢
      obtain ⟨same, after⟩ := step s t related inside
      rw [src.ones_eq, if_neg (by simp [same, zero])]
      exact ⟨rfl, after⟩
    · intro t one later s related inside
      rw [src'.ones_eq, if_pos one] at inside ⊢
      obtain ⟨same, after⟩ := step s t related (started getOnes rfl inside)
      obtain ⟨count, rest⟩ := later _ after inside
      rw [src.ones_eq, if_pos (by rw [same]; exact one), count]
      exact ⟨rfl, rest⟩
  induction p generalizing s t with
  | done a => exact ⟨rfl, related⟩
  | bit k ih =>
    obtain ⟨same, after⟩ := step s t related (started (k _) rfl inside)
    simp only [run]
    rw [same]
    exact ih _ _ _ after inside
  | ones k ih =>
    obtain ⟨same, after⟩ := ones t s related (started (k _) rfl inside)
    simp only [run]
    rw [same]
    exact ih _ _ _ after inside

end Local

/-! ### Lists of bits -/

/-- A decoder takes just these bits and ends with this result. -/
inductive Reads : BitProgram α → List Bool → α → Prop
  | done (a : α) : Reads (done a) [] a
  | bit {k : Bool → BitProgram α} {b : Bool} {l : List Bool} {a : α} (rest : Reads (k b) l a) :
    Reads (bit k) (b :: l) a
  | ones {k : Nat → BitProgram α} (n : Nat) {l : List Bool} {a : α} (rest : Reads (k n) l a) :
    Reads (ones k) (List.replicate n true ++ false :: l) a

theorem reads_pure (a : α) : Reads (pure a) [] a := .done a

theorem reads_getBit (b : Bool) : Reads getBit [b] b := .bit (.done b)

theorem reads_getOnes (n : Nat) : Reads getOnes (List.replicate n true ++ [false]) n := .ones n (.done n)

theorem Reads.bind {p : BitProgram α} {f : α → BitProgram β} {l l' : List Bool} {a : α} {b : β}
    (first : Reads p l a) (second : Reads (f a) l' b) : Reads (p >>= f) (l ++ l') b := by
  change Reads (BitProgram.bind p f) _ _
  induction first with
  | done a => exact second
  | bit rest ih => exact .bit (ih second)
  | ones n rest ih =>
    rw [List.append_assoc, List.cons_append]
    exact .ones n (ih second)

theorem Reads.bind_nil {p : BitProgram α} {f : α → BitProgram β} {l : List Bool} {a : α} {b : β}
    (first : Reads p l a) (second : Reads (f a) [] b) : Reads (p >>= f) l b := by
  have both := first.bind second
  rwa [List.append_nil] at both

theorem Reads.map {p : BitProgram α} {l : List Bool} {a : α} (reads : Reads p l a) (f : α → β) :
    Reads (p >>= fun a => pure (f a)) l (f a) := reads.bind_nil (reads_pure (f a))

private theorem reads_getBitsOnto (acc : Nat) (l : List Bool) :
    Reads (getBitsOnto acc l.length) l (numberOnto acc l) := by
  induction l generalizing acc with
  | nil => exact .done acc
  | cons b l ih => exact (reads_getBit b).bind (ih (2 * acc + b.toNat))

/-- A number is written with its binary digits. -/
theorem reads_getBits {n v : Nat} (small : v < 2 ^ n) : Reads (getBits n) (digits n v) v := by
  have reads := reads_getBitsOnto 0 (digits n v)
  rw [length_digits] at reads
  have value : numberOnto 0 (digits n v) = v := number_digits small
  rwa [value] at reads

/-- A source whose states stand for lists of bits gives a decoder what it reads from the list. -/
theorem run_of_reads (src : BitSource σ) (Rel : σ → List Bool → Prop)
    (step : ∀ s b l, Rel s (b :: l) → (src.bit s).1 = b ∧ Rel (src.bit s).2 l)
    {p : BitProgram α} {l : List Bool} {a : α} (reads : Reads p l a) {s : σ} {rest : List Bool}
    (related : Rel s (l ++ rest)) : (run src p s).1 = a ∧ Rel (run src p s).2 rest := by
  have ones (n : Nat) (s : σ) (l : List Bool) (related : Rel s (List.replicate n true ++ false :: l)) :
      (src.ones s).1 = n ∧ Rel (src.ones s).2 l := by
    induction n generalizing s with
    | zero =>
      obtain ⟨zero, next⟩ := step s false l related
      rw [src.ones_eq, if_neg (by simp [zero])]
      exact ⟨rfl, next⟩
    | succ n ih =>
      obtain ⟨one, next⟩ := step s true _ related
      obtain ⟨count, behind⟩ := ih _ next
      rw [src.ones_eq, if_pos one]
      exact ⟨congrArg (· + 1) count, behind⟩
  induction reads generalizing s with
  | done a => exact ⟨rfl, related⟩
  | bit _ ih =>
    obtain ⟨same, next⟩ := step s _ _ related
    simp only [run, same]
    exact ih next
  | ones n _ ih =>
    rw [List.append_assoc, List.cons_append] at related
    obtain ⟨count, next⟩ := ones n s _ related
    simp only [run, count]
    exact ih next

/-! ### Tapes -/

/-- A list of bits as a source; the state counts the bits read. Behind the list there are zeros. -/
def tape (bits : List Bool) : BitSource Nat where
  bit p := (bits.getD p false, p + 1)
  fuel p := bits.length - p
  fuel_lt := by
    intro p one
    have inside : p < bits.length := by
      by_contra beyond
      rw [List.getD_eq_default _ _ (Nat.le_of_not_lt beyond)] at one
      cases one
    omega

@[simp] theorem run_getBit_tape (bits : List Bool) (p : Nat) :
    run (tape bits) getBit p = (bits.getD p false, p + 1) := rfl

theorem le_run_tape (bits : List Bool) (p : BitProgram α) (n : Nat) : n ≤ (run (tape bits) p n).2 :=
  run_reach (tape bits) (R := (· ≤ ·)) Nat.le_refl (fun _ _ _ => Nat.le_trans) (fun n => Nat.le_succ n) p n

end BitProgram

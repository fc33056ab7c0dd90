import RtpDecoder.Parser.Structure

/-!
# What one stream leaves behind for the next

The marker structs of a tile handler are never cleared. When a second main header is
processed, every entry that it does not write still has the value of the first stream. A
`Leftover` says which entries may differ from those of a new handler; two runs of the same
header, on the old and on a new handler, agree on all the others as long as no such entry
decides how the header is read.
-/

namespace RtpDecoder.Parser

open Header

/-- The entries that may differ from those of a new handler. Entries that neither the
parser nor `create` reads do not occur. -/
structure Leftover where
  frame : Bool
  sampling : Bool
  codNL : Bool
  codPrec : Nat → Bool
  order : Bool
  style : Nat → Bool
  prec : Nat → Nat → Bool
  idfs : Bool
  type : Nat → Bool
  depth : Nat → Bool

namespace Leftover

/-- All entries of a handler that are not as in a new one. -/
def ofMarkers (m : Markers) : Leftover where
  frame := !decide (m.siz.frame = {})
  sampling := !decide (m.siz.xRsiz = .replicate _ 0 ∧ m.siz.yRsiz = .replicate _ 0)
  codNL := !decide (m.cod.nl = 0)
  codPrec i := !decide (entry m.cod.prw i = 0 ∧ entry m.cod.prh i = 0)
  order := !decide ((m.coc 0).progressionOrder = 0)
  style c := !decide ((m.coc c).nl = 0 ∧ (m.coc c).cbw = 0 ∧ (m.coc c).cbh = 0)
  prec c i := !decide (entry (m.coc c).prw i = 0 ∧ entry (m.coc c).prh i = 0)
  idfs := !decide (m.dfs.idfs = 0)
  type i := !decide (entry m.dfs.type i = 0)
  depth i := !decide (entry m.dfs.horDepth i = 0 ∧ entry m.dfs.verDepth i = 0)

/-- Whether the tail of a coding style writes precinct size `i`. -/
def sized (tail : Option StyleTail) (i : Nat) : Bool :=
  match tail with
  | none => false
  | some tail => decide (i < tail.sizes.length)

/-- What is left after a segment was stored. -/
def settle (l : Leftover) : MarkerSegment → Leftover
  | .siz _ components =>
    { l with frame := false
             sampling := l.sampling && decide (components.length < maxNumComponents) }
  | .cod _ _ _ style tail =>
    let codPrec i := l.codPrec i && !sized tail i
    { l with
      codNL := false
      codPrec := codPrec
      order := false
      style := fun _ => false
      -- `copy_cod` hands on what the COD itself may have kept.
      prec := fun c i => if i ≤ style.nl then codPrec i else l.prec c i }
  | .coc c _ tail =>
    { l with
      style := fun c' => l.style c' && decide (c' ≠ c)
      prec := fun c' i => l.prec c' i && !(decide (c' = c) && sized tail i) }
  | .dfs _ idfs types =>
    { l with
      idfs := false
      type := fun i => l.type i && !(decide (1 ≤ i) && decide (i ≤ types.length))
      depth := fun i => l.depth i && decide (idfs < i) }
  | .qcd _ _ _ => l
  | .skipped => l

/-- Whether such an entry decides how the segment of a marker is read. -/
def steers (l : Leftover) (m : Markers) (marker : Nat) : Bool :=
  -- `Rsiz` decides about the word of the SSO overlap.
  if marker = MarkerCode.cod ∨ marker = MarkerCode.coc then l.frame
  else if marker = MarkerCode.qcd then
    -- `NL` and the types of its levels decide how many steps there are.
    l.codNL || (List.range (max 1 m.cod.nl)).any fun k => l.type (k + 1)
  else false

/-- What is left after a header, read by a handler with the marker structs `m`; nothing
when an entry that is left decides how the header is read. -/
def survey : Nat → Leftover → Markers → Codestream → Option Leftover
  | 0, _, _, _ => none
  | fuel + 1, l, m, s =>
    let marker := s.getWord.1.toNat
    if marker = MarkerCode.sod then some l
    else if l.steers m marker then none
    else match (parseSegment m marker).run s.getWord.2 with
      | none => none
      | some (seg, t) => survey fuel (l.settle seg) (seg.store m) t

end Leftover

/-! ### Agreement -/

/-- Two sets of marker structs agree on all entries that are not left over; the types of the
DFS agree on no others. -/
structure Agree (l : Leftover) (m n : Markers) : Prop where
  frame : l.frame = false → m.siz.frame = n.siz.frame
  sampling : l.sampling = false → ∀ c, entry m.siz.xRsiz c = entry n.siz.xRsiz c ∧
    entry m.siz.yRsiz c = entry n.siz.yRsiz c
  codNL : l.codNL = false → m.cod.nl = n.cod.nl
  codPrec : ∀ i, l.codPrec i = false → entry m.cod.prw i = entry n.cod.prw i ∧
    entry m.cod.prh i = entry n.cod.prh i
  order : l.order = false → (m.coc 0).progressionOrder = (n.coc 0).progressionOrder
  style : ∀ c, l.style c = false → (m.coc c).nl = (n.coc c).nl ∧
    (m.coc c).cbw = (n.coc c).cbw ∧ (m.coc c).cbh = (n.coc c).cbh
  prec : ∀ c i, l.prec c i = false → entry (m.coc c).prw i = entry (n.coc c).prw i ∧
    entry (m.coc c).prh i = entry (n.coc c).prh i
  idfs : l.idfs = false → m.dfs.idfs = n.dfs.idfs
  type : ∀ i, l.type i = false ↔ entry m.dfs.type i = entry n.dfs.type i
  depth : ∀ i, l.depth i = false → entry m.dfs.horDepth i = entry n.dfs.horDepth i ∧
    entry m.dfs.verDepth i = entry n.dfs.verDepth i

private theorem of_clean {p : Prop} [Decidable p] (clean : (!decide p) = false) : p := by
  simpa using clean

/-- A new handler and one that was used agree on what is not left over from its use. -/
theorem Agree.fresh (m : Markers) : Agree (.ofMarkers m) {} m where
  frame clean := (of_clean clean).symm
  sampling clean c := by
    rw [(of_clean clean).1, (of_clean clean).2]
    exact ⟨rfl, rfl⟩
  codNL clean := (of_clean clean).symm
  codPrec i clean :=
    ⟨(entry_replicate _ i).trans (of_clean clean).1.symm,
      (entry_replicate _ i).trans (of_clean clean).2.symm⟩
  order clean := (of_clean clean).symm
  style c clean := by
    rw [Markers.coc_fresh]
    exact ⟨(of_clean clean).1.symm, (of_clean clean).2.1.symm, (of_clean clean).2.2.symm⟩
  prec c i clean := by
    rw [Markers.coc_fresh]
    exact ⟨(entry_replicate _ i).trans (of_clean clean).1.symm,
      (entry_replicate _ i).trans (of_clean clean).2.symm⟩
  idfs clean := (of_clean clean).symm
  type i := by
    have zero : entry ({} : Markers).dfs.type i = 0 := entry_replicate _ i
    simp only [Leftover.ofMarkers, Bool.not_eq_false', decide_eq_true_eq, zero]
    exact eq_comm
  depth i clean :=
    ⟨(entry_replicate _ i).trans (of_clean clean).1.symm,
      (entry_replicate _ i).trans (of_clean clean).2.symm⟩

/-! ### Storing a segment -/

namespace Agree

variable {l : Leftover} {m n : Markers}

/-- Precinct sizes that a tail does not write are as they were. -/
private theorem setTail_prec (tail : Option StyleTail) {a b : CodMarker} {i : Nat}
    (kept : Leftover.sized tail i = false → entry a.prw i = entry b.prw i ∧ entry a.prh i = entry b.prh i) :
    entry (a.setTail tail).prw i = entry (b.setTail tail).prw i ∧
      entry (a.setTail tail).prh i = entry (b.setTail tail).prh i := by
  cases tail with
  | none => exact kept rfl
  | some tail =>
    have unsized : (i < 0 ∨ 0 + tail.sizes.length ≤ i) → Leftover.sized (some tail) i = false := by
      intro outside
      simp only [Leftover.sized, decide_eq_false_iff_not]
      omega
    constructor
    · apply entry_fillFrom_congr
      rw [List.length_map]
      exact fun outside => (kept (unsized outside)).1
    · apply entry_fillFrom_congr
      rw [List.length_map]
      exact fun outside => (kept (unsized outside)).2

private theorem store_siz (agree : Agree l m n) (frame : SizMarker)
    (components : List (Nat × Nat × Nat)) :
    Agree (l.settle (.siz frame components)) ((MarkerSegment.siz frame components).store m)
      ((MarkerSegment.siz frame components).store n) :=
  { agree with
    frame := fun _ => rfl
    sampling := by
      intro clean c
      simp only [Leftover.settle, Bool.and_eq_false_iff, decide_eq_false_iff_not] at clean
      have kept : (c < 0 ∨ 0 + components.length ≤ c) →
          entry m.siz.xRsiz c = entry n.siz.xRsiz c ∧ entry m.siz.yRsiz c = entry n.siz.yRsiz c := by
        intro outside
        rcases clean with clean | full
        · exact agree.sampling clean c
        · have beyond : maxNumComponents ≤ c := by omega
          simp only [entry_beyond _ beyond, and_self]
      constructor
      · apply entry_fillFrom_congr
        rw [List.length_map]
        exact fun outside => (kept outside).1
      · apply entry_fillFrom_congr
        rw [List.length_map]
        exact fun outside => (kept outside).2 }

private theorem store_cod (agree : Agree l m n) (progressionOrder numLayers mct : Nat) (style : Style)
    (tail : Option StyleTail) :
    Agree (l.settle (.cod progressionOrder numLayers mct style tail))
      ((MarkerSegment.cod progressionOrder numLayers mct style tail).store m)
      ((MarkerSegment.cod progressionOrder numLayers mct style tail).store n) := by
  set seg := MarkerSegment.cod progressionOrder numLayers mct style tail with seg_def
  -- The COD that is stored, and then copied into every component.
  have codPrec : ∀ i, (l.settle seg).codPrec i = false →
      entry (seg.store m).cod.prw i = entry (seg.store n).cod.prw i ∧
        entry (seg.store m).cod.prh i = entry (seg.store n).cod.prh i := by
    intro i clean
    apply setTail_prec
    intro unsized
    simp only [seg_def, Leftover.settle, unsized, Bool.not_false, Bool.and_true] at clean
    exact agree.codPrec i clean
  have nl : ∀ k : Markers, (seg.store k).cod.nl = style.nl := fun k => CodMarker.setTail_nl _ tail
  have head : ∀ k : Markers, (seg.store k).cod.cbw = style.cbw ∧ (seg.store k).cod.cbh = style.cbh ∧
      (seg.store k).cod.progressionOrder = progressionOrder := by
    intro k
    cases tail <;> exact ⟨rfl, rfl, rfl⟩
  have coc : ∀ (k : Markers) {c : Nat}, c < maxNumComponents →
      (seg.store k).coc c = copyCod (seg.store k).cod (k.coc c) := fun k c inside =>
    MarkerSegment.store_cod_coc k progressionOrder numLayers mct style tail inside
  refine { agree with codNL := ?_, codPrec := codPrec, order := ?_, style := ?_, prec := ?_ }
  · intro _
    rw [nl, nl]
  · intro _
    rw [coc m (by decide), coc n (by decide)]
    exact (head m).2.2.trans (head n).2.2.symm
  · intro c _
    by_cases inside : c < maxNumComponents
    · rw [coc m inside, coc n inside]
      exact ⟨(nl m).trans (nl n).symm, (head m).1.trans (head n).1.symm,
        (head m).2.1.trans (head n).2.1.symm⟩
    · rw [Markers.coc_beyond _ (Nat.not_lt.mp inside), Markers.coc_beyond _ (Nat.not_lt.mp inside)]
      exact ⟨rfl, rfl, rfl⟩
  · intro c i clean
    by_cases inside : c < maxNumComponents
    · rw [coc m inside, coc n inside]
      simp only [copyCod, entry_copied, nl]
      change (if i ≤ style.nl then (l.settle seg).codPrec i else l.prec c i) = false at clean
      split at clean
      next copied =>
        have copied : i < style.nl + 1 := by omega
        simp only [copied, if_true]
        exact codPrec i clean
      next beyond =>
        have beyond : ¬ i < style.nl + 1 := by omega
        simp only [beyond, if_false]
        exact agree.prec c i clean
    · rw [Markers.coc_beyond _ (Nat.not_lt.mp inside), Markers.coc_beyond _ (Nat.not_lt.mp inside)]
      exact ⟨rfl, rfl⟩

/-- Only a component beyond `cocs` is not set by its own COC. -/
private theorem beyond_of_unset {c c' : Nat} (other : ¬ (c = c' ∧ c < maxNumComponents))
    (same : c' = c) : maxNumComponents ≤ c' := by
  subst same
  exact Nat.not_lt.mp fun inside => other ⟨rfl, inside⟩

private theorem store_coc (agree : Agree l m n) (c : Nat) (style : Style) (tail : Option StyleTail) :
    Agree (l.settle (.coc c style tail)) ((MarkerSegment.coc c style tail).store m)
      ((MarkerSegment.coc c style tail).store n) := by
  refine { agree with order := ?_, style := ?_, prec := ?_ }
  · intro clean
    have same := agree.order clean
    rw [MarkerSegment.store_coc_coc, MarkerSegment.store_coc_coc]
    split
    next here =>
      rw [here.1]
      cases tail <;> exact same
    · exact same
  · intro c' clean
    rw [MarkerSegment.store_coc_coc, MarkerSegment.store_coc_coc]
    split
    next here =>
      rw [CocMarker.setCoc_toCodMarker, CocMarker.setCoc_toCodMarker]
      cases tail <;> exact ⟨rfl, rfl, rfl⟩
    next other =>
      by_cases same : c' = c
      · have beyond := beyond_of_unset other same
        rw [Markers.coc_beyond _ beyond, Markers.coc_beyond _ beyond]
        exact ⟨rfl, rfl, rfl⟩
      · simp only [Leftover.settle, ne_eq, same, not_false_eq_true, decide_true, Bool.and_true] at clean
        exact agree.style c' clean
  · intro c' i clean
    rw [MarkerSegment.store_coc_coc, MarkerSegment.store_coc_coc]
    split
    next here =>
      rw [CocMarker.setCoc_toCodMarker, CocMarker.setCoc_toCodMarker]
      apply setTail_prec
      intro unsized
      simp only [Leftover.settle, unsized, Bool.and_false, Bool.not_false, Bool.and_true] at clean
      rw [here.1]
      exact agree.prec c' i clean
    next other =>
      by_cases same : c' = c
      · have beyond := beyond_of_unset other same
        rw [Markers.coc_beyond _ beyond, Markers.coc_beyond _ beyond]
        exact ⟨rfl, rfl⟩
      · simp only [Leftover.settle, same, decide_false, Bool.false_and, Bool.not_false,
          Bool.and_true] at clean
        exact agree.prec c' i clean

private theorem store_dfs (agree : Agree l m n) (idx idfs : Nat) (types : List Nat) :
    Agree (l.settle (.dfs idx idfs types)) ((MarkerSegment.dfs idx idfs types).store m)
      ((MarkerSegment.dfs idx idfs types).store n) := by
  refine { agree with idfs := fun _ => rfl, type := ?_, depth := ?_ }
  · intro i
    change (l.type i && !(decide (1 ≤ i) && decide (i ≤ types.length))) = false ↔
      entry (fillFrom m.dfs.type 1 types) i = entry (fillFrom n.dfs.type 1 types) i
    -- A type is either written on both sides or kept on both.
    by_cases written : 1 ≤ i ∧ i ≤ types.length
    · simp only [written.1, written.2, decide_true, Bool.and_true, Bool.not_true, Bool.and_false,
        true_iff]
      exact entry_fillFrom_congr fun outside => absurd written (by omega)
    · have outside : i < 1 ∨ 1 + types.length ≤ i := by omega
      rw [entry_fillFrom_kept _ outside, entry_fillFrom_kept _ outside, ← agree.type i,
        ← Bool.decide_and, decide_eq_false written, Bool.not_false, Bool.and_true]
  · intro i clean
    have kept : (i < 0 ∨ 0 + (idfs + 1) ≤ i) → l.depth i = false := by
      intro outside
      have later : idfs < i := by omega
      simpa only [Leftover.settle, later, decide_true, Bool.and_true] using clean
    constructor
    · apply entry_fillFrom_congr
      rw [List.length_map, List.length_range]
      exact fun outside => (agree.depth i (kept outside)).1
    · apply entry_fillFrom_congr
      rw [List.length_map, List.length_range]
      exact fun outside => (agree.depth i (kept outside)).2

theorem store (agree : Agree l m n) (seg : MarkerSegment) : Agree (l.settle seg) (seg.store m) (seg.store n) := by
  cases seg with
  | siz frame components => exact agree.store_siz frame components
  | cod progressionOrder numLayers mct style tail =>
    exact agree.store_cod progressionOrder numLayers mct style tail
  | coc c style tail => exact agree.store_coc c style tail
  | dfs idx idfs types => exact agree.store_dfs idx idfs types
  | qcd type numGuardBits steps => exact { agree with }
  | skipped => exact agree

end Agree

end RtpDecoder.Parser

import RtpDecoder.Header.Layout
import RtpDecoder.Parser.Structure

/-!
# Which headers are safe

The array accesses of `parse_main_header`, and what the header that it accepts must say for
the divisions and table lookups of `create` to be defined. Both are compared with conditions
on the bytes: no segment may be faulty, and the segments that the last word on sampling and
levels belongs to must say something that can be used.
-/

namespace RtpDecoder.Header

open RtpDecoder.Parser (Chunk Codestream chainBytes)

variable {mh : List UInt8}

/-! ### The segments of a header -/

/-- The segments that `parse_main_header` goes through from `off` on, each with the marker
structs that it finds, and the offset of the marker that ends the loop. -/
def segmentsFrom (mh : List UInt8) : Nat → Markers → Nat → List (Markers × Nat) × Nat
  | 0, _, off => ([], off)
  | fuel + 1, m, off =>
    let marker := rd16 mh off
    if marker = MarkerCode.sod ∨ MarkerCode.legal marker = false then ([], off)
    else
      let rest := segmentsFrom mh fuel (m.after mh marker (off + 2))
        (off + 2 + segmentLength m.context mh marker (off + 2))
      ((m, off) :: rest.1, rest.2)

/-- The marker structs after the segments at some offsets. -/
def Markers.afterAll (mh : List UInt8) (m : Markers) (offs : List Nat) : Markers :=
  offs.foldl (fun m off => m.after mh (rd16 mh off) (off + 2)) m

def FaultyAt (mh : List UInt8) (off : Nat) : Prop := Faulty mh (rd16 mh off) (off + 2)

instance (mh : List UInt8) (off : Nat) : Decidable (FaultyAt mh off) :=
  inferInstanceAs (Decidable (Faulty _ _ _))

/-- The loop of `parse_main_header` goes through these segments, up to a faulty one. -/
theorem scanMarkers_segments (fuel : Nat) {off : Nat} {m : Markers} {s : Codestream}
    (here : StandsAt mh off s) (enough : s.remaining < fuel) :
    let w := segmentsFrom mh fuel m off
    (∃ seg ∈ w.1, FaultyAt mh seg.2) ∧ scanMarkers fuel m s = none ∨
    (∀ seg ∈ w.1, ¬ FaultyAt mh seg.2) ∧ ∃ t, StandsAt mh (w.2 + 2) t ∧
      scanMarkers fuel m s =
        some (decide (rd16 mh w.2 = MarkerCode.sod), m.afterAll mh (w.1.map Prod.snd), t) := by
  -- Every marker takes a byte, so that the fuel is never used up.
  induction fuel generalizing off m s with
  | zero => omega
  | succ fuel ih =>
    obtain ⟨word, behind⟩ := here.getWord
    simp only [segmentsFrom, scanMarkers, word]
    by_cases sod : rd16 mh off = MarkerCode.sod
    · right
      simp only [sod, true_or, if_true]
      exact ⟨by simp, _, behind, rfl⟩
    by_cases legal : MarkerCode.legal (rd16 mh off) = false
    · right
      simp only [legal, or_true, if_true, sod, if_false, Bool.not_false]
      exact ⟨by simp, _, behind, by simp [Markers.afterAll]⟩
    have accepted : MarkerCode.legal (rd16 mh off) = true := by simpa using legal
    simp only [sod, accepted, Bool.true_eq_false, or_self, Bool.not_true, Bool.false_eq_true, if_false]
    by_cases faulty : Faulty mh (rd16 mh off) (off + 2)
    · left
      rw [fails_parseSegment m faulty _ behind]
      exact ⟨⟨_, List.mem_cons_self, faulty⟩, rfl⟩
    · obtain ⟨u, read, there⟩ := gives_parseSegment m faulty _ behind
      have taken := remaining_of_legal (by rw [word]; exact accepted)
      have moved := ((parseSegment m (rd16 mh off)).forward read).2
      rw [read]
      rcases ih there (m := m.after mh (rd16 mh off) (off + 2)) (by omega) with
        ⟨⟨seg, member, bad⟩, stopped⟩ | ⟨sound, t, after, scanned⟩
      · exact .inl ⟨⟨seg, List.mem_cons_of_mem _ member, bad⟩, stopped⟩
      · refine .inr ⟨?_, t, after, scanned⟩
        intro seg member
        rcases List.mem_cons.mp member with rfl | member
        · exact faulty
        · exact sound seg member

/-- The segments of a header; without SOC there are none, and the loop is not entered. -/
def headerSegments (m : Markers) (mh : List UInt8) : List (Markers × Nat) × Nat :=
  if rd16 mh 0 = MarkerCode.soc then segmentsFrom mh (mh.length + 1) m 2 else ([], mh.length)

/-- The loop ends at SOD. -/
def ReachesSod (m : Markers) (mh : List UInt8) : Prop :=
  rd16 mh (headerSegments m mh).2 = MarkerCode.sod

instance (m : Markers) (mh : List UInt8) : Decidable (ReachesSod m mh) :=
  inferInstanceAs (Decidable (_ = _))

private theorem rd16_beyond (mh : List UInt8) : rd16 mh mh.length = 0 := by
  simp [rd16, List.getD]

private theorem StandsAt.remaining_le {off : Nat} {s : Codestream}
    (here : StandsAt mh off s) : s.remaining ≤ mh.length := by
  rw [← here.bytes, Parser.length_chainBytes]
  have cut : Parser.chainLength s.chunks =
      Parser.chainLength (s.chunks.take s.curChunk) + Parser.chainLength (s.chunks.drop s.curChunk) := by
    conv_lhs => rw [← List.take_append_drop s.curChunk s.chunks]
    simp only [Parser.chainLength, List.map_append, List.sum_append]
  rw [cut, Codestream.remaining]
  omega

theorem parseMainHeader_segments (m : Markers) {s : Codestream} (here : StandsAt mh 0 s) :
    let w := headerSegments m mh
    (∃ seg ∈ w.1, FaultyAt mh seg.2) ∧ parseMainHeader m s = none ∨
    (∀ seg ∈ w.1, ¬ FaultyAt mh seg.2) ∧ ∃ t, parseMainHeader m s =
      some (if ReachesSod m mh then BitVec.ofNat 32 (w.2 + 2) else 0,
        m.afterAll mh (w.1.map Prod.snd), t) := by
  obtain ⟨word, behind⟩ := here.getWord
  rw [Nat.zero_add] at behind
  simp only [parseMainHeader, ReachesSod, headerSegments, word]
  by_cases soc : rd16 mh 0 = MarkerCode.soc
  · simp only [soc, if_true, ne_eq, not_true_eq_false, if_false]
    have bound := behind.remaining_le
    have fuel := scanMarkers_enough (s.getWord.2.remaining + 1) (mh.length - s.getWord.2.remaining) m
      s.getWord.2 (Nat.lt_succ_self _)
    rw [show s.getWord.2.remaining + 1 + (mh.length - s.getWord.2.remaining) = mh.length + 1 by omega]
      at fuel
    rw [← fuel]
    rcases scanMarkers_segments (mh.length + 1) behind (m := m) (by omega) with
      ⟨faulty, stopped⟩ | ⟨sound, t, after, scanned⟩
    · exact .inl ⟨faulty, by simp only [stopped]⟩
    · refine .inr ⟨sound, t, ?_⟩
      simp only [scanned]
      by_cases sod : rd16 mh (segmentsFrom mh (mh.length + 1) m 2).2 = MarkerCode.sod
      · simp only [sod, decide_true, if_true, Codestream.getPos, after.place,
          Nat.min_eq_left (inside_of_sod sod)]
      · simp only [sod, decide_false, if_false, Bool.false_eq_true]
  · simp only [soc, if_false, ne_eq, not_false_eq_true, if_true, rd16_beyond]
    exact .inr ⟨by simp, _, rfl⟩

/-! ### Array accesses -/

/-- The indices that the function of a segment uses, each with the length of its array. -/
def accesses (ctx : Context) (mh : List UInt8) (marker off : Nat) : List (Nat × Nat) :=
  let below (n size : Nat) : List (Nat × Nat) := (List.range n).map fun i => (i, size)
  if marker = MarkerCode.siz then
    if rd16 mh (off + 36) = 3 then below 3 maxNumComponents else []
  -- `prw` and `prh`, in `parse_COD` or in `copy_cod`.
  else if marker = MarkerCode.cod then below (byteAt mh (off + 7) + 1) (maxDwtLevel + 1)
  else if marker = MarkerCode.qcd then
    -- The types of the DFS from level 1 on, then `exponent` and `mantissa`.
    (List.range (if byteAt mh (off + 2) &&& 0x1F = 1 then 1 else ctx.nl)).map
      (fun k => (k + 1, maxDwtLevel + 1)) ++
    (qcdPlaces ctx mh off).map fun i => (i, maxDwtLevel * 3 + 1)
  else if marker = MarkerCode.coc then
    (byteAt mh (off + 2), maxNumComponents) ::
      if refused (byteAt mh (off + 6)) then [] else below (cocSizes mh off) (maxDwtLevel + 1)
  else if marker = MarkerCode.dfs ∧ 5 ≤ rd16 mh off then
    below (byteAt mh (off + 4) + 1) (maxDwtLevel + 1)
  else []

def InRange (ctx : Context) (mh : List UInt8) (marker off : Nat) : Prop :=
  ∀ access ∈ accesses ctx mh marker off, access.1 < access.2

private theorem below_inRange {n size : Nat} :
    (∀ access ∈ (List.range n).map fun i => (i, size), access.1 < access.2) ↔ n ≤ size := by
  constructor
  · intro all
    by_contra more
    exact absurd (all (size, size) (by simp; omega)) (Nat.lt_irrefl _)
  · intro few access member
    obtain ⟨i, small, rfl⟩ := List.mem_map.mp member
    exact Nat.lt_of_lt_of_le (List.mem_range.mp small) few

private theorem stepPlaces_lt {nl : Nat} {type : Nat → Nat} {i : Nat} (member : i ∈ stepPlaces nl type) :
    i < 3 * nl + 1 := by
  simp only [stepPlaces, List.mem_cons, List.mem_flatMap, List.mem_range] at member
  rcases member with rfl | ⟨k, level, member⟩
  · omega
  · split at member <;> simp at member <;> omega

private theorem qcd_inRange {ctx : Context} (bounded : ctx.nl ≤ maxDwtLevel) (mh : List UInt8) (off : Nat) :
    InRange ctx mh MarkerCode.qcd off := by
  have levels : (if byteAt mh (off + 2) &&& 0x1F = 1 then 1 else ctx.nl) ≤ maxDwtLevel := by
    split
    · decide
    · exact bounded
  intro access member
  change access ∈ List.map _ _ ++ List.map _ _ at member
  rcases List.mem_append.mp member with type | step
  · obtain ⟨k, small, rfl⟩ := List.mem_map.mp type
    have few := List.mem_range.mp small
    change k + 1 < maxDwtLevel + 1
    omega
  · obtain ⟨i, place, rfl⟩ := List.mem_map.mp step
    have few := stepPlaces_lt place
    change i < maxDwtLevel * 3 + 1
    omega

/-- With the levels of the last COD inside the arrays, only a faulty segment leaves one. -/
theorem inRange_iff {ctx : Context} (bounded : ctx.nl ≤ maxDwtLevel) (mh : List UInt8) (marker off : Nat) :
    InRange ctx mh marker off ↔ ¬ Faulty mh marker off := by
  by_cases cod : marker = MarkerCode.cod
  · subst cod
    refine below_inRange.trans ?_
    simp [Faulty, MarkerCode.cod, MarkerCode.coc, MarkerCode.dfs]
  by_cases coc : marker = MarkerCode.coc
  · subst coc
    refine List.forall_mem_cons.trans ?_
    by_cases out : refused (byteAt mh (off + 6))
    · simp [Faulty, MarkerCode.cod, MarkerCode.coc, MarkerCode.dfs, out]
    · rw [if_neg out, below_inRange]
      simp [Faulty, MarkerCode.cod, MarkerCode.coc, MarkerCode.dfs, out]
  by_cases dfs : marker = MarkerCode.dfs
  · subst dfs
    by_cases long : 5 ≤ rd16 mh off
    · have all : accesses ctx mh MarkerCode.dfs off =
          (List.range (byteAt mh (off + 4) + 1)).map fun i => (i, maxDwtLevel + 1) := by
        simp [accesses, long, MarkerCode.siz, MarkerCode.cod, MarkerCode.qcd, MarkerCode.coc,
          MarkerCode.dfs]
      rw [InRange, all, below_inRange]
      simp [Faulty, MarkerCode.cod, MarkerCode.coc, MarkerCode.dfs, long]
    · simp [InRange, accesses, Faulty, long, MarkerCode.siz, MarkerCode.cod, MarkerCode.qcd,
        MarkerCode.coc, MarkerCode.dfs]
  have sound : ¬ Faulty mh marker off := by simp [Faulty, cod, coc, dfs]
  simp only [sound, not_false_eq_true, iff_true]
  by_cases qcd : marker = MarkerCode.qcd
  · subst qcd
    exact qcd_inRange bounded mh off
  simp only [InRange, accesses, cod, coc, dfs, qcd, if_false, false_and]
  split
  · split
    · exact below_inRange.mpr (Nat.le_refl _)
    · simp
  · simp

/-! ### What a segment leaves in the marker structs -/

/-- The segments by their markers. -/
inductive SegmentKind (mh : List UInt8) (marker off : Nat) : MarkerSegment → Prop where
  | siz (marked : marker = MarkerCode.siz) : SegmentKind mh marker off
      (.siz (sizAt mh off) (if rd16 mh (off + 36) = 3 then componentsAt mh off else []))
  | cod (marked : marker = MarkerCode.cod) (progressionOrder numLayers mct : Nat) (style : Style)
    (tail : Option StyleTail) :
    SegmentKind mh marker off (.cod progressionOrder numLayers mct style tail)
  | qcd (marked : marker = MarkerCode.qcd) (type numGuardBits : Nat) (steps : List (Nat × Nat × Option Nat)) :
    SegmentKind mh marker off (.qcd type numGuardBits steps)
  | coc (marked : marker = MarkerCode.coc) (style : Style) (tail : Option StyleTail) :
    SegmentKind mh marker off (.coc (byteAt mh (off + 2)) style tail)
  | dfs (marked : marker = MarkerCode.dfs ∧ 5 ≤ rd16 mh off) : SegmentKind mh marker off
      (.dfs (rd16 mh (off + 2)) (byteAt mh (off + 4))
        (dfsTypes (byteAt mh (off + 4)) (bytesAt mh (off + 5) (rd16 mh off - 5))))
  | skipped : SegmentKind mh marker off .skipped

theorem segmentAt_kind (ctx : Context) (mh : List UInt8) (marker off : Nat) :
    SegmentKind mh marker off (segmentAt ctx mh marker off) := by
  simp only [segmentAt]
  split
  next marked => exact .siz marked
  split
  next marked => exact .cod marked _ _ _ _ _
  split
  next marked => exact .qcd marked _ _ _
  split
  next marked => exact .coc marked _ _
  split
  next marked => exact .dfs marked
  · exact .skipped

section

variable (m : Markers) (mh : List UInt8) (marker off : Nat)

private theorem after_of_kind {α : Type} (field : Markers → α)
    (each : ∀ seg, SegmentKind mh marker off seg → field (seg.store m) = field m) :
    field (m.after mh marker off) = field m :=
  each _ (segmentAt_kind m.context mh marker off)

private theorem after_siz (other : marker ≠ MarkerCode.siz) : (m.after mh marker off).siz = m.siz := by
  refine after_of_kind m mh marker off Markers.siz fun seg kind => ?_
  cases kind with
  | siz marked => exact absurd marked other
  | _ => rfl

private theorem after_cod_nl : (m.after mh marker off).cod.nl =
    if marker = MarkerCode.cod then byteAt mh (off + 7) else m.cod.nl := by
  by_cases cod : marker = MarkerCode.cod
  · subst cod
    rw [if_pos rfl]
    exact CodMarker.setTail_nl _ _
  rw [if_neg cod]
  refine after_of_kind m mh marker off (·.cod.nl) fun seg kind => ?_
  cases kind with
  | cod marked => exact absurd marked cod
  | _ => rfl

private theorem after_dfs : ((m.after mh marker off).dfs.idx, (m.after mh marker off).dfs.idfs) =
    if marker = MarkerCode.dfs ∧ 5 ≤ rd16 mh off then (rd16 mh (off + 2), byteAt mh (off + 4))
    else (m.dfs.idx, m.dfs.idfs) := by
  by_cases dfs : marker = MarkerCode.dfs ∧ 5 ≤ rd16 mh off
  · obtain ⟨rfl, long⟩ := dfs
    have segment : ∃ types, segmentAt m.context mh MarkerCode.dfs off =
        .dfs (rd16 mh (off + 2)) (byteAt mh (off + 4)) types := by
      simp [segmentAt, long, MarkerCode.siz, MarkerCode.cod, MarkerCode.qcd, MarkerCode.coc,
        MarkerCode.dfs]
    obtain ⟨types, segment⟩ := segment
    rw [if_pos ⟨rfl, long⟩, Markers.after, segment]
    rfl
  rw [if_neg dfs]
  refine after_of_kind m mh marker off (fun m => (m.dfs.idx, m.dfs.idfs)) fun seg kind => ?_
  cases kind with
  | dfs marked => exact absurd marked dfs
  | _ => rfl

private theorem after_coc_nl {c : Nat} (inside : c < maxNumComponents) :
    ((m.after mh marker off).coc c).nl =
      if marker = MarkerCode.cod then byteAt mh (off + 7)
      else if marker = MarkerCode.coc ∧ byteAt mh (off + 2) = c then byteAt mh (off + 4)
      else (m.coc c).nl := by
  by_cases cod : marker = MarkerCode.cod
  · subst cod
    rw [if_pos rfl]
    exact (congrArg (fun coc => coc.nl) (MarkerSegment.store_cod_coc m _ _ _ _ _ inside)).trans
      (CodMarker.setTail_nl _ _)
  rw [if_neg cod]
  by_cases coc : marker = MarkerCode.coc
  · subst coc
    have segment : ∃ style tail, segmentAt m.context mh MarkerCode.coc off =
        .coc (byteAt mh (off + 2)) style tail ∧ style.nl = byteAt mh (off + 4) := ⟨_, _, rfl, rfl⟩
    obtain ⟨style, tail, segment, levels⟩ := segment
    rw [Markers.after, segment, MarkerSegment.store_coc_coc]
    by_cases same : byteAt mh (off + 2) = c
    · rw [if_pos ⟨same, same ▸ inside⟩, if_pos ⟨rfl, same⟩, CocMarker.setCoc_toCodMarker]
      exact (CodMarker.setTail_nl _ _).trans levels
    · rw [if_neg fun both => same both.1, if_neg fun both => same both.2]
  rw [if_neg fun both => coc both.1]
  refine after_of_kind m mh marker off (fun m => (m.coc c).nl) fun seg kind => ?_
  cases kind with
  | cod marked => exact absurd marked cod
  | coc marked => exact absurd marked coc
  | _ => rfl

end

/-! ### What `create` needs -/

def SizMarker.Usable (siz : SizMarker) : Prop :=
  siz.csiz = 3 ∧ siz.xTsiz ≠ 0 ∧ siz.yTsiz ≠ 0 ∧
    ∀ c < maxNumComponents, entry siz.xRsiz c ≠ 0 ∧ entry siz.yRsiz c ≠ 0

instance (siz : SizMarker) : Decidable siz.Usable := inferInstanceAs (Decidable (_ ∧ _))

/-- The levels of a component: as many as the tables have room for, or a reference to the
DFS, which has no more. -/
def LevelsUsable (nl idx idfs : Nat) : Prop :=
  nl ≤ maxDwtLevel ∨ 32 < nl ∧ nl = idx + 128 ∧ idfs ≤ maxDwtLevel

instance (nl idx idfs : Nat) : Decidable (LevelsUsable nl idx idfs) :=
  inferInstanceAs (Decidable (_ ∨ _))

def Markers.Usable (m : Markers) : Prop :=
  m.siz.Usable ∧ ∀ c < maxNumComponents, LevelsUsable (m.coc c).nl m.dfs.idx m.dfs.idfs

/-- The same of the bytes of a SIZ. -/
def SizUsableAt (mh : List UInt8) (off : Nat) : Prop :=
  rd16 mh (off + 36) = 3 ∧ rd32 mh (off + 20) ≠ 0 ∧ rd32 mh (off + 24) ≠ 0 ∧
    ∀ c < maxNumComponents, byteAt mh (off + 38 + c * 3 + 1) ≠ 0 ∧ byteAt mh (off + 38 + c * 3 + 2) ≠ 0

instance (mh : List UInt8) (off : Nat) : Decidable (SizUsableAt mh off) :=
  inferInstanceAs (Decidable (_ ∧ _))

private theorem after_siz_usable (m : Markers) (mh : List UInt8) (off : Nat) :
    (m.after mh MarkerCode.siz off).siz.Usable ↔ SizUsableAt mh off := by
  have segment : segmentAt m.context mh MarkerCode.siz off =
      .siz (sizAt mh off) (if rd16 mh (off + 36) = 3 then componentsAt mh off else []) := rfl
  rw [Markers.after, segment]
  simp only [MarkerSegment.store, SizMarker.Usable, SizMarker.setComponents, SizUsableAt, sizAt]
  refine and_congr_right fun three => and_congr_right fun _ => and_congr_right fun _ => ?_
  rw [if_pos three]
  refine forall_congr' fun c => forall_congr' fun inside => ?_
  have small : c < 3 := inside
  rw [entry_fillFrom, entry_fillFrom, if_pos ⟨Nat.zero_le c, inside⟩, if_pos ⟨Nat.zero_le c, inside⟩]
  simp [componentsAt, small]

/-! ### The last word -/

/-- The last of the segments that say something about a part of the marker structs. -/
def lastOf (writes : Nat → Bool) (offs : List Nat) : Option Nat := offs.reverse.find? writes

/-- A part that one kind of segment sets, and the others leave alone, is in the end as the
last of that kind set it. -/
private theorem afterAll_last {β : Type} (part : Markers → β) (writes : Nat → Bool)
    (value : Nat → β)
    (written : ∀ m off, part (m.after mh (rd16 mh off) (off + 2)) =
      if writes off then value off else part m)
    (m : Markers) (offs : List Nat) :
    part (m.afterAll mh offs) = ((lastOf writes offs).map value).getD (part m) := by
  induction offs generalizing m with
  | nil => rfl
  | cons off rest ih =>
    have later : m.afterAll mh (off :: rest) = (m.after mh (rd16 mh off) (off + 2)).afterAll mh rest := rfl
    rw [later, ih, written, lastOf, lastOf, List.reverse_cons, List.find?_append]
    cases rest.reverse.find? writes with
    | some last => rfl
    | none => cases here : writes off <;> simp [here]

/-- Whether the sampling can be used, by the last SIZ of the header. -/
def sizSays (m : Markers) (mh : List UInt8) (offs : List Nat) : Bool :=
  ((lastOf (fun off => rd16 mh off = MarkerCode.siz) offs).map
    fun off => decide (SizUsableAt mh (off + 2))).getD m.siz.Usable

/-- The levels of a component, by the last COD or COC for it. -/
def levelsSaid (m : Markers) (mh : List UInt8) (offs : List Nat) (c : Nat) : Nat :=
  ((lastOf (fun off => rd16 mh off = MarkerCode.cod ∨
      rd16 mh off = MarkerCode.coc ∧ byteAt mh (off + 4) = c) offs).map
    fun off => if rd16 mh off = MarkerCode.cod then byteAt mh (off + 9) else byteAt mh (off + 6)).getD
      (m.coc c).nl

/-- Number and levels of the DFS, by the last valid one. -/
def dfsSaid (m : Markers) (mh : List UInt8) (offs : List Nat) : Nat × Nat :=
  ((lastOf (fun off => rd16 mh off = MarkerCode.dfs ∧ 5 ≤ rd16 mh (off + 2)) offs).map
    fun off => (rd16 mh (off + 4), byteAt mh (off + 6))).getD (m.dfs.idx, m.dfs.idfs)

/-- What the header says can be used; where it says nothing, an earlier header counts. -/
def SaysUsable (m : Markers) (mh : List UInt8) (offs : List Nat) : Prop :=
  sizSays m mh offs = true ∧ ∀ c < maxNumComponents,
    LevelsUsable (levelsSaid m mh offs c) (dfsSaid m mh offs).1 (dfsSaid m mh offs).2

instance (m : Markers) (mh : List UInt8) (offs : List Nat) : Decidable (SaysUsable m mh offs) :=
  inferInstanceAs (Decidable (_ ∧ _))

theorem afterAll_usable (m : Markers) (mh : List UInt8) (offs : List Nat) :
    (m.afterAll mh offs).Usable ↔ SaysUsable m mh offs := by
  have siz : decide (m.afterAll mh offs).siz.Usable = sizSays m mh offs := by
    apply afterAll_last (fun m => decide m.siz.Usable)
    intro m off
    by_cases here : rd16 mh off = MarkerCode.siz
    · simp only [here, after_siz_usable, decide_true, if_true]
    · simp only [after_siz m mh _ (off + 2) here, here, decide_false, Bool.false_eq_true, if_false]
  have dfs : ((m.afterAll mh offs).dfs.idx, (m.afterAll mh offs).dfs.idfs) = dfsSaid m mh offs := by
    apply afterAll_last (fun m => (m.dfs.idx, m.dfs.idfs))
    intro m off
    simpa only [decide_eq_true_eq] using after_dfs m mh (rd16 mh off) (off + 2)
  have levels (c : Nat) (inside : c < maxNumComponents) :
      ((m.afterAll mh offs).coc c).nl = levelsSaid m mh offs c := by
    apply afterAll_last (fun m => (m.coc c).nl)
    intro m off
    rw [after_coc_nl m mh (rd16 mh off) (off + 2) inside]
    by_cases cod : rd16 mh off = MarkerCode.cod
    · simp [cod]
    · simp [cod]
  rw [Markers.Usable, SaysUsable, ← siz, ← dfs, decide_eq_true_eq]
  refine and_congr_right fun _ => forall_congr' fun c => forall_congr' fun inside => ?_
  rw [levels c inside]

/-! ### What every segment keeps -/

private theorem after_bounded {m : Markers} {marker off : Nat}
    (bounded : m.cod.nl ≤ maxDwtLevel) (sound : ¬ Faulty mh marker off) :
    (m.after mh marker off).cod.nl ≤ maxDwtLevel := by
  rw [after_cod_nl]
  split
  next cod => exact Nat.not_lt.mp fun many => sound (.inl ⟨cod, many⟩)
  · exact bounded

/-- What every segment that is not faulty keeps, a header without faulty segments keeps. -/
private theorem afterAll_keeps {p : Markers → Prop}
    (step : ∀ off {m : Markers}, p m → ¬ FaultyAt mh off → p (m.after mh (rd16 mh off) (off + 2)))
    (offs : List Nat) {m : Markers} (holds : p m) (sound : ∀ off ∈ offs, ¬ FaultyAt mh off) :
    p (m.afterAll mh offs) := by
  induction offs generalizing m with
  | nil => exact holds
  | cons off rest ih =>
    exact ih (step off holds (sound off List.mem_cons_self))
      fun off' member => sound off' (List.mem_cons_of_mem _ member)

private theorem segmentsFrom_inRange (fuel : Nat) {m : Markers} {off : Nat}
    (bounded : m.cod.nl ≤ maxDwtLevel) :
    (∀ seg ∈ (segmentsFrom mh fuel m off).1, InRange seg.1.context mh (rd16 mh seg.2) (seg.2 + 2)) ↔
      ∀ seg ∈ (segmentsFrom mh fuel m off).1, ¬ FaultyAt mh seg.2 := by
  induction fuel generalizing m off with
  | zero => simp [segmentsFrom]
  | succ fuel ih =>
    simp only [segmentsFrom]
    split
    · simp
    · simp only [List.forall_mem_cons]
      rw [inRange_iff (show m.context.nl ≤ maxDwtLevel from bounded)]
      exact and_congr_right fun sound => ih (after_bounded bounded sound)

/-! ### What the structs have room for -/

theorem entry_fillFrom_of_forall {n : Nat} {v : Vector Nat n} {p : Nat → Prop} {values : List Nat}
    (old : ∀ i, p (entry v i)) (new : ∀ value ∈ values, p value) (k i : Nat) :
    p (entry (fillFrom v k values) i) := by
  rw [entry_fillFrom]
  split
  · cases found : values[i - k]? with
    | none => exact old i
    | some value => exact new value (List.mem_of_getElem? found)
  · exact old i

/-- Precinct sizes are half bytes. -/
def CodMarker.Sized (cod : CodMarker) : Prop := ∀ r, entry cod.prw r < 16 ∧ entry cod.prh r < 16

/-- What the fields of the marker structs that `create` works with can hold. -/
structure Markers.Fits (m : Markers) : Prop where
  sampling : ∀ c, entry m.siz.xRsiz c < 256 ∧ entry m.siz.yRsiz c < 256
  cod : m.cod.Sized
  cocs : ∀ c, (m.coc c).Sized
  depths : ∀ l, entry m.dfs.horDepth l ≤ maxDwtLevel ∧ entry m.dfs.verDepth l ≤ maxDwtLevel

private theorem sized_setTail {cod : CodMarker} (sized : cod.Sized) (tail : Option StyleTail) :
    (cod.setTail tail).Sized := by
  cases tail with
  | none => exact sized
  | some tail =>
    have half (b : Nat) : b &&& 0xF < 16 := Nat.lt_succ_of_le Nat.and_le_right
    intro r
    refine ⟨?_, ?_⟩
    · apply entry_fillFrom_of_forall (p := (· < 16)) fun r => (sized r).1
      simp [half]
    · apply entry_fillFrom_of_forall (p := (· < 16)) fun r => (sized r).2
      simp [half]

private theorem sized_copyCod {cod : CodMarker} {coc : CocMarker} (sized : cod.Sized)
    (before : coc.Sized) : (copyCod cod coc).Sized := by
  intro r
  simp only [copyCod, entry_copied]
  split
  · exact sized r
  · exact before r

private theorem depth_le (orient : List Nat) (lev : Nat) : depth orient lev ≤ orient.length :=
  Nat.le_trans List.countP_le_length (List.length_take_le' _ _)

theorem Markers.fits_fresh : ({} : Markers).Fits where
  sampling c := by rw [entry_replicate]; decide
  cod r := by rw [entry_replicate]; decide
  cocs c r := by rw [coc_fresh, entry_replicate]; decide
  depths l := by rw [entry_replicate]; decide

/-- What a segment of this kind can say, if it is not faulty. -/
def MarkerSegment.Fits : MarkerSegment → Prop
  | siz _ components => ∀ comp ∈ components, comp.2.1 < 256 ∧ comp.2.2 < 256
  | dfs _ _ types => types.length ≤ maxDwtLevel
  | _ => True

theorem MarkerSegment.Fits.store {seg : MarkerSegment} {m : Markers} (small : seg.Fits) (fits : m.Fits) :
    (seg.store m).Fits := by
  cases seg with
  | siz frame components =>
    refine ⟨?_, fits.cod, fits.cocs, fits.depths⟩
    intro c
    refine ⟨?_, ?_⟩
    · apply entry_fillFrom_of_forall (p := (· < 256)) fun c => (fits.sampling c).1
      intro value member
      obtain ⟨comp, inside, rfl⟩ := List.mem_map.mp member
      exact (small comp inside).1
    · apply entry_fillFrom_of_forall (p := (· < 256)) fun c => (fits.sampling c).2
      intro value member
      obtain ⟨comp, inside, rfl⟩ := List.mem_map.mp member
      exact (small comp inside).2
  | cod progressionOrder numLayers mct style tail =>
    have styled : ((cod progressionOrder numLayers mct style tail).store m).cod.Sized := by
      apply sized_setTail
      exact fits.cod
    refine ⟨fits.sampling, styled, ?_, fits.depths⟩
    intro c
    by_cases inside : c < maxNumComponents
    · rw [store_cod_coc m _ _ _ _ _ inside]
      exact sized_copyCod styled (fits.cocs c)
    · rw [Markers.coc_beyond _ (Nat.not_lt.mp inside)]
      exact Markers.fits_fresh.cod
  | coc c style tail =>
    refine ⟨fits.sampling, fits.cod, ?_, fits.depths⟩
    intro c'
    rw [store_coc_coc]
    split
    · rw [CocMarker.setCoc_toCodMarker]
      apply sized_setTail
      exact fits.cocs c
    · exact fits.cocs c'
  | dfs idx idfs types =>
    have bounded (orient : List Nat) (long : orient.length = types.length) (v : Nat)
        (member : v ∈ (List.range (idfs + 1)).map (depth orient)) : v ≤ maxDwtLevel := by
      obtain ⟨lev, _, rfl⟩ := List.mem_map.mp member
      exact Nat.le_trans (depth_le orient lev) (long ▸ small)
    refine ⟨fits.sampling, fits.cod, fits.cocs, ?_⟩
    intro l
    refine ⟨?_, ?_⟩
    · exact entry_fillFrom_of_forall (p := (· ≤ maxDwtLevel)) (fun l => (fits.depths l).1)
        (bounded _ (List.length_map _)) 0 l
    · exact entry_fillFrom_of_forall (p := (· ≤ maxDwtLevel)) (fun l => (fits.depths l).2)
        (bounded _ (List.length_map _)) 0 l
  | qcd type numGuardBits steps => exact ⟨fits.sampling, fits.cod, fits.cocs, fits.depths⟩
  | skipped => exact fits

theorem byteAt_lt (mh : List UInt8) (off : Nat) : byteAt mh off < 256 := UInt8.toNat_lt _

private theorem fits_segmentAt (ctx : Context) {marker off : Nat}
    (sound : ¬ Faulty mh marker off) : (segmentAt ctx mh marker off).Fits := by
  have kind := segmentAt_kind ctx mh marker off
  generalize segmentAt ctx mh marker off = seg at kind ⊢
  cases kind with
  | siz marked =>
    intro comp member
    split at member
    · obtain ⟨c, _, rfl⟩ := List.mem_map.mp member
      exact ⟨byteAt_lt _ _, byteAt_lt _ _⟩
    · cases member
  | dfs marked =>
    have few : byteAt mh (off + 4) ≤ maxDwtLevel :=
      Nat.not_lt.mp fun many => sound (.inr (.inr ⟨marked.1, marked.2, many⟩))
    simpa [MarkerSegment.Fits, dfsTypes] using few
  | _ => trivial

private theorem after_fits {m : Markers} {marker off : Nat} (fits : m.Fits)
    (sound : ¬ Faulty mh marker off) : (m.after mh marker off).Fits :=
  (fits_segmentAt m.context sound).store fits

/-- Headers keep the structs inside these bounds, in which they start. -/
theorem parseMainHeader_fits {m m' : Markers} {s t : Codestream} {r : BitVec 32}
    (fits : m.Fits) (here : StandsAt mh 0 s) (parsed : parseMainHeader m s = some (r, m', t)) :
    m'.Fits := by
  rcases parseMainHeader_segments m here with ⟨_, stopped⟩ | ⟨sound, _, returned⟩
  · rw [stopped] at parsed
    cases parsed
  · rw [returned] at parsed
    cases parsed
    apply afterAll_keeps (fun _ => after_fits) _ fits
    intro off member
    obtain ⟨seg, inside, rfl⟩ := List.mem_map.mp member
    exact sound seg inside

/-! ### Whole headers -/

/-- The divisions and table lookups of `create` are defined. -/
def CreateDefined (plan : Parser.Plan) : Prop :=
  plan.siz.xTsiz ≠ 0 ∧ plan.siz.yTsiz ≠ 0 ∧ plan.siz.csiz ≤ maxNumComponents ∧
  (∀ comp ∈ plan.comps, comp.xRsiz ≠ 0 ∧ comp.yRsiz ≠ 0 ∧ comp.levels.length ≤ maxDwtLevel + 1) ∧
  ∀ grid ∈ plan.grids, grid.length ≤ maxDwtLevel + 1

theorem Markers.Usable.createDefined {m : Markers} (usable : m.Usable) :
    CreateDefined (Parser.plan (Parser.resolveLevels m)) := by
  obtain ⟨⟨three, width, height, sampling⟩, levels⟩ := usable
  have few (c : Nat) (inside : c < maxNumComponents) :
      ((Parser.resolveLevels m).coc c).nl ≤ maxDwtLevel := by
    rw [Parser.coc_resolveLevels]
    rcases levels c inside with direct | ⟨large, _, dfs⟩
    · rw [if_neg fun both => absurd both.2 (Nat.not_lt.mpr (Nat.le_trans direct (by decide)))]
      exact direct
    · rw [if_pos ⟨three ▸ inside, large⟩]
      exact Nat.le_trans (Nat.mod_le _ _) dfs
  refine ⟨width, height, three.le, ?_, ?_⟩
  · intro comp member
    obtain ⟨c, small, rfl⟩ := List.mem_map.mp member
    have inside : c < maxNumComponents := Nat.lt_of_lt_of_eq (List.mem_range.mp small) three
    refine ⟨(sampling c inside).1, (sampling c inside).2, ?_⟩
    simpa [Parser.levels] using few c inside
  · intro grid member
    obtain ⟨c, small, rfl⟩ := List.mem_map.mp member
    simpa [Parser.levels] using few c (List.mem_range.mp small)

/-- The header is accepted: the loop ends at SOD, at an offset that is not taken for a
failure. -/
def Accepted (m : Markers) (mh : List UInt8) : Prop :=
  ReachesSod m mh ∧ BitVec.ofNat 32 ((headerSegments m mh).2 + 2) ≠ 0

instance (m : Markers) (mh : List UInt8) : Decidable (Accepted m mh) :=
  inferInstanceAs (Decidable (_ ∧ _))

/-- A header without any segment is accepted, although nothing in it can be used. -/
def emptyHeader : List Chunk := [⟨0, [0xFF, 0x4F, 0xFF, 0x93]⟩]

/-- A COC for component 7, where there are three. -/
def strayCoc : List Chunk :=
  [⟨0, [0xFF, 0x4F, 0xFF, 0x53, 0, 9, 7, 0, 1, 5, 2, 0x48, 1, 0xFF, 0x93]⟩]

end RtpDecoder.Header

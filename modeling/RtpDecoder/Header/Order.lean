import RtpDecoder.Header.Walk
import RtpDecoder.Lib.Views

/-!
# The order of the segments

`parse_main_header` takes the segments behind SIZ in any order, but a COD overwrites what a COC
before it said, and a QCD is read with the levels and the split types that the structs hold when
it comes. The headers that may be rearranged are those in which these pairs stay in their order:
the COD and each COC, the COD and the QCD, the DFS and the QCD.
-/

namespace RtpDecoder.Header

open RtpDecoder.Parser (Chunk Codestream chainBytes)

variable {o o' kinds : List Kind}

/-! ### Kinds of segments -/

/-- The segments that change the marker structs, a COC with its component, and the others. -/
inductive Kind where
  | siz
  | cod
  | dfs
  | qcd
  | coc (c : UInt8)
  | other
deriving DecidableEq, Repr

def RawSegment.kind (g : RawSegment) : Kind :=
  if g.marker = MarkerCode.siz then .siz
  else if g.marker = MarkerCode.cod then .cod
  else if g.marker = MarkerCode.qcd then .qcd
  else if g.marker = MarkerCode.coc then .coc (g.payload.getD 0 0)
  else if g.marker = MarkerCode.dfs then .dfs
  else .other

/-- What a segment of a kind can say, and on what part of the structs it depends. -/
inductive Reading (g : RawSegment) : Kind → Prop
  | siz {frame : SizMarker} {components : List (Nat × Nat × Nat)}
      (reading : ∀ ctx, g.reading ctx = .siz frame components) : Reading g .siz
  | cod {progressionOrder numLayers mct : Nat} {style : Style} {tail : Context → Option StyleTail}
      (reading : ∀ ctx, g.reading ctx = .cod progressionOrder numLayers mct style (tail ctx))
      (depends : ∀ {ctx ctx'}, ctx.rsiz = ctx'.rsiz → tail ctx = tail ctx') : Reading g .cod
  | dfs {said : MarkerSegment} (reading : ∀ ctx, g.reading ctx = said)
      (said_dfs : said = .skipped ∨ ∃ idx idfs types, said = .dfs idx idfs types) : Reading g .dfs
  | qcd {type numGuardBits : Nat} {steps : Context → List (Nat × Nat × Option Nat)}
      (reading : ∀ ctx, g.reading ctx = .qcd type numGuardBits (steps ctx)) : Reading g .qcd
  | coc {c : UInt8} {style : Style} {tail : Context → Option StyleTail}
      (reading : ∀ ctx, g.reading ctx = .coc c.toNat style (tail ctx))
      (depends : ∀ {ctx ctx'}, ctx.rsiz = ctx'.rsiz → tail ctx = tail ctx') : Reading g (.coc c)
  | other (reading : ∀ ctx, g.reading ctx = .skipped) : Reading g .other

theorem overlap_congr {ctx ctx' : Context} (same : ctx.rsiz = ctx'.rsiz) : ctx.overlap = ctx'.overlap := by
  rw [Context.overlap, Context.overlap, same]

private theorem tailAt_congr {ctx ctx' : Context} (same : ctx.rsiz = ctx'.rsiz) {mh : List UInt8} {off n : Nat} :
    tailAt ctx mh off n = tailAt ctx' mh off n := by
  rw [tailAt, tailAt, overlap_congr same]

theorem reading_kind (g : RawSegment) : Reading g g.kind := by
  have reads (ctx : Context) : g.reading ctx = segmentAt ctx g.bytes g.marker 2 := rfl
  simp only [segmentAt] at reads
  simp only [RawSegment.kind]
  by_cases siz : g.marker = MarkerCode.siz
  · simp only [if_pos siz] at reads ⊢
    exact .siz reads
  simp only [if_neg siz] at reads ⊢
  by_cases cod : g.marker = MarkerCode.cod
  · simp only [if_pos cod] at reads ⊢
    exact .cod reads fun same => by rw [tailAt_congr same]
  simp only [if_neg cod] at reads ⊢
  by_cases qcd : g.marker = MarkerCode.qcd
  · simp only [if_pos qcd] at reads ⊢
    exact .qcd reads
  simp only [if_neg qcd] at reads ⊢
  by_cases coc : g.marker = MarkerCode.coc
  · simp only [if_pos coc] at reads ⊢
    exact .coc reads fun same => by rw [tailAt_congr same]
  simp only [if_neg coc] at reads ⊢
  by_cases dfs : g.marker = MarkerCode.dfs
  · simp only [if_pos dfs] at reads ⊢
    refine .dfs reads ?_
    split
    · exact .inr ⟨_, _, _, rfl⟩
    · exact .inl rfl
  · simp only [dfs, false_and, if_false] at reads ⊢
    exact .other reads

/-! ### What a segment changes -/

section

variable {m m' : Markers} {g : RawSegment}

/-- A segment changes the struct of its kind only, and a COD all components too. -/
structure Leaves (m m' : Markers) (k : Kind) : Prop where
  siz : k ≠ .siz → m'.siz = m.siz
  cod : k ≠ .cod → m'.cod = m.cod
  dfs : k ≠ .dfs → m'.dfs = m.dfs
  qcd : k ≠ .qcd → m'.qcd = m.qcd
  coc : ∀ c, k ≠ .cod → k ≠ .coc c → m'.coc c.toNat = m.coc c.toNat

theorem leaves_read (m : Markers) (g : RawSegment) : Leaves m (m.read g) g.kind := by
  have reads := reading_kind g
  generalize g.kind = k at reads
  cases reads with
  | siz reading =>
    rw [Markers.read, reading]
    exact ⟨fun other => absurd rfl other, fun _ => rfl, fun _ => rfl, fun _ => rfl, fun _ _ _ => rfl⟩
  | cod reading =>
    rw [Markers.read, reading]
    exact ⟨fun _ => rfl, fun other => absurd rfl other, fun _ => rfl, fun _ => rfl,
      fun _ other _ => absurd rfl other⟩
  | dfs reading said =>
    rw [Markers.read, reading]
    rcases said with rfl | ⟨_, _, _, rfl⟩
    · exact ⟨fun _ => rfl, fun _ => rfl, fun _ => rfl, fun _ => rfl, fun _ _ _ => rfl⟩
    · exact ⟨fun _ => rfl, fun _ => rfl, fun other => absurd rfl other, fun _ => rfl, fun _ _ _ => rfl⟩
  | qcd reading =>
    rw [Markers.read, reading]
    exact ⟨fun _ => rfl, fun _ => rfl, fun _ => rfl, fun other => absurd rfl other, fun _ _ _ => rfl⟩
  | @coc c _ _ reading =>
    rw [Markers.read, reading]
    refine ⟨fun _ => rfl, fun _ => rfl, fun _ => rfl, fun _ => rfl, fun c' _ other => ?_⟩
    have apart : ¬ (c.toNat = c'.toNat ∧ c.toNat < maxNumComponents) :=
      fun same => other (congrArg Kind.coc (UInt8.toNat.inj same.1))
    rw [MarkerSegment.store_coc_coc, if_neg apart]
  | other reading =>
    rw [Markers.read, reading]
    exact ⟨fun _ => rfl, fun _ => rfl, fun _ => rfl, fun _ => rfl, fun _ _ _ => rfl⟩

theorem read_siz_congr (kind : g.kind = .siz) (same : m.siz = m'.siz) : (m.read g).siz = (m'.read g).siz := by
  have reads := reading_kind g
  rw [kind] at reads
  cases reads with
  | siz reading => simp only [Markers.read, reading, MarkerSegment.store, same]

theorem read_cod_congr (kind : g.kind = .cod) (siz : m.siz = m'.siz) (same : m.cod = m'.cod) :
    (m.read g).cod = (m'.read g).cod := by
  have reads := reading_kind g
  rw [kind] at reads
  have context : m.context.rsiz = m'.context.rsiz := congrArg SizMarker.rsiz siz
  cases reads with
  | cod reading depends => simp only [Markers.read, reading, MarkerSegment.store, same, depends context]

theorem read_cod_coc (kind : g.kind = .cod) {c : Nat} (inside : c < maxNumComponents) :
    (m.read g).coc c = copyCod (m.read g).cod (m.coc c) := by
  have reads := reading_kind g
  rw [kind] at reads
  cases reads with
  | cod reading =>
    rw [Markers.read, reading]
    exact MarkerSegment.store_cod_coc m _ _ _ _ _ inside

theorem read_coc_congr {c : UInt8} (kind : g.kind = .coc c) (siz : m.siz = m'.siz)
    (same : m.coc c.toNat = m'.coc c.toNat) : (m.read g).coc c.toNat = (m'.read g).coc c.toNat := by
  have reads := reading_kind g
  rw [kind] at reads
  have context : m.context.rsiz = m'.context.rsiz := congrArg SizMarker.rsiz siz
  cases reads with
  | coc reading depends =>
    rw [Markers.read, Markers.read, reading, reading, depends context, MarkerSegment.store_coc_coc,
      MarkerSegment.store_coc_coc, same]

theorem read_dfs_congr (kind : g.kind = .dfs) (same : m.dfs = m'.dfs) : (m.read g).dfs = (m'.read g).dfs := by
  have reads := reading_kind g
  rw [kind] at reads
  cases reads with
  | dfs reading said =>
    rw [Markers.read, Markers.read, reading, reading]
    rcases said with rfl | ⟨_, _, _, rfl⟩
    · exact same
    · simp only [MarkerSegment.store, same]

theorem read_qcd_congr (kind : g.kind = .qcd) (context : m.context = m'.context) (same : m.qcd = m'.qcd) :
    (m.read g).qcd = (m'.read g).qcd := by
  have reads := reading_kind g
  rw [kind] at reads
  cases reads with
  | qcd reading => simp only [Markers.read, reading, MarkerSegment.store, same, context]

end

/-! ### What the structs show of a run -/

def RawSegment.isOf (kinds : List Kind) (g : RawSegment) : Bool := kinds.contains g.kind

theorem isOf_eq_true {g : RawSegment} : RawSegment.isOf kinds g = true ↔ g.kind ∈ kinds :=
  List.contains_iff_mem

theorem isOf_eq_false {g : RawSegment} : RawSegment.isOf kinds g = false ↔ g.kind ∉ kinds := by
  rw [← isOf_eq_true, Bool.not_eq_true]

theorem foldl_siz {segs : List RawSegment} (without : ∀ g ∈ segs, g.kind ≠ .siz) {m : Markers} :
    (segs.foldl Markers.read m).siz = m.siz :=
  view_foldl_kept fun m g inside => (leaves_read m g).siz (without g inside)

theorem foldl_qcd {segs : List RawSegment} (without : ∀ g ∈ segs, g.kind ≠ .qcd) {m : Markers} :
    (segs.foldl Markers.read m).qcd = m.qcd :=
  view_foldl_kept fun m g inside => (leaves_read m g).qcd (without g inside)

theorem view_cod : View Markers.read (fun m => (m.siz, m.cod)) (RawSegment.isOf [.siz, .cod]) where
  skips m g unseen := by
    rw [isOf_eq_false] at unseen
    simp only [List.mem_cons, List.not_mem_nil, or_false, not_or] at unseen
    rw [(leaves_read m g).siz unseen.1, (leaves_read m g).cod unseen.2]
  reads {m m' g} seen same := by
    rw [isOf_eq_true] at seen
    simp only [List.mem_cons, List.not_mem_nil, or_false] at seen
    obtain ⟨siz, cod⟩ := Prod.mk.inj same
    rcases seen with kind | kind
    · have apart : g.kind ≠ .cod := by simp [kind]
      rw [read_siz_congr kind siz, (leaves_read m g).cod apart, (leaves_read m' g).cod apart, cod]
    · have apart : g.kind ≠ .siz := by simp [kind]
      rw [(leaves_read m g).siz apart, (leaves_read m' g).siz apart, siz, read_cod_congr kind siz cod]

theorem view_dfs : View Markers.read Markers.dfs (RawSegment.isOf [.dfs]) where
  skips m g unseen := (leaves_read m g).dfs (by simpa [RawSegment.isOf] using unseen)
  reads {_ _ _} seen same := read_dfs_congr (by simpa [RawSegment.isOf] using seen) same

theorem view_coc {c : UInt8} (inside : c.toNat < maxNumComponents) :
    View Markers.read (fun m => (m.siz, m.cod, m.coc c.toNat)) (RawSegment.isOf [.siz, .cod, .coc c]) where
  skips m g unseen := by
    rw [isOf_eq_false] at unseen
    simp only [List.mem_cons, List.not_mem_nil, or_false, not_or] at unseen
    obtain ⟨siz, cod, coc⟩ := unseen
    have leaves := leaves_read m g
    rw [leaves.siz siz, leaves.cod cod, leaves.coc c cod coc]
  reads {m m' g} seen same := by
    rw [isOf_eq_true] at seen
    simp only [List.mem_cons, List.not_mem_nil, or_false] at seen
    simp only [Prod.mk.injEq] at same ⊢
    obtain ⟨siz, cod, coc⟩ := same
    have leaves := leaves_read m g
    have leaves' := leaves_read m' g
    rcases seen with kind | kind | kind <;> rw [kind] at leaves leaves'
    · rw [leaves.cod (by simp), leaves'.cod (by simp), leaves.coc c (by simp) (by simp),
        leaves'.coc c (by simp) (by simp)]
      exact ⟨read_siz_congr kind siz, cod, coc⟩
    · rw [leaves.siz (by simp), leaves'.siz (by simp), read_cod_coc kind inside, read_cod_coc kind inside, coc,
        read_cod_congr kind siz cod]
      exact ⟨siz, rfl, rfl⟩
    · rw [leaves.siz (by simp), leaves'.siz (by simp), leaves.cod (by simp), leaves'.cod (by simp)]
      exact ⟨siz, cod, read_coc_congr kind siz coc⟩

/-- Apart from a QCD, how much of a segment is taken depends on `Rsiz` only. -/
theorem declares_congr {g : RawSegment} {ctx ctx' : Context} (other : g.kind ≠ .qcd) (same : ctx.rsiz = ctx'.rsiz) :
    g.Declares ctx ↔ g.Declares ctx' := by
  have apart : g.marker ≠ MarkerCode.qcd := by
    intro qcd
    exact other (by simp [RawSegment.kind, qcd, MarkerCode.siz, MarkerCode.cod, MarkerCode.qcd])
  simp only [RawSegment.Declares, segmentLength, if_neg apart, overlap_congr same]

/-! ### Orders -/

/-- One COD, one DFS and one QCD, at most one COC for a component, and no second SIZ. -/
structure OneEach (o : List Kind) : Prop where
  cod : o.count .cod = 1
  dfs : o.count .dfs = 1
  qcd : o.count .qcd = 1
  coc : ∀ c, o.count (.coc c) ≤ 1
  component : ∀ c, .coc c ∈ o → c.toNat < maxNumComponents
  siz : .siz ∉ o

theorem OneEach.perm (each : OneEach o) (perm : o.Perm o') : OneEach o' := by
  obtain ⟨cod, dfs, qcd, coc, component, siz⟩ := each
  simp only [perm.count_eq, perm.mem_iff] at cod dfs qcd coc component siz
  exact ⟨cod, dfs, qcd, coc, component, siz⟩

/-- Some kinds, in the order in which they stand. -/
def among (kinds o : List Kind) : List Kind := o.filter kinds.contains

/-- The pairs of which one has an effect on the other stand in the same order. -/
structure SameOrder (o o' : List Kind) : Prop where
  cod_coc : ∀ c, among [.cod, .coc c] o = among [.cod, .coc c] o'
  cod_qcd : among [.cod, .qcd] o = among [.cod, .qcd] o'
  dfs_qcd : among [.dfs, .qcd] o = among [.dfs, .qcd] o'

theorem among_siz (none_here : .siz ∉ o) : among (.siz :: kinds) o = among kinds o := by
  apply List.filter_congr
  intro k inside
  have apart : k ≠ .siz := fun same => none_here (same ▸ inside)
  simp [apart]

theorem among_pair_absent {k a : Kind} (absent : a ∉ o) : among [k, a] o = among [k] o := by
  apply List.filter_congr
  intro b inside
  have apart : b ≠ a := fun same => absent (same ▸ inside)
  simp [apart]

theorem among_replicate (k : Kind) (o : List Kind) : among [k] o = List.replicate (o.count k) k := by
  rw [among, ← List.filter_beq]
  apply List.filter_congr
  intro a _
  exact Bool.eq_iff_iff.mpr (by simp)

theorem among_single (k : Kind) (perm : o.Perm o') : among [k] o = among [k] o' := by
  rw [among_replicate, among_replicate, perm.count_eq]

/-- Two kinds that occur once, the second between `before` and `after`. -/
theorem among_pair {k a : Kind} {before after : List Kind} (apart : k ≠ a) (absent : a ∉ before ∧ a ∉ after)
    (once : (before ++ a :: after).count k = 1) :
    among [k, a] (before ++ a :: after) = if k ∈ before then [k, a] else [a, k] := by
  have cut : among [k, a] (before ++ a :: after) = among [k, a] before ++ a :: among [k, a] after := by
    simp [among]
  rw [List.count_append, List.count_cons_of_ne (Ne.symm apart)] at once
  rw [cut, among_pair_absent absent.1, among_pair_absent absent.2, among_replicate, among_replicate]
  by_cases first : k ∈ before
  · have one := List.count_pos_iff.mpr first
    rw [if_pos first, show before.count k = 1 by omega, show after.count k = 0 by omega]
    rfl
  · have none_before := List.count_eq_zero.mpr first
    rw [if_neg first, none_before, show after.count k = 1 by omega]
    rfl

theorem among_nodup (each : OneEach o) (read : .other ∉ kinds) : (among kinds o).Nodup := by
  rw [List.nodup_iff_count_le_one]
  intro k
  by_cases listed : k ∈ kinds
  · have once : o.count k ≤ 1 := by
      cases k with
      | siz => simp [List.count_eq_zero_of_not_mem each.siz]
      | cod => exact Nat.le_of_eq each.cod
      | dfs => exact Nat.le_of_eq each.dfs
      | qcd => exact Nat.le_of_eq each.qcd
      | coc c => exact each.coc c
      | other => exact absurd listed read
    exact Nat.le_trans (List.Sublist.count_le k List.filter_sublist) once
  · rw [List.count_eq_zero_of_not_mem]
    · exact Nat.zero_le 1
    · simp [among, listed]

section

variable {segs segs' pre pre' post post' : List RawSegment} {q : RawSegment} {kinds : List Kind} {m : Markers}

theorem map_filter_isOf (segs : List RawSegment) :
    (segs.filter (RawSegment.isOf kinds)).map RawSegment.kind = among kinds (segs.map RawSegment.kind) := by
  rw [among, List.filter_map]
  rfl

/-- Kinds that stand in the same order are the same segments in the same order. -/
theorem filter_isOf_eq (perm : segs.Perm segs') (each : OneEach (segs.map RawSegment.kind)) (read : .other ∉ kinds)
    (order : among kinds (segs.map RawSegment.kind) = among kinds (segs'.map RawSegment.kind)) :
    segs.filter (RawSegment.isOf kinds) = segs'.filter (RawSegment.isOf kinds) := by
  apply eq_of_perm_of_map (perm.filter _)
  · rw [map_filter_isOf, map_filter_isOf, order]
  · rw [map_filter_isOf]
    exact among_nodup each read

private theorem single_qcd (each : OneEach ((pre ++ q :: post).map RawSegment.kind)) (kind : q.kind = .qcd) :
    (∀ g ∈ pre, g.kind ≠ .qcd) ∧ ∀ g ∈ post, g.kind ≠ .qcd := by
  have once := each.qcd
  simp only [List.map_append, List.map_cons, kind, List.count_append, List.count_cons_self] at once
  have none_before := List.count_eq_zero.mp (show (pre.map RawSegment.kind).count .qcd = 0 by omega)
  have none_after := List.count_eq_zero.mp (show (post.map RawSegment.kind).count .qcd = 0 by omega)
  exact ⟨fun g inside same => none_before (same ▸ List.mem_map_of_mem inside),
    fun g inside same => none_after (same ▸ List.mem_map_of_mem inside)⟩

/-- A kind that keeps its place relative to the QCD is in front of it in both orders or in neither. -/
private theorem filter_before_qcd {k : Kind} (kind : q.kind = .qcd)
    (each : OneEach ((pre ++ q :: post).map RawSegment.kind))
    (each' : OneEach ((pre' ++ q :: post').map RawSegment.kind))
    (same : (pre ++ q :: post).filter (RawSegment.isOf [k, .qcd]) =
      (pre' ++ q :: post').filter (RawSegment.isOf [k, .qcd])) :
    pre.filter (RawSegment.isOf [k]) = pre'.filter (RawSegment.isOf [k]) := by
  have once := single_qcd each kind
  have once' := single_qcd each' kind
  have narrow (pre : List RawSegment) (none_before : ∀ g ∈ pre, g.kind ≠ .qcd) :
      pre.filter (RawSegment.isOf [k, .qcd]) = pre.filter (RawSegment.isOf [k]) := by
    apply List.filter_congr
    intro g inside
    simp [RawSegment.isOf, none_before g inside]
  have seen : RawSegment.isOf [k, .qcd] q = true := by simp [RawSegment.isOf, kind]
  rw [List.filter_append, List.filter_append, List.filter_cons_of_pos seen, List.filter_cons_of_pos seen,
    narrow pre once.1, narrow pre' once'.1] at same
  have apart {l : List RawSegment} (none_here : ∀ g ∈ l, g.kind ≠ .qcd) (sees : RawSegment → Bool) :
      q ∉ l.filter sees :=
    fun inside => none_here q (List.mem_of_mem_filter inside) kind
  exact ((List.append_cons_inj_of_notMem (apart once.1 _) (apart once.2 _)).mp same).1

/-! ### Rearranged headers -/

/-- The segments of a header behind its SIZ, in two orders that keep the pairs. -/
structure Rearranged (segs segs' : List RawSegment) : Prop where
  perm : segs.Perm segs'
  each : OneEach (segs.map RawSegment.kind)
  order : SameOrder (segs.map RawSegment.kind) (segs'.map RawSegment.kind)

namespace Rearranged

theorem each' (again : Rearranged segs segs') : OneEach (segs'.map RawSegment.kind) :=
  again.each.perm (again.perm.map RawSegment.kind)

/-- Kinds that keep their order, with or without the SIZ that is not there. -/
theorem filter_siz (again : Rearranged segs segs') (read : .other ∉ kinds)
    (order : among kinds (segs.map RawSegment.kind) = among kinds (segs'.map RawSegment.kind)) :
    segs.filter (RawSegment.isOf (.siz :: kinds)) = segs'.filter (RawSegment.isOf (.siz :: kinds)) := by
  apply filter_isOf_eq again.perm again.each (by simp [read])
  rw [among_siz again.each.siz, among_siz again.each'.siz, order]

theorem no_siz (each : OneEach ((pre ++ post).map RawSegment.kind)) : ∀ g ∈ pre, g.kind ≠ .siz := by
  intro g inside same
  exact each.siz (same ▸ List.mem_map_of_mem (List.mem_append_left post inside))

theorem context_eq (again : Rearranged (pre ++ q :: post) (pre' ++ q :: post')) (kind : q.kind = .qcd) :
    (pre.foldl Markers.read m).context = (pre'.foldl Markers.read m).context := by
  have frame {pre : List RawSegment} (without : ∀ g ∈ pre, g.kind ≠ .siz) :
      pre.filter (RawSegment.isOf [.siz, .cod]) = pre.filter (RawSegment.isOf [.cod]) := by
    apply List.filter_congr
    intro g inside
    simp [RawSegment.isOf, without g inside]
  have cod := filter_before_qcd kind again.each again.each'
    (filter_isOf_eq again.perm again.each (by simp) again.order.cod_qcd)
  have dfs := filter_before_qcd kind again.each again.each'
    (filter_isOf_eq again.perm again.each (by simp) again.order.dfs_qcd)
  rw [← frame (no_siz again.each), ← frame (no_siz again.each')] at cod
  have structs := view_cod.foldl_congr (s := m) cod
  have types := view_dfs.foldl_congr (s := m) dfs
  simp only [Prod.mk.injEq] at structs
  rw [Markers.context, Markers.context, structs.1, structs.2, types]

theorem qcd_eq (again : Rearranged segs segs') :
    (segs.foldl Markers.read m).qcd = (segs'.foldl Markers.read m).qcd := by
  obtain ⟨q, inside, kind⟩ : ∃ q ∈ segs, q.kind = .qcd :=
    List.mem_map.mp (List.count_pos_iff.mp (again.each.qcd ▸ Nat.one_pos))
  obtain ⟨pre, post, rfl⟩ := List.append_of_mem inside
  obtain ⟨pre', post', rfl⟩ := List.append_of_mem (again.perm.subset inside)
  obtain ⟨before, after⟩ := single_qcd again.each kind
  obtain ⟨before', after'⟩ := single_qcd again.each' kind
  -- The one QCD of the header decides: it reads the same COD and DFS in both orders.
  simp only [List.foldl_append, List.foldl_cons]
  rw [foldl_qcd after, foldl_qcd after']
  apply read_qcd_congr kind (again.context_eq kind)
  rw [foldl_qcd before, foldl_qcd before']

theorem foldl_read_eq (again : Rearranged segs segs') : segs.foldl Markers.read m = segs'.foldl Markers.read m := by
  have perm := again.perm.map RawSegment.kind
  have cod := view_cod.foldl_congr (s := m) (again.filter_siz (by simp) (among_single .cod perm))
  have dfs := view_dfs.foldl_congr (s := m)
    (filter_isOf_eq again.perm again.each (by simp) (among_single .dfs perm))
  have coc {c : UInt8} (inside : c.toNat < maxNumComponents) :=
    (view_coc inside).foldl_congr (s := m) (again.filter_siz (by simp) (again.order.cod_coc c))
  have cocs : (segs.foldl Markers.read m).cocs = (segs'.foldl Markers.read m).cocs := by
    apply Markers.cocs_ext
    intro c inside
    -- Behind the SIZ, the entry of a component is written by the COD and the COC of its number only.
    have small : c < 256 := Nat.lt_trans inside (by decide)
    have all : (UInt8.ofNat c).toNat = c := Nat.mod_eq_of_lt small
    simp only [Prod.mk.injEq] at coc
    exact all ▸ (coc (all.symm ▸ inside)).2.2
  simp only [Prod.mk.injEq] at cod
  calc segs.foldl Markers.read m
      = ⟨_, _, _, _, _⟩ := rfl
    _ = segs'.foldl Markers.read m := by rw [cod.1, cod.2, cocs, again.qcd_eq, dfs]

theorem readable (again : Rearranged segs segs') (readable : Throughout Markers.read Readable m segs) :
    Throughout Markers.read Readable m segs' := by
  rw [throughout_iff] at readable ⊢
  rintro pre' g post' rfl
  obtain ⟨pre, post, rfl⟩ := List.append_of_mem (again.perm.symm.subset (List.mem_append_right pre' List.mem_cons_self))
  obtain ⟨declares, sound⟩ := readable pre g post rfl
  refine ⟨?_, sound⟩
  -- Only for the QCD does the length that is taken depend on the segments in front.
  by_cases kind : g.kind = .qcd
  · rw [← again.context_eq kind]
    exact declares
  · have same : (pre'.foldl Markers.read m).siz = (pre.foldl Markers.read m).siz := by
      rw [foldl_siz (no_siz again.each'), foldl_siz (no_siz again.each)]
    exact (declares_congr kind (congrArg SizMarker.rsiz same)).mpr declares

end Rearranged

end

/-- SOC, a SIZ, the segments and SOD, in a chain of chunks. -/
structure Spelled (siz : RawSegment) (segs : List RawSegment) (rest : List UInt8) (chunks : List Chunk) : Prop where
  nonempty : ∀ c ∈ chunks, c.bytes ≠ []
  bytes : chainBytes chunks = framed (siz :: segs) rest

/-- Whatever the segments hold: if a header with the segments in the first order is accepted, so is
the one with the second order, and both leave the same marker structs. -/
def Interchangeable (o o' : List Kind) : Prop :=
  ∀ (m m' : Markers) (siz : RawSegment) (segs segs' : List RawSegment) (rest : List UInt8)
    (chunks chunks' : List Chunk) (r : BitVec 32) (t : Codestream), siz.kind = .siz →
    segs.map RawSegment.kind = o → segs'.map RawSegment.kind = o' → segs.Perm segs' →
    Spelled siz segs rest chunks → Spelled siz segs' rest chunks' → Conforms m (chainBytes chunks) →
    parseMainHeader m { chunks := chunks } = some (r, m', t) → r ≠ 0 →
    ∃ t', parseMainHeader m { chunks := chunks' } = some (r, m', t')

theorem interchangeable_of_sameOrder (each : OneEach o) (same : SameOrder o o') : Interchangeable o o' := by
  rintro m m' siz segs segs' rest chunks chunks' r t - rfl rfl perm spelled spelled' conforms parsed -
  have again : Rearranged segs segs' := ⟨perm, each, same⟩
  rw [spelled.bytes] at conforms
  obtain ⟨first, later⟩ := readable_of_parsed spelled.nonempty spelled.bytes conforms parsed
  obtain ⟨u, accepted⟩ := parseMainHeader_framed spelled.nonempty spelled.bytes ⟨first, later⟩
  obtain ⟨u', accepted'⟩ := parseMainHeader_framed spelled'.nonempty spelled'.bytes ⟨first, again.readable later⟩
  have length : (framed (siz :: segs') []).length = (framed (siz :: segs) []).length := by
    simp only [framed, List.length_append, (perm.cons siz).flatMap_right RawSegment.bytes |>.length_eq]
  refine ⟨u', ?_⟩
  rw [accepted] at parsed
  cases parsed
  rw [accepted', length, List.foldl_cons, List.foldl_cons, again.foldl_read_eq]

end RtpDecoder.Header

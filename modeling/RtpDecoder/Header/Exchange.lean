import RtpDecoder.Header.Order

/-!
# Orders that may be exchanged

The condition under which the segments of a header may be rearranged is also necessary: for any two
orders that differ in one of the pairs there are segments with which the second header is refused
or leaves other marker structs.
-/

namespace RtpDecoder.Header

open RtpDecoder.Parser (Chunk chainBytes)

/-! ### Samples -/

/-- The type of a level that is split both ways or one way only. -/
def splitCode (split : Bool) : Nat := if split then both else horz

/-- A segment of each kind. The COD has one level or none, the DFS splits it both ways or not,
and the QCD is as long as it has to be for one level that is split both ways. -/
def sample (deep split : Bool) : Kind → RawSegment
  | .siz => ⟨0x51, List.replicate 35 0 ++ 3 :: List.replicate 9 1, by decide, by decide⟩
  | .cod => ⟨0x52, [0, 0, 0, 1, 0] ++ (if deep then [1, 2, 2, 0, 0, 0, 0] else [0, 2, 2, 0, 0, 0]), by decide,
      by cases deep <;> decide⟩
  | .dfs => ⟨0x72, [0, 0, 1, if split then 0x40 else 0x80], by decide, by cases split <;> decide⟩
  | .qcd => ⟨0x5C, [0, 0, 0, 0, 0], by decide, by decide⟩
  | .coc c => ⟨0x53, [c, 0, 2, 2, 2, 0, 0, 0], by decide, by simp⟩
  | .other => ⟨0x64, [], comment_legal, by decide⟩

/-- Structs that an earlier header left. -/
def sampleMarkers (deep split : Bool) : Markers where
  cod := { nl := deep.toNat }
  dfs := { type := fillFrom (Vector.replicate _ 0) 1 [splitCode split] }

section

variable {deep split : Bool} {m : Markers}

theorem sample_kind (deep split : Bool) (k : Kind) : (sample deep split k).kind = k := by
  cases k with
  | coc c => rfl
  | _ => cases deep <;> cases split <;> decide

theorem map_sample_kind (deep split : Bool) (o : List Kind) : (o.map (sample deep split)).map RawSegment.kind = o := by
  simp [Function.comp_def, sample_kind]

theorem sample_readable {k : Kind} (other : k ≠ .qcd) (component : ∀ c, k = .coc c → c.toNat < maxNumComponents)
    (rsiz : m.siz.rsiz = 0) : Readable m (sample deep split k) := by
  have same : m.context.rsiz = ({} : Markers).context.rsiz := rsiz
  rw [Readable, declares_congr (by rwa [sample_kind]) same]
  cases k with
  | coc c =>
    have small : c.toNat < 3 := component c rfl
    have bound : c.toNat = 0 ∨ c.toNat = 1 ∨ c.toNat = 2 := by omega
    obtain rfl | rfl | rfl : c = 0 ∨ c = 1 ∨ c = 2 :=
      bound.imp UInt8.toNat.inj (Or.imp UInt8.toNat.inj UInt8.toNat.inj)
    all_goals cases deep <;> cases split <;> decide
  | qcd => exact absurd rfl other
  | _ => cases deep <;> cases split <;> decide

theorem sample_levels (k : Kind) :
    (m.read (sample deep split k)).cod.nl = if k = .cod then deep.toNat else m.cod.nl := by
  split
  next cod =>
    subst cod
    cases deep <;> rfl
  next other => rw [(leaves_read m _).cod (by rwa [sample_kind])]

theorem sample_type (k : Kind) : entry (m.read (sample deep split k)).dfs.type 1 =
    if k = .dfs then splitCode split else entry m.dfs.type 1 := by
  by_cases dfs : k = .dfs
  · subst dfs
    have said : (sample deep split .dfs).reading m.context = .dfs 0 1 [splitCode split] := by
      have reads := sample_kind deep split .dfs ▸ reading_kind (sample deep split .dfs)
      cases reads with
      | dfs reading =>
        rw [reading, ← reading ({} : Markers).context]
        cases deep <;> cases split <;> decide +kernel
    have types : (m.read (sample deep split .dfs)).dfs.type = fillFrom m.dfs.type 1 [splitCode split] := by
      rw [Markers.read, said]
      rfl
    rw [types, entry_fillFrom, if_pos ⟨Nat.le_refl 1, by decide⟩, if_pos rfl]
    rfl
  · rw [if_neg dfs, (leaves_read m _).dfs (by rwa [sample_kind])]

theorem sample_coc {c : UInt8} (inside : c.toNat < maxNumComponents) (k : Kind) :
    ((m.read (sample deep split k)).coc c.toNat).nl =
      if k = .cod then deep.toNat else if k = .coc c then 2 else (m.coc c.toNat).nl := by
  by_cases cod : k = .cod
  · rw [if_pos cod, read_cod_coc (by rwa [sample_kind]) inside]
    change (m.read (sample deep split k)).cod.nl = _
    rw [sample_levels, if_pos cod]
  rw [if_neg cod]
  by_cases coc : k = .coc c
  · subst coc
    obtain ⟨style, tail, said, two⟩ : ∃ style tail,
        (sample deep split (.coc c)).reading m.context = .coc c.toNat style tail ∧ style.nl = 2 := ⟨_, _, rfl, rfl⟩
    rw [if_pos rfl, Markers.read, said, MarkerSegment.store_coc_coc, if_pos ⟨rfl, inside⟩,
      CocMarker.setCoc_toCodMarker, CodMarker.setTail_nl]
    exact two
  · rw [if_neg coc, (leaves_read m _).coc c (by rwa [sample_kind]) (by rwa [sample_kind])]

/-- The QCD is as long as it says for one level that is split both ways. -/
theorem sample_qcd (ctx : Context) :
    segmentLength ctx (sample deep split .qcd).bytes (sample deep split .qcd).marker 2 =
      3 + (stepPlaces ctx.nl ctx.type).length := by
  have zero : byteAt (sample deep split .qcd).bytes (2 + 2) = 0 := rfl
  have marker : (sample deep split .qcd).marker = MarkerCode.qcd := rfl
  simp [marker, segmentLength, qcdPlaces, qcdWidth, zero, MarkerCode.siz, MarkerCode.cap, MarkerCode.cod,
    MarkerCode.qcd]

theorem sample_sound_qcd : (sample deep split .qcd).Sound := by
  cases deep <;> cases split <;> decide

/-! ### Runs over the samples -/

theorem foldl_levels (o : List Kind) : ((o.map (sample deep split)).foldl Markers.read m).cod.nl =
    if .cod ∈ o then deep.toNat else m.cod.nl := by
  induction o generalizing m with
  | nil => rfl
  | cons k rest ih =>
    rw [List.map_cons, List.foldl_cons, ih, sample_levels]
    by_cases later : .cod ∈ rest
    · simp [later]
    · by_cases first : k = .cod <;> simp [later, first, eq_comm]

theorem foldl_type (o : List Kind) : entry ((o.map (sample deep split)).foldl Markers.read m).dfs.type 1 =
    if .dfs ∈ o then splitCode split else entry m.dfs.type 1 := by
  induction o generalizing m with
  | nil => rfl
  | cons k rest ih =>
    rw [List.map_cons, List.foldl_cons, ih, sample_type]
    by_cases later : .dfs ∈ rest
    · simp [later]
    · by_cases first : k = .dfs <;> simp [later, first, eq_comm]

theorem foldl_coc {c : UInt8} (inside : c.toNat < maxNumComponents) (o : List Kind) :
    (((o.map (sample deep split)).foldl Markers.read m).coc c.toNat).nl =
      (among [.cod, .coc c] o).foldl (fun _ k => if k = .cod then deep.toNat else 2) (m.coc c.toNat).nl := by
  induction o generalizing m with
  | nil => rfl
  | cons k rest ih =>
    rw [List.map_cons, List.foldl_cons, ih, sample_coc inside]
    by_cases cod : k = .cod
    · simp [among, cod]
    · by_cases coc : k = .coc c <;> simp [among, cod, coc]

theorem samples_readable {o : List Kind} (component : ∀ c, .coc c ∈ o → c.toNat < maxNumComponents) (siz : .siz ∉ o)
    (rsiz : m.siz.rsiz = 0) (qcd : ∀ before after, o = before ++ .qcd :: after →
      (sample deep split .qcd).Declares ((before.map (sample deep split)).foldl Markers.read m).context) :
    Throughout Markers.read Readable m (o.map (sample deep split)) := by
  rw [throughout_iff]
  intro before g after cut
  obtain ⟨first, last, rfl, rfl, tail⟩ := List.map_eq_append_iff.mp cut
  obtain ⟨k, after, rfl, rfl, rfl⟩ := List.map_eq_cons_iff.mp tail
  by_cases kind : k = .qcd
  · subst kind
    exact ⟨qcd first after rfl, sample_sound_qcd⟩
  · apply sample_readable kind
    · rintro c rfl
      exact component c (List.mem_append_right _ List.mem_cons_self)
    · rw [foldl_siz, rsiz]
      intro g inside
      obtain ⟨k, listed, rfl⟩ := List.mem_map.mp inside
      rw [sample_kind]
      rintro rfl
      exact siz (List.mem_append_left _ listed)

def sampleLength (deep : Bool) : Kind → Nat
  | .siz => 49
  | .cod => 15 + deep.toNat
  | .dfs => 8
  | .qcd => 9
  | .coc _ => 12
  | .other => 4

theorem sample_length (k : Kind) : (sample deep split k).bytes.length = sampleLength deep k := by
  cases k with
  | cod => cases deep <;> rfl
  | _ => rfl

/-- With one COD and one QCD, the samples do not add up to a multiple of four. -/
theorem length_samples (deep split : Bool) (o : List Kind) :
    ((o.map (sample deep split)).flatMap RawSegment.bytes).length % 4 =
      (o.count .siz + o.count .cod * (15 + deep.toNat) + o.count .qcd) % 4 := by
  induction o with
  | nil => simp
  | cons k rest ih =>
    rw [List.map_cons, List.flatMap_cons, List.length_append, sample_length]
    generalize ((rest.map (sample deep split)).flatMap RawSegment.bytes).length = n at ih
    cases k <;> simp only [sampleLength, List.count_cons, Nat.add_mul] <;> simp <;> omega

end

/-! ### What an exchange would need -/

section

variable {deep split deep₀ split₀ : Bool} {o o' before after before' after' : List Kind}

/-- Whether the QCD meets one level: as the COD before it says, or as the structs were left. -/
def levelMet (deep deep₀ : Bool) (before : List Kind) : Bool := if .cod ∈ before then deep else deep₀

/-- Whether it meets a level that is split both ways, in the same way. -/
def splitMet (split split₀ : Bool) (before : List Kind) : Bool := if .dfs ∈ before then split else split₀

/-- The structs when the segments behind SIZ come. -/
def sampleStart (deep split deep₀ split₀ : Bool) : Markers :=
  (sampleMarkers deep₀ split₀).read (sample deep split .siz)

theorem sampleStart_rsiz : (sampleStart deep split deep₀ split₀).siz.rsiz = 0 := by
  cases deep <;> cases split <;> cases deep₀ <;> cases split₀ <;> decide +kernel

theorem sampleStart_levels : (sampleStart deep split deep₀ split₀).cod.nl = deep₀.toNat := by
  rw [sampleStart, sample_levels, if_neg (by simp)]
  rfl

theorem sampleStart_type : entry (sampleStart deep split deep₀ split₀).dfs.type 1 = splitCode split₀ := by
  rw [sampleStart, sample_type, if_neg (by simp), sampleMarkers, entry_fillFrom, if_pos ⟨Nat.le_refl 1, by decide⟩]
  rfl

private theorem stepPlaces_length {type : Nat → Nat} (first : type 1 = splitCode split) :
    (stepPlaces deep.toNat type).length = if deep then (if split then 4 else 2) else 1 := by
  cases deep <;> cases split <;> simp_all [stepPlaces, splitCode, both, horz]

/-- The levels and the split that the QCD meets, from the segments before it or from earlier. -/
theorem sample_qcd_takes (deep split deep₀ split₀ : Bool) (before : List Kind) :
    segmentLength ((before.map (sample deep split)).foldl Markers.read (sampleStart deep split deep₀ split₀)).context
      (sample deep split .qcd).bytes (sample deep split .qcd).marker 2 =
    3 + if levelMet deep deep₀ before then (if splitMet split split₀ before then 4 else 2) else 1 := by
  let m := (before.map (sample deep split)).foldl Markers.read (sampleStart deep split deep₀ split₀)
  have levels : m.cod.nl = _ := foldl_levels before
  have types : entry m.dfs.type 1 = _ := foldl_type before
  rw [sampleStart_levels, ← apply_ite Bool.toNat] at levels
  rw [sampleStart_type, ← apply_ite splitCode] at types
  rw [sample_qcd]
  change 3 + (stepPlaces m.cod.nl (entry m.dfs.type)).length = _
  rw [levels, stepPlaces_length types, levelMet, splitMet]

private theorem absent_of_count {k : Kind} (once : (before ++ k :: after).count k = 1) : k ∉ before ∧ k ∉ after := by
  rw [List.count_append, List.count_cons_self] at once
  exact ⟨List.count_eq_zero.mp (by omega), List.count_eq_zero.mp (by omega)⟩

private theorem among_two {k a : Kind} (apart : k ≠ a) (once : o.count k = 1) (once' : o.count a = 1) :
    among [k, a] o = [k, a] ∨ among [k, a] o = [a, k] := by
  obtain ⟨before, after, rfl⟩ := List.append_of_mem (List.count_pos_iff.mp (once' ▸ Nat.one_pos))
  rw [among_pair apart (absent_of_count once') once]
  split
  · exact .inl rfl
  · exact .inr rfl

private theorem siz_readable : Readable (sampleMarkers deep₀ split₀) (sample deep split .siz) :=
  sample_readable (by simp) (by simp) (by cases deep₀ <;> cases split₀ <;> rfl)

/-- The samples are readable in an order in which the QCD meets one level that is split both ways. -/
theorem samples_readable_of_fits (each : OneEach (before ++ .qcd :: after))
    (levels : levelMet deep deep₀ before = true) (types : splitMet split split₀ before = true) :
    Throughout Markers.read Readable (sampleMarkers deep₀ split₀)
      (sample deep split .siz :: (before ++ .qcd :: after).map (sample deep split)) := by
  refine ⟨siz_readable, samples_readable each.component each.siz sampleStart_rsiz ?_⟩
  intro before₁ after₁ cut
  obtain ⟨absent, absent'⟩ := absent_of_count each.qcd
  obtain ⟨rfl, _⟩ := (List.append_cons_inj_of_notMem absent absent').mp cut
  rw [RawSegment.Declares]
  exact (sample_qcd_takes deep split deep₀ split₀ before).trans (by rw [levels, types]; rfl)

/-- The header of the samples in one chunk. -/
def sampleHeader (deep split : Bool) (o : List Kind) : List Chunk :=
  [⟨0, framed (sample deep split .siz :: o.map (sample deep split)) []⟩]

theorem sampleHeader_spelled (deep split : Bool) (o : List Kind) :
    Spelled (sample deep split .siz) (o.map (sample deep split)) [] (sampleHeader deep split o) where
  nonempty := by simp [sampleHeader, framed]
  bytes := by simp [sampleHeader, chainBytes]

theorem sampleHeader_end_ne_zero (deep split : Bool) (each : OneEach o) :
    BitVec.ofNat 32 (framed (sample deep split .siz :: o.map (sample deep split)) []).length ≠ 0 := by
  have length := length_samples deep split o
  have first : (sample deep split .siz).bytes.length = 49 := sample_length .siz
  rw [List.count_eq_zero.mpr each.siz, each.cod, each.qcd] at length
  intro zero
  have wrapped := congrArg BitVec.toNat zero
  simp only [BitVec.toNat_ofNat, framed, List.flatMap_cons, List.length_append, first] at wrapped
  cases deep <;> simp at wrapped length <;> omega

private theorem few_steps {level turn : Bool} (misfit : ¬ (level = true ∧ turn = true)) :
    (if level then (if turn then 4 else 2) else 1) = 2 ∨ (if level then (if turn then 4 else 2) else 1) = 1 := by
  cases level <;> cases turn <;> simp_all

/-- A QCD that meets less than it was made for leaves two bytes that are no marker. -/
theorem sampleHeader_lost (after : List Kind) (component : ∀ c, .coc c ∈ before → c.toNat < maxNumComponents)
    (siz : .siz ∉ before) (qcd : .qcd ∉ before)
    (misfit : ¬ (levelMet deep deep₀ before = true ∧ splitMet split split₀ before = true)) :
    ∃ m t, parseMainHeader (sampleMarkers deep₀ split₀)
      { chunks := sampleHeader deep split (before ++ .qcd :: after) } = some (0, m, t) := by
  have spelled := sampleHeader_spelled deep split (before ++ .qcd :: after)
  have bytes := spelled.bytes
  rw [List.map_append, List.map_cons, ← List.cons_append] at bytes
  have readable : Throughout Markers.read Readable (sampleMarkers deep₀ split₀)
      (sample deep split .siz :: before.map (sample deep split)) :=
    ⟨siz_readable, samples_readable component siz sampleStart_rsiz fun _ _ cut =>
      absurd (cut ▸ List.mem_append_right _ List.mem_cons_self) qcd⟩
  have takes := sample_qcd_takes deep split deep₀ split₀ before
  rw [sampleStart, ← List.foldl_cons] at takes
  have length : (sample deep split .qcd).length = 7 := rfl
  rcases few_steps misfit with steps | steps <;> rw [steps] at takes
  · have zeros : rd16 (sample deep split .qcd).bytes (2 + (3 + 2)) = 0 := by
      cases deep <;> cases split <;> decide
    exact parseMainHeader_lost spelled.nonempty bytes readable sample_sound_qcd takes (by omega) (by rw [zeros]; decide)
  · have zeros : rd16 (sample deep split .qcd).bytes (2 + (3 + 1)) = 0 := by
      cases deep <;> cases split <;> decide
    exact parseMainHeader_lost spelled.nonempty bytes readable sample_sound_qcd takes (by omega) (by rw [zeros]; decide)

/-- An exchange of two orders takes a header of samples that is accepted to one that is, with the
same structs. -/
theorem fits_of_interchangeable (deep split deep₀ split₀ : Bool) (each : OneEach (before ++ .qcd :: after))
    (perm : (before ++ .qcd :: after).Perm (before' ++ .qcd :: after'))
    (exchange : Interchangeable (before ++ .qcd :: after) (before' ++ .qcd :: after'))
    (levels : levelMet deep deep₀ before = true) (types : splitMet split split₀ before = true) :
    (levelMet deep deep₀ before' = true ∧ splitMet split split₀ before' = true) ∧
    ((before ++ .qcd :: after).map (sample deep split)).foldl Markers.read (sampleStart deep split deep₀ split₀) =
      ((before' ++ .qcd :: after').map (sample deep split)).foldl Markers.read
        (sampleStart deep split deep₀ split₀) := by
  have readable := samples_readable_of_fits each levels types
  have spelled := sampleHeader_spelled deep split (before ++ .qcd :: after)
  have spelled' := sampleHeader_spelled deep split (before' ++ .qcd :: after')
  obtain ⟨t, parsed⟩ := parseMainHeader_framed spelled.nonempty spelled.bytes readable
  have conforms : Conforms (sampleMarkers deep₀ split₀)
      (chainBytes (sampleHeader deep split (before ++ .qcd :: after))) := by
    rw [spelled.bytes, conforms_framed, throughout_iff]
    rw [throughout_iff] at readable
    exact fun before g after cut => (readable before g after cut).1
  have accepted := sampleHeader_end_ne_zero deep split each
  obtain ⟨t', parsed'⟩ := exchange _ _ _ _ _ _ _ _ _ _ (sample_kind deep split .siz)
    (map_sample_kind deep split _) (map_sample_kind deep split _) (perm.map _) spelled spelled' conforms parsed accepted
  have each' := each.perm perm
  obtain ⟨absent, _⟩ := absent_of_count each'.qcd
  -- If the QCD did not fit in its new place, the framing would be lost and the header refused.
  by_cases fits : levelMet deep deep₀ before' = true ∧ splitMet split split₀ before' = true
  · obtain ⟨u, framed'⟩ := parseMainHeader_framed spelled'.nonempty spelled'.bytes
      (samples_readable_of_fits each' fits.1 fits.2)
    rw [framed'] at parsed'
    simp only [Option.some.injEq, Prod.mk.injEq] at parsed'
    obtain ⟨_, same, _⟩ := parsed'
    rw [List.foldl_cons, List.foldl_cons, ← sampleStart] at same
    exact ⟨fits, same.symm⟩
  · obtain ⟨m, u, lost⟩ := sampleHeader_lost after'
      (fun c inside => each'.component c (List.mem_append_left _ inside))
      (fun inside => each'.siz (List.mem_append_left _ inside)) absent fits
    rw [lost] at parsed'
    simp only [Option.some.injEq, Prod.mk.injEq] at parsed'
    exact absurd parsed'.1.symm accepted

private theorem levelMet_iff :
    levelMet (decide (Kind.cod ∈ before)) (!decide (Kind.cod ∈ before)) before' = true ↔
      (Kind.cod ∈ before ↔ Kind.cod ∈ before') := by
  by_cases met : Kind.cod ∈ before' <;> simp [levelMet, met]

private theorem splitMet_iff :
    splitMet (decide (Kind.dfs ∈ before)) (!decide (Kind.dfs ∈ before)) before' = true ↔
      (Kind.dfs ∈ before ↔ Kind.dfs ∈ before') := by
  by_cases met : Kind.dfs ∈ before' <;> simp [splitMet, met]

theorem sameOrder_of_interchangeable (each : OneEach (before ++ .qcd :: after))
    (perm : (before ++ .qcd :: after).Perm (before' ++ .qcd :: after'))
    (exchange : Interchangeable (before ++ .qcd :: after) (before' ++ .qcd :: after')) :
    SameOrder (before ++ .qcd :: after) (before' ++ .qcd :: after') := by
  have each' := each.perm perm
  have absent := absent_of_count each.qcd
  have absent' := absent_of_count each'.qcd
  refine ⟨fun c => ?_, ?_, ?_⟩
  · by_cases listed : .coc c ∈ before ++ .qcd :: after
    · have inside := each.component c listed
      have once : (before ++ .qcd :: after).count (.coc c) = 1 :=
        Nat.le_antisymm (each.coc c) (List.count_pos_iff.mpr listed)
      -- The component ends with two levels, of its COC, or with one, of the COD.
      have same := (fits_of_interchangeable true true true true each perm exchange (by simp [levelMet])
        (by simp [splitMet])).2
      have levels := congrArg (fun m => (m.coc c.toNat).nl) same
      simp only [foldl_coc inside] at levels
      rcases among_two (by simp) each.cod once with first | first <;>
        rcases among_two (by simp) each'.cod (perm.count_eq _ ▸ once) with second | second <;>
        rw [first, second] at levels ⊢ <;> simp at levels
    · have listed' : .coc c ∉ before' ++ .qcd :: after' := fun inside => listed (perm.symm.subset inside)
      rw [among_pair_absent listed, among_pair_absent listed', among_single .cod perm]
  · rw [among_pair (by simp) absent each.cod, among_pair (by simp) absent' each'.cod]
    have fits := (fits_of_interchangeable (decide (.cod ∈ before)) true (!decide (.cod ∈ before)) true each perm
      exchange (levelMet_iff.mpr Iff.rfl) (by simp [splitMet])).1.1
    rw [if_congr (levelMet_iff.mp fits) rfl rfl]
  · rw [among_pair (by simp) absent each.dfs, among_pair (by simp) absent' each'.dfs]
    have fits := (fits_of_interchangeable true (decide (.dfs ∈ before)) true (!decide (.dfs ∈ before)) each perm
      exchange (by simp [levelMet]) (splitMet_iff.mpr Iff.rfl)).1.2
    rw [if_congr (splitMet_iff.mp fits) rfl rfl]

/-- Two orders may be exchanged, whatever the segments contain, exactly if the pairs of which one
has an effect on the other stand in the same order in both. With the contents at hand more orders can
be exchanged: a QCD of type 1 in front of the COD, for instance, does no harm. -/
theorem interchangeable_iff (each : OneEach o) (perm : o.Perm o') : Interchangeable o o' ↔ SameOrder o o' := by
  constructor
  · intro exchange
    have one : 0 < o.count .qcd := each.qcd ▸ Nat.one_pos
    obtain ⟨before, after, rfl⟩ := List.append_of_mem (List.count_pos_iff.mp one)
    obtain ⟨before', after', rfl⟩ := List.append_of_mem (List.count_pos_iff.mp (perm.count_eq _ ▸ one))
    exact sameOrder_of_interchangeable each perm exchange
  · exact interchangeable_of_sameOrder each

end

/-- A COC behind the COD, and a comment at the end. -/
def plainOrder : List Kind := [.cod, .coc 0, .dfs, .qcd, .other]

theorem oneEach_plainOrder : OneEach plainOrder where
  cod := by decide
  dfs := by decide
  qcd := by decide
  coc c := by
    by_cases zero : c = 0
    · subst zero
      decide
    · rw [List.count_eq_zero.mpr (by simp [plainOrder, zero])]
      exact Nat.zero_le 1
  component c listed := by
    obtain rfl : c = 0 := by simpa [plainOrder] using listed
    decide
  siz := by decide

/-- The comment in front, and the COC at the end. -/
def movedOrder : List Kind := [.other, .dfs, .cod, .qcd, .coc 0]

theorem interchangeable_iff_plain :
    Conforms {} (chainBytes (sampleHeader true true plainOrder)) ∧ ∃ r m t t', r ≠ 0 ∧
      parseMainHeader {} { chunks := sampleHeader true true plainOrder } = some (r, m, t) ∧
      parseMainHeader {} { chunks := sampleHeader true true movedOrder } = some (r, m, t') := by
  have same : SameOrder plainOrder movedOrder := by
    refine ⟨fun c => ?_, by decide, by decide⟩
    by_cases zero : c = 0
    · subst zero
      decide
    · rw [among_pair_absent (by simp [plainOrder, zero]), among_pair_absent (by simp [movedOrder, zero])]
      decide
  have conforms : Conforms {} (chainBytes (sampleHeader true true plainOrder)) := by decide +kernel
  have first : (parseMainHeader {} { chunks := sampleHeader true true plainOrder }).map Prod.fst = some 102 := by
    decide +kernel
  obtain ⟨⟨r, m, t⟩, parsed, rfl⟩ := Option.map_eq_some_iff.mp first
  obtain ⟨t', parsed'⟩ := (interchangeable_iff oneEach_plainOrder (by decide)).mpr same {} m _ _ _ _ _ _ _ t
    (sample_kind true true .siz) (map_sample_kind true true _) (map_sample_kind true true _)
    ((by decide : plainOrder.Perm movedOrder).map _) (sampleHeader_spelled true true _)
    (sampleHeader_spelled true true _) conforms parsed (by decide)
  exact ⟨conforms, _, m, t, t', by decide, parsed, parsed'⟩

/-- The COC in front of the COD. -/
def overwritingOrder : List Kind := [.coc 0, .cod, .dfs, .qcd, .other]

/-- The QCD in front of the COD. -/
def earlyQcd : List Kind := [.dfs, .qcd, .cod, .coc 0, .other]

/-- The COD overwrites what the COC says, and a QCD in front of it is read for no level at all, so that
the rest of it is taken for a marker. -/
theorem segments_rearranged :
    OneEach plainOrder ∧ plainOrder.Perm overwritingOrder ∧ plainOrder.Perm earlyQcd ∧
    Conforms {} (chainBytes (sampleHeader true true plainOrder)) ∧
    (∃ m t, parseMainHeader {} { chunks := sampleHeader true true plainOrder } = some (102, m, t) ∧
      (m.coc 0).nl = 2) ∧
    (∃ m t, parseMainHeader {} { chunks := sampleHeader true true overwritingOrder } = some (102, m, t) ∧
      (m.coc 0).nl = 1) ∧
    ∃ m t, parseMainHeader {} { chunks := sampleHeader true true earlyQcd } = some (0, m, t) := by
  have run {o : List Kind} {r : BitVec 32} {nl : Nat}
      (found : (parseMainHeader {} { chunks := sampleHeader true true o }).map (fun p => (p.1, (p.2.1.coc 0).nl)) =
        some (r, nl)) :
      ∃ m t, parseMainHeader {} { chunks := sampleHeader true true o } = some (r, m, t) ∧ (m.coc 0).nl = nl := by
    obtain ⟨⟨_, m, t⟩, parsed, rest⟩ := Option.map_eq_some_iff.mp found
    cases rest
    exact ⟨m, t, parsed, rfl⟩
  have failed : (parseMainHeader {} { chunks := sampleHeader true true earlyQcd }).map Prod.fst = some 0 := by
    decide +kernel
  obtain ⟨⟨_, m, t⟩, lost, rfl⟩ := Option.map_eq_some_iff.mp failed
  exact ⟨oneEach_plainOrder, by decide, by decide, by decide +kernel, run (by decide +kernel), run (by decide +kernel),
    m, t, lost⟩

end RtpDecoder.Header

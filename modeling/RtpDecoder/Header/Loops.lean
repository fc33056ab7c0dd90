import RtpDecoder.Header.MainHeader
import RtpDecoder.Lib.Looping

/-!
# The loops of the main header

`parse_main_header` once more, with every loop of its segment parsers as the source has it:
the counter, its width and its test. What stands in front of a loop is read by the same programs.
What the source writes outside an array is ignored here, so that a parser has a result for every
segment whose loops end; whatever `parseMainHeader` returns, this model ends with.

All these loops end, for every segment, but one. The counter of `parse_QCD` has the eight bits of
the `NL` it is compared with.
-/

namespace RtpDecoder.Header.Loops

open RtpDecoder.Parser (Codestream)
open Looping (loop forEach untilDone)

/-- A program that reads the chain in loops. -/
abbrev LoopingParser := Looping Ahead

/-! ### Loops

An `int` counts in 31 bits: where one more would overflow is far beyond the bounds here. -/

/-- `for (i = start; i < bound; ++i)` with a counter of `w` bits. -/
def below (w start bound : Nat) : LoopingParser (List Nat) := loop (fun i => decide (i < bound)) (up w) start

/-- `for (i = start; i <= last; ++i)` with a counter of `w` bits. -/
def upTo (w start last : Nat) : LoopingParser (List Nat) := loop (fun i => decide (i ≤ last)) (up w) start

/-- `for (i = start; i > 0; --i)` with a counter of `w` bits. -/
def downFrom (w start : Nat) : LoopingParser (List Nat) := loop (fun i => decide (0 < i)) (down w) start

/-! ### Segments -/

def parseSIZ : LoopingParser MarkerSegment := do
  let frame ← sizFrame
  if frame.csiz ≠ 3 then return .siz frame []
  else
    let cs ← below 16 0 frame.csiz
    let components ← times cs.length sizComponent
    return .siz frame components

/-- The part of a coding style that `styleTail` reads, its precinct sizes in a loop. -/
def styleTail (rsiz : Nat) (sizes : LoopingParser (List Nat)) : LoopingParser StyleTail := do
  let (cbs, transform) ← styleBytes rsiz
  let is ← sizes
  let sizes ← times is.length byte
  return { cbs := cbs, transform := transform, sizes := sizes }

def parseCOD (rsiz : Nat) : LoopingParser MarkerSegment := do
  let (progressionOrder, numLayers, mct, style) ← codHead
  -- An unsupported `NL` is reported and used.
  if 4 < style.cbh then return .cod progressionOrder numLayers mct style none
  else
    let tail ← styleTail rsiz (upTo 31 0 style.nl)
    return .cod progressionOrder numLayers mct style (some tail)

/-- The loop of `copy_cod`, for each of the three components. -/
def copyCods (nl : Nat) : LoopingParser Unit := do
  let _ ← upTo 31 0 nl
  let _ ← upTo 31 0 nl
  let _ ← upTo 31 0 nl
  return ()

def parseCOC (rsiz : Nat) : LoopingParser MarkerSegment := do
  let (len, ccoc, style) ← cocHead
  if 4 < style.cbh then return .coc ccoc style none
  else
    let tail ← styleTail rsiz (below 31 0 len)
    return .coc ccoc style (some tail)

/-- The loops of `GET_HOR_DEPTH` and of `GET_VER_DEPTH`. -/
def depths (idfs : Nat) : LoopingParser (List (List Nat)) := do
  let levs ← upTo 32 0 idfs
  forEach (fun lev => upTo 32 1 lev) levs

def parseDFS : LoopingParser MarkerSegment := do
  let ldfs ← word
  if ldfs < 5 then return .skipped
  else
    let sdfs ← word
    let idfs ← byte
    let is ← below 16 0 (ldfs - 5)
    let bytes ← times is.length byte
    let _types ← downFrom 32 idfs
    let _horDepths ← depths idfs
    let _verDepths ← depths idfs
    return .dfs sdfs idfs (dfsTypes idfs bytes)

/-- The places of the steps, with the counters of the levels and of their bands in `uint8_t`. -/
def stepPlaces (nl : Nat) (type : Nat → Nat) : LoopingParser (List Nat) := do
  let levels ← upTo 8 1 nl
  let places ← forEach (fun i => do
    if type i = both then
      let bands ← below 8 0 3
      return bands.map fun b => 3 * (i - 1) + b + 1
    else return [3 * (i - 1) + 1]) levels
  return 0 :: places.flatten

def parseQCD (codNL : Nat) (type : Nat → Nat) : LoopingParser MarkerSegment := do
  let _lqcd ← word
  let sqcd ← byte
  let places ← stepPlaces (if sqcd &&& 0x1F = 1 then 1 else codNL) type
  readSteps sqcd places

def parseCAP : LoopingParser MarkerSegment := do
  let lcap ← word
  let pcap ← dword
  let expectedWords := if 6 ≤ lcap then (lcap - 6) / 2 else 0
  let is ← below 31 0 32
  let parts := is.filter fun i => pcap.testBit (31 - i)
  let _ccap ← times parts.length word
  -- `read_words` has counted the parts.
  let rest ← below 16 parts.length expectedWords
  let _rest ← times rest.length word
  return .skipped

def skipMarker : LoopingParser MarkerSegment := do
  let len ← word
  let is ← below 16 0 (len - 2)
  let _content ← times is.length byte
  return .skipped

/-! ### The scan -/

def parseSegment (m : Markers) (marker : Nat) : LoopingParser MarkerSegment :=
  if marker = MarkerCode.siz then parseSIZ
  else if marker = MarkerCode.cap then parseCAP
  else if marker = MarkerCode.cod then do
    let seg ← parseCOD m.siz.rsiz
    copyCods (seg.store m).cod.nl
    return seg
  else if marker = MarkerCode.qcd then parseQCD m.cod.nl (entry m.dfs.type)
  else if marker = MarkerCode.coc then parseCOC m.siz.rsiz
  else if marker = MarkerCode.dfs then parseDFS
  else skipMarker

/-- A round of the loop over the markers: the structs to go on with, or whether SOD was
found. -/
def scanMarker (m : Markers) : LoopingParser (Markers ⊕ Bool × Markers) := do
  let marker ← word
  if marker = MarkerCode.sod then return .inr (true, m)
  else if !MarkerCode.legal marker then return .inr (false, m)
  else
    let seg ← parseSegment m marker
    return .inl (seg.store m)

/-- `get_pos`. -/
def pos : HeaderParser (BitVec 32) where
  run s := some (s.getPos, s)
  forward returned := by
    cases returned
    exact refl_of Ahead _

def parseMainHeader (m : Markers) : LoopingParser (BitVec 32 × Markers) := do
  let soc ← word
  if soc ≠ MarkerCode.soc then return (0, m)
  else
    let (found, m') ← untilDone scanMarker m
    let off ← pos
    return (if found then off else 0, m')

/-! ### What the loops and the reads give -/

theorem settles_below {w start bound : Nat} (reach : bound < 2 ^ w) :
    (below w start bound).Settles (List.range' start (bound - start)) :=
  Looping.settles_loop (turns_up reach (Nat.lt_succ_self _))

theorem settles_upTo {w start last : Nat} (reach : last + 1 < 2 ^ w) :
    (upTo w start last).Settles (List.range' start (last + 1 - start)) :=
  Looping.settles_loop (turns_up_le reach (Nat.lt_succ_self _))

theorem settles_downFrom {w start : Nat} (reach : start < 2 ^ w) : ∃ l, (downFrom w start).Settles l := by
  obtain ⟨l, ended⟩ := turns_down reach (Nat.lt_succ_self start)
  exact ⟨l, Looping.settles_loop ended⟩

theorem yields_byte : byte.Yields (· < 2 ^ 8) := fun s => ⟨_, _, rfl, s.getByte.1.toNat_lt⟩

theorem yields_word : word.Yields (· < 2 ^ 16) := fun s => ⟨_, _, rfl, s.getWord.1.isLt⟩

theorem yields_dword : dword.Yields (· < 2 ^ 32) := fun s => ⟨_, _, rfl, s.getDword.1.isLt⟩

theorem yields_times {α : Type} {P : α → Prop} {p : HeaderParser α} (yields : p.Yields P) (n : Nat) :
    (times n p).Yields fun _ => True :=
  Advancing.yields_mapM (fun _ s => by
    obtain ⟨a, t, returned, _⟩ := yields s
    exact ⟨a, t, returned, trivial⟩) _

/-! ### Every segment parser but one ends -/

/-- The segment has another level count for components only. -/
def KeepsNL (seg : MarkerSegment) : Prop := ∀ m : Markers, (seg.store m).cod.nl = m.cod.nl

theorem yields_sizFrame : sizFrame.Yields (·.csiz < 2 ^ 16) := by
  iterate 2
    apply yields_word.bind
    intro _ _
  iterate 8
    apply yields_dword.bind
    intro _ _
  exact yields_word.bind fun _ width => Advancing.yields_pure width

theorem sumsUp_parseSIZ : parseSIZ.SumsUp Header.parseSIZ KeepsNL := by
  apply Looping.sumsUp_read yields_sizFrame
  intro frame width
  -- Other than three components make `parse_SIZ` return early.
  apply Looping.sumsUp_ite
  · intro _
    exact Looping.sumsUp_pure fun _ => rfl
  · intro _
    apply (settles_below width).sumsUp
    rw [List.length_range', Nat.sub_zero]
    have component : sizComponent.Yields fun _ => True :=
      yields_byte.bind fun _ _ => yields_byte.bind fun _ _ => yields_byte.bind fun _ _ =>
        Advancing.yields_pure trivial
    exact Looping.sumsUp_read (yields_times component _) fun _ _ => Looping.sumsUp_pure fun _ => rfl

theorem sumsUp_styleTail (rsiz : Nat) {n : Nat} {is : List Nat} {sizes : LoopingParser (List Nat)}
    (settles : sizes.Settles is) (length : is.length = n) :
    (styleTail rsiz sizes).SumsUp (Header.styleTail rsiz n) fun _ => True := by
  subst length
  have fixed : (styleBytes rsiz).Yields fun _ => True := by
    iterate 2
      apply yields_byte.bind
      intro _ _
    dsimp only
    split
    · exact yields_word.bind fun _ _ => Advancing.yields_pure trivial
    · exact Advancing.yields_pure trivial
  refine Looping.sumsUp_read fixed fun _ _ => settles.sumsUp ?_
  exact Looping.sumsUp_read (yields_times yields_byte _) fun _ _ => Looping.sumsUp_pure trivial

theorem yields_codHead : codHead.Yields (·.2.2.2.nl < 2 ^ 8) := by
  apply yields_word.bind
  intro _ _
  iterate 2
    apply yields_byte.bind
    intro _ _
  apply yields_word.bind
  intro _ _
  apply yields_byte.bind
  intro _ _
  apply yields_byte.bind
  intro nl width
  exact yields_byte.bind fun _ _ => yields_byte.bind fun _ _ => Advancing.yields_pure width

theorem sumsUp_parseCOD (rsiz : Nat) :
    (parseCOD rsiz).SumsUp (Header.parseCOD rsiz) fun seg => ∀ m : Markers, (seg.store m).cod.nl < 2 ^ 8 := by
  apply Looping.sumsUp_read yields_codHead
  rintro ⟨progressionOrder, numLayers, mct, style⟩ width
  have width : style.nl < 2 ^ 8 := width
  -- More levels than the arrays hold are beyond the model without loops; here they are only counted.
  apply Looping.SumsUp.unless
  apply Looping.sumsUp_ite
  · intro _
    exact Looping.sumsUp_pure fun _ => width
  · intro _
    have levels : (upTo 31 0 style.nl).Settles (List.range' 0 (style.nl + 1)) := settles_upTo (by omega)
    apply (sumsUp_styleTail rsiz levels (List.length_range' ..)).bind
    intro tail _
    apply Looping.sumsUp_pure
    intro m
    exact width

theorem settles_copyCods {nl : Nat} (width : nl < 2 ^ 8) : (copyCods nl).Settles () := by
  have levels : (upTo 31 0 nl).Settles (List.range' 0 (nl + 1)) := settles_upTo (by omega)
  exact levels.bind (levels.bind (levels.bind (Looping.settles_pure ())))

/-- The rest of the segment is counted in 16 bits. -/
theorem yields_cocHead : cocHead.Yields (·.1 < 2 ^ 16) := by
  apply yields_word.bind
  intro lcoc _
  iterate 5
    apply yields_byte.bind
    intro _ _
  exact Advancing.yields_pure (Nat.mod_lt _ (Nat.two_pow_pos 16))

theorem sumsUp_parseCOC (rsiz : Nat) : (parseCOC rsiz).SumsUp (Header.parseCOC rsiz) KeepsNL := by
  apply Looping.sumsUp_read yields_cocHead
  rintro ⟨len, ccoc, style⟩ width
  have width : len < 2 ^ 16 := width
  apply Looping.SumsUp.unless
  apply Looping.sumsUp_ite
  · intro _
    exact Looping.sumsUp_pure fun _ => rfl
  · intro _
    apply Looping.SumsUp.unless
    have left : (below 31 0 len).Settles (List.range' 0 len) := settles_below (by omega)
    apply (sumsUp_styleTail rsiz left List.length_range').bind
    intro tail _
    exact Looping.sumsUp_pure fun _ => rfl

theorem settles_depths {idfs : Nat} (width : idfs < 2 ^ 8) : ∃ l, (depths idfs).Settles l := by
  have levels : (upTo 32 0 idfs).Settles (List.range' 0 (idfs + 1)) := settles_upTo (by omega)
  have each : ∀ lev ∈ List.range' 0 (idfs + 1), (upTo 32 1 lev).Settles (List.range' 1 lev) := by
    intro lev inside
    have below := List.mem_range'_1.mp inside
    exact settles_upTo (by omega)
  exact ⟨_, levels.bind (Looping.settles_forEach each)⟩

theorem sumsUp_parseDFS : parseDFS.SumsUp Header.parseDFS KeepsNL := by
  apply Looping.sumsUp_read yields_word
  intro ldfs width
  apply Looping.sumsUp_ite
  · intro _
    exact Looping.sumsUp_pure fun _ => rfl
  · intro _
    apply Looping.sumsUp_read yields_word
    intro sdfs _
    apply Looping.sumsUp_read yields_byte
    intro idfs few
    -- The bits of the types are counted down, then the depths are counted in nested loops, twice.
    obtain ⟨types, down⟩ : ∃ l, (downFrom 32 idfs).Settles l := settles_downFrom (by omega)
    obtain ⟨_, depths⟩ := settles_depths few
    apply (settles_below (w := 16) (by omega)).sumsUp
    rw [List.length_range', Nat.sub_zero]
    apply Looping.sumsUp_read (yields_times yields_byte _)
    intro bytes _
    apply down.sumsUp
    apply depths.sumsUp
    apply depths.sumsUp
    apply Looping.SumsUp.unless
    exact Looping.sumsUp_pure fun _ => rfl

theorem sumsUp_parseCAP : parseCAP.SumsUp Header.parseCAP KeepsNL := by
  apply Looping.sumsUp_read yields_word
  intro lcap width
  apply Looping.sumsUp_read yields_dword
  intro pcap _
  apply (settles_below (w := 31) (by decide)).sumsUp
  rw [← List.range_eq_range']
  apply Looping.sumsUp_read (yields_times yields_word _)
  intro _ _
  have few : (if 6 ≤ lcap then (lcap - 6) / 2 else 0) < 2 ^ 16 := by
    split
    · omega
    · decide
  apply (settles_below few).sumsUp
  rw [List.length_range']
  apply Looping.sumsUp_read (yields_times yields_word _)
  intro _ _
  exact Looping.sumsUp_pure fun _ => rfl

theorem sumsUp_skipMarker : skipMarker.SumsUp Header.skipMarker KeepsNL := by
  apply Looping.sumsUp_read yields_word
  intro len width
  apply (settles_below (w := 16) (by omega)).sumsUp
  rw [List.length_range', Nat.sub_zero]
  apply Looping.sumsUp_read (yields_times yields_byte _)
  intro _ _
  exact Looping.sumsUp_pure fun _ => rfl

/-! ### The steps of a QCD -/

theorem settles_stepPlaces {nl : Nat} (few : nl < 255) (type : Nat → Nat) :
    (stepPlaces nl type).Settles (Header.stepPlaces nl type) := by
  -- Eight bits can count beyond `nl`, and so the loop comes to its end.
  have levels : (upTo 8 1 nl).Settles (List.range' 1 nl) := settles_upTo (by omega)
  let places (i : Nat) : List Nat :=
    if type i = both then (List.range' 0 3).map fun b => 3 * (i - 1) + b + 1 else [3 * (i - 1) + 1]
  have each : ∀ i ∈ List.range' 1 nl, (do
      if type i = both then
        let bands ← below 8 0 3
        return bands.map fun b => 3 * (i - 1) + b + 1
      else return [3 * (i - 1) + 1] : LoopingParser (List Nat)).Settles (places i) := by
    intro i _
    unfold places
    split
    · exact (settles_below (by decide)).bind (Looping.settles_pure _)
    · exact Looping.settles_pure _
  have all : (stepPlaces nl type).Settles (0 :: ((List.range' 1 nl).map places).flatten) :=
    levels.bind ((Looping.settles_forEach each).bind (Looping.settles_pure _))
  have same : 0 :: ((List.range' 1 nl).map places).flatten = Header.stepPlaces nl type := by
    rw [List.range'_eq_map_range, List.map_map, ← List.flatMap_def]
    unfold Header.stepPlaces
    congr 2
    funext k
    simp only [Function.comp, places, Nat.add_comm 1 k, Nat.add_sub_cancel]
    rfl
  rw [← same]
  exact all

theorem yields_readSteps (sqcd : Nat) (places : List Nat) : (readSteps sqcd places).Yields KeepsNL := by
  have step (i : Nat) : (if sqcd &&& 0x1F = 0 then do
      let v ← byte
      return (i, v >>> 3, none)
    else do
      let v ← word
      return (i, v >>> 11, some (v &&& 0x7FF)) : HeaderParser (Nat × Nat × Option Nat)).Yields fun _ => True := by
    split
    · exact yields_byte.bind fun _ _ => Advancing.yields_pure trivial
    · exact yields_word.bind fun _ _ => Advancing.yields_pure trivial
  exact (Advancing.yields_mapM step places).bind fun _ _ => Advancing.yields_pure fun _ => rfl

theorem sumsUp_parseQCD {codNL : Nat} (few : codNL < 255) (type : Nat → Nat) :
    (parseQCD codNL type).SumsUp (Header.parseQCD codNL type) KeepsNL := by
  apply Looping.sumsUp_read yields_word
  intro _ _
  apply Looping.sumsUp_read yields_byte
  intro sqcd _
  have levels : (if sqcd &&& 0x1F = 1 then 1 else codNL) < 255 := by
    split
    · decide
    · exact few
  apply (settles_stepPlaces levels type).sumsUp
  exact Looping.sumsUp_lift (yields_readSteps sqcd _)

/-- The loop over the levels compares a counter of eight bits with `NL`. -/
theorem halts_parseQCD (codNL : Nat) (type : Nat → Nat) (s : Codestream) :
    (parseQCD codNL type).Halts s ↔ s.getWord.2.getByte.1.toNat &&& 0x1F = 1 ∨ codNL < 255 := by
  have read : (parseQCD codNL type).Halts s ↔
      (stepPlaces (if s.getWord.2.getByte.1.toNat &&& 0x1F = 1 then 1 else codNL) type).Halts
        s.getWord.2.getByte.2 := by
    apply (Looping.halts_read (p := word) rfl).trans
    apply (Looping.halts_read (p := byte) rfl).trans
    apply Looping.halts_bind
    intro places t
    exact (Looping.sumsUp_lift (yields_readSteps _ places)).halts t
  rw [read]
  generalize s.getWord.2.getByte.1.toNat &&& 0x1F = qcdType
  -- No counter of eight bits gets above 255.
  have endless (many : 255 ≤ codNL) (t : Codestream) : ¬ (stepPlaces codNL type).Halts t :=
    Looping.not_halts_bind (Looping.not_halts_loop
      (fun n => turns_up_endless (by omega) n (by decide)) t)
  by_cases derived : qcdType = 1
  · rw [if_pos derived]
    exact ⟨fun _ => .inl derived, fun _ => ⟨_, _, settles_stepPlaces (by decide) type _⟩⟩
  · rw [if_neg derived]
    constructor
    · intro halts
      by_contra many
      exact endless (by omega) _ halts
    · intro fine
      have few : codNL < 255 := fine.resolve_left derived
      exact ⟨_, _, settles_stepPlaces few type _⟩

/-! ### The scan -/

theorem sumsUp_parseSegment {m : Markers} {marker : Nat} (fine : marker = MarkerCode.qcd → m.cod.nl < 255) :
    (parseSegment m marker).SumsUp (Header.parseSegment m marker) fun seg =>
      marker ≠ MarkerCode.cod → (seg.store m).cod.nl = m.cod.nl := by
  have keeps {q : LoopingParser MarkerSegment} {p : HeaderParser MarkerSegment} (sums : q.SumsUp p KeepsNL) :
      q.SumsUp p fun seg => marker ≠ MarkerCode.cod → (seg.store m).cod.nl = m.cod.nl :=
    sums.mono fun seg keeps _ => keeps m
  unfold parseSegment Header.parseSegment
  apply Looping.sumsUp_ite fun _ => keeps sumsUp_parseSIZ
  intro _
  apply Looping.sumsUp_ite fun _ => keeps sumsUp_parseCAP
  intro _
  apply Looping.sumsUp_ite
  · intro cod
    -- `copy_cod` runs after `parse_COD`, with the `NL` that this has stored.
    have copied : ∀ seg : MarkerSegment, (∀ m : Markers, (seg.store m).cod.nl < 2 ^ 8) →
        (do copyCods (seg.store m).cod.nl; return seg : LoopingParser MarkerSegment).Settles seg :=
      fun seg width => (settles_copyCods (width m)).bind (Looping.settles_pure seg)
    exact ((sumsUp_parseCOD _).andThen copied).mono fun _ _ other => absurd cod other
  intro _
  apply Looping.sumsUp_ite fun qcd => keeps (sumsUp_parseQCD (fine qcd) _)
  intro _
  apply Looping.sumsUp_ite fun _ => keeps (sumsUp_parseCOC _)
  intro _
  apply Looping.sumsUp_ite fun _ => keeps sumsUp_parseDFS
  intro _
  exact keeps sumsUp_skipMarker

/-! ### Both models of the header

The model without loops gives up at a COD with more levels than the arrays hold, so it never
meets a larger `NL`. -/

theorem parseCOD_bounded (rsiz : Nat) (m : Markers) :
    (Header.parseCOD rsiz).Returns fun seg => (seg.store m).cod.nl ≤ maxDwtLevel := by
  apply Advancing.returns_bind
  intro head
  simp only
  split
  · intro s t seg returned
    cases returned
  -- Both exits store the `NL` that has passed the test.
  next few =>
    have levels := Nat.not_lt.mp few
    split
    · apply Advancing.returns_pure
      exact levels
    · apply Advancing.returns_bind
      intro tail
      apply Advancing.returns_pure
      exact levels

theorem parseSegment_ends {m : Markers} {marker : Nat} {s t : Codestream} {seg : MarkerSegment}
    (bounded : m.cod.nl ≤ maxDwtLevel) (returned : (Header.parseSegment m marker).run s = some (seg, t)) :
    (parseSegment m marker).Ends s seg t ∧ (seg.store m).cod.nl ≤ maxDwtLevel := by
  have few : m.cod.nl < 255 := Nat.lt_of_le_of_lt bounded (by decide)
  obtain ⟨ended, keeps⟩ := (sumsUp_parseSegment fun _ => few).ends returned
  refine ⟨ended, ?_⟩
  by_cases cod : marker = MarkerCode.cod
  · subst cod
    exact parseCOD_bounded _ m returned
  · rw [keeps cod]
    exact bounded

theorem scanMarkers_ends {fuel : Nat} {m m' : Markers} {s t : Codestream} {found : Bool}
    (bounded : m.cod.nl ≤ maxDwtLevel) (returned : scanMarkers fuel m s = some (found, m', t)) :
    (untilDone scanMarker m).Ends s (found, m') t := by
  induction fuel generalizing m s with
  | zero => cases returned
  | succ fuel ih =>
    have read {c : Markers ⊕ Bool × Markers} {u : Codestream} (later : Looping.Ends _ s.getWord.2 c u) :
        (scanMarker m).Ends s c u :=
      Looping.ends_read (p := word) rfl later
    simp only [scanMarkers] at returned
    -- SOD and illegal markers leave the loop; any other one leads to another round.
    apply Looping.ends_untilDone.mpr
    split at returned
    next sod =>
      cases returned
      left
      apply read
      rw [if_pos sod]
      exact Looping.ends_pure
    next other =>
      split at returned
      next illegal =>
        cases returned
        left
        apply read
        rw [if_neg other, if_pos illegal]
        exact Looping.ends_pure
      next legal =>
        split at returned
        · cases returned
        next seg u segment =>
          obtain ⟨ended, kept⟩ := parseSegment_ends bounded segment
          right
          have round : (scanMarker m).Ends s (.inl (seg.store m)) u := by
            apply read
            rw [if_neg other, if_neg legal]
            exact Looping.ends_bind.mpr ⟨seg, u, ended, Looping.ends_pure⟩
          exact ⟨seg.store m, u, round, ih kept returned⟩

/-- Whatever the model without loops returns, this one ends with. -/
theorem parseMainHeader_ends {m m' : Markers} {s t : Codestream} {off : BitVec 32}
    (bounded : m.cod.nl ≤ maxDwtLevel) (returned : Header.parseMainHeader m s = some (off, m', t)) :
    (parseMainHeader m).Ends s (off, m') t := by
  apply Looping.ends_read (p := word) rfl
  simp only [Header.parseMainHeader] at returned
  split at returned
  next other =>
    cases returned
    rw [if_pos other]
    exact Looping.ends_pure
  next soc =>
    rw [if_neg soc]
    split at returned
    · cases returned
    next scanned =>
      cases returned
      have scan := scanMarkers_ends bounded scanned
      exact Looping.ends_bind.mpr ⟨_, t, scan, Looping.ends_read (p := pos) rfl Looping.ends_pure⟩

/-! ### The scan ends -/

/-- The next marker starts a QCD that is read to no end. -/
def Endless (m : Markers) (s : Codestream) : Prop :=
  s.getWord.1.toNat = MarkerCode.qcd ∧ 255 ≤ m.cod.nl ∧
    s.getWord.2.getWord.2.getByte.1.toNat &&& 0x1F ≠ 1

instance (m : Markers) (s : Codestream) : Decidable (Endless m s) := inferInstanceAs (Decidable (_ ∧ _))

theorem halts_scanMarker (m : Markers) (s : Codestream) : (scanMarker m).Halts s ↔ ¬ Endless m s := by
  apply (Looping.halts_read (p := word) rfl).trans
  by_cases qcd : s.getWord.1.toNat = MarkerCode.qcd
  · rw [qcd, if_neg (by decide), if_neg (by decide)]
    apply (Looping.halts_bind fun seg t => Looping.halts_pure _ t).trans
    apply (halts_parseQCD m.cod.nl (entry m.dfs.type) s.getWord.2).trans
    simp only [Endless, qcd, true_and]
    omega
  -- All other segments end from everywhere.
  · have sums := sumsUp_parseSegment (m := m) fun same => absurd same qcd
    have halts : (parseSegment m s.getWord.1.toNat).Halts s.getWord.2 := sums.halts _
    apply iff_of_true _ fun endless => qcd endless.1
    split
    · exact Looping.halts_pure _ _
    split
    · exact Looping.halts_pure _ _
    · exact (Looping.halts_bind fun seg t => Looping.halts_pure _ t).mpr halts

/-- A round that goes on has read a marker and its segment. -/
theorem round_cases {x y : Markers × Codestream} (round : Looping.Round scanMarker x y) :
    MarkerCode.legal x.2.getWord.1.toNat = true ∧
      ∃ seg, (parseSegment x.1 x.2.getWord.1.toNat).Ends x.2.getWord.2 seg y.2 ∧ y.1 = seg.store x.1 := by
  obtain ⟨marker, t, first, later⟩ := Looping.ends_bind.mp round
  cases Looping.ends_lift.mp first
  split at later
  · cases (later.unique Looping.ends_pure).1
  split at later
  · cases (later.unique Looping.ends_pure).1
  next legal =>
    obtain ⟨seg, u, read, stored⟩ := Looping.ends_bind.mp later
    obtain ⟨same, same'⟩ := stored.unique Looping.ends_pure
    cases same'
    exact ⟨by simpa using legal, seg, read, Sum.inl.inj same⟩

theorem round_shrinks {x y : Markers × Codestream} (round : Looping.Round scanMarker x y) :
    y.2.remaining < x.2.remaining := by
  obtain ⟨legal, seg, ⟨n, read⟩, _⟩ := round_cases round
  have moved := (((parseSegment _ _).within n).forward read).2
  exact Nat.lt_of_le_of_lt moved (remaining_of_legal legal)

/-- The states in which a round of the scan starts. -/
def Reaches (m : Markers) (s : Codestream) (m' : Markers) (t : Codestream) : Prop :=
  Relation.ReflTransGen (Looping.Round scanMarker) (m, s) (m', t)

theorem halts_scan (m : Markers) (s : Codestream) :
    (untilDone scanMarker m).Halts s ↔ ∀ m' t, Reaches m s m' t → ¬ Endless m' t := by
  apply (Looping.halts_untilDone (x := (m, s)) Codestream.remaining round_shrinks).trans
  simp only [Prod.forall, halts_scanMarker, Reaches]

/-- The scan of the main header ends, unless it gets to a QCD with other than derived steps
while `NL` is 255. `parseMainHeader_ends` relates the scan to the parser of the other modules. -/
theorem main_header_halts_iff (m : Markers) (s : Codestream) :
    (parseMainHeader m).Halts s ↔
      s.getWord.1.toNat ≠ MarkerCode.soc ∨ ∀ m' t, Reaches m s.getWord.2 m' t → ¬ Endless m' t := by
  apply (Looping.halts_read (p := word) rfl).trans
  by_cases soc : s.getWord.1.toNat = MarkerCode.soc
  · rw [if_neg (not_not.mpr soc), ← halts_scan]
    apply Iff.trans (Looping.halts_bind fun result t => ?_)
    · exact ⟨.inr, fun either => either.resolve_left (not_not.mpr soc)⟩
    · exact (Looping.halts_read (p := pos) rfl).mpr (Looping.halts_pure _ _)
  · rw [if_pos soc]
    exact iff_of_true (Looping.halts_pure _ _) (.inl soc)

/-- SOC, a COD with `NL` 255 that `parse_COD` leaves at its code-block height, and a QCD. -/
def endlessHeader : List UInt8 :=
  [0xFF, 0x4F, 0xFF, 0x52, 0, 12, 0, 0, 0, 1, 0, 0xFF, 4, 3, 0xFF, 0x5C, 0, 4, 0]

theorem main_header_endless : ¬ (parseMainHeader {}).Halts (Parser.streamOf endlessHeader) := by
  let s := (Parser.streamOf endlessHeader).getWord.2
  let style := Style.ofBytes 0 255 4 3
  let m := (MarkerSegment.cod 0 1 0 style none).store {}
  let t : Codestream := { s with curOffset := 14 }
  have round : ((scanMarker {}).within 300).run s = some (.inl m, t) ∧ Endless m t := by decide +kernel
  have reached : Reaches {} s m t := .single ⟨300, round.1⟩
  rw [show parseMainHeader {} = Looping.lift word >>= _ from rfl, Looping.halts_read (p := word) rfl]
  exact Looping.not_halts_bind fun halts => (halts_scan _ _).mp halts m t reached round.2

end RtpDecoder.Header.Loops

import RtpDecoder.Header.Markers
import RtpDecoder.Lib.Advancing
import RtpDecoder.Parser.Remaining

/-!
# Reading and storing marker segments

Each `parse_XXX` of the main header is cut in two: what it reads from the chain, as a
`MarkerSegment`, and what it then writes into the marker structs, as `MarkerSegment.store`. None of
these functions reads a struct entry that it wrote itself, so the order of reads and writes
inside one of them does not matter. A header that makes the source write outside an array
has no result here.
-/

namespace RtpDecoder.Header

open RtpDecoder.Parser (Codestream)

/-! ### Reading the chain -/

/-- Reading moves towards the end of the same chain. -/
def Ahead (s t : Codestream) : Prop := t.chunks = s.chunks ∧ t.remaining ≤ s.remaining

instance : IsPreorder Codestream Ahead where
  refl _ := ⟨rfl, Nat.le_refl _⟩
  trans _ _ _ first second := ⟨second.1.trans first.1, Nat.le_trans second.2 first.2⟩

/-- A program that reads the chain. -/
abbrev HeaderParser := Advancing Ahead

theorem ahead_getByte (s : Codestream) : Ahead s s.getByte.2 :=
  ⟨s.getByte_chunks, s.remaining_getByte.1⟩

def byte : HeaderParser Nat where
  run s := some (s.getByte.1.toNat, s.getByte.2)
  forward returned := by
    cases returned
    exact ahead_getByte _

theorem ahead_getWord (s : Codestream) : Ahead s s.getWord.2 :=
  trans_of Ahead (ahead_getByte s) (ahead_getByte _)

def word : HeaderParser Nat where
  run s := some (s.getWord.1.toNat, s.getWord.2)
  forward returned := by
    cases returned
    exact ahead_getWord _

def dword : HeaderParser Nat where
  run s := some (s.getDword.1.toNat, s.getDword.2)
  forward returned := by
    cases returned
    exact trans_of Ahead (ahead_getWord _) (ahead_getWord _)

/-- The results of `n` runs of a program. -/
def times {α : Type} (n : Nat) (p : HeaderParser α) : HeaderParser (List α) :=
  (List.range n).mapM fun _ => p

/-! ### Segments -/

/-- The part of a coding style up to the code-block height, common to COD and COC. -/
structure Style where
  maxPrecinct : Bool
  useSOP : Bool
  useEPH : Bool
  useHOffset : Bool
  useVOffset : Bool
  useBlkcoderExtension : Bool
  nl : Nat
  cbw : Nat
  cbh : Nat
deriving DecidableEq, Repr

/-- The part behind the code-block height; `sizes` holds a byte for each precinct size. -/
structure StyleTail where
  cbs : Nat
  transform : Nat
  sizes : List Nat
deriving DecidableEq, Repr

/-- A marker segment as read. COD and COC have no tail when their code-block height is
refused. A DFS lists the types from level 1 on, a QCD its steps with their place in the
arrays. -/
inductive MarkerSegment where
  | siz (frame : SizMarker) (components : List (Nat × Nat × Nat))
  | cod (progressionOrder numLayers mct : Nat) (style : Style) (tail : Option StyleTail)
  | coc (c : Nat) (style : Style) (tail : Option StyleTail)
  | dfs (idx idfs : Nat) (types : List Nat)
  | qcd (type numGuardBits : Nat) (steps : List (Nat × Nat × Option Nat))
  | skipped
deriving DecidableEq, Repr

def Style.ofBytes (flags nl cbw cbh : Nat) : Style where
  maxPrecinct := !flags.testBit 0
  useSOP := flags.testBit 1
  useEPH := flags.testBit 2
  useHOffset := flags.testBit 3
  useVOffset := flags.testBit 4
  useBlkcoderExtension := flags.testBit 5
  nl := nl
  cbw := (cbw + 2) % 256
  cbh := (cbh + 2) % 256

/-! ### Reading a segment -/

def sizFrame : HeaderParser SizMarker := do
  let _lsiz ← word
  return {
    rsiz := ← word
    xsiz := ← dword
    ysiz := ← dword
    xOsiz := ← dword
    yOsiz := ← dword
    xTsiz := ← dword
    yTsiz := ← dword
    xTOsiz := ← dword
    yTOsiz := ← dword
    csiz := ← word }

/-- `Ssiz`, `XRsiz` and `YRsiz` of a component. -/
def sizComponent : HeaderParser (Nat × Nat × Nat) := do
  return (← byte, ← byte, ← byte)

/-- `parse_SIZ` gives up behind `Csiz`, unless there are three components. -/
def parseSIZ : HeaderParser MarkerSegment := do
  let frame ← sizFrame
  if frame.csiz ≠ 3 then return .siz frame []
  let components ← times frame.csiz sizComponent
  return .siz frame components

/-- Style and transform; the SSO overlap is dropped. -/
def styleBytes (rsiz : Nat) : HeaderParser (Nat × Nat) := do
  let cbs ← byte
  let transform ← byte
  if rsiz.testBit 4 then
    let _sso ← word
  return (cbs, transform)

/-- Style, transform and `n` precinct sizes. -/
def styleTail (rsiz n : Nat) : HeaderParser StyleTail := do
  let (cbs, transform) ← styleBytes rsiz
  let sizes ← times n byte
  return { cbs := cbs, transform := transform, sizes := sizes }

/-- A COD up to the code-block height: progression, layers, MCT and style. -/
def codHead : HeaderParser (Nat × Nat × Nat × Style) := do
  let _lcod ← word
  let scod ← byte
  let progressionOrder ← byte
  let numLayers ← word
  let mct ← byte
  return (progressionOrder, numLayers, mct, Style.ofBytes scod (← byte) (← byte) (← byte))

def parseCOD (rsiz : Nat) : HeaderParser MarkerSegment := do
  let (progressionOrder, numLayers, mct, style) ← codHead
  -- This function or `copy_cod` writes a precinct size for every level up to `NL`.
  if maxDwtLevel < style.nl then Advancing.fail
  else if 4 < style.cbh then return .cod progressionOrder numLayers mct style none
  else
    let tail ← styleTail rsiz (style.nl + 1)
    return .cod progressionOrder numLayers mct style (some tail)

/-- A COC up to the code-block height: what is left of the segment, in `uint16_t` and without the SSO
overlap, the component and its style. -/
def cocHead : HeaderParser (Nat × Nat × Style) := do
  let lcoc ← word
  let ccoc ← byte
  let scoc ← byte
  return ((lcoc + 2 ^ 16 - 9) % 2 ^ 16, ccoc, Style.ofBytes scoc (← byte) (← byte) (← byte))

def parseCOC (rsiz : Nat) : HeaderParser MarkerSegment := do
  let (len, ccoc, style) ← cocHead
  -- `cocs[Ccoc]` and the precinct sizes have to be inside their arrays.
  if maxNumComponents ≤ ccoc then Advancing.fail
  else if 4 < style.cbh then return .coc ccoc style none
  else if maxDwtLevel + 1 < len then Advancing.fail
  else
    let tail ← styleTail rsiz len
    return .coc ccoc style (some tail)

/-- The types of levels 1 to `idfs`, two bits each, the padding at the end discarded. -/
def dfsTypes (idfs : Nat) (bytes : List Nat) : List Nat :=
  let bits := bytes.foldl (fun bits b => (bits * 2 ^ 8 + b) % 2 ^ 64) 0
  let bits := bits >>> ((2 * idfs + 7) / 8 * 8 - 2 * idfs)
  (List.range idfs).map fun k => (bits >>> (2 * (idfs - 1 - k))) % 4

def parseDFS : HeaderParser MarkerSegment := do
  let ldfs ← word
  -- An invalid DFS leaves the structs alone.
  if ldfs < 5 then return .skipped
  let sdfs ← word
  let idfs ← byte
  let bytes ← times (ldfs - 5) byte
  if maxDwtLevel < idfs then Advancing.fail
  return .dfs sdfs idfs (dfsTypes idfs bytes)

def both : Nat := 1
def horz : Nat := 2
def vert : Nat := 3

/-- The places of the steps for levels up to `nl`; a level that is not split both ways
skips two of its three. -/
def stepPlaces (nl : Nat) (type : Nat → Nat) : List Nat :=
  0 :: (List.range nl).flatMap fun k =>
    if type (k + 1) = both then [3 * k + 1, 3 * k + 2, 3 * k + 3] else [3 * k + 1]

/-- The steps of a QCD at their places. -/
def readSteps (sqcd : Nat) (places : List Nat) : HeaderParser MarkerSegment := do
  let qcdType := sqcd &&& 0x1F
  let steps ← places.mapM fun i =>
    if qcdType = 0 then do
      let v ← byte
      return (i, v >>> 3, none)
    else do
      let v ← word
      return (i, v >>> 11, some (v &&& 0x7FF))
  return .qcd qcdType (sqcd >>> 5) steps

def parseQCD (codNL : Nat) (type : Nat → Nat) : HeaderParser MarkerSegment := do
  let _lqcd ← word
  let sqcd ← byte
  -- Derived steps are listed for one level only.
  readSteps sqcd (stepPlaces (if sqcd &&& 0x1F = 1 then 1 else codNL) type)

/-- The words of `Ccap` are kept for reports only. -/
def parseCAP : HeaderParser MarkerSegment := do
  let lcap ← word
  let pcap ← dword
  let expectedWords := if 6 ≤ lcap then (lcap - 6) / 2 else 0
  let parts := (List.range 32).filter fun i => pcap.testBit (31 - i)
  let _ccap ← times parts.length word
  let _rest ← times (expectedWords - parts.length) word
  return .skipped

def skipMarker : HeaderParser MarkerSegment := do
  let len ← word
  -- The bound of the loop is an `int`: below 0 nothing is skipped.
  let _content ← times (len - 2) byte
  return .skipped

/-! ### Storing a segment -/

def CodMarker.setStyle (cod : CodMarker) (style : Style) : CodMarker :=
  { cod with
    maxPrecinct := style.maxPrecinct
    useSOP := style.useSOP
    useEPH := style.useEPH
    useHOffset := style.useHOffset
    useVOffset := style.useVOffset
    useBlkcoderExtension := style.useBlkcoderExtension
    nl := style.nl
    cbw := style.cbw
    cbh := style.cbh }

def CodMarker.setTail (cod : CodMarker) : Option StyleTail → CodMarker
  | none => cod
  | some tail =>
    { cod with
      cbs := tail.cbs
      transform := tail.transform
      prw := fillFrom cod.prw 0 (tail.sizes.map (· &&& 0xF))
      prh := fillFrom cod.prh 0 (tail.sizes.map (· >>> 4 &&& 0xF)) }

/-- The first `n` entries. -/
def firstEntries {size : Nat} (v : Vector Nat size) (n : Nat) : List Nat :=
  (List.range n).map (entry v)

theorem entry_copied {n : Nat} (v w : Vector Nat n) (k i : Nat) :
    entry (fillFrom v 0 (firstEntries w k)) i = if i < k then entry w i else entry v i := by
  by_cases inside : i < n
  · rw [entry_fillFrom, if_pos ⟨Nat.zero_le i, inside⟩, firstEntries, List.getElem?_map, Nat.sub_zero]
    by_cases copied : i < k
    · rw [List.getElem?_range copied, if_pos copied]
      rfl
    · rw [List.getElem?_eq_none (by simpa using copied), if_neg copied]
      rfl
  · have beyond := Nat.not_lt.mp inside
    simp only [entry_beyond _ beyond, ite_self]

/-- `copy_cod`: everything but the precinct sizes beyond `NL`. -/
def copyCod (cod : CodMarker) (coc : CocMarker) : CocMarker :=
  { coc with
    toCodMarker := { cod with
      prw := fillFrom coc.prw 0 (firstEntries cod.prw (cod.nl + 1))
      prh := fillFrom coc.prh 0 (firstEntries cod.prh (cod.nl + 1)) } }

def CocMarker.setCoc (coc : CocMarker) (c : Nat) (style : Style) (tail : Option StyleTail) :
    CocMarker :=
  let styled := { coc with toCodMarker := (coc.toCodMarker.setStyle style).setTail tail, idx := c }
  match tail with
  | none => styled
  | some tail =>
    { styled with
      stepX := (tail.sizes.map (· &&& 0xF)).foldl min 16
      stepY := (tail.sizes.map (· >>> 4 &&& 0xF)).foldl min 16 }

/-- `GET_HOR_DEPTH` and `GET_VER_DEPTH`: of the levels up to `lev`, those split that way. -/
def depth (orient : List Nat) (lev : Nat) : Nat := (orient.take lev).countP (· = 0)

def DfsMarker.setTypes (dfs : DfsMarker) (idx idfs : Nat) (types : List Nat) : DfsMarker :=
  let ho := types.map fun t => if t = vert then 1 else 0
  let vo := types.map fun t => if t = horz then 1 else 0
  { idx := idx
    idfs := idfs
    type := fillFrom dfs.type 1 types
    hOrient := fillFrom dfs.hOrient 1 ho
    vOrient := fillFrom dfs.vOrient 1 vo
    horDepth := fillFrom dfs.horDepth 0 ((List.range (idfs + 1)).map (depth ho))
    verDepth := fillFrom dfs.verDepth 0 ((List.range (idfs + 1)).map (depth vo)) }

def QcdMarker.setStep (qcd : QcdMarker) (step : Nat × Nat × Option Nat) : QcdMarker :=
  { qcd with
    exponent := fillFrom qcd.exponent step.1 [step.2.1]
    mantissa := fillFrom qcd.mantissa step.1 step.2.2.toList }

def SizMarker.setComponents (siz frame : SizMarker) (components : List (Nat × Nat × Nat)) :
    SizMarker :=
  { frame with
    ssiz := fillFrom siz.ssiz 0 (components.map (·.1))
    xRsiz := fillFrom siz.xRsiz 0 (components.map (·.2.1))
    yRsiz := fillFrom siz.yRsiz 0 (components.map (·.2.2)) }

namespace MarkerSegment

/-- The marker structs after a segment. -/
def store (m : Markers) : MarkerSegment → Markers
  | siz frame components => { m with siz := m.siz.setComponents frame components }
  | cod progressionOrder numLayers mct style tail =>
    let cod := ({ m.cod with
      progressionOrder := progressionOrder, numLayers := numLayers, mct := mct }.setStyle
        style).setTail tail
    -- `copy_cod` follows at once, for all components.
    { m with cod := cod, cocs := m.cocs.map (copyCod cod) }
  | coc c style tail => { m with cocs := m.cocs.setIfInBounds c ((m.coc c).setCoc c style tail) }
  | dfs idx idfs types => { m with dfs := m.dfs.setTypes idx idfs types }
  | qcd type numGuardBits steps =>
    { m with
      qcd := steps.foldl QcdMarker.setStep
        { m.qcd with type := type, numGuardBits := numGuardBits } }
  | skipped => m

theorem store_cod_coc (m : Markers) (progressionOrder numLayers mct : Nat) (style : Style)
    (tail : Option StyleTail) {c : Nat} (inside : c < maxNumComponents) :
    ((cod progressionOrder numLayers mct style tail).store m).coc c =
      copyCod ((cod progressionOrder numLayers mct style tail).store m).cod (m.coc c) := by
  simp only [store, Markers.coc, Vector.getElem?_eq_getElem inside, Vector.getElem_map,
    Option.getD_some]

theorem store_coc_coc (m : Markers) (c : Nat) (style : Style) (tail : Option StyleTail) (c' : Nat) :
    ((coc c style tail).store m).coc c' =
      if c = c' ∧ c < maxNumComponents then (m.coc c).setCoc c style tail else m.coc c' := by
  simp only [store, Markers.coc, Vector.getElem?_setIfInBounds]
  by_cases same : c = c'
  · subst same
    by_cases inside : c < maxNumComponents
    · simp [inside]
    · simp [inside]
  · simp [same]

end MarkerSegment

theorem CodMarker.setTail_nl (cod : CodMarker) (tail : Option StyleTail) : (cod.setTail tail).nl = cod.nl := by
  cases tail <;> rfl

theorem CocMarker.setCoc_toCodMarker (coc : CocMarker) (c : Nat) (style : Style)
    (tail : Option StyleTail) :
    (coc.setCoc c style tail).toCodMarker = (coc.toCodMarker.setStyle style).setTail tail := by
  cases tail <;> rfl

end RtpDecoder.Header

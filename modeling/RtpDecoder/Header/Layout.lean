import RtpDecoder.Header.MainHeader
import RtpDecoder.Parser.FlatReader

/-!
# Where the fields of a main header lie

`parse_main_header` reads a chain, `geometry_signature` the same bytes in one buffer. Here
the segments are described by offsets into the buffer: which bytes a field has, how many
bytes the function of a segment takes, and which segments it cannot take. The functions
that read the chain are shown to follow this description, however the buffer is cut into
chunks.
-/

namespace RtpDecoder.Header

open RtpDecoder.Parser (Chunk Codestream chainBytes)

/-! ### The reader over a buffer -/

def byteAt (mh : List UInt8) (off : Nat) : Nat := (mh.getD off 0).toNat

def rd32 (mh : List UInt8) (off : Nat) : Nat := rd16 mh off * 2 ^ 16 + rd16 mh (off + 2)

theorem inside_of_legal {mh : List UInt8} {off : Nat} (legal : MarkerCode.legal (rd16 mh off) = true) :
    off < mh.length := by
  by_contra beyond
  have first : mh.getD off 0 = 0 := by simp [List.getD, Nat.not_lt.mp beyond]
  have second := (mh.getD (off + 1) 0).toNat_lt
  simp only [MarkerCode.legal, rd16, first, UInt8.toNat_zero, Bool.and_eq_true, beq_iff_eq] at legal
  omega

theorem inside_of_sod {mh : List UInt8} {off : Nat} (sod : rd16 mh off = MarkerCode.sod) : off + 2 ≤ mh.length := by
  by_contra beyond
  have second : mh.getD (off + 1) 0 = 0 := by simp [List.getD, show mh.length ≤ off + 1 by omega]
  simp only [rd16, second, UInt8.toNat_zero, MarkerCode.sod] at sod
  omega

/-- The reader is `off` bytes into a chain of the bytes `mh`, or at its end if there are
fewer. Behind the end it stays where it is and reads zeros. -/
structure StandsAt (mh : List UInt8) (off : Nat) (s : Codestream) : Prop where
  on : s.OnChain
  bytes : chainBytes s.chunks = mh
  place : s.pos = min off mh.length

theorem standsAt_start {chunks : List Chunk} (nonempty : ∀ c ∈ chunks, c.bytes ≠ []) :
    StandsAt (chainBytes chunks) 0 { chunks := chunks } where
  on := Codestream.rewound_onChain (s := { chunks := chunks }) nonempty
  bytes := rfl
  place := (Nat.zero_min _).symm

namespace StandsAt

variable {mh : List UInt8} {off : Nat} {s : Codestream}

private theorem getByte_end (here : StandsAt mh off s) (beyond : mh.length ≤ off) :
    s.getByte = (0, { s with short := true }) := by
  have none_here : s.chunks[s.curChunk]? = none := by
    cases chunk : s.chunks[s.curChunk]? with
    | none => rfl
    | some c =>
      -- On a chunk the reader would be in front of its last byte.
      have offset := here.on.on c chunk
      have left := congrArg List.length (here.on.drop_bytes chunk)
      rw [here.bytes, here.place, Nat.min_eq_right beyond] at left
      simp only [List.drop_length, List.length_nil, List.length_append, List.length_drop] at left
      omega
  simp only [Codestream.getByte, none_here]

theorem getByte (here : StandsAt mh off s) : s.getByte.1 = mh.getD off 0 ∧ StandsAt mh (off + 1) s.getByte.2 := by
  have place := here.place
  by_cases inside : off < mh.length
  · rw [Nat.min_eq_left (Nat.le_of_lt inside)] at place
    have same := here.on.getByte (by
      change s.pos + 1 ≤ (chainBytes s.chunks).length
      rw [here.bytes, place]
      exact inside)
    have flat := congrArg Parser.FlatReader.pos same.flat
    refine ⟨?_, same.on, by rw [Codestream.getByte_chunks, here.bytes], ?_⟩
    · rw [same.value]
      change (chainBytes s.chunks).getD s.pos 0 = _
      rw [here.bytes, place]
    · change s.getByte.2.pos = s.pos + 1 at flat
      rw [flat, place]
      omega
  · have beyond := Nat.not_lt.mp inside
    rw [here.getByte_end beyond]
    refine ⟨?_, here.on.of_place rfl rfl rfl rfl, here.bytes, ?_⟩
    · simp [List.getD, beyond]
    · change s.pos = _
      rw [place]
      omega

theorem getWord (here : StandsAt mh off s) : s.getWord.1.toNat = rd16 mh off ∧ StandsAt mh (off + 2) s.getWord.2 := by
  obtain ⟨high, behind⟩ := here.getByte
  obtain ⟨low, after⟩ := behind.getByte
  exact ⟨by rw [getWord_toNat, high, low, rd16], after⟩

theorem getDword (here : StandsAt mh off s) :
    s.getDword.1.toNat = rd32 mh off ∧ StandsAt mh (off + 4) s.getDword.2 := by
  obtain ⟨high, behind⟩ := here.getWord
  obtain ⟨low, after⟩ := behind.getWord
  refine ⟨?_, after⟩
  change (s.getWord.1 ++ s.getWord.2.getWord.1).toNat = _
  rw [BitVec.toNat_append, ← Nat.shiftLeft_add_eq_or_of_lt s.getWord.2.getWord.1.isLt, Nat.shiftLeft_eq,
    high, low, rd32]

end StandsAt

/-! ### Programs over a buffer -/

section

variable {α β : Type} {mh : List UInt8} {off mid next : Nat}

/-- From offset `off` on, the program reads up to `next` and gives `a`. -/
def Gives (mh : List UInt8) (off : Nat) (p : HeaderParser α) (a : α) (next : Nat) : Prop :=
  ∀ s, StandsAt mh off s → ∃ t, p.run s = some (a, t) ∧ StandsAt mh next t

/-- From offset `off` on, the program has no result. -/
def Fails (mh : List UInt8) (off : Nat) (p : HeaderParser α) : Prop :=
  ∀ s, StandsAt mh off s → p.run s = none

theorem gives_pure (a : α) : Gives mh off (pure a) a off := fun s here => ⟨s, rfl, here⟩

theorem Gives.bind {p : HeaderParser α} {f : α → HeaderParser β} {a : α} {b : β}
    (first : Gives mh off p a mid) (second : Gives mh mid (f a) b next) :
    Gives mh off (p >>= f) b next := by
  intro s here
  obtain ⟨t, ran, there⟩ := first s here
  obtain ⟨u, then_ran, after⟩ := second t there
  exact ⟨u, (Advancing.run_bind_some ran).trans then_ran, after⟩

theorem Gives.bind_fails {p : HeaderParser α} {f : α → HeaderParser β} {a : α}
    (first : Gives mh off p a mid) (second : Fails mh mid (f a)) : Fails mh off (p >>= f) := by
  intro s here
  obtain ⟨t, ran, there⟩ := first s here
  exact (Advancing.run_bind_some ran).trans (second t there)

theorem Gives.to {p : HeaderParser α} {a : α} (gives : Gives mh off p a mid) (same : mid = next) :
    Gives mh off p a next := same ▸ gives

theorem gives_byte : Gives mh off byte (byteAt mh off) (off + 1) := by
  intro s here
  obtain ⟨value, after⟩ := here.getByte
  exact ⟨_, by simp only [byte, value, byteAt], after⟩

theorem gives_word : Gives mh off word (rd16 mh off) (off + 2) := by
  intro s here
  obtain ⟨value, after⟩ := here.getWord
  exact ⟨_, by simp only [word, value], after⟩

theorem gives_dword : Gives mh off dword (rd32 mh off) (off + 4) := by
  intro s here
  obtain ⟨value, after⟩ := here.getDword
  exact ⟨_, by simp only [dword, value], after⟩

private theorem gives_mapM_loop {f : β → HeaderParser α} {width : Nat} {value : β → Nat → α}
    (each : ∀ x o, Gives mh o (f x) (value x o) (o + width)) (xs : List β) (acc : List α) :
    Gives mh off (List.mapM.loop f xs acc)
      (acc.reverse ++ xs.mapIdx fun k x => value x (off + k * width)) (off + xs.length * width) := by
  induction xs generalizing off acc with
  | nil => simpa [List.mapM.loop] using gives_pure acc.reverse
  | cons x rest ih =>
    have later : Gives mh (off + width) _ _ _ := ih (value x off :: acc)
    have step (k : Nat) : off + width + k * width = off + (k + 1) * width := by
      rw [Nat.succ_mul]
      omega
    simp only [step, List.reverse_cons, List.append_assoc, List.singleton_append] at later
    simp only [List.mapM.loop, List.mapIdx_cons, Nat.zero_mul, Nat.add_zero, List.length_cons]
    exact Gives.bind (each x off) later

theorem gives_mapM {f : β → HeaderParser α} {width : Nat} {value : β → Nat → α}
    (each : ∀ x o, Gives mh o (f x) (value x o) (o + width)) (xs : List β) :
    Gives mh off (xs.mapM f) (xs.mapIdx fun k x => value x (off + k * width))
      (off + xs.length * width) :=
  gives_mapM_loop each xs []

theorem gives_times {p : HeaderParser α} {width : Nat} {value : Nat → α}
    (each : ∀ o, Gives mh o p (value o) (o + width)) (n : Nat) :
    Gives mh off (times n p) ((List.range n).map fun k => value (off + k * width))
      (off + n * width) := by
  have all : Gives mh off (times n p) _ _ := gives_mapM (fun (_ : Nat) o => each o) (List.range n)
  rw [List.length_range] at all
  have same : ((List.range n).mapIdx fun k _ => value (off + k * width)) =
      (List.range n).map fun k => value (off + k * width) := by
    apply List.ext_getElem <;> simp
  rwa [same] at all

end

/-! ### Segments by offset

Offsets count from the length word of a segment, which follows its marker. -/

/-- The bytes from `off` on. -/
def bytesAt (mh : List UInt8) (off n : Nat) : List Nat := (List.range n).map fun k => byteAt mh (off + k)

/-- A code-block height that COD and COC refuse; they leave their segment there. -/
def refused (cbh : Nat) : Prop := 4 < (cbh + 2) % 256

instance (cbh : Nat) : Decidable (refused cbh) := inferInstanceAs (Decidable (_ < _))

/-- What the reading of a segment depends on, apart from its bytes. -/
structure Context where
  rsiz : Nat
  nl : Nat
  type : Nat → Nat

def Markers.context (m : Markers) : Context where
  rsiz := m.siz.rsiz
  nl := m.cod.nl
  type := entry m.dfs.type

/-- The SSO word of COD and COC. -/
def Context.overlap (ctx : Context) : Nat := if ctx.rsiz.testBit 4 then 2 else 0

def sizAt (mh : List UInt8) (off : Nat) : SizMarker where
  rsiz := rd16 mh (off + 2)
  xsiz := rd32 mh (off + 4)
  ysiz := rd32 mh (off + 8)
  xOsiz := rd32 mh (off + 12)
  yOsiz := rd32 mh (off + 16)
  xTsiz := rd32 mh (off + 20)
  yTsiz := rd32 mh (off + 24)
  xTOsiz := rd32 mh (off + 28)
  yTOsiz := rd32 mh (off + 32)
  csiz := rd16 mh (off + 36)

def componentsAt (mh : List UInt8) (off : Nat) : List (Nat × Nat × Nat) :=
  (List.range 3).map fun c =>
    let o := off + 38 + c * 3
    (byteAt mh o, byteAt mh (o + 1), byteAt mh (o + 2))

/-- Style, transform, overlap and `n` precinct sizes. -/
def tailAt (ctx : Context) (mh : List UInt8) (off n : Nat) : StyleTail where
  cbs := byteAt mh off
  transform := byteAt mh (off + 1)
  sizes := bytesAt mh (off + 2 + ctx.overlap) n

/-- The precinct sizes that a COC announces, counted in `uint16_t`. -/
def cocSizes (mh : List UInt8) (off : Nat) : Nat := (rd16 mh off + 2 ^ 16 - 9) % 2 ^ 16

/-- The places of the steps of a QCD. -/
def qcdPlaces (ctx : Context) (mh : List UInt8) (off : Nat) : List Nat :=
  stepPlaces (if byteAt mh (off + 2) &&& 0x1F = 1 then 1 else ctx.nl) ctx.type

def qcdStepAt (type : Nat) (mh : List UInt8) (i off : Nat) : Nat × Nat × Option Nat :=
  if type = 0 then (i, byteAt mh off >>> 3, none)
  else (i, rd16 mh off >>> 11, some (rd16 mh off &&& 0x7FF))

/-- The bytes of one step. -/
def qcdWidth (type : Nat) : Nat := if type = 0 then 1 else 2

def capParts (mh : List UInt8) (off : Nat) : Nat :=
  ((List.range 32).filter fun i => (rd32 mh (off + 2)).testBit (31 - i)).length

/-- What the segment at `off` says. -/
def segmentAt (ctx : Context) (mh : List UInt8) (marker off : Nat) : MarkerSegment :=
  if marker = MarkerCode.siz then
    .siz (sizAt mh off) (if rd16 mh (off + 36) = 3 then componentsAt mh off else [])
  else if marker = MarkerCode.cod then
    .cod (byteAt mh (off + 3)) (rd16 mh (off + 4)) (byteAt mh (off + 6))
      (.ofBytes (byteAt mh (off + 2)) (byteAt mh (off + 7)) (byteAt mh (off + 8)) (byteAt mh (off + 9)))
      (if refused (byteAt mh (off + 9)) then none
        else some (tailAt ctx mh (off + 10) (byteAt mh (off + 7) + 1)))
  else if marker = MarkerCode.qcd then
    let type := byteAt mh (off + 2) &&& 0x1F
    .qcd type (byteAt mh (off + 2) >>> 5)
      ((qcdPlaces ctx mh off).mapIdx fun k i => qcdStepAt type mh i (off + 3 + k * qcdWidth type))
  else if marker = MarkerCode.coc then
    .coc (byteAt mh (off + 2))
      (.ofBytes (byteAt mh (off + 3)) (byteAt mh (off + 4)) (byteAt mh (off + 5)) (byteAt mh (off + 6)))
      (if refused (byteAt mh (off + 6)) then none
        else some (tailAt ctx mh (off + 7) (cocSizes mh off)))
  else if marker = MarkerCode.dfs ∧ 5 ≤ rd16 mh off then
    .dfs (rd16 mh (off + 2)) (byteAt mh (off + 4))
      (dfsTypes (byteAt mh (off + 4)) (bytesAt mh (off + 5) (rd16 mh off - 5)))
  else .skipped

/-- The marker structs after the segment at `off`. -/
def Markers.after (m : Markers) (mh : List UInt8) (marker off : Nat) : Markers :=
  (segmentAt m.context mh marker off).store m

/-- The bytes that the function of a segment takes. Only a DFS, a COC and what is skipped
look at the length that the segment declares. -/
def segmentLength (ctx : Context) (mh : List UInt8) (marker off : Nat) : Nat :=
  if marker = MarkerCode.siz then if rd16 mh (off + 36) = 3 then 47 else 38
  else if marker = MarkerCode.cap then 6 + 2 * max (capParts mh off) ((rd16 mh off - 6) / 2)
  else if marker = MarkerCode.cod then
    if refused (byteAt mh (off + 9)) then 10 else 13 + ctx.overlap + byteAt mh (off + 7)
  else if marker = MarkerCode.qcd then
    3 + (qcdPlaces ctx mh off).length * qcdWidth (byteAt mh (off + 2) &&& 0x1F)
  else if marker = MarkerCode.coc then
    if refused (byteAt mh (off + 6)) then 7 else 9 + ctx.overlap + cocSizes mh off
  else if marker = MarkerCode.dfs ∧ rd16 mh off < 5 then 2
  else max 2 (rd16 mh off)

/-- A segment that makes the source leave an array: too many levels, a fourth component, too
many precinct sizes. -/
def Faulty (mh : List UInt8) (marker off : Nat) : Prop :=
  marker = MarkerCode.cod ∧ maxDwtLevel < byteAt mh (off + 7) ∨
  marker = MarkerCode.coc ∧ (maxNumComponents ≤ byteAt mh (off + 2) ∨
    ¬ refused (byteAt mh (off + 6)) ∧ maxDwtLevel + 1 < cocSizes mh off) ∨
  marker = MarkerCode.dfs ∧ 5 ≤ rd16 mh off ∧ maxDwtLevel < byteAt mh (off + 4)

instance (mh : List UInt8) (marker off : Nat) : Decidable (Faulty mh marker off) :=
  inferInstanceAs (Decidable (_ ∨ _))

/-! ### The functions follow the description -/

section

variable {mh : List UInt8} {off : Nat}

private theorem gives_bytes (n : Nat) : Gives mh off (times n byte) (bytesAt mh off n) (off + n) := by
  have all : Gives mh off (times n byte) _ _ := gives_times (fun _ => gives_byte) n
  simpa only [bytesAt, Nat.mul_one] using all

private theorem gives_component (o : Nat) :
    Gives mh o sizComponent (byteAt mh o, byteAt mh (o + 1), byteAt mh (o + 2)) (o + 3) :=
  gives_byte.bind (gives_byte.bind (gives_byte.bind (gives_pure _)))

private theorem gives_components {csiz : Nat} (three : csiz = 3) :
    Gives mh (off + 38) (times csiz sizComponent) (componentsAt mh off) (off + 47) := by
  rw [three]
  exact gives_times gives_component 3

private theorem gives_sizFrame : Gives mh off sizFrame (sizAt mh off) (off + 38) :=
  gives_word.bind (gives_word.bind (gives_dword.bind (gives_dword.bind (gives_dword.bind
    (gives_dword.bind (gives_dword.bind (gives_dword.bind (gives_dword.bind (gives_dword.bind
    (gives_word.bind (gives_pure _)))))))))))

private theorem gives_parseSIZ : Gives mh off parseSIZ
    (.siz (sizAt mh off) (if rd16 mh (off + 36) = 3 then componentsAt mh off else []))
    (off + if rd16 mh (off + 36) = 3 then 47 else 38) := by
  refine gives_sizFrame.bind ?_
  change Gives mh (off + 38) (if rd16 mh (off + 36) ≠ 3 then _ else _) _ _
  by_cases three : rd16 mh (off + 36) = 3
  · rw [if_neg (not_not.mpr three), if_pos three, if_pos three]
    exact (gives_components three).bind (gives_pure _)
  · rw [if_pos three, if_neg three, if_neg three]
    exact gives_pure _

private theorem gives_styleTail (ctx : Context) (n : Nat) : Gives mh off (styleTail ctx.rsiz n)
    (tailAt ctx mh off n) (off + 2 + ctx.overlap + n) := by
  have fixed : Gives mh off (styleBytes ctx.rsiz) (byteAt mh off, byteAt mh (off + 1)) (off + 2 + ctx.overlap) := by
    refine gives_byte.bind (gives_byte.bind ?_)
    simp only [Context.overlap]
    split
    · exact gives_word.bind (gives_pure _)
    · exact gives_pure _
  exact fixed.bind ((gives_bytes n).bind (gives_pure _))

private theorem gives_codHead : Gives mh off codHead
    (byteAt mh (off + 3), rd16 mh (off + 4), byteAt mh (off + 6),
      .ofBytes (byteAt mh (off + 2)) (byteAt mh (off + 7)) (byteAt mh (off + 8)) (byteAt mh (off + 9))) (off + 10) :=
  gives_word.bind (gives_byte.bind (gives_byte.bind (gives_word.bind (gives_byte.bind
    (gives_byte.bind (gives_byte.bind (gives_byte.bind (gives_pure _))))))))

private theorem gives_parseCOD (ctx : Context) (sound : byteAt mh (off + 7) ≤ maxDwtLevel) :
    Gives mh off (parseCOD ctx.rsiz)
      (.cod (byteAt mh (off + 3)) (rd16 mh (off + 4)) (byteAt mh (off + 6))
        (.ofBytes (byteAt mh (off + 2)) (byteAt mh (off + 7)) (byteAt mh (off + 8)) (byteAt mh (off + 9)))
        (if refused (byteAt mh (off + 9)) then none
          else some (tailAt ctx mh (off + 10) (byteAt mh (off + 7) + 1))))
      (off + if refused (byteAt mh (off + 9)) then 10 else 13 + ctx.overlap + byteAt mh (off + 7)) := by
  refine gives_codHead.bind ?_
  change Gives mh (off + 10) (if maxDwtLevel < byteAt mh (off + 7) then _
    else if refused (byteAt mh (off + 9)) then _ else _) _ _
  rw [if_neg (Nat.not_lt.mpr sound)]
  split
  · exact gives_pure _
  · have next : off + 10 + 2 + ctx.overlap + (byteAt mh (off + 7) + 1) =
        off + (13 + ctx.overlap + byteAt mh (off + 7)) := by omega
    refine Gives.to ((gives_styleTail ctx _).bind ?_) next
    exact gives_pure _

private theorem fails_parseCOD (rsiz : Nat) (many : maxDwtLevel < byteAt mh (off + 7)) :
    Fails mh off (parseCOD rsiz) := by
  refine gives_codHead.bind_fails ?_
  change Fails mh (off + 10) (if maxDwtLevel < byteAt mh (off + 7) then _ else _)
  rw [if_pos many]
  exact fun _ _ => rfl

private theorem gives_cocHead : Gives mh off cocHead (cocSizes mh off, byteAt mh (off + 2),
    .ofBytes (byteAt mh (off + 3)) (byteAt mh (off + 4)) (byteAt mh (off + 5)) (byteAt mh (off + 6))) (off + 7) :=
  gives_word.bind (gives_byte.bind (gives_byte.bind (gives_byte.bind (gives_byte.bind
    (gives_byte.bind (gives_pure _))))))

private theorem gives_parseCOC (ctx : Context) (component : byteAt mh (off + 2) < maxNumComponents)
    (few : refused (byteAt mh (off + 6)) ∨ cocSizes mh off ≤ maxDwtLevel + 1) :
    Gives mh off (parseCOC ctx.rsiz)
      (.coc (byteAt mh (off + 2))
        (.ofBytes (byteAt mh (off + 3)) (byteAt mh (off + 4)) (byteAt mh (off + 5)) (byteAt mh (off + 6)))
        (if refused (byteAt mh (off + 6)) then none
          else some (tailAt ctx mh (off + 7) (cocSizes mh off))))
      (off + if refused (byteAt mh (off + 6)) then 7 else 9 + ctx.overlap + cocSizes mh off) := by
  refine gives_cocHead.bind ?_
  change Gives mh (off + 7) (if maxNumComponents ≤ byteAt mh (off + 2) then _
    else if refused (byteAt mh (off + 6)) then _
    else if maxDwtLevel + 1 < cocSizes mh off then _ else _) _ _
  rw [if_neg (Nat.not_le.mpr component)]
  split
  · exact gives_pure _
  next kept =>
    rw [if_neg (Nat.not_lt.mpr (few.resolve_left kept))]
    have next : off + 7 + 2 + ctx.overlap + cocSizes mh off =
        off + (9 + ctx.overlap + cocSizes mh off) := by omega
    refine Gives.to ((gives_styleTail ctx _).bind ?_) next
    exact gives_pure _

private theorem fails_parseCOC (rsiz : Nat) (beyond : maxNumComponents ≤ byteAt mh (off + 2) ∨
    ¬ refused (byteAt mh (off + 6)) ∧ maxDwtLevel + 1 < cocSizes mh off) :
    Fails mh off (parseCOC rsiz) := by
  refine gives_cocHead.bind_fails ?_
  change Fails mh (off + 7) (if maxNumComponents ≤ byteAt mh (off + 2) then _
    else if refused (byteAt mh (off + 6)) then _
    else if maxDwtLevel + 1 < cocSizes mh off then _ else _)
  split
  · exact fun _ _ => rfl
  next component =>
    obtain ⟨kept, many⟩ := beyond.resolve_left component
    rw [if_neg kept, if_pos many]
    exact fun _ _ => rfl

private theorem gives_parseDFS_short (short : rd16 mh off < 5) : Gives mh off parseDFS .skipped (off + 2) := by
  refine gives_word.bind ?_
  rw [if_pos short]
  exact gives_pure _

private theorem gives_parseDFS (long : 5 ≤ rd16 mh off) (sound : byteAt mh (off + 4) ≤ maxDwtLevel) :
    Gives mh off parseDFS
      (.dfs (rd16 mh (off + 2)) (byteAt mh (off + 4))
        (dfsTypes (byteAt mh (off + 4)) (bytesAt mh (off + 5) (rd16 mh off - 5))))
      (off + rd16 mh off) := by
  refine gives_word.bind ?_
  rw [if_neg (Nat.not_lt.mpr long)]
  refine (gives_word.bind (gives_byte.bind ((gives_bytes _).bind ?_))).to
    (show off + 5 + (rd16 mh off - 5) = _ by omega)
  change Gives mh _ (if maxDwtLevel < byteAt mh (off + 4) then _ else _) _ _
  rw [if_neg (Nat.not_lt.mpr sound)]
  exact gives_pure _

private theorem fails_parseDFS (long : 5 ≤ rd16 mh off) (many : maxDwtLevel < byteAt mh (off + 4)) :
    Fails mh off parseDFS := by
  refine gives_word.bind_fails ?_
  rw [if_neg (Nat.not_lt.mpr long)]
  refine gives_word.bind_fails (gives_byte.bind_fails ((gives_bytes _).bind_fails ?_))
  change Fails mh _ (if maxDwtLevel < byteAt mh (off + 4) then _ else _)
  rw [if_pos many]
  exact fun _ _ => rfl

private theorem gives_qcdStep (type i o : Nat) :
    Gives mh o
      (if type = 0 then do
        let v ← byte
        return (i, v >>> 3, none)
      else do
        let v ← word
        return (i, v >>> 11, some (v &&& 0x7FF)))
      (qcdStepAt type mh i o) (o + qcdWidth type) := by
  simp only [qcdStepAt, qcdWidth]
  split
  · exact gives_byte.bind (gives_pure _)
  · exact gives_word.bind (gives_pure _)

private theorem gives_parseQCD (ctx : Context) : Gives mh off (parseQCD ctx.nl ctx.type)
    (.qcd (byteAt mh (off + 2) &&& 0x1F) (byteAt mh (off + 2) >>> 5)
      ((qcdPlaces ctx mh off).mapIdx fun k i => qcdStepAt (byteAt mh (off + 2) &&& 0x1F) mh i
        (off + 3 + k * qcdWidth (byteAt mh (off + 2) &&& 0x1F))))
    (off + 3 + (qcdPlaces ctx mh off).length * qcdWidth (byteAt mh (off + 2) &&& 0x1F)) :=
  gives_word.bind (gives_byte.bind ((gives_mapM (gives_qcdStep _) _).bind (gives_pure _)))

private theorem gives_parseCAP : Gives mh off parseCAP .skipped
    (off + (6 + 2 * max (capParts mh off) ((rd16 mh off - 6) / 2))) := by
  have next : off + 6 + capParts mh off * 2 +
      ((if 6 ≤ rd16 mh off then (rd16 mh off - 6) / 2 else 0) - capParts mh off) * 2 =
      off + (6 + 2 * max (capParts mh off) ((rd16 mh off - 6) / 2)) := by
    split <;> omega
  refine Gives.to (gives_word.bind (gives_dword.bind ?_)) next
  refine (gives_times (fun _ => gives_word) _).bind ?_
  refine (gives_times (fun _ => gives_word) _).bind ?_
  exact gives_pure _

private theorem gives_skipMarker : Gives mh off skipMarker .skipped (off + max 2 (rd16 mh off)) := by
  have next : off + 2 + (rd16 mh off - 2) = off + max 2 (rd16 mh off) := by omega
  refine Gives.to (gives_word.bind ?_) next
  refine (gives_bytes _).bind ?_
  exact gives_pure _

/-- The function of a segment reads what the description says and takes as many bytes. -/
theorem gives_parseSegment (m : Markers) {marker : Nat} (sound : ¬ Faulty mh marker off) :
    Gives mh off (parseSegment m marker) (segmentAt m.context mh marker off)
      (off + segmentLength m.context mh marker off) := by
  simp only [parseSegment, segmentAt, segmentLength]
  by_cases siz : marker = MarkerCode.siz
  · rw [if_pos siz, if_pos siz, if_pos siz]
    exact gives_parseSIZ
  rw [if_neg siz, if_neg siz, if_neg siz]
  by_cases cap : marker = MarkerCode.cap
  · subst cap
    exact gives_parseCAP
  rw [if_neg cap, if_neg cap]
  by_cases cod : marker = MarkerCode.cod
  · rw [if_pos cod, if_pos cod, if_pos cod]
    exact gives_parseCOD m.context (Nat.not_lt.mp fun many => sound (.inl ⟨cod, many⟩))
  rw [if_neg cod, if_neg cod, if_neg cod]
  by_cases qcd : marker = MarkerCode.qcd
  · rw [if_pos qcd, if_pos qcd, if_pos qcd]
    exact (gives_parseQCD m.context).to (Nat.add_assoc _ _ _)
  rw [if_neg qcd, if_neg qcd, if_neg qcd]
  by_cases coc : marker = MarkerCode.coc
  · rw [if_pos coc, if_pos coc, if_pos coc]
    apply gives_parseCOC m.context
    · exact Nat.not_le.mp fun beyond => sound (.inr (.inl ⟨coc, .inl beyond⟩))
    · by_contra many
      rw [not_or, Nat.not_le] at many
      exact sound (.inr (.inl ⟨coc, .inr many⟩))
  rw [if_neg coc, if_neg coc, if_neg coc]
  by_cases dfs : marker = MarkerCode.dfs
  · rw [if_pos dfs]
    by_cases short : rd16 mh off < 5
    · rw [if_neg fun long => absurd long.2 (Nat.not_le.mpr short), if_pos ⟨dfs, short⟩]
      exact gives_parseDFS_short short
    · have long := Nat.not_lt.mp short
      rw [if_pos ⟨dfs, long⟩, if_neg fun short' => short short'.2, Nat.max_eq_right (by omega)]
      exact gives_parseDFS long (Nat.not_lt.mp fun many => sound (.inr (.inr ⟨dfs, long, many⟩)))
  · rw [if_neg dfs, if_neg fun long => dfs long.1, if_neg fun short => dfs short.1]
    exact gives_skipMarker

theorem fails_parseSegment (m : Markers) {marker : Nat} (faulty : Faulty mh marker off) :
    Fails mh off (parseSegment m marker) := by
  rcases faulty with ⟨rfl, many⟩ | ⟨rfl, beyond⟩ | ⟨rfl, long, many⟩
  · exact fails_parseCOD m.siz.rsiz many
  · exact fails_parseCOC m.siz.rsiz beyond
  · exact fails_parseDFS long many

end

end RtpDecoder.Header

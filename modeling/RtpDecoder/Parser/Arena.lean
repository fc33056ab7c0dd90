import RtpDecoder.Lib.Arena
import RtpDecoder.Parser.Structure

/-!
# The memory of the precinct structure

`create` takes the memory for precincts, subbands, tag trees and code-blocks from an arena of
4 MiB. `stackAlloc` returns `NULL` when a request does not fit, and no caller looks at
that. Here is the memory side of `create`: the requests in the order of the source, and
the writes through the pointers they return. A write through `NULL` is undefined; there is no
result then. Writes through other pointers are not followed.
-/

namespace RtpDecoder.Parser

open Header

/-! ### `stackAlloc` -/

def bufSize : Nat := 1024 * 4096

/-- Sizes of structs with pointers of 8 bytes. -/
def sizeofPrec : Nat := 48
def sizeofPband : Nat := 24
def sizeofTagtreeNode : Nat := 24
def sizeofBlk : Nat := 48

/-- Code that takes memory from the arena. -/
abbrev Building := StateT Arena Option

def stackAlloc (n : Nat) : Building (Option Region) := fun a => some (a.alloc bufSize 64 n)

/-- Writing through a pointer. -/
def deref (p : Option Region) : Building Unit := fun a => p.map fun _ => ((), a)

/-- The memory of `tag_tree_init`, which sets the parents only in a tree that there is. -/
def allocTagTree (w h : Nat) : Building (Option Region) := stackAlloc (tagTreeSize w h * sizeofTagtreeNode)

/-! ### The memory of a component -/

namespace Level

/-- The memory of subband `b` of a precinct. -/
def allocPband (lv : Level) (coord : Geometry) (pband : Option Region) (b : Nat) : Building Unit := do
  let ncbw := (lv.blockCounts coord b).1
  let ncbh := (lv.blockCounts coord b).2
  if ncbw ≠ 0 ∧ ncbh ≠ 0 then
    let incl ← allocTagTree ncbw ncbh
    deref pband
    let zbp ← allocTagTree ncbw ncbh
    deref pband
    -- `tag_tree_zero`.
    deref incl
    deref zbp
    let blk ← stackAlloc (sizeofBlk * ncbw * ncbh % 2 ^ 64)
    deref pband
    (List.range (ncbw * ncbh % 2 ^ 32)).forM fun _ => deref blk

def allocPrecinct (lv : Level) (prec : Option Region) (coord : Geometry) : Building Unit := do
  deref prec
  let pband ← stackAlloc (sizeofPband * lv.numBands)
  deref prec
  (List.range lv.numBands).forM (lv.allocPband coord pband)

/-- The bytes of `prec` in a resolution. -/
def precBytes (lv : Level) (tcp : Geometry) : Nat :=
  let rp := lv.resCoord tcp
  sizeofPrec * precinctCount rp.x0 rp.x1 (2 ^ lv.prw) * precinctCount rp.y0 rp.y1 (2 ^ lv.prh) % 2 ^ 64

def allocResolution (lv : Level) (tcp : Geometry) : Building Unit := do
  let prec ← stackAlloc (lv.precBytes tcp)
  (lv.precCoords tcp).forM (lv.allocPrecinct prec)

end Level

/-- The resolutions are prepared from the highest to 0. -/
def allocTcomp (tile : Geometry) (comp : Component) : Building Unit :=
  comp.levels.reverse.forM fun lv => lv.allocResolution (comp.coord tile)

/-- The turns of the loop over the tiles. The first one is the last when the packet order is not
supported. -/
def Plan.turns (plan : Plan) : List Nat :=
  let numTilesX := ceildivUint (sub32 plan.siz.xsiz plan.siz.xTOsiz) plan.siz.xTsiz
  let numTilesY := ceildivUint (sub32 plan.siz.ysiz plan.siz.yTOsiz) plan.siz.yTsiz
  let all := List.range (if numTilesY = 0 then 0 else numTilesX)
  if plan.innerOrder.isNone then all.take 1 else all

def Plan.alloc (plan : Plan) : Building Unit :=
  plan.turns.forM fun t => plan.comps.forM (allocTcomp (tileAt plan.siz t))

/-- `create` with its memory, in an arena that starts over. -/
def TileHandler.createIn (h : TileHandler) : Option (Bool × TileHandler × Arena) := do
  let (ok, created) ← h.create
  let (_, a) ← (plan (resolveLevels h.markers)).alloc.run {}
  return (ok, created, a)

/-! ### The requests -/

def Level.pbandRequests (lv : Level) (coord : Geometry) (b : Nat) : List Request :=
  let ncbw := (lv.blockCounts coord b).1
  let ncbh := (lv.blockCounts coord b).2
  if ncbw ≠ 0 ∧ ncbh ≠ 0 then
    [⟨tagTreeSize ncbw ncbh * sizeofTagtreeNode, true⟩, ⟨tagTreeSize ncbw ncbh * sizeofTagtreeNode, true⟩,
      ⟨sizeofBlk * ncbw * ncbh % 2 ^ 64, decide (0 < ncbw * ncbh % 2 ^ 32)⟩]
  else []

/-- The subbands are only written to where they have code-blocks. -/
def Level.precinctRequests (lv : Level) (coord : Geometry) : List Request :=
  let bands := (List.range lv.numBands).flatMap (lv.pbandRequests coord)
  ⟨sizeofPband * lv.numBands, !bands.isEmpty⟩ :: bands

def Level.resolutionRequests (lv : Level) (tcp : Geometry) : List Request :=
  ⟨lv.precBytes tcp, !(lv.precCoords tcp).isEmpty⟩ :: (lv.precCoords tcp).flatMap lv.precinctRequests

def tcompRequests (tile : Geometry) (comp : Component) : List Request :=
  comp.levels.reverse.flatMap fun lv => lv.resolutionRequests (comp.coord tile)

/-- All requests of `create`. -/
def Plan.requests (plan : Plan) : List Request :=
  plan.turns.flatMap fun t => plan.comps.flatMap (tcompRequests (tileAt plan.siz t))

/-! ### Programs and their requests -/

/-- Running the program is serving these requests. -/
def Makes (p : Building Unit) (reqs : List Request) : Prop :=
  ∀ a, p.run a = (Arena.serve bufSize 64 reqs a).map ((), ·)

/-- The program writes through `NULL`. -/
def Faults {α : Type} (p : Building α) : Prop := ∀ a, p.run a = none

variable {α β : Type}

theorem faults_deref : Faults (deref none) := fun _ => rfl

theorem Faults.bind {p : Building α} (first : Faults p) (f : α → Building β) : Faults (p >>= f) := by
  intro a
  rw [StateT.run_bind, first a]
  rfl

theorem faults_bind (p : Building α) {f : α → Building β} (later : ∀ x, Faults (f x)) : Faults (p >>= f) := by
  intro a
  rw [StateT.run_bind]
  cases p.run a with
  | none => rfl
  | some r => exact later r.1 r.2

theorem faults_forM {l : List α} {f : α → Building Unit} {x : α} (member : x ∈ l) (faults : Faults (f x)) :
    Faults (l.forM f) := by
  induction l with
  | nil => cases member
  | cons y l ih =>
    change Faults (f y >>= fun _ => l.forM f)
    rcases List.mem_cons.mp member with rfl | later
    · exact faults.bind _
    · exact faults_bind _ fun _ => ih later

theorem makes_pure : Makes (pure ()) [] := fun _ => rfl

theorem Makes.bind {p q : Building Unit} {reqs reqs' : List Request} (first : Makes p reqs)
    (later : Makes q reqs') : Makes (p >>= fun _ => q) (reqs ++ reqs') := by
  intro a
  rw [StateT.run_bind, first a, Arena.serve_append]
  cases Arena.serve bufSize 64 reqs a with
  | none => rfl
  | some a' => exact later a'

theorem makes_deref (r : Region) {q : Building Unit} {reqs : List Request} (later : Makes q reqs) :
    Makes (deref (some r) >>= fun _ => q) reqs := later

theorem makes_forM {l : List α} {f : α → Building Unit} {reqs : α → List Request}
    (each : ∀ x ∈ l, Makes (f x) (reqs x)) : Makes (l.forM f) (l.flatMap reqs) := by
  induction l with
  | nil => exact makes_pure
  | cons x l ih =>
    change Makes (f x >>= fun _ => l.forM f) _
    rw [List.flatMap_cons]
    obtain ⟨first, rest⟩ := List.forall_mem_cons.mp each
    exact first.bind (ih rest)

/-- What follows a request depends on whether it was served. -/
theorem makes_stackAlloc {n : Nat} {written : Bool} {k : Option Region → Building Unit} {reqs : List Request}
    (granted : ∀ r, Makes (k (some r)) reqs) (fault : written = true → Faults (k none))
    (refused : written = false → Makes (k none) reqs) :
    Makes (stackAlloc n >>= k) (⟨n, written⟩ :: reqs) := by
  intro a
  have step : (stackAlloc n >>= k).run a = (k (a.alloc bufSize 64 n).1).run (a.alloc bufSize 64 n).2 := rfl
  rw [step, Arena.serve]
  by_cases room : a.HasRoom bufSize 64 n
  · rw [if_pos (.inl room), Arena.alloc_room room]
    exact granted _ _
  · rw [Arena.alloc_full room]
    -- A refusal is served only if the program gets by without the memory.
    cases written with
    | true =>
      rw [if_neg (by simp [room])]
      exact fault rfl _
    | false =>
      rw [if_pos (.inr rfl)]
      exact refused rfl _

/-! ### What `create` asks for -/

theorem makes_blocks (r : Region) (n count : Nat) :
    Makes (do
      let blk ← stackAlloc n
      deref (some r)
      (List.range count).forM fun _ => deref blk) [⟨n, decide (0 < count)⟩] := by
  apply makes_stackAlloc
  · intro blk
    apply makes_deref
    generalize List.range count = l
    induction l with
    | nil => exact makes_pure
    | cons _ l ih => exact makes_deref blk ih
  · intro some_block
    have first : 0 < count := of_decide_eq_true some_block
    exact faults_bind _ fun _ => faults_forM (List.mem_range.mpr first) faults_deref
  · intro no_block
    rw [Nat.eq_zero_of_not_pos (of_decide_eq_false no_block)]
    exact makes_deref r makes_pure

namespace Level

theorem makes_allocPband (lv : Level) (coord : Geometry) (r : Region) (b : Nat) :
    Makes (lv.allocPband coord (some r) b) (lv.pbandRequests coord b) := by
  unfold allocPband pbandRequests
  simp only
  split
  · apply makes_stackAlloc _ (fun _ => ?_) (by simp)
    · intro incl
      apply makes_deref
      apply makes_stackAlloc _ (fun _ => ?_) (by simp)
      · intro zbp
        apply makes_deref
        apply makes_deref
        apply makes_deref
        exact makes_blocks r _ _
      · exact faults_bind _ fun _ => faults_bind _ fun _ => faults_deref.bind _
    -- Before `tag_tree_zero` finds that there is no tree, the second one is asked for.
    · exact faults_bind _ fun _ => faults_bind _ fun _ => faults_bind _ fun _ => faults_deref.bind _
  · exact makes_pure

/-- Without subbands the first one with code-blocks is written to `NULL`. -/
theorem faults_allocPband {lv : Level} {coord : Geometry} {b : Nat} (blocks : lv.pbandRequests coord b ≠ []) :
    Faults (lv.allocPband coord none b) := by
  unfold allocPband
  unfold pbandRequests at blocks
  simp only at blocks ⊢
  split
  · exact faults_bind _ fun _ => faults_deref.bind _
  next empty => exact absurd (if_neg empty) blocks

theorem makes_allocPband_none {lv : Level} {coord : Geometry} {b : Nat} (empty : lv.pbandRequests coord b = []) :
    Makes (lv.allocPband coord none b) (lv.pbandRequests coord b) := by
  rw [empty]
  unfold pbandRequests at empty
  unfold allocPband
  simp only at empty ⊢
  split at empty
  · cases empty
  next no_block =>
    rw [if_neg no_block]
    exact makes_pure

theorem makes_allocPrecinct (lv : Level) (r : Region) (coord : Geometry) :
    Makes (lv.allocPrecinct (some r) coord) (lv.precinctRequests coord) := by
  apply makes_deref
  apply makes_stackAlloc
  · intro pband
    apply makes_deref
    exact makes_forM fun b _ => lv.makes_allocPband coord pband b
  · intro written
    -- Some subband has code-blocks, and its turn of the loop writes to `NULL`.
    obtain ⟨req, member⟩ := List.exists_mem_of_ne_nil _ (by simpa using written :
      (List.range lv.numBands).flatMap (lv.pbandRequests coord) ≠ [])
    obtain ⟨b, inside, here⟩ := List.mem_flatMap.mp member
    exact faults_bind _ fun _ => faults_forM inside (faults_allocPband (List.ne_nil_of_mem here))
  · intro unwritten
    -- No subband has any, so the loop does nothing.
    apply makes_deref
    apply makes_forM
    intro b inside
    have none_at_all : (List.range lv.numBands).flatMap (lv.pbandRequests coord) = [] := by
      simpa using unwritten
    exact makes_allocPband_none (List.flatMap_eq_nil_iff.mp none_at_all b inside)

theorem makes_allocResolution (lv : Level) (tcp : Geometry) :
    Makes (lv.allocResolution tcp) (lv.resolutionRequests tcp) := by
  apply makes_stackAlloc
  · intro prec
    exact makes_forM fun coord _ => lv.makes_allocPrecinct prec coord
  · intro written
    obtain ⟨coord, member⟩ := List.exists_mem_of_ne_nil _ (by simpa using written : lv.precCoords tcp ≠ [])
    exact faults_forM member (faults_deref.bind _)
  · intro unwritten
    rw [show lv.precCoords tcp = [] by simpa using unwritten]
    exact makes_pure

end Level

theorem makes_alloc (plan : Plan) : Makes plan.alloc plan.requests :=
  makes_forM fun _ _ => makes_forM fun _ _ => makes_forM fun lv _ => lv.makes_allocResolution _

/-! ### Alignment

All structs have sizes in multiples of eight, also when a product wraps around. -/

theorem Level.aligned_pbandRequests {lv : Level} {coord : Geometry} {b : Nat} {req : Request}
    (member : req ∈ lv.pbandRequests coord b) : 8 ∣ req.size := by
  have trees (n : Nat) : 8 ∣ n * sizeofTagtreeNode := Nat.dvd_mul_left_of_dvd (by decide) n
  have blocks (w h : Nat) : 8 ∣ sizeofBlk * w * h % 2 ^ 64 := by
    rw [Nat.mul_assoc]
    exact (Nat.dvd_mod_iff (by decide)).mpr (Nat.dvd_mul_right_of_dvd (by decide) _)
  simp only [pbandRequests] at member
  split at member
  · simp only [List.mem_cons, List.not_mem_nil, or_false] at member
    rcases member with rfl | rfl | rfl
    · exact trees _
    · exact trees _
    · exact blocks _ _
  · cases member

theorem Level.aligned_resolutionRequests {lv : Level} {tcp : Geometry} {req : Request}
    (member : req ∈ lv.resolutionRequests tcp) : 8 ∣ req.size := by
  rcases List.mem_cons.mp member with rfl | inside
  · change 8 ∣ sizeofPrec * _ * _ % 2 ^ 64
    rw [Nat.mul_assoc]
    exact (Nat.dvd_mod_iff (by decide)).mpr (Nat.dvd_mul_right_of_dvd (by decide) _)
  · obtain ⟨coord, _, here⟩ := List.mem_flatMap.mp inside
    rcases List.mem_cons.mp here with rfl | band
    · exact Nat.dvd_mul_right_of_dvd (by decide) _
    · obtain ⟨b, _, there⟩ := List.mem_flatMap.mp band
      exact aligned_pbandRequests there

theorem Plan.aligned_requests (plan : Plan) : ∀ req ∈ plan.requests, 8 ∣ req.size := by
  intro req member
  obtain ⟨t, _, tile⟩ := List.mem_flatMap.mp member
  obtain ⟨comp, _, tcomp⟩ := List.mem_flatMap.mp tile
  obtain ⟨lv, _, res⟩ := List.mem_flatMap.mp tcomp
  exact Level.aligned_resolutionRequests res

/-! ### When `create` fails -/

theorem preparePrecinctStructure_order {plan : Plan} {tile : Tile} {crp : Option (List Crp)}
    (prepared : preparePrecinctStructure plan tile = some crp) : crp = none ↔ plan.innerOrder = none := by
  unfold preparePrecinctStructure at prepared
  split at prepared
  next unsupported =>
    cases prepared
    exact iff_of_true rfl unsupported
  next supported =>
    split at prepared
    · obtain ⟨ys, _, rest⟩ := Option.bind_eq_some_iff.mp prepared
      obtain ⟨st, _, same⟩ := Option.bind_eq_some_iff.mp rest
      cases same
      simp [supported]
    · cases prepared

/-- The loop over the tiles fails in its first turn or never. -/
theorem createTiles_order {plan : Plan} {numTilesX numTilesY : Nat} {ts : List Nat} {ok : Bool} {tiles : List Tile}
    (built : createTiles plan numTilesX numTilesY ts = some (ok, tiles)) :
    ok = false ↔ plan.innerOrder = none ∧ ts ≠ [] := by
  induction ts generalizing ok tiles with
  | nil =>
    cases built
    simp
  | cons t ts ih =>
    simp only [createTiles] at built
    split at built
    · cases built
    next failed =>
      cases built
      have order := preparePrecinctStructure_order (createTile_built failed).crp
      simpa using order.mp rfl
    next finished =>
      obtain ⟨⟨ok', later⟩, others, same⟩ := Option.map_eq_some_iff.mp built
      cases same
      have order := preparePrecinctStructure_order (createTile_built finished).crp
      have supported : plan.innerOrder ≠ none := fun unsupported => by simpa using order.mpr unsupported
      simp only [ih others, supported, false_and]

theorem Plan.tiles_order {plan : Plan} {numTilesX numTilesY : Nat} {ok : Bool} {tiles : List Tile}
    (built : plan.tiles = some (numTilesX, numTilesY, ok, tiles)) :
    ok = false ↔ plan.innerOrder = none ∧ plan.turns ≠ [] := by
  simp only [Plan.tiles] at built
  split at built
  · cases built
  · obtain ⟨⟨ok', tiles'⟩, loop, same⟩ := Option.map_eq_some_iff.mp built
    cases same
    rw [createTiles_order loop]
    apply and_congr_right
    intro unsupported
    simp [Plan.turns, unsupported]

/-- `create` returns, and with success only if all its memory was there: no request was refused, and
the regions are aligned, inside the arena and apart. -/
def TileHandler.CreatesCleanly (h : TileHandler) : Prop :=
  ∃ ok created a, h.createIn = some (ok, created, a) ∧ (ok = true → a.Sound bufSize 8)

theorem createIn_eq {h h' : TileHandler} {ok : Bool} (created : h.create = some (ok, h')) :
    h.createIn =
      (Arena.serve bufSize 64 (plan (resolveLevels h.markers)).requests {}).map fun a => (ok, h', a) := by
  unfold TileHandler.createIn
  rw [created, makes_alloc]
  cases Arena.serve bufSize 64 (plan (resolveLevels h.markers)).requests {} with
  | none => rfl
  | some a => rfl

theorem createsCleanly_iff_served {h h' : TileHandler} {ok : Bool} (created : h.create = some (ok, h')) :
    h.CreatesCleanly ↔ ∃ a, Arena.serve bufSize 64 (plan (resolveLevels h.markers)).requests {} = some a ∧
      (ok = true → a.Sound bufSize 8) := by
  unfold TileHandler.CreatesCleanly
  rw [createIn_eq created]
  constructor
  · rintro ⟨_, _, a, returned, sound⟩
    obtain ⟨a', served, same⟩ := Option.map_eq_some_iff.mp returned
    cases same
    exact ⟨a, served, sound⟩
  · rintro ⟨a, served, sound⟩
    rw [served]
    exact ⟨ok, h', a, rfl, sound⟩

/-- A header that `create` can use otherwise is handled cleanly if everything it asks for fits into
the arena. Only for a packet order that is not supported, where `create` fails anyway, requests may
be refused, as long as nothing is written to them. -/
theorem create_clean_iff {h h' : TileHandler} {ok : Bool} (created : h.create = some (ok, h')) :
    h.CreatesCleanly ↔
      Request.total (plan (resolveLevels h.markers)).requests ≤ bufSize ∨
      (plan (resolveLevels h.markers)).innerOrder = none ∧
        ∀ pre req post, (plan (resolveLevels h.markers)).requests = pre ++ req :: post → req.written = true →
          (Arena.after bufSize 64 pre {}).HasRoom bufSize 64 req.size := by
  rw [createsCleanly_iff_served created]
  obtain ⟨built, _⟩ := TileHandler.create_inv created
  have order := Plan.tiles_order built
  generalize plan (resolveLevels h.markers) = plan at order ⊢
  have fits : (∃ a, Arena.serve bufSize 64 plan.requests {} = some a ∧ a.Sound bufSize 8) ↔
      Request.total plan.requests ≤ bufSize := Arena.served_sound_iff (by decide) plan.aligned_requests
  -- Success asks for sound memory, failure only for no write to `NULL`.
  cases ok with
  | true =>
    simp only [true_implies, fits]
    constructor
    · exact .inl
    · rintro (all | ⟨unsupported, _⟩)
      · exact all
      · -- Success with such an order means that there is no tile.
        have no_turn : plan.turns = [] := by
          by_contra turns
          cases order.mpr ⟨unsupported, turns⟩
        rw [Plan.requests, no_turn]
        exact Nat.zero_le _
  | false =>
    simp only [Bool.false_eq_true, false_implies, and_true, ← Arena.exists_served_iff]
    have unsupported := (order.mp rfl).1
    constructor
    · exact fun served => .inr ⟨unsupported, served⟩
    · rintro (all | ⟨_, served⟩)
      · obtain ⟨a, served, _⟩ := fits.mpr all
        exact ⟨a, served⟩
      · exact served

/-- A handler that has read a main header. -/
def handlerOf (header : List UInt8) : TileHandler :=
  { markers := ((parseMainHeader {} (streamOf header)).map fun r => r.2.1).getD {} }

theorem create_clean_streamHeader :
    (handlerOf (streamHeader 1 0x40)).create.isSome = true ∧
      (handlerOf (streamHeader 1 0x40)).CreatesCleanly := by
  have seen : (handlerOf (streamHeader 1 0x40)).create.isSome = true ∧
      Request.total (plan (resolveLevels (handlerOf (streamHeader 1 0x40)).markers)).requests ≤ bufSize := by
    decide +kernel
  obtain ⟨⟨ok, h⟩, created⟩ := Option.isSome_iff_exists.mp seen.1
  exact ⟨seen.1, (create_clean_iff created).mpr (.inl seen.2)⟩

/-- The same header for 8192 by 4096 samples. -/
def largeHeader : List UInt8 :=
  ((((((streamHeader 1 0x40).set 10 0x20).set 14 0x10).set 15 0).set 26 0x20).set 30 0x10).set 31 0

/-- Apart from its memory the structure could be built. -/
theorem create_writes_null :
    (handlerOf largeHeader).create.map Prod.fst = some true ∧ (handlerOf largeHeader).createIn = none ∧
      ¬ (handlerOf largeHeader).CreatesCleanly := by
  have seen : (handlerOf largeHeader).create.map Prod.fst = some true ∧
      Arena.serve bufSize 64 (plan (resolveLevels (handlerOf largeHeader).markers)).requests {} = none := by
    decide +kernel
  obtain ⟨⟨ok, h⟩, created, rfl⟩ := Option.map_eq_some_iff.mp seen.1
  have undefined := createIn_eq created
  rw [seen.2, Option.map_none] at undefined
  refine ⟨seen.1, undefined, ?_⟩
  rintro ⟨_, _, _, returned, _⟩
  rw [undefined] at returned
  cases returned

end RtpDecoder.Parser

import RtpDecoder.Parser.Isolation

/-!
# Frame after frame

Any number of frames goes through one structure, each one ended by `restart`, whatever has
become of it. The next frame is fed to two handlers with different histories, and what the
precinct callbacks get to see is compared.
-/

namespace RtpDecoder.Parser

open Header

/-! ### A structure as `create` makes it -/

/-- A cell of a new precinct has nothing but the coordinates of its code-block. -/
theorem Level.cell_precinct (lv : Level) (coord : Geometry) (place : Nat × Nat) :
    ∃ corners, (lv.precinct coord).cell place = ⟨{}, {}, { coord := corners }⟩ := by
  have node (n i : Nat) : (List.replicate n ({} : TagNode)).getD i default = {} := by
    rw [List.getD_eq_getElem?_getD, List.getElem?_replicate]
    split <;> rfl
  by_cases band : place.1 < lv.numBands
  · rw [Prec.cell, band_precinct lv coord band]
    -- A subband without code-blocks has no trees either.
    by_cases filled : (lv.blockCounts coord place.1).1 ≠ 0 ∧ (lv.blockCounts coord place.1).2 ≠ 0
    · simp only [pband, filled, ne_eq, not_false_eq_true, and_self, if_true, node, List.getD_eq_getElem?_getD,
        List.getElem?_map]
      cases (List.range _)[place.2]? with
      | none => exact ⟨{}, rfl⟩
      | some cb => exact ⟨lv.blkCoord coord place.1 cb, rfl⟩
    · have empty : lv.pband coord place.1 = {} := if_neg filled
      rw [empty]
      exact ⟨{}, rfl⟩
  · have absent : (lv.precinct coord).band place.1 = {} := by
      rw [Prec.band, precinct, List.getD_eq_default]
      · rfl
      · simpa using band
    rw [Prec.cell, absent]
    exact ⟨{}, rfl⟩

/-- Of a code-block without content `restart` clears what is clear, whatever the arena held. -/
theorem Level.restart_precinct {lv : Level} {coord : Geometry} {prec : Prec}
    (made : prec.written = (lv.precinct coord).written) : prec.restart = prec := by
  refine (Prec.sameShape_restart _).ext fun place => ?_
  obtain ⟨corners, new⟩ := lv.cell_precinct coord place
  have cells := congrArg (Prec.cell · place) made
  rw [Prec.cell_restart]
  simp only [Prec.written, Prec.cell_mapBlk (f := Blk.written) rfl, new] at cells
  generalize prec.cell place = cell at cells ⊢
  obtain ⟨incl, zbp, blk⟩ := cell
  cases blk
  simp only [Blk.written, Cell.mk.injEq, Blk.mk.injEq, true_and, and_true] at cells
  obtain ⟨rfl, rfl, _, rfl, rfl, rfl, _, _, rfl⟩ := cells
  simp only [Blk.restart, ite_self]

private theorem mapIdx_eq_self {α : Type} {l : List α} {f : Nat → α → α} (kept : ∀ i, ∀ a ∈ l, f i a = a) :
    l.mapIdx f = l := by
  apply List.ext_getElem List.length_mapIdx
  intro i _ inside
  rw [List.getElem_mapIdx]
  exact kept i _ (List.getElem_mem inside)

private theorem mem_of_map_eq {α β : Type} {f : α → β} {l l' : List α} (same : l.map f = l'.map f) {a : α}
    (listed : a ∈ l) : ∃ a' ∈ l', f a = f a' := by
  have image := List.mem_map_of_mem (f := f) listed
  rw [same] at image
  obtain ⟨a', there, eq⟩ := List.mem_map.mp image
  exact ⟨a', there, eq.symm⟩

theorem Level.restart_resolution {lv : Level} {above : Option Level} {tcp : Geometry} {res : Res}
    (made : res.written = (lv.resolution above tcp).written) : res.restart = res := by
  have lists : res.prec.map Prec.written = (lv.resolution above tcp).prec.map Prec.written := by
    have same := congrArg Res.prec made
    exact same
  have kept : res.restart.prec = res.prec := by
    apply mapIdx_eq_self
    intro p prec listed
    obtain ⟨prec', planned, same⟩ := mem_of_map_eq lists listed
    obtain ⟨coord, rfl⟩ := mem_resolution planned
    rw [restart_precinct same, ite_self]
  exact congrArg (fun prec => { res with prec := prec }) kept

theorem Tcomp.Built.mem_res {tile : Geometry} {comp : Component} {tcp : Tcomp} (built : tcp.Built tile comp)
    {res : Res} (listed : res ∈ tcp.res) : ∃ lv above coord, res = Level.resolution lv above coord := by
  rw [built.res] at listed
  obtain ⟨r, _, rfl⟩ := List.mem_mapIdx.mp listed
  exact ⟨_, _, _, rfl⟩

theorem Tile.Built.mem_tcomp {plan : Plan} {coord : Geometry} {ok : Bool} {tile : Tile}
    (built : tile.Built plan coord ok) {tcp : Tcomp} (listed : tcp ∈ tile.tcomp) :
    ∃ comp, Tcomp.Built coord comp tcp := by
  obtain ⟨i, inside, rfl⟩ := List.getElem_of_mem listed
  have planned := built.tcomp
  exact ⟨_, (List.forall₂_iff_get.mp planned).2 i (Nat.lt_of_lt_of_eq inside planned.length_eq.symm) inside⟩

theorem restart_createTile {plan : Plan} {numTilesX numTilesY t : Nat} {ok : Bool} {tile tile' : Tile}
    (built : createTile plan numTilesX numTilesY t = some (ok, tile')) (made : tile.written = tile'.written) :
    tile.restart = tile := by
  simp only [Tile.written, Tile.mk.injEq] at made
  obtain ⟨lists, _, _, _, _, start⟩ := made
  have kept : tile.restart.tcomp = tile.tcomp := by
    apply mapIdx_eq_self
    intro c tcp listed
    obtain ⟨tcp', planned, same⟩ := mem_of_map_eq lists listed
    obtain ⟨comp, built⟩ := (createTile_built built).mem_tcomp planned
    have levels : tcp.res.map Res.written = tcp'.res.map Res.written := by
      have same := congrArg Tcomp.res same
      exact same
    have resolutions : tcp.res.map Res.restart = tcp.res := by
      refine (List.map_congr_left fun res there => ?_).trans (List.map_id _)
      obtain ⟨res', planned, same⟩ := mem_of_map_eq levels there
      obtain ⟨lv, above, coord, rfl⟩ := built.mem_res planned
      exact Level.restart_resolution same
    rw [resolutions, ite_self]
  have same : tile.restart = { tile with crpIdx := 0, tcomp := tile.restart.tcomp } := rfl
  rw [same, kept, ← (createTile_fields built).2, ← start]

/-- A new structure is as `restart` leaves it, whatever the arena held. -/
theorem TileHandler.restart_create {h0 h made : TileHandler} {ok : Bool} (created : h0.create = some (ok, h))
    (left : made.written = h.written) : made.restart = { made with signalQueue := [] } := by
  have lists : made.tiles.map Tile.written = h.tiles.map Tile.written := by
    have same := congrArg TileHandler.tiles left
    exact same
  have kept : made.tiles.map Tile.restart = made.tiles := by
    refine (List.map_congr_left fun tile member => ?_).trans (List.map_id _)
    obtain ⟨tile', planned, same⟩ := mem_of_map_eq lists member
    obtain ⟨t, ok', built⟩ := Plan.tiles_mem (TileHandler.create_inv created).1 planned
    exact restart_createTile built same
  rw [TileHandler.restart, kept]

theorem Tile.Stored.mem {tile : Tile} {ct : Crp} (stored : tile.Stored ct) :
    ct.c < tile.tcomp.length ∧
      ∃ tcp ∈ tile.tcomp, tile.resAt ct.c ct.r ∈ tcp.res ∧ tile.prec ct ∈ (tile.resAt ct.c ct.r).prec := by
  have component : ct.c < tile.tcomp.length := by
    by_contra beyond
    rw [Tile.Stored, Tile.resAt, List.getD_eq_default _ _ (Nat.le_of_not_lt beyond)] at stored
    exact absurd stored (Nat.not_lt_zero _)
  have resolution : ct.r < (tile.tcomp.getD ct.c default).res.length := by
    by_contra beyond
    rw [Tile.Stored, Tile.resAt, List.getD_eq_default (tile.tcomp.getD ct.c default).res _
      (Nat.le_of_not_lt beyond)] at stored
    exact absurd stored (Nat.not_lt_zero _)
  refine ⟨component, tile.tcomp.getD ct.c default, ?_, ?_, ?_⟩
  · rw [List.getD_eq_getElem _ _ component]
    exact List.getElem_mem component
  · rw [Tile.resAt, List.getD_eq_getElem _ _ resolution]
    exact List.getElem_mem resolution
  · rw [Tile.prec_eq, List.getD_eq_getElem _ _ stored]
    exact List.getElem_mem stored

namespace TileHandler

/-- The nodes of the tag trees can be counted, which `tag_tree_size` asserts. -/
def Counted (h : TileHandler) : Prop :=
  ∀ tcp ∈ h.tile.tcomp, ∀ res ∈ tcp.res, ∀ prec ∈ res.prec,
    tagTreeSizeLoop 33 prec.ncbw prec.ncbh 0 + 1 < 2 ^ 31 - 1

instance (h : TileHandler) : Decidable h.Counted :=
  inferInstanceAs (Decidable (∀ tcp ∈ h.tile.tcomp, _))

variable {h0 h made : TileHandler} {ok : Bool}

theorem create_tile (created : h0.create = some (ok, h)) :
    h.tile.tcomp.length = h.tile.numComponents ∧ ∀ tcp ∈ h.tile.tcomp, ∀ res ∈ tcp.res,
      ∃ lv above coord, res = Level.resolution lv above coord := by
  rw [TileHandler.tile]
  cases tiles : h.tiles with
  | nil => exact ⟨rfl, by simp⟩
  | cons tile rest =>
    have member : tile ∈ h.tiles := tiles ▸ List.mem_cons_self
    obtain ⟨t, ok', made⟩ := Plan.tiles_mem (TileHandler.create_inv created).1 member
    have built := createTile_built made
    refine ⟨?_, fun tcp listed res resolution => ?_⟩
    · rw [List.headD_cons, (createTile_fields made).1, ← built.tcomp.length_eq]
      simp [plan, SizMarker.frame]
    · obtain ⟨comp, planned⟩ := built.mem_tcomp listed
      exact planned.mem_res resolution

theorem covered_create (created : h0.create = some (ok, h)) : h.tile.Covered := by
  obtain ⟨complete, planned⟩ := create_tile created
  -- The precincts of a resolution are as many as `restart` goes through.
  intro ct stored
  obtain ⟨component, tcp, listed, resolution, _⟩ := stored.mem
  refine ⟨complete ▸ component, ?_⟩
  obtain ⟨lv, above, coord, same⟩ := planned tcp listed _ resolution
  rw [Tile.Stored, same] at stored
  rw [same]
  simpa only [Level.resolution, List.length_map, List.length_range] using stored

/-- What `create` has made is a structure for frames, whatever the arena held. -/
theorem latched_create (created : h0.create = some (ok, h)) (counted : h.Counted)
    (left : made.written = h.written) : made.Latched made := by
  refine ⟨rfl, rfl, Iff.rfl, rfl, fun _ => Iff.rfl, covered_of_written left (covered_create created),
    fun _ => rfl, ?_, fun _ _ _ => id, Iff.rfl⟩
  intro ct
  obtain ⟨_, _, _, width, height⟩ := (Prec.sameShape_of_written (prec_of_written left ct)).fields
  rw [width, height]
  by_cases stored : h.tile.Stored ct
  · obtain ⟨_, tcp, listed, resolution, there⟩ := stored.mem
    exact counted tcp listed _ resolution _ there
  · rw [Tile.prec_of_not_stored stored]
    decide

/-- Where every style sets the flags anyway, none is left that could matter. -/
theorem unflagged_of_ht (styles : ∀ c < h.tile.tcomp.length, cmodeHt ≤ h.style c) : h.Unflagged :=
  fun _ stored low => absurd (styles _ stored.mem.1) (Nat.not_le.mpr low)

end TileHandler

/-! ### Frames -/

/-- What `pull_data` does with the tile handler and its reader in the course of a frame. -/
inductive FrameOp where
  | append (chunk : Chunk)
  | reset (p : BitVec 32)
  | signal (signal : Signal)
  | parse
  | flush

/-- A frame in progress: the walk, and the return codes of `parse` and `flush`, latest first. -/
structure FrameRun where
  walk : Walk
  codes : List Bool := []

def FrameRun.step (f : FrameRun) : FrameOp → Option FrameRun
  | .append chunk => some { f with walk := { f.walk with cs := f.walk.cs.appendChunk chunk } }
  | .reset p => some { f with walk := { f.walk with cs := f.walk.cs.reset p } }
  | .signal signal => some { f with walk := { f.walk with handler := f.walk.handler.appendSignal signal } }
  | .parse => f.walk.parse.map fun r => ⟨r.2, r.1 :: f.codes⟩
  | .flush => some ⟨f.walk.flush.2, f.walk.flush.1 :: f.codes⟩

namespace TileHandler

/-- A frame starts with an empty chain. -/
def feed (h : TileHandler) (frame : List FrameOp) : Option FrameRun :=
  frame.foldlM FrameRun.step ⟨⟨h, {}, []⟩, []⟩

/-- The handler after frames on a structure, each one ended by `restart` wherever it was; a new
structure is as `restart` leaves it. -/
def history (h : TileHandler) (frames : List (List FrameOp)) : Option TileHandler :=
  frames.foldlM (fun cur frame => (cur.feed frame).map fun f => f.walk.handler.restart) h.restart

end TileHandler

/-- Every operation keeps what the parts of a walk keep, given the same for those that only
touch the chain and the queue. -/
theorem FrameRun.rel_step {R : Walk → Walk → Prop} (lockstep : Walk.Lockstep R)
    (chain : ∀ {w w'} (edit : Codestream → Codestream), R w w' →
      R { w with cs := edit w.cs } { w' with cs := edit w'.cs })
    (queue : ∀ {w w'} (signal : Signal), R w w' →
      R { w with handler := w.handler.appendSignal signal } { w' with handler := w'.handler.appendSignal signal })
    (op : FrameOp) (f f' : FrameRun) (related : R f.walk f'.walk ∧ f.codes = f'.codes) :
    Option.Rel (fun f f' => R f.walk f'.walk ∧ f.codes = f'.codes) (f.step op) (f'.step op) := by
  obtain ⟨walks, codes⟩ := related
  cases op with
  | append chunk => exact .some ⟨chain (·.appendChunk chunk) walks, codes⟩
  | reset p => exact .some ⟨chain (·.reset p) walks, codes⟩
  | signal signal => exact .some ⟨queue signal walks, codes⟩
  | parse => exact rel_map (lockstep.parse walks) fun r r' same => ⟨same.2, by rw [same.1, codes]⟩
  | flush =>
    obtain ⟨code, later⟩ := lockstep.flush walks
    exact .some ⟨later, by rw [code, codes]⟩

namespace TileHandler

variable {h cur cur' : TileHandler}

theorem Latched.feed (latched : h.Latched cur) {frame : List FrameOp} {f : FrameRun}
    (fed : cur.feed frame = some f) : h.Latched f.walk.handler := by
  have related : Option.Rel (fun f f' : FrameRun => (f.walk = f'.walk ∧ h.Latched f.walk.handler) ∧ f.codes = f'.codes)
      (cur.feed frame) (cur.feed frame) := by
    refine rel_foldlM (FrameRun.rel_step (Walk.lockstep_latched h) ?_ ?_) frame ⟨⟨rfl, latched⟩, rfl⟩
    · rintro w _ edit ⟨rfl, latched⟩
      exact ⟨rfl, latched⟩
    · rintro w _ signal ⟨rfl, latched⟩
      exact ⟨rfl, latched.withQueue _⟩
  rw [fed] at related
  cases related with
  | some kept => exact kept.1.2

/-- Whatever the frames were, a handler comes from `restart` on the structure. -/
theorem Latched.history {frames : List (List FrameOp)} (latched : h.Latched h)
    (past : h.history frames = some cur) : ∃ old, h.Latched old ∧ cur = old.restart := by
  -- Between two frames the handler is a restarted one; a frame keeps it on the structure.
  refine foldlM_invariant (P := fun cur => ∃ old, h.Latched old ∧ cur = old.restart) ?_ frames ⟨h, latched, rfl⟩ past
  rintro _ frame _ ⟨old, before, rfl⟩ one
  obtain ⟨f, fed, rfl⟩ := Option.map_eq_some_iff.mp one
  exact ⟨f.walk.handler, before.restart.feed fed, rfl⟩

theorem Twin.feed (twin : cur.Twin cur') (frame : List FrameOp) :
    Option.Rel (fun f f' => f.walk.Twin f'.walk ∧ f.codes = f'.codes) (cur.feed frame) (cur'.feed frame) := by
  refine rel_foldlM (FrameRun.rel_step Walk.lockstep_twin ?_ ?_) frame ⟨⟨twin, rfl, .nil⟩, rfl⟩
  · intro w w' edit twin
    rw [twin.cs]
    exact twin.withStream _
  · intro w w' signal twin
    simp only [appendSignal, ← twin.handler.queue]
    exact twin.withQueue _

end TileHandler

/-! ### What a callback gets to see -/

/-- The fields of a code-block that a consumer reads, and the bytes of its body; without a
length there are none to read. -/
structure Observed where
  incl : Nat
  zbp : Nat
  npasses : Nat
  passLengths : Nat × Nat
  length : Nat
  body : Option (List UInt8)
deriving DecidableEq

/-- `data` holds a body only where there is a length. -/
def Blk.body (blk : Blk) : Option (List UInt8) := if blk.length = 0 then some [] else blk.data

def Blk.observed (blk : Blk) : Observed where
  incl := blk.incl
  zbp := blk.zbp
  npasses := blk.npasses
  passLengths := (blk.passLengths0, blk.passLengths1)
  length := blk.length
  body := blk.body

namespace Report

/-- The code-blocks look the same to the two consumers. -/
def Identical (r r' : Report) : Prop :=
  ∀ place ∈ r.prec.blockOrder, (r.prec.block place).observed = (r'.prec.block place).observed

/-- The packet includes the code-block, whatever it does not take into account. -/
def Includes (r : Report) (place : Nat × Nat) : Prop :=
  ((readPacket r.start (r.prior.view r.cbs) r.cbs).2.1.block place).incl = 1

/-- What the packet leaves as it was, was the same: inclusion and bit-planes of a code-block
that it does not include, and the bodies if it is empty. -/
def LeftAlike (r r' : Report) : Prop :=
  ∀ place ∈ r.prior.blockOrder,
    (¬ r.Includes place → (r.prior.block place).incl = (r'.prior.block place).incl ∧
      (r.prior.block place).zbp = (r'.prior.block place).zbp) ∧
    (r.start.getBit.1 = false → (r.prior.block place).body = (r'.prior.block place).body)

instance (r r' : Report) : Decidable (r.Identical r') := inferInstanceAs (Decidable (∀ place ∈ _, _))
instance (r : Report) (place : Nat × Nat) : Decidable (r.Includes place) := inferInstanceAs (Decidable (_ = _))
instance (r r' : Report) : Decidable (r.LeftAlike r') := inferInstanceAs (Decidable (∀ place ∈ _, _))

end Report

namespace Walk

variable {r r' : Report}

/-- Both packets against the one on what they take into account. -/
theorem ReportTwin.read (twin : ReportTwin r r') :
    PacketRead Eq r.cbs r.start r.prior (readPacket r.start r.prior r.cbs)
        (readPacket r.start (r.prior.view r.cbs) r.cbs) ∧
      PacketRead Eq r.cbs r.start r'.prior (readPacket r.start r'.prior r.cbs)
        (readPacket r.start (r.prior.view r.cbs) r.cbs) := by
  refine ⟨packetRead_readPacket _ _ _, ?_⟩
  rw [twin.prior]
  exact packetRead_readPacket _ _ _

theorem ReportTwin.forget_eq (twin : ReportTwin r r') : r.prec.forget = r'.prec.forget := by
  obtain ⟨read, read'⟩ := twin.read
  rw [twin.packet, twin.packet', ← Prec.forget_view r.cbs, read.view_eq, ← read'.view_eq, Prec.forget_view]

/-- An empty packet leaves all bodies as they were; any other packet writes them. -/
theorem ReportTwin.body_iff (twin : ReportTwin r r') {place : Nat × Nat} (member : place ∈ r.prior.blockOrder)
    (length : (r.prec.block place).length = (r'.prec.block place).length) :
    (r.prec.block place).body = (r'.prec.block place).body ↔
      (r.start.getBit.1 = false → (r.prior.block place).body = (r'.prior.block place).body) := by
  obtain ⟨read, read'⟩ := twin.read
  cases bit : r.start.getBit.1 with
  | false =>
    rw [twin.packet, twin.packet', readPacket_empty bit, readPacket_empty bit]
    simp only [true_implies]
  | true =>
    have ok' : (readPacket r.start r'.prior r.cbs).1 = true := (read'.code.trans read.code.symm).trans twin.ok
    have order : r'.prior.blockOrder = r.prior.blockOrder := by
      have same := congrArg Prec.blockOrder twin.prior.symm
      exact same
    have data : (r.prec.block place).data = (r'.prec.block place).data := by
      rw [twin.packet, twin.packet']
      exact (read.bodies twin.ok bit place member).trans (read'.bodies ok' bit place (order ▸ member)).symm
    simp [Blk.body, length, data]

theorem ReportTwin.identical_iff (twin : ReportTwin r r') : r.Identical r' ↔ r.LeftAlike r' := by
  obtain ⟨read, read'⟩ := twin.read
  have order : r.prec.blockOrder = r.prior.blockOrder := by rw [twin.packet, read.beside.shape.blockOrder]
  rw [Report.Identical, order]
  apply forall₂_congr
  intro place member
  have cell : Blk.Read r.cbs (r.prior.block place) (r.prec.block place) _ :=
    twin.packet ▸ (read.beside.cells place).blk
  have cell' : Blk.Read r.cbs (r'.prior.block place) (r'.prec.block place) _ :=
    twin.packet' ▸ (read'.beside.cells place).blk
  have fields := cell.view.trans cell'.view.symm
  simp only [Blk.view, Blk.forget, Blk.mk.injEq] at fields
  obtain ⟨_, _, first, second, length, _, _, _, _, _, passes, _⟩ := fields
  rw [← twin.body_iff member length]
  simp only [Blk.observed, Observed.mk.injEq, first, second, length, passes, true_and, cell.incl, cell'.incl,
    cell.zbp, cell'.zbp]
  -- An included code-block gets its fields from the packet, in both precincts the same.
  by_cases included : r.Includes place
  · have one : ((readPacket r.start (r.prior.view r.cbs) r.cbs).2.1.cell place).blk.incl = 1 := included
    simp only [if_pos one, included, not_true, false_implies, true_and]
  · have other : ((readPacket r.start (r.prior.view r.cbs) r.cbs).2.1.cell place).blk.incl ≠ 1 := included
    simp only [if_neg other, included, not_false_eq_true, true_implies, and_assoc]

theorem reports_twin {l l' : List Report} (twins : List.Forall₂ ReportTwin l l') :
    l.map Report.crp = l'.map Report.crp ∧ l.map (·.prec.forget) = l'.map (·.prec.forget) ∧
      (List.Forall₂ Report.Identical l l' ↔ List.Forall₂ Report.LeftAlike l l') := by
  induction twins with
  | nil => simp
  | cons twin _ ih =>
    obtain ⟨crp, precincts, same⟩ := ih
    simp only [List.map_cons, List.forall₂_cons, twin.crp, twin.forget_eq, twin.identical_iff, crp, precincts, same,
      and_self]

end Walk

/-- Two histories on one structure, which has to be one that `restart` can walk over. Where they
have left the same placeholder flags, the next frame gives the same sequence of precincts, return
codes and lengths, and all that is reported is the same exactly if the histories have left alike
what the packets do not write. The flags are the same if the arena held none in a component whose
style does not set them anyway. In either case the arena may have held anything else. -/
theorem frames_isolated_iff {h0 h made made' cur cur' : TileHandler} {ok : Bool} (created : h0.create = some (ok, h))
    (live : h.RestartLive) (counted : h.Counted) (left : made.written = h.written) (left' : made'.written = h.written)
    {frames frames' : List (List FrameOp)} (past : made.history frames = some cur)
    (past' : made'.history frames' = some cur') :
    (made.Unflagged → made'.Unflagged → cur.FlagsAlike cur') ∧
    (cur.FlagsAlike cur' → ∀ frame,
      Option.Rel (fun f f' => f.codes = f'.codes ∧
          f.walk.reports.map Report.crp = f'.walk.reports.map Report.crp ∧
          f.walk.reports.map (·.prec.forget) = f'.walk.reports.map (·.prec.forget) ∧
          (List.Forall₂ Report.Identical f.walk.reports f'.walk.reports ↔
            List.Forall₂ Report.LeftAlike f.walk.reports f'.walk.reports) ∧
          f.walk.handler.RestartLive ∧ f'.walk.handler.RestartLive)
        (cur.feed frame) (cur'.feed frame)) := by
  have latched := TileHandler.latched_create created counted left
  have latched' := TileHandler.latched_create created counted left'
  obtain ⟨old, before, rfl⟩ := latched.history past
  obtain ⟨old', before', rfl⟩ := latched'.history past'
  have same := left.trans left'.symm
  refine ⟨fun off off' => ?_, fun flags frame => ?_⟩
  · exact (before.restart.unflagged off).alike (before'.restart.unflagged off') before.restart before'.restart same
  -- The two handlers agree on what packets take into account, and a frame keeps it so.
  · have runs := (before.twin before' same flags).feed frame
    generalize fed : old.restart.feed frame = o at runs ⊢
    generalize fed' : old'.restart.feed frame = o' at runs ⊢
    cases runs with
    | none => exact .none
    | some twin =>
      obtain ⟨crp, precincts, identical⟩ := Walk.reports_twin twin.1.reports
      exact .some ⟨twin.2, crp, precincts, identical,
        (before.restart.feed fed).live.mpr (TileHandler.restartLive_of_written left live),
        (before'.restart.feed fed').live.mpr (TileHandler.restartLive_of_written left' live)⟩

/-- The markers of a stream with five levels and a code-block in every subband. -/
def squareMarkers : Markers :=
  ((parseMainHeader {} (streamOf (squareHeader 3 5 [0x55, 0x40]))).map (·.2.1)).getD {}

/-- A frame whose first packet fits into one byte; all other packets are empty. -/
def squareFrame (first : UInt8) : List FrameOp :=
  [.append { bytes := first :: List.replicate 17 0 }, .flush]

/-- The structure with something from before in the first code-block, where `create` does not
write. -/
def TileHandler.littered (h : TileHandler) : TileHandler :=
  h.setTile (h.tile.setPrec ⟨0, 0, 0⟩ ((h.tile.prec ⟨0, 0, 0⟩).mapBlk fun blk =>
    { blk with data := some [1, 2], modes := 0x40, zbp := 7, htPlhd := true }))

/-- On the same structure: nothing before the next frame, but litter, and the small frame. -/
private theorem square_runs (litter : TileHandler → TileHandler) (next : List FrameOp)
    (P : TileHandler → FrameRun → FrameRun → Bool)
    (found : ((TileHandler.create { markers := squareMarkers }).bind fun r =>
      ((litter r.2).history []).bind fun cur => (r.2.history [squareFrame 0xE0]).bind fun cur' =>
      (cur.feed next).bind fun f => (cur'.feed next).map fun f' => (r.1, P r.2 f f')) = some (true, true)) :
    ∃ h cur cur' f f', TileHandler.create { markers := squareMarkers } = some (true, h) ∧ h.RestartLive ∧
      (litter h).history [] = some cur ∧ h.history [squareFrame 0xE0] = some cur' ∧
      cur.feed next = some f ∧ cur'.feed next = some f' ∧ P h f f' = true := by
  obtain ⟨⟨ok, h⟩, created, found⟩ := Option.bind_eq_some_iff.mp found
  obtain ⟨cur, past, found⟩ := Option.bind_eq_some_iff.mp found
  obtain ⟨cur', past', found⟩ := Option.bind_eq_some_iff.mp found
  obtain ⟨f, fed, found⟩ := Option.bind_eq_some_iff.mp found
  obtain ⟨f', fed', found⟩ := Option.map_eq_some_iff.mp found
  obtain ⟨rfl, shown⟩ := Prod.mk.inj found
  have live := (TileHandler.create_restartLive_iff created).mpr (by decide +kernel)
  exact ⟨h, cur, cur', f, f', created, live, past, past', fed, fed', shown⟩

/-- Neither the frame before nor the litter shows if the only packet that is not empty includes
its code-block. -/
theorem frames_isolated_square : ∃ h cur cur' f f',
    TileHandler.create { markers := squareMarkers } = some (true, h) ∧ h.RestartLive ∧ h.Counted ∧
    h.littered ≠ h ∧ h.littered.written = h.written ∧
    h.littered.history [] = some cur ∧ h.history [squareFrame 0xE0] = some cur' ∧
    cur.feed (squareFrame 0xE0) = some f ∧ cur'.feed (squareFrame 0xE0) = some f' ∧
    f.walk.reports.length = 18 ∧ List.Forall₂ Report.Identical f.walk.reports f'.walk.reports := by
  obtain ⟨h, cur, cur', f, f', created, live, past, past', fed, fed', shown⟩ :=
    square_runs TileHandler.littered (squareFrame 0xE0)
    (fun h f f' => decide (h.Counted ∧ h.littered ≠ h ∧ h.littered.written = h.written ∧
      (∀ c < h.tile.tcomp.length, cmodeHt ≤ h.style c) ∧
      (∀ c < h.littered.tile.tcomp.length, cmodeHt ≤ h.littered.style c) ∧ f.walk.reports.length = 18 ∧
      List.Forall₂ Report.LeftAlike f.walk.reports f'.walk.reports)) (by decide +kernel)
  obtain ⟨counted, other, left, styles, styles', reports, alike⟩ := of_decide_eq_true shown
  obtain ⟨flags, isolated⟩ := frames_isolated_iff created live counted left rfl past past'
  have runs := isolated (flags (TileHandler.unflagged_of_ht styles') (TileHandler.unflagged_of_ht styles))
    (squareFrame 0xE0)
  rw [fed, fed'] at runs
  cases runs with
  | some same =>
    exact ⟨h, cur, cur', f, f', created, live, counted, other, left, past, past', fed, fed', reports,
      same.2.2.2.1.mpr alike⟩

/-- A code-block that the frame before has included is reported as included by a packet that
does not include it, and not so without that frame. -/
theorem inclusion_outlives_frame : ∃ h cur cur' f f',
    TileHandler.create { markers := squareMarkers } = some (true, h) ∧ h.RestartLive ∧ h.Counted ∧
    h.history [] = some cur ∧ h.history [squareFrame 0xE0] = some cur' ∧
    cur.feed (squareFrame 0x80) = some f ∧ cur'.feed (squareFrame 0x80) = some f' ∧
    f.codes = [true] ∧ f'.codes = [true] ∧
    (f.walk.reports.getLast?.map fun r => (r.crp, (r.prec.block (0, 0)).incl)) = some (⟨0, 0, 0⟩, 0) ∧
    (f'.walk.reports.getLast?.map fun r => (r.crp, (r.prec.block (0, 0)).incl)) = some (⟨0, 0, 0⟩, 1) ∧
    ¬ List.Forall₂ Report.Identical f.walk.reports f'.walk.reports := by
  obtain ⟨h, cur, cur', f, f', created, live, past, past', fed, fed', shown⟩ := square_runs id (squareFrame 0x80)
    (fun h f f' => decide (h.Counted ∧ f.codes = [true] ∧ f'.codes = [true] ∧
      (f.walk.reports.getLast?.map fun r => (r.crp, (r.prec.block (0, 0)).incl)) = some (⟨0, 0, 0⟩, 0) ∧
      (f'.walk.reports.getLast?.map fun r => (r.crp, (r.prec.block (0, 0)).incl)) = some (⟨0, 0, 0⟩, 1) ∧
      ¬ List.Forall₂ Report.Identical f.walk.reports f'.walk.reports)) (by decide +kernel)
  obtain ⟨counted, shown⟩ := of_decide_eq_true shown
  exact ⟨h, cur, cur', f, f', created, live, counted, past, past', fed, fed', shown⟩

end RtpDecoder.Parser

import RtpDecoder.Header.Markers
import RtpDecoder.Parser.Packet

/-!
# The tile handler

The precinct structure of a latched stream and the walk over it: `parse` after each
packet that carries a resync signal, `flush` at the end of a frame, `try_recover` after
a precinct that does not parse, `restart` between frames. Both walks work on the first
tile.
-/

namespace RtpDecoder.Parser

open Header

structure Res where
  prec : List Prec := []
  band : List Geometry := []
  coord : Geometry := {}
  npw : Nat := 0
  nph : Nat := 0
  transformDirection : Nat := 0
  numBands : Nat := 0
deriving DecidableEq, Repr, Inhabited

structure Tcomp where
  res : List Res := []
  coord : Geometry := {}
  subX : Nat := 0
  subY : Nat := 0
deriving DecidableEq, Repr, Inhabited

/-- `crp_status`: component, resolution and precinct of one packet. -/
structure Crp where
  c : Nat
  r : Nat
  p : Nat
deriving DecidableEq, Repr, Inhabited

structure Tile where
  tcomp : List Tcomp := []
  coord : Geometry := {}
  numComponents : Nat := 0
  progressionOrder : Nat := 0
  crp : List Crp := []
  crpIdx : Nat := 0
deriving DecidableEq, Repr, Inhabited

/-- A resync point announced by a packet: where a precinct starts, and which one. -/
structure Signal where
  byteOffset : BitVec 32
  pid : BitVec 32
deriving DecidableEq, Repr

structure TileHandler where
  tiles : List Tile := []
  markers : Markers := {}
  numTilesX : Nat := 0
  numTilesY : Nat := 0
  ready : Bool := false
  signalQueue : List Signal := []
  crpIdxByPid : List (List Nat) := []
deriving DecidableEq, Repr, Inhabited

namespace Tile

/-- The precinct `tcomp[c].res[r].prec[p]`. -/
def prec (tile : Tile) (ct : Crp) : Prec :=
  (((tile.tcomp.getD ct.c default).res.getD ct.r default).prec).getD ct.p default

def setPrec (tile : Tile) (ct : Crp) (prec : Prec) : Tile :=
  { tile with
    tcomp := tile.tcomp.modify ct.c fun tcp =>
      { tcp with res := tcp.res.modify ct.r fun res => { res with prec := res.prec.set ct.p prec } } }

end Tile

/-- What a precinct callback gets to see. The last three fields are ghosts: reader and
precinct as they were before the packet was read, and the code-block style used. -/
structure Report where
  crp : Crp
  prec : Prec
  start : Codestream
  prior : Prec
  cbs : Nat
deriving DecidableEq, Repr

/-- The state of a walk: the handler, the reader it reads from (`tile->buf`), and the
precinct callbacks fired so far, latest first. -/
structure Walk where
  handler : TileHandler
  cs : Codestream
  reports : List Report := []
deriving DecidableEq, Repr

namespace TileHandler

def tile (h : TileHandler) : Tile := h.tiles.headD {}

def setTile (h : TileHandler) (tile : Tile) : TileHandler := { h with tiles := h.tiles.set 0 tile }

/-- The queue is dropped whole when it has grown too long. -/
def appendSignal (h : TileHandler) (signal : Signal) : TileHandler :=
  { h with
    signalQueue := (if 16384 ≤ h.signalQueue.length then [] else h.signalQueue) ++ [signal] }

def invalidate (h : TileHandler) : TileHandler := { h with ready := false }

end TileHandler

namespace Walk

def tile (w : Walk) : Tile := w.handler.tile

def crpIdx (w : Walk) : Nat := w.tile.crpIdx

def crpSize (w : Walk) : Nat := w.tile.crp.length

/-- The entry `crp[crp_idx]`. -/
def current (w : Walk) : Crp := w.tile.crp.getD w.crpIdx default

def setCrpIdx (w : Walk) (i : Nat) : Walk :=
  { w with handler := w.handler.setTile { w.tile with crpIdx := i } }

/-- `read_packet` on the current precinct. -/
def packet (w : Walk) : Bool × Prec × Codestream :=
  readPacket w.cs (w.tile.prec w.current) (w.handler.markers.coc w.current.c).cbs

/-- `parse_one_precinct`: the precinct and the reader change, also on a failure. -/
def parseOnePrecinct (w : Walk) : Walk :=
  { w with
    handler := w.handler.setTile (w.tile.setPrec w.current w.packet.2.1)
    cs := w.packet.2.2 }

/-- The precinct callback for the packet just read. -/
def report (w : Walk) : Report :=
  { crp := w.current
    prec := w.packet.2.1
    start := w.cs
    prior := w.tile.prec w.current
    cbs := (w.handler.markers.coc w.current.c).cbs }

/-- `try_recover`: snap to the first signal beyond the reader. -/
def tryRecover (w : Walk) : Bool × Walk :=
  let queue := w.handler.signalQueue.dropWhile fun sig => sig.byteOffset ≤ w.cs.getPos
  let popped := { w with handler := { w.handler with signalQueue := queue } }
  match queue with
  | [] => (false, popped)
  | sig :: rest =>
    let nc := w.handler.markers.siz.csiz
    -- A signal that cannot be used stays at the front.
    if nc = 0 then (false, popped)
    else
      match (w.handler.crpIdxByPid.getD (sig.pid.toNat % nc) [])[sig.pid.toNat / nc]? with
      | none => (false, popped)
      | some newCrpIdx =>
        -- Standing still is accepted, going back is not.
        if newCrpIdx < w.crpIdx then (false, popped)
        else
          (true, { popped.setCrpIdx newCrpIdx with
            handler := { (popped.setCrpIdx newCrpIdx).handler with signalQueue := rest }
            cs := w.cs.reset sig.byteOffset })

/-! ### `parse` -/

/-- The loop test of `parse`: a signal is queued and the reader is before the last one. -/
def gateOpen (w : Walk) : Bool :=
  match w.handler.signalQueue.getLast? with
  | none => false
  | some sig => w.cs.getPos < sig.byteOffset

/-- The loop body of `parse`, `none` when a failed precinct cannot be recovered from. -/
def parseBody (w : Walk) : Option Walk :=
  -- `crp_idx` has moved on before the outcome is looked at.
  let next := w.parseOnePrecinct.setCrpIdx (w.crpIdx + 1)
  if w.packet.1 then some { next with reports := w.report :: w.reports }
  else if next.tryRecover.1 then some next.tryRecover.2 else none

/-- The state in which a failed `parse` stops. -/
def parseFailed (w : Walk) : Walk := (w.parseOnePrecinct.setCrpIdx (w.crpIdx + 1)).tryRecover.2

/-- The loop of `parse`. The Boolean is `true` for `EXIT_SUCCESS`; `none` means that
`crp[crp_idx]` was evaluated outside the vector, which the source leaves undefined. -/
def parseLoop : Nat → Walk → Option (Bool × Walk)
  | 0, _ => none
  | fuel + 1, w =>
    if !w.gateOpen then some (true, w)
    else if w.crpSize ≤ w.crpIdx then none
    else match w.parseBody with
      | none => some (false, w.parseFailed)
      | some w' => parseLoop fuel w'

/-- `crp_idx` grows in every turn, so there are at most as many turns as precincts. -/
def parse (w : Walk) : Option (Bool × Walk) := parseLoop (w.crpSize - w.crpIdx + 1) w

/-! ### `flush` -/

/-- The loop body of `flush`, `none` when a failed precinct cannot be recovered from. -/
def flushBody (w : Walk) : Option Walk :=
  let next := w.parseOnePrecinct
  if w.packet.1 then some { next.setCrpIdx (w.crpIdx + 1) with reports := w.report :: w.reports }
  -- The increment of the `for` loop is undone after a recovery, so the index stands as found.
  else if next.tryRecover.1 then some next.tryRecover.2 else none

/-- The loop of `flush`. A recovery may leave `crp_idx` where it was, but uses up a signal,
so the fuel counts precincts and signals. -/
def flushLoop : Nat → Walk → Bool × Walk
  | 0, w => (true, w)
  | fuel + 1, w =>
    if w.crpSize ≤ w.crpIdx then (true, w)
    else match w.flushBody with
      | none => (false, w.parseOnePrecinct.tryRecover.2)
      | some w' => flushLoop fuel w'

def flush (w : Walk) : Bool × Walk :=
  flushLoop (w.crpSize - w.crpIdx + w.handler.signalQueue.length) w

end Walk

/-! ### `restart` -/

def tagTreeSizeLoop : Nat → Nat → Nat → Nat → Nat
  | 0, _, _, res => res
  | fuel + 1, w, h, res =>
    if 1 < w ∨ 1 < h then
      tagTreeSizeLoop fuel ((w + 1) % 2 ^ 32 / 2) ((h + 1) % 2 ^ 32 / 2) (res + w * h)
    else res

/-- The number of nodes of a tag tree; 32 halvings bring any `uint32_t` to one. -/
def tagTreeSize (w h : Nat) : Nat := (tagTreeSizeLoop 33 w h 0 + 1) % 2 ^ 32

theorem le_tagTreeSizeLoop (fuel w h res : Nat) : res ≤ tagTreeSizeLoop fuel w h res := by
  induction fuel generalizing w h res with
  | zero => exact Nat.le_refl res
  | succ fuel ih =>
    simp only [tagTreeSizeLoop]
    split
    · exact Nat.le_trans (Nat.le_add_right _ _) (ih _ _ _)
    · exact Nat.le_refl res

theorem mul_le_tagTreeSizeLoop (w h : Nat) : w * h ≤ tagTreeSizeLoop 33 w h 0 + 1 := by
  by_cases many : 1 < w ∨ 1 < h
  · have leaves := le_tagTreeSizeLoop 32 ((w + 1) % 2 ^ 32 / 2) ((h + 1) % 2 ^ 32 / 2) (0 + w * h)
    rw [tagTreeSizeLoop, if_pos many]
    omega
  · have one : w * h ≤ 1 * 1 := Nat.mul_le_mul (by omega) (by omega)
    omega

def tagTreeZero (nodes : List TagNode) (w h : Nat) : List TagNode :=
  nodes.mapIdx fun i node => if i < tagTreeSize w h then {} else node

def Blk.restart (blk : Blk) : Blk :=
  { blk with length := 0, npasses := 0, passLengths0 := 0, passLengths1 := 0 }

def Prec.restart (prec : Prec) : Prec :=
  { prec with
    pband := prec.pband.mapIdx fun b pband =>
      if b < prec.numBands then
        { incl := tagTreeZero pband.incl prec.ncbw prec.ncbh
          zbp := tagTreeZero pband.zbp prec.ncbw prec.ncbh
          blk := pband.blk.mapIdx fun i blk => if i < prec.numBlocks then blk.restart else blk }
      else pband }

def Res.restart (res : Res) : Res :=
  { res with
    prec := res.prec.mapIdx fun p prec =>
      if p < res.npw * res.nph % 2 ^ 32 then prec.restart else prec }

def Tile.restart (tile : Tile) : Tile :=
  { tile with
    crpIdx := 0
    tcomp := tile.tcomp.mapIdx fun c tcp =>
      if c < tile.numComponents then { tcp with res := tcp.res.map Res.restart } else tcp }

/-- The source walks over six resolutions of every component, and this over those that `create` has
made: the same on a structure that is `RestartLive`, and only there. -/
def TileHandler.restart (h : TileHandler) : TileHandler :=
  { h with signalQueue := [], tiles := h.tiles.map Tile.restart }

end RtpDecoder.Parser

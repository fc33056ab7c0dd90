import Mathlib.Data.List.Forall2
import RtpDecoder.Lib.Related
import RtpDecoder.Parser.CleanSlate
import RtpDecoder.Parser.Coverage
import RtpDecoder.Parser.Restart
import RtpDecoder.Parser.Walk

/-!
# Frames and the frames before them

The precinct structure outlives the frames that are parsed into it. Two handlers that have gone
through different frames on the same structure, each one ended by `restart`, differ in nothing
that decides how the next frame is read: it gets the same return codes and reports the same
packets. What the reports show of earlier frames is what a packet has not written.
-/

namespace RtpDecoder.Parser

open Header

variable {tile : Tile}

/-! ### The precincts of a tile -/

theorem Prec.SameShape.restartLive {p q : Prec} (same : p.SameShape q) : p.RestartLive ↔ q.RestartLive := by
  have entries (prec : Prec) (b : Nat) (P : Pband → Prop) :
      (∃ pband, prec.pband[b]? = some pband ∧ P pband) ↔ b < prec.pband.length ∧ P (prec.band b) := by
    rw [Prec.band, List.getD_eq_getElem?_getD]
    by_cases inside : b < prec.pband.length
    · simp [inside]
    · simp [inside]
  obtain ⟨_, _, bands, width, height⟩ := same.fields
  simp only [Prec.RestartLive, entries, same.bands, same.incl, same.zbp, same.blk, bands, width, height,
    Prec.numBlocks]

namespace Tile

/-- The precinct exists. -/
def Stored (tile : Tile) (ct : Crp) : Prop := ct.p < (tile.resAt ct.c ct.r).prec.length

instance (tile : Tile) (ct : Crp) : Decidable (tile.Stored ct) := inferInstanceAs (Decidable (_ < _))

/-- `restart` gets to every precinct. -/
def Covered (tile : Tile) : Prop :=
  ∀ ct, tile.Stored ct → ct.c < tile.numComponents ∧
    ct.p < (tile.resAt ct.c ct.r).npw * (tile.resAt ct.c ct.r).nph % 2 ^ 32

private theorem getD_modify {α : Type} (l : List α) (i j : Nat) (f : α → α) (d : α) :
    (l.modify i f).getD j d = if i = j ∧ j < l.length then f (l.getD j d) else l.getD j d := by
  rw [List.getD_eq_getElem?_getD, List.getD_eq_getElem?_getD, List.getElem?_modify]
  by_cases inside : j < l.length
  · rw [List.getElem?_eq_getElem inside]
    by_cases same : i = j <;> simp [same, inside]
  · rw [List.getElem?_eq_none (Nat.le_of_not_lt inside)]
    simp [inside]

theorem resAt_setPrec (tile : Tile) (ct : Crp) (prec : Prec) (c r : Nat) :
    (tile.setPrec ct prec).resAt c r =
      if ct.c = c ∧ ct.r = r then { tile.resAt c r with prec := (tile.resAt c r).prec.set ct.p prec }
      else tile.resAt c r := by
  -- Where there is no resolution there is nothing to set either: the default has no precincts.
  have lost : ({ (default : Res) with prec := (default : Res).prec.set ct.p prec } : Res) = default := rfl
  simp only [resAt, setPrec, getD_modify]
  by_cases component : ct.c = c
  · by_cases inside : c < tile.tcomp.length
    · simp only [component, inside, and_self, if_true, getD_modify, true_and]
      by_cases resolution : ct.r = r
      · by_cases stored : r < (tile.tcomp.getD c default).res.length
        · simp only [resolution, stored, and_self, if_true]
        · rw [List.getD_eq_default _ _ (Nat.le_of_not_lt stored)]
          simp only [resolution, stored, and_false, if_true, if_false, lost]
      · simp only [resolution, false_and, if_false]
    · have none_there : (tile.tcomp.getD c default).res.getD r default = default := by
        rw [List.getD_eq_default _ _ (Nat.le_of_not_lt inside)]
        rfl
      simp only [inside, and_false, if_false, none_there, lost, ite_self]
  · simp only [component, false_and, if_false]

theorem stored_setPrec (tile : Tile) (ct : Crp) (prec : Prec) (other : Crp) :
    (tile.setPrec ct prec).Stored other ↔ tile.Stored other := by
  rw [Stored, Stored, resAt_setPrec]
  split
  · rw [List.length_set]
  · rfl

theorem prec_eq (tile : Tile) (ct : Crp) : tile.prec ct = (tile.resAt ct.c ct.r).prec.getD ct.p default := rfl

theorem prec_of_not_stored {ct : Crp} (absent : ¬ tile.Stored ct) : tile.prec ct = default := by
  rw [prec_eq, List.getD_eq_default _ _ (Nat.le_of_not_lt absent)]

theorem prec_setPrec (tile : Tile) (ct : Crp) (prec : Prec) (other : Crp) :
    (tile.setPrec ct prec).prec other = if other = ct ∧ tile.Stored ct then prec else tile.prec other := by
  rw [prec_eq, prec_eq, resAt_setPrec]
  by_cases same : other = ct
  · subst same
    simp only [and_self, if_true, true_and, Stored, List.getD_eq_getElem?_getD, List.getElem?_set]
    split
    · rfl
    next outside => rw [List.getElem?_eq_none (Nat.le_of_not_lt outside)]
  · simp only [same, false_and, if_false]
    split
    next place =>
      -- Two precincts of one resolution differ in their index.
      have index : ct.p ≠ other.p := by
        intro index
        apply same
        cases other
        cases ct
        simp only at place index
        rw [place.1, place.2, index]
      simp only [List.getD_eq_getElem?_getD, List.getElem?_set, if_neg index]
    · rfl

theorem forall_prec_setPrec {P : Crp → Prec → Prop} (kept : ∀ ct, P ct (tile.prec ct)) {ct : Crp}
    {prec : Prec} (written : P ct prec) (other : Crp) : P other ((tile.setPrec ct prec).prec other) := by
  rw [prec_setPrec]
  split
  next here => exact here.1 ▸ written
  · exact kept other

theorem covered_setPrec (covered : tile.Covered) (ct : Crp) (prec : Prec) : (tile.setPrec ct prec).Covered := by
  intro other stored
  have inside := covered other ((stored_setPrec _ _ _ _).mp stored)
  rw [resAt_setPrec]
  split
  · exact inside
  · exact inside

private theorem exists_modify {α : Type} {l : List α} {i j : Nat} {f : α → α} {P : α → Prop}
    (kept : ∀ a, l[i]? = some a → (P (f a) ↔ P a)) :
    (∃ a, (l.modify i f)[j]? = some a ∧ P a) ↔ ∃ a, l[j]? = some a ∧ P a := by
  rw [List.getElem?_modify]
  by_cases same : i = j
  · subst same
    cases here : l[i]? with
    | none => simp
    | some a => simp [kept a here]
  · simp [same]

/-- `restart` finds a precinct of the same shape where it has found one. -/
theorem restartLive_setPrec {ct : Crp} {prec : Prec} (same : prec.SameShape (tile.prec ct)) :
    (tile.setPrec ct prec).RestartLive ↔ tile.RestartLive := by
  apply forall₂_congr
  intro c _
  refine exists_modify fun tcp component => forall₂_congr fun r _ => exists_modify fun res resolution => ?_
  apply forall₂_congr
  intro p _
  rw [List.set_eq_modify]
  refine exists_modify fun old there => ?_
  have before : tile.prec ct = old := by
    simp only [prec_eq, resAt, List.getD_eq_getElem?_getD, component, resolution, there, Option.getD_some]
  exact (before ▸ same).restartLive

theorem resAt_restart (tile : Tile) (c r : Nat) :
    tile.restart.resAt c r = if c < tile.numComponents then (tile.resAt c r).restart else tile.resAt c r := by
  simp only [resAt, restart, List.getD_eq_getElem?_getD, List.getElem?_mapIdx]
  cases tile.tcomp[c]? with
  | none => split <;> rfl
  | some tcp =>
    simp only [Option.map_some, Option.getD_some]
    split
    · rw [List.getElem?_map]
      cases tcp.res[r]? <;> rfl
    · rfl

theorem stored_restart (tile : Tile) (ct : Crp) : tile.restart.Stored ct ↔ tile.Stored ct := by
  rw [Stored, Stored, resAt_restart]
  split
  · rw [Res.restart, List.length_mapIdx]
  · rfl

theorem prec_restart (covered : tile.Covered) (ct : Crp) : tile.restart.prec ct = (tile.prec ct).restart := by
  by_cases stored : tile.Stored ct
  · obtain ⟨component, walked⟩ := covered ct stored
    rw [prec_eq, prec_eq, resAt_restart, if_pos component, Res.restart, List.getD_eq_getElem?_getD,
      List.getElem?_mapIdx, List.getElem?_eq_getElem stored, List.getD_eq_getElem _ _ stored, Option.map_some,
      if_pos walked]
    rfl
  · rw [prec_of_not_stored stored, prec_of_not_stored fun there => stored ((stored_restart _ _).mp there)]
    rfl

theorem covered_restart (covered : tile.Covered) : tile.restart.Covered := by
  intro ct stored
  obtain ⟨component, walked⟩ := covered ct ((stored_restart _ _).mp stored)
  rw [resAt_restart, if_pos component]
  exact ⟨component, walked⟩

end Tile

/-! ### Two walks in step -/

namespace Walk

/-- A relation between walks that every part of a turn keeps, and under which all decisions
are the same. -/
structure Lockstep (R : Walk → Walk → Prop) : Prop where
  gate : ∀ {w w'}, R w w' → w.gateOpen = w'.gateOpen
  size : ∀ {w w'}, R w w' → w.crpSize = w'.crpSize
  place : ∀ {w w'}, R w w' → w.crpIdx = w'.crpIdx
  queue : ∀ {w w'}, R w w' → w.handler.signalQueue = w'.handler.signalQueue
  code : ∀ {w w'}, R w w' → w.packet.1 = w'.packet.1
  packet : ∀ {w w'}, R w w' → R w.parseOnePrecinct w'.parseOnePrecinct
  index : ∀ {w w'} (i : Nat), R w w' → R (w.setCrpIdx i) (w'.setCrpIdx i)
  recover : ∀ {w w'}, R w w' → w.tryRecover.1 = w'.tryRecover.1 ∧ R w.tryRecover.2 w'.tryRecover.2
  report : ∀ {w w'} (i : Nat), R w w' → w.packet.1 = true →
    R { w.parseOnePrecinct.setCrpIdx i with reports := w.report :: w.reports }
      { w'.parseOnePrecinct.setCrpIdx i with reports := w'.report :: w'.reports }

section

variable {R : Walk → Walk → Prop} (lockstep : Lockstep R) {w w' : Walk}

include lockstep

theorem Lockstep.parseBody (related : R w w') : Option.Rel R w.parseBody w'.parseBody := by
  have next := lockstep.index (w.crpIdx + 1) (lockstep.packet related)
  have recovered := lockstep.recover next
  simp only [Walk.parseBody, ← lockstep.place related, ← lockstep.code related, ← recovered.1]
  split
  next went => exact .some (lockstep.report _ related went)
  · split
    · exact .some recovered.2
    · exact .none

theorem Lockstep.parseLoop (fuel : Nat) (related : R w w') :
    Option.Rel (fun r r' => r.1 = r'.1 ∧ R r.2 r'.2) (parseLoop fuel w) (parseLoop fuel w') := by
  -- Both walks take the same way through the head of the loop, and one turn keeps them related.
  induction fuel generalizing w w' with
  | zero => exact .none
  | succ fuel ih =>
    simp only [Walk.parseLoop, ← lockstep.gate related, ← lockstep.size related, ← lockstep.place related]
    split
    · exact .some ⟨rfl, related⟩
    split
    · exact .none
    have body := lockstep.parseBody related
    generalize w.parseBody = o at body ⊢
    generalize w'.parseBody = o' at body ⊢
    cases body with
    | none =>
      -- The walk ends in the state after the recovery that has found nothing.
      have failed := (lockstep.recover (lockstep.index (w.crpIdx + 1) (lockstep.packet related))).2
      refine .some ⟨rfl, ?_⟩
      rwa [parseFailed, parseFailed, ← lockstep.place related]
    | some later => exact ih later

theorem Lockstep.parse (related : R w w') : Option.Rel (fun r r' => r.1 = r'.1 ∧ R r.2 r'.2) w.parse w'.parse := by
  rw [Walk.parse, Walk.parse, ← lockstep.size related, ← lockstep.place related]
  exact lockstep.parseLoop _ related

theorem Lockstep.flushBody (related : R w w') : Option.Rel R w.flushBody w'.flushBody := by
  have recovered := lockstep.recover (lockstep.packet related)
  simp only [Walk.flushBody, ← lockstep.place related, ← lockstep.code related, ← recovered.1]
  split
  next went => exact .some (lockstep.report _ related went)
  · split
    · exact .some recovered.2
    · exact .none

theorem Lockstep.flushLoop (fuel : Nat) (related : R w w') :
    (flushLoop fuel w).1 = (flushLoop fuel w').1 ∧ R (flushLoop fuel w).2 (flushLoop fuel w').2 := by
  induction fuel generalizing w w' with
  | zero => exact ⟨rfl, related⟩
  | succ fuel ih =>
    simp only [Walk.flushLoop, ← lockstep.size related, ← lockstep.place related]
    split
    · exact ⟨rfl, related⟩
    have body := lockstep.flushBody related
    generalize w.flushBody = o at body ⊢
    generalize w'.flushBody = o' at body ⊢
    cases body with
    | none => exact ⟨rfl, (lockstep.recover (lockstep.packet related)).2⟩
    | some later => exact ih later

theorem Lockstep.flush (related : R w w') : w.flush.1 = w'.flush.1 ∧ R w.flush.2 w'.flush.2 := by
  rw [Walk.flush, Walk.flush, ← lockstep.size related, ← lockstep.place related, ← lockstep.queue related]
  exact lockstep.flushLoop _ related

end

end Walk

/-! ### Two handlers of one structure -/

/-- Tiles that differ in nothing that packets of these styles take into account. -/
structure Tile.Twin (cbs : Nat → Nat) (t t' : Tile) : Prop where
  crp : t.crp = t'.crp
  crpIdx : t.crpIdx = t'.crpIdx
  stored : ∀ ct, t.Stored ct ↔ t'.Stored ct
  prec : ∀ ct, (t.prec ct).view (cbs ct.c) = (t'.prec ct).view (cbs ct.c)

/-- The code-block styles of the components. -/
def TileHandler.style (h : TileHandler) (c : Nat) : Nat := (h.markers.coc c).cbs

structure TileHandler.Twin (h h' : TileHandler) : Prop where
  queue : h.signalQueue = h'.signalQueue
  markers : h.markers = h'.markers
  pids : h.crpIdxByPid = h'.crpIdxByPid
  tiles : h.tiles = [] ↔ h'.tiles = []
  tile : Tile.Twin h.style h.tile h'.tile

theorem TileHandler.tile_setTile_of_empty {h : TileHandler} (empty : h.tiles = []) (t : Tile) : h.setTile t = h := by
  cases h
  simp only at empty
  simp [TileHandler.setTile, empty]

theorem TileHandler.Twin.setTile {h h' : TileHandler} (twin : h.Twin h') {t t' : Tile}
    (tile : Tile.Twin h.style t t') : (h.setTile t).Twin (h'.setTile t') := by
  by_cases empty : h.tiles = []
  · rw [tile_setTile_of_empty empty, tile_setTile_of_empty (twin.tiles.mp empty)]
    exact twin
  · have some' : h'.tiles ≠ [] := fun none => empty (twin.tiles.mpr none)
    refine ⟨twin.queue, twin.markers, twin.pids, ?_, ?_⟩
    · simp [TileHandler.setTile, empty, some']
    · rw [tile_setTile t empty, tile_setTile t' some']
      exact tile

theorem Tile.Twin.setPrec {cbs : Nat → Nat} {t t' : Tile} (twin : Tile.Twin cbs t t') {ct : Crp} {p p' : Prec}
    (same : p.view (cbs ct.c) = p'.view (cbs ct.c)) : Tile.Twin cbs (t.setPrec ct p) (t'.setPrec ct p') where
  crp := twin.crp
  crpIdx := twin.crpIdx
  stored other := by rw [stored_setPrec, stored_setPrec, twin.stored]
  prec other := by
    rw [prec_setPrec, prec_setPrec]
    simp only [twin.stored]
    split
    next here => rw [here.1, same]
    · exact twin.prec other

namespace Walk

/-- Reports of the same packet, read on precincts that differ in nothing that it takes into
account. -/
structure ReportTwin (r r' : Report) : Prop where
  crp : r.crp = r'.crp
  start : r.start = r'.start
  cbs : r.cbs = r'.cbs
  prior : r.prior.view r.cbs = r'.prior.view r.cbs
  packet : r.prec = (readPacket r.start r.prior r.cbs).2.1
  packet' : r'.prec = (readPacket r.start r'.prior r.cbs).2.1
  ok : (readPacket r.start r.prior r.cbs).1 = true

structure Twin (w w' : Walk) : Prop where
  handler : w.handler.Twin w'.handler
  cs : w.cs = w'.cs
  reports : List.Forall₂ ReportTwin w.reports w'.reports

section

variable {w w' : Walk} (twin : w.Twin w')

include twin

theorem Twin.current : w.current = w'.current := by
  rw [Walk.current, Walk.current, crpIdx, crpIdx, tile, tile, twin.handler.tile.crp, twin.handler.tile.crpIdx]

theorem Twin.cbs : (w.handler.markers.coc w.current.c).cbs = (w'.handler.markers.coc w'.current.c).cbs := by
  rw [twin.current, twin.handler.markers]

theorem Twin.packet_congr :
    w.packet.1 = w'.packet.1 ∧
      w.packet.2.1.view (w.handler.style w.current.c) = w'.packet.2.1.view (w.handler.style w.current.c) ∧
      w.packet.2.2 = w'.packet.2.2 := by
  rw [Walk.packet, Walk.packet, ← twin.cbs, ← twin.cs, ← twin.current]
  exact readPacket_congr (twin.handler.tile.prec _) _

theorem Twin.parseOnePrecinct : w.parseOnePrecinct.Twin w'.parseOnePrecinct := by
  obtain ⟨_, same, stream⟩ := twin.packet_congr
  refine ⟨?_, stream, twin.reports⟩
  simp only [Walk.parseOnePrecinct, ← twin.current]
  exact twin.handler.setTile (twin.handler.tile.setPrec same)

theorem Twin.setCrpIdx (i : Nat) : (w.setCrpIdx i).Twin (w'.setCrpIdx i) := by
  have tiles := twin.handler.tile
  exact ⟨twin.handler.setTile ⟨tiles.crp, rfl, tiles.stored, tiles.prec⟩, twin.cs, twin.reports⟩

theorem Twin.withQueue (queue : List Signal) : Twin { w with handler := { w.handler with signalQueue := queue } }
    { w' with handler := { w'.handler with signalQueue := queue } } :=
  ⟨⟨rfl, twin.handler.markers, twin.handler.pids, twin.handler.tiles, twin.handler.tile⟩, twin.cs, twin.reports⟩

theorem Twin.withStream (cs : Codestream) : Twin { w with cs := cs } { w' with cs := cs } :=
  ⟨twin.handler, rfl, twin.reports⟩

theorem Twin.tryRecover : w.tryRecover.1 = w'.tryRecover.1 ∧ w.tryRecover.2.Twin w'.tryRecover.2 := by
  have place : w.crpIdx = w'.crpIdx := twin.handler.tile.crpIdx
  have queue := twin.handler.queue
  have markers := twin.handler.markers
  have pids := twin.handler.pids
  have cs := twin.cs
  -- The recovery looks at nothing but these five, so the second walk can be written with those of
  -- the first.
  obtain ⟨⟨tiles, m, nx, ny, ready, queue', pids'⟩, cs', reports⟩ := w'
  simp only at queue markers pids cs
  subst queue markers pids cs
  simp only [Walk.tryRecover, ← place]
  cases w.handler.signalQueue.dropWhile fun sig => sig.byteOffset ≤ w.cs.getPos with
  | nil => exact ⟨rfl, twin.withQueue _⟩
  | cons sig rest =>
    by_cases none_there : w.handler.markers.siz.csiz = 0
    · simp only [none_there, if_true]
      exact ⟨trivial, twin.withQueue _⟩
    simp only [none_there, if_false]
    cases (w.handler.crpIdxByPid.getD (sig.pid.toNat % w.handler.markers.siz.csiz)
      [])[sig.pid.toNat / w.handler.markers.siz.csiz]? with
    | none => exact ⟨rfl, twin.withQueue _⟩
    | some newCrpIdx =>
      by_cases behind : newCrpIdx < w.crpIdx
      · simp only [behind, if_true]
        exact ⟨trivial, twin.withQueue _⟩
      · simp only [behind, if_false]
        exact ⟨trivial, (((twin.withQueue _).setCrpIdx _).withQueue _).withStream _⟩

theorem Twin.report (ok : w.packet.1 = true) : ReportTwin w.report w'.report := by
  refine ⟨twin.current, twin.cs, twin.cbs, ?_, rfl, ?_, ok⟩
  · simp only [Walk.report, ← twin.current]
    exact twin.handler.tile.prec _
  · simp only [Walk.report, Walk.packet, twin.cs, twin.cbs]

end

theorem lockstep_twin : Lockstep Twin where
  gate twin := by rw [gateOpen, gateOpen, twin.cs, twin.handler.queue]
  size twin := congrArg List.length twin.handler.tile.crp
  place twin := twin.handler.tile.crpIdx
  queue twin := twin.handler.queue
  code twin := twin.packet_congr.1
  packet twin := twin.parseOnePrecinct
  index i twin := twin.setCrpIdx i
  recover twin := twin.tryRecover
  report i twin ok :=
    have next := twin.parseOnePrecinct.setCrpIdx i
    ⟨next.handler, next.cs, .cons (twin.report ok) twin.reports⟩

end Walk

/-! ### What `create` leaves unwritten -/

/-- A code-block without the fields that `parepare_tcomp_structure` does not write. They hold what
the arena held at that place. -/
def Blk.written (blk : Blk) : Blk := { blk with data := none, scup := 0, modes := 0, zbp := 0, htPlhd := false }

def Prec.written : Prec → Prec := mapBlk Blk.written

def Res.written (res : Res) : Res := { res with prec := res.prec.map Prec.written }

def Tcomp.written (tcp : Tcomp) : Tcomp := { tcp with res := tcp.res.map Res.written }

def Tile.written (tile : Tile) : Tile := { tile with tcomp := tile.tcomp.map Tcomp.written }

def TileHandler.written (h : TileHandler) : TileHandler := { h with tiles := h.tiles.map Tile.written }

section

variable {p q : Prec}

/-- The arena does not decide what later packets take into account, but for the flags. -/
theorem Prec.forget_of_written (same : p.written = q.written) : p.forget = q.forget := by
  have forgotten (prec : Prec) : prec.written.forget = prec.forget := by
    rw [written, forget, mapBlk_mapBlk]
    rfl
  rw [← forgotten p, same, forgotten]

theorem Prec.sameShape_of_written (same : p.written = q.written) : SameShape p q := by
  have written : SameShape p.written q := same ▸ sameShape_mapBlk Blk.written q
  exact (sameShape_mapBlk Blk.written p).symm.trans written

theorem Prec.restart_forget (prec : Prec) : prec.restart.forget = prec.forget.restart := by
  have shape : SameShape prec.restart.forget prec.forget.restart :=
    (sameShape_mapBlk _ _).trans ((sameShape_restart _).trans
      ((sameShape_mapBlk _ _).symm.trans (sameShape_restart _).symm))
  refine shape.ext fun place => ?_
  obtain ⟨_, _, bands, width, height⟩ := (sameShape_mapBlk Blk.forget prec).fields
  have blocks : (mapBlk Blk.forget prec).numBlocks = prec.numBlocks := rfl
  simp only [forget, cell_mapBlk (f := Blk.forget) rfl, cell_restart, bands, width, height, blocks]
  split
  · simp only [apply_ite Blk.forget]
    rfl
  · rfl

end

theorem Tile.resAt_written (tile : Tile) (c r : Nat) : tile.written.resAt c r = (tile.resAt c r).written := by
  simp only [resAt, written, List.getD_eq_getElem?_getD, List.getElem?_map]
  cases tile.tcomp[c]? with
  | none => rfl
  | some tcp =>
    simp only [Option.map_some, Option.getD_some, Tcomp.written, List.getElem?_map]
    cases tcp.res[r]? <;> rfl

theorem Tile.prec_written (tile : Tile) (ct : Crp) : tile.written.prec ct = (tile.prec ct).written := by
  rw [prec_eq, prec_eq, resAt_written, Res.written, List.getD_eq_getElem?_getD, List.getD_eq_getElem?_getD,
    List.getElem?_map]
  cases (tile.resAt ct.c ct.r).prec[ct.p]? <;> rfl

namespace TileHandler

theorem tile_written (h : TileHandler) : h.written.tile = h.tile.written := by
  rw [TileHandler.tile, TileHandler.tile, written]
  cases h.tiles <;> rfl

theorem restartLive_written (h : TileHandler) : h.written.RestartLive ↔ h.RestartLive := by
  have precinct (prec : Prec) : prec.written.RestartLive ↔ prec.RestartLive :=
    (Prec.sameShape_mapBlk Blk.written prec).restartLive
  simp only [RestartLive, written, List.forall_mem_map, Tile.RestartLive, Tile.written, Tcomp.RestartLive,
    Tcomp.written, Res.RestartLive, Res.written, List.getElem?_map, exists_map, precinct]

section

variable {h h' : TileHandler} (same : h.written = h'.written)

include same

theorem restartLive_of_written (live : h'.RestartLive) : h.RestartLive := by
  rw [← h.restartLive_written, same]
  exact h'.restartLive_written.mpr live

theorem tile_of_written : h.tile.written = h'.tile.written := by
  rw [← tile_written, same, tile_written]

theorem crp_of_written : h.tile.crp = h'.tile.crp := by
  have fields := congrArg Tile.crp (tile_of_written same)
  exact fields

theorem resAt_of_written (c r : Nat) : (h.tile.resAt c r).written = (h'.tile.resAt c r).written := by
  rw [← Tile.resAt_written, tile_of_written same, Tile.resAt_written]

theorem prec_of_written (ct : Crp) : (h.tile.prec ct).written = (h'.tile.prec ct).written := by
  rw [← Tile.prec_written, tile_of_written same, Tile.prec_written]

theorem stored_of_written (ct : Crp) : h.tile.Stored ct ↔ h'.tile.Stored ct := by
  have lengths := congrArg (fun res => res.prec.length) (resAt_of_written same ct.c ct.r)
  simp only [Res.written, List.length_map] at lengths
  rw [Tile.Stored, Tile.Stored, lengths]

theorem covered_of_written (covered : h'.tile.Covered) : h.tile.Covered := by
  intro ct stored
  have inside := covered ct ((stored_of_written same ct).mp stored)
  have tile := tile_of_written same
  have res := resAt_of_written same ct.c ct.r
  simp only [Tile.written, Tile.mk.injEq] at tile
  simp only [Res.written, Res.mk.injEq] at res
  simp only [tile, res]
  exact inside

end

end TileHandler

/-! ### A handler and the structure that it was given -/

/-- What the frames on a structure `h` leave as it is: everything but the state of the precincts,
and of that what comes back with `restart`. A placeholder flag does not come on where the style
does not set it. -/
structure TileHandler.Latched (h cur : TileHandler) : Prop where
  markers : cur.markers = h.markers
  pids : cur.crpIdxByPid = h.crpIdxByPid
  tiles : cur.tiles = [] ↔ h.tiles = []
  crp : cur.tile.crp = h.tile.crp
  stored : ∀ ct, cur.tile.Stored ct ↔ h.tile.Stored ct
  covered : cur.tile.Covered
  prec : ∀ ct, (cur.tile.prec ct).restart.forget = (h.tile.prec ct).restart.forget
  counted : ∀ ct, tagTreeSizeLoop 33 (cur.tile.prec ct).ncbw (cur.tile.prec ct).ncbh 0 + 1 < 2 ^ 31 - 1
  flag : ∀ ct, h.style ct.c < cmodeHt → ∀ place, ((cur.tile.prec ct).block place).htPlhd = true →
    ((h.tile.prec ct).block place).htPlhd = true
  live : cur.RestartLive ↔ h.RestartLive

namespace TileHandler

variable {h cur : TileHandler}

theorem restartLive_setTile {t : Tile} (same : t.RestartLive ↔ cur.tile.RestartLive) :
    (cur.setTile t).RestartLive ↔ cur.RestartLive := by
  simp only [RestartLive, setTile]
  rw [TileHandler.tile] at same
  cases tiles : cur.tiles with
  | nil => rfl
  | cons first rest =>
    rw [tiles, List.headD_cons] at same
    rw [List.set_cons_zero, List.forall_mem_cons, List.forall_mem_cons, same]

/-- A tile in place of the first one that has the same list and keeps what it has to. -/
theorem Latched.setTile (latched : h.Latched cur) {t : Tile} (crp : t.crp = cur.tile.crp)
    (stored : ∀ ct, t.Stored ct ↔ cur.tile.Stored ct) (covered : t.Covered)
    (prec : ∀ ct, (t.prec ct).restart.forget = (cur.tile.prec ct).restart.forget)
    (counted : ∀ ct, tagTreeSizeLoop 33 (t.prec ct).ncbw (t.prec ct).ncbh 0 + 1 < 2 ^ 31 - 1)
    (flag : ∀ ct, h.style ct.c < cmodeHt → ∀ place, ((t.prec ct).block place).htPlhd = true →
      ((h.tile.prec ct).block place).htPlhd = true)
    (live : t.RestartLive ↔ cur.tile.RestartLive) : h.Latched (cur.setTile t) := by
  -- Without tiles there is none to replace.
  by_cases empty : cur.tiles = []
  · rw [tile_setTile_of_empty empty]
    exact latched
  · have tile := tile_setTile t empty
    refine ⟨latched.markers, latched.pids, ?_, ?_, ?_, ?_, ?_, ?_, ?_, ?_⟩
    · have some : h.tiles ≠ [] := fun none => empty (latched.tiles.mpr none)
      simp [TileHandler.setTile, empty, some]
    · rw [tile, crp, latched.crp]
    · intro ct
      rw [tile, stored, latched.stored]
    · rw [tile]
      exact covered
    · intro ct
      rw [tile, prec, latched.prec]
    · intro ct
      rw [tile]
      exact counted ct
    · intro ct
      rw [tile]
      exact flag ct
    · exact (restartLive_setTile live).trans latched.live

theorem Latched.setCrpIdx (latched : h.Latched cur) (i : Nat) :
    h.Latched (cur.setTile { cur.tile with crpIdx := i }) :=
  latched.setTile rfl (fun _ => Iff.rfl) latched.covered (fun _ => rfl) latched.counted latched.flag Iff.rfl

theorem Latched.withQueue (latched : h.Latched cur) (queue : List Signal) :
    h.Latched { cur with signalQueue := queue } :=
  ⟨latched.markers, latched.pids, latched.tiles, latched.crp, latched.stored, latched.covered, latched.prec,
    latched.counted, latched.flag, latched.live⟩

theorem Latched.setPrec (latched : h.Latched cur) (ct : Crp) (s : Codestream) :
    h.Latched (cur.setTile (cur.tile.setPrec ct (readPacket s (cur.tile.prec ct) (h.style ct.c)).2.1)) := by
  have read := packetRead_readPacket (h.style ct.c) (cur.tile.prec ct) s
  have restarts := restart_readPacket (h.style ct.c) (latched.counted ct) s
  obtain ⟨_, _, _, width, height⟩ := read.beside.shape.fields
  -- Only the precinct that the packet was read into is another one than before.
  refine latched.setTile rfl (Tile.stored_setPrec _ _ _) (Tile.covered_setPrec latched.covered _ _) ?_ ?_ ?_
    (Tile.restartLive_setPrec read.beside.shape)
  · exact Tile.forall_prec_setPrec (P := fun ct prec => prec.restart.forget = (cur.tile.prec ct).restart.forget)
      (fun _ => rfl) restarts
  · refine Tile.forall_prec_setPrec
      (P := fun _ prec => tagTreeSizeLoop 33 prec.ncbw prec.ncbh 0 + 1 < 2 ^ 31 - 1) latched.counted ?_
    rw [width, height]
    exact latched.counted ct
  · refine Tile.forall_prec_setPrec (P := fun ct prec => h.style ct.c < cmodeHt → ∀ place,
      (prec.block place).htPlhd = true → ((h.tile.prec ct).block place).htPlhd = true) latched.flag ?_
    exact fun low place set => latched.flag ct low place ((read.beside.cells place).blk.plhd low set)

theorem tile_restart (h : TileHandler) : h.restart.tile = h.tile.restart := by
  rw [TileHandler.tile, TileHandler.tile, TileHandler.restart]
  cases h.tiles <;> rfl

theorem Latched.restart (latched : h.Latched cur) : h.Latched cur.restart := by
  have prec (ct : Crp) : cur.restart.tile.prec ct = (cur.tile.prec ct).restart := by
    rw [tile_restart, Tile.prec_restart latched.covered]
  refine ⟨latched.markers, latched.pids, ?_, ?_, ?_, ?_, ?_, ?_, ?_, ?_⟩
  · simp [TileHandler.restart, latched.tiles]
  · rw [tile_restart]
    exact latched.crp
  · intro ct
    rw [tile_restart, Tile.stored_restart, latched.stored]
  · rw [tile_restart]
    exact Tile.covered_restart latched.covered
  · intro ct
    rw [prec, Prec.restart_restart, latched.prec]
  · intro ct
    rw [prec]
    exact latched.counted ct
  · intro ct low place
    rw [prec, Prec.plhd_restart]
    exact latched.flag ct low place
  · exact cur.restartLive_restart.trans latched.live

/-- Where the style does not set them, the placeholder flags are the same. -/
def FlagsAlike (h h' : TileHandler) : Prop :=
  ∀ ct, h.tile.Stored ct → h.style ct.c < cmodeHt → ∀ place,
    ((h.tile.prec ct).block place).htPlhd = ((h'.tile.prec ct).block place).htPlhd

/-- No placeholder flag is on where the style does not set it. -/
def Unflagged (h : TileHandler) : Prop :=
  ∀ ct, h.tile.Stored ct → h.style ct.c < cmodeHt → ∀ place, ((h.tile.prec ct).block place).htPlhd = false

theorem Latched.style (latched : h.Latched cur) : cur.style = h.style := by
  funext c
  rw [TileHandler.style, TileHandler.style, latched.markers]

theorem Latched.unflagged (latched : h.Latched cur) (off : h.Unflagged) : cur.Unflagged := by
  intro ct stored low place
  rw [latched.style] at low
  rw [← Bool.not_eq_true]
  intro set
  have before := off ct ((latched.stored ct).mp stored) low place
  exact Bool.noConfusion (before.symm.trans (latched.flag ct low place set))

theorem Unflagged.alike {h' cur' : TileHandler} (off : cur.Unflagged) (off' : cur'.Unflagged)
    (latched : h.Latched cur) (latched' : h'.Latched cur') (same : h.written = h'.written) : cur.FlagsAlike cur' := by
  intro ct stored low place
  have stored' : cur'.tile.Stored ct := by
    rwa [latched'.stored, ← stored_of_written same, ← latched.stored]
  have markers : h.markers = h'.markers := by
    have fields := congrArg TileHandler.markers same
    exact fields
  have low' : cur'.style ct.c < cmodeHt := by
    rwa [TileHandler.style, latched'.markers, ← markers, ← latched.markers]
  rw [off ct stored low place, off' ct stored' low' place]

/-- Two handlers of structures that only the arena can have made different, both restarted. -/
theorem Latched.twin {h' cur' : TileHandler} (latched : h.Latched cur) (latched' : h'.Latched cur')
    (same : h.written = h'.written) (flags : cur.restart.FlagsAlike cur'.restart) :
    cur.restart.Twin cur'.restart := by
  have tile := tile_of_written same
  have fields := same
  simp only [Tile.written, Tile.mk.injEq] at tile
  simp only [TileHandler.written, TileHandler.mk.injEq] at fields
  obtain ⟨_, _, _, _, crp, _⟩ := tile
  obtain ⟨lists, markers, _, _, _, _, pids⟩ := fields
  have tiles : h.tiles = [] ↔ h'.tiles = [] := by
    rw [← List.map_eq_nil_iff (f := Tile.written), lists, List.map_eq_nil_iff]
  have both (ct : Crp) : cur.restart.tile.Stored ct ↔ cur'.restart.tile.Stored ct := by
    rw [tile_restart, tile_restart, Tile.stored_restart, Tile.stored_restart, latched.stored, latched'.stored,
      stored_of_written same]
  refine ⟨rfl, (latched.markers.trans markers).trans latched'.markers.symm,
    (latched.pids.trans pids).trans latched'.pids.symm, ?_, ?_⟩
  · simp [TileHandler.restart, latched.tiles, latched'.tiles, tiles]
  · refine ⟨?_, ?_, ?_, ?_⟩
    · rw [tile_restart, tile_restart]
      exact (latched.crp.trans crp).trans latched'.crp.symm
    · rw [tile_restart, tile_restart]
      rfl
    · exact both
    -- What `restart` brings back of the precincts is that of the two structures.
    · intro ct
      refine Prec.view_eq ?_ fun low place => ?_
      swap
      · by_cases stored : cur.restart.tile.Stored ct
        · exact flags ct stored low place
        · have absent' : ¬ cur'.restart.tile.Stored ct := fun there => stored ((both ct).mpr there)
          rw [Tile.prec_of_not_stored stored, Tile.prec_of_not_stored absent']
      rw [tile_restart, tile_restart, Tile.prec_restart latched.covered, Tile.prec_restart latched'.covered,
        latched.prec, latched'.prec, Prec.restart_forget, Prec.restart_forget,
        Prec.forget_of_written (prec_of_written same ct)]

end TileHandler

namespace Walk

theorem latched_parseOnePrecinct {h : TileHandler} {w : Walk} (latched : h.Latched w.handler) :
    h.Latched w.parseOnePrecinct.handler := by
  have style : (w.handler.markers.coc w.current.c).cbs = h.style w.current.c := by
    rw [TileHandler.style, latched.markers]
  simp only [Walk.parseOnePrecinct, Walk.packet, style]
  exact latched.setPrec w.current w.cs

theorem latched_tryRecover {h : TileHandler} {w : Walk} (latched : h.Latched w.handler) :
    h.Latched w.tryRecover.2.handler := by
  have way := w.tryRecover_cases
  generalize w.tryRecover = r at way ⊢
  cases way with
  | stuck queue => exact latched.withQueue queue
  | snapped _ _ => exact (latched.setCrpIdx _).withQueue _

theorem lockstep_latched (h : TileHandler) : Lockstep fun w w' => w = w' ∧ h.Latched w.handler where
  gate := fun ⟨same, _⟩ => same ▸ rfl
  size := fun ⟨same, _⟩ => same ▸ rfl
  place := fun ⟨same, _⟩ => same ▸ rfl
  queue := fun ⟨same, _⟩ => same ▸ rfl
  code := fun ⟨same, _⟩ => same ▸ rfl
  packet := fun ⟨same, latched⟩ => ⟨same ▸ rfl, latched_parseOnePrecinct latched⟩
  index i := fun ⟨same, latched⟩ => ⟨same ▸ rfl, latched.setCrpIdx i⟩
  recover := fun ⟨same, latched⟩ => ⟨same ▸ rfl, same ▸ rfl, latched_tryRecover latched⟩
  report i := fun ⟨same, latched⟩ _ => ⟨same ▸ rfl, (latched_parseOnePrecinct latched).setCrpIdx i⟩

end Walk

end RtpDecoder.Parser

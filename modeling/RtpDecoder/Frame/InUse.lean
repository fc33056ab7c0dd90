import RtpDecoder.Frame.Calls

/-!
# A structure in use

As long as no header is parsed anew, the frame handler signals, parses, flushes and restarts; it
does not touch the structure that its tile handler was built with, nor the signature of the header.
-/

namespace RtpDecoder.Frame

variable {T : Type}

/-- What stays true of a tile handler while its structure is in use. -/
structure TileOps.Stable (ops : TileOps T) (P : T → Prop) : Prop where
  appendSignal : ∀ t signal, P t → P (ops.appendSignal t signal)
  parse : ∀ t cs, P t → P (ops.parse t cs).2.1
  flush : ∀ t cs, P t → P (ops.flush t cs).2.1
  restart : ∀ t, P t → P (ops.restart t)

namespace FrameHandler

section

variable {cb : Callbacks} {ops : TileOps T} {P : T → Prop} {s u : FrameHandler T} {p : Packet}

/-- Up to the packet itself the tile handler is restarted at most, and the signature stays. -/
theorem latch_entered (cb : Callbacks) (ops : TileOps T) (p : Packet) (s : FrameHandler T) :
    ((s.entered cb ops p).tileHndr = s.tileHndr ∨ (s.entered cb ops p).tileHndr = ops.restart s.tileHndr) ∧
      (s.entered cb ops p).geomSig = s.geomSig := by
  have asked : (s.onGap cb p).tileHndr = s.tileHndr ∧ (s.onGap cb p).geomSig = s.geomSig := by
    simp only [onGap]
    split
    · split <;> exact ⟨rfl, rfl⟩
    · exact ⟨rfl, rfl⟩
  rw [← asked.1, ← asked.2]
  simp only [entered, onSlabCap]
  split
  · exact ⟨.inr rfl, rfl⟩
  · exact ⟨.inl rfl, rfl⟩

theorem latch_opened (cb : Callbacks) (ops : TileOps T) (p : Packet) (u : FrameHandler T) :
    ((u.opened cb ops p).tileHndr = u.tileHndr ∨ (u.opened cb ops p).tileHndr = ops.restart u.tileHndr) ∧
      (u.opened cb ops p).geomSig = u.geomSig := by
  have closed : (u.opened cb ops p).tileHndr = (u.closeMissed cb ops).tileHndr ∧
      (u.opened cb ops p).geomSig = (u.closeMissed cb ops).geomSig := ⟨rfl, rfl⟩
  rw [closed.1, closed.2]
  simp only [closeMissed]
  split
  · exact ⟨.inl rfl, rfl⟩
  · split <;> exact ⟨.inr rfl, rfl⟩

/-- A main packet whose header is not parsed anew leaves the tile handler alone, and a signature that is
known stays. -/
theorem latch_of_reused {r : Bool × FrameHandler T} (step : MainStep cb ops p u r)
    (reused : u.parsesAnew ops p = false) :
    r.2.tileHndr = u.tileHndr ∧ (u.geomSig ≠ 0 → r.2.geomSig = u.geomSig) := by
  cases step with
  | resumed _ _ _ known => exact ⟨rfl, fun some => (known.resolve_left some).symm⟩
  | refused _ _ _ | continued _ _ _ | collected _ _ _ => exact ⟨rfl, fun _ => rfl⟩
  | unparsed anew _ _ | uncreated anew _ _ _ | latched anew _ _ => exact absurd anew (Bool.eq_false_iff.mp reused)

theorem geomSig_pullData (lawful : ops.Lawful) (reused : (s.arrived cb ops p).parsesAnew ops p = false)
    (some : s.geomSig ≠ 0) : (s.pullData cb ops p).geomSig = s.geomSig := by
  have before := (latch_entered cb ops p s).2
  have way := work_cases cb ops lawful p (s.entered cb ops p)
  have arrived : s.arrived cb ops p = (s.entered cb ops p).opened cb ops p := rfl
  rw [arrived] at reused
  rw [pullData_eq, ← before]
  rw [← before] at some
  generalize s.entered cb ops p = u at way reused some ⊢
  generalize u.work cb ops p = r at way ⊢
  have worked : r.2.geomSig = u.geomSig := by
    cases way with
    | skipped _ _ =>
      simp only [skipBody]
      split
      · split <;> rfl
      · rfl
    | body _ _ _ =>
      simp only [bodyPacket, walkPrecincts]
      split
      · split
        · split <;> rfl
        · rfl
      · rfl
    | main _ step =>
      have same := (latch_opened cb ops p u).2
      rw [(latch_of_reused step reused).2 (same ▸ some), same]
  rw [close]
  split
  · rw [endFrame_eq, ← worked]
    change (flushFrame ops _).geomSig = _
    simp only [flushFrame]
    split
    · split <;> rfl
    · rfl
  · exact worked

variable (stable : ops.Stable P)

include stable

private theorem tile_of_restarted {t t' : T} (holds : P t) (way : t' = t ∨ t' = ops.restart t) : P t' := by
  rcases way with rfl | rfl
  · exact holds
  · exact stable.restart t holds

private theorem tile_bodyPacket (holds : P u.tileHndr) : P (u.bodyPacket cb ops p).tileHndr := by
  simp only [bodyPacket, walkPrecincts]
  have signalled := stable.appendSignal u.tileHndr ⟨BitVec.ofNat 32 u.chainTotalBytes + p.pos, p.pid⟩ holds
  split
  · split
    · split
      · exact stable.parse _ _ signalled
      · exact stable.parse _ _ signalled
    · exact signalled
  · exact holds

private theorem tile_work {r : Bool × FrameHandler T} (way : Work cb ops p u r)
    (reused : (u.opened cb ops p).parsesAnew ops p = false) (holds : P u.tileHndr) : P r.2.tileHndr := by
  cases way with
  | skipped _ _ =>
    simp only [skipBody]
    split
    · split <;> exact stable.restart _ holds
    · exact holds
  | body _ _ _ => exact tile_bodyPacket stable holds
  | main _ step =>
    have start := tile_of_restarted stable holds (latch_opened cb ops p u).1
    rw [(latch_of_reused step reused).1]
    exact start

theorem tile_pullData (lawful : ops.Lawful) (reused : (s.arrived cb ops p).parsesAnew ops p = false)
    (holds : P s.tileHndr) : P (s.pullData cb ops p).tileHndr := by
  have start := tile_of_restarted stable holds (latch_entered cb ops p s).1
  have worked := tile_work stable (work_cases cb ops lawful p (s.entered cb ops p)) reused start
  rw [pullData_eq, close]
  split
  · rw [endFrame_eq]
    apply stable.restart
    change P (flushFrame ops _).tileHndr
    simp only [flushFrame]
    split
    · split <;> exact stable.flush _ _ worked
    · exact worked
  · exact worked

end

end FrameHandler

end RtpDecoder.Frame

import TileWorld.Proofs.Playback

/-! Playback over many deltas depends on their total alone. On a loop it is the phase that moves:
the time from the start of the track to the cursor, modulo the period. -/
namespace TileWorld

/-- The milliseconds of some deltas together. -/
def totalMs (deltas : List UInt32) : Nat :=
  (deltas.map (·.toNat)).sum

/-- The cursor after one advance for each delta. -/
def Cursor.advanceAll (c : Cursor) (t : Track) (deltas : List UInt32) : Cursor :=
  deltas.foldl (fun c delta => c.advance t delta) c

namespace Track

theorem before_le_periodMs {t : Track} {index : Nat} (h : index ≤ t.length) :
    t.before index ≤ t.periodMs := by
  rw [← before_length]
  exact t.before_mono h

/-- The frame at a time is the only one whose span holds it. -/
theorem phase_unique {t : Track} {i j x y : Nat} (hx : x < t.duration i) (hy : y < t.duration j)
    (h : t.before i + x = t.before j + y) : i = j ∧ x = y := by
  have hi := t.before_succ i
  have hj := t.before_succ j
  -- The span of a frame ends no later than that of a later frame begins.
  rcases Nat.lt_trichotomy i j with hij | rfl | hij
  · have := t.before_mono (show i + 1 ≤ j from hij)
    omega
  · exact ⟨rfl, by omega⟩
  · have := t.before_mono (show j + 1 ≤ i from hij)
    omega

theorem phase_lt {t : Track} {i x : Nat} (hx : x < t.duration i) :
    t.before i + x < t.periodMs := by
  have hi := t.before_succ i
  have := before_le_periodMs (show i + 1 ≤ t.length from lt_of_lt_duration hx)
  omega

/-- Playback of a loop keeps the phase and stops inside a frame. -/
theorem Rests.phase {t : Track} (hh : t.hasHold = false) {frame elapsed : Nat} {r : Nat × Nat}
    (h : t.Rests frame elapsed r) :
    r.2 < t.duration r.1 ∧ t.before r.1 + r.2 ≡ t.before frame + elapsed [MOD t.periodMs] := by
  induction h with
  | hold _ hold => simp [holdsAt_eq_false hh] at hold
  | wait _ he => exact ⟨he, Nat.ModEq.refl _⟩
  | @leave frame elapsed r lt _ he _ ih =>
    refine ⟨ih.1, ih.2.trans ?_⟩
    have hs := t.before_succ frame
    rcases Nat.lt_or_ge (frame + 1) t.length with hn | hn
    · rw [Nat.mod_eq_of_lt hn, show t.before (frame + 1) + (elapsed - t.duration frame) =
        t.before frame + elapsed by omega]
    · -- The last frame gives way to the first, which takes one period off.
      have hl : frame + 1 = t.length := by omega
      rw [hl, before_length] at hs
      rw [hl, Nat.mod_self, before_zero, Nat.zero_add, show t.before frame + elapsed =
        elapsed - t.duration frame + t.periodMs by omega]
      exact Nat.ModEq.symm (Nat.add_modEq_right)

end Track

namespace Cursor

variable {c : Cursor} {t : Track}

@[simp]
theorem advanceAll_track (deltas : List UInt32) : (c.advanceAll t deltas).track = c.track := by
  induction deltas generalizing c with
  | nil => rfl
  | cons d ds ih => exact ih.trans (c.advance_track t d)

@[simp]
theorem advanceAll_heldNotified (deltas : List UInt32) :
    (c.advanceAll t deltas).heldNotified = c.heldNotified := by
  induction deltas generalizing c with
  | nil => rfl
  | cons d ds ih => exact ih.trans (c.advance_heldNotified t d)

theorem advanceAll_concat (deltas : List UInt32) (delta : UInt32) :
    c.advanceAll t (deltas ++ [delta]) = (c.advanceAll t deltas).advance t delta :=
  List.foldl_append

/-- Advances go on from where playback of the time so far has come to rest. -/
theorem advanceAll_rests_of_rests (live : t.Live) {frame elapsed : Nat} (hc : c.frame < t.length)
    (h : t.Rests frame elapsed (c.frame, c.elapsedMs.toNat)) (deltas : List UInt32) :
    t.Rests frame (elapsed + totalMs deltas)
      ((c.advanceAll t deltas).frame, (c.advanceAll t deltas).elapsedMs.toNat) := by
  induction deltas generalizing c elapsed with
  | nil => exact h
  | cons d ds ih =>
    have hd := c.advance_rests d live
    rw [origin_of_lt hc] at hd
    have hn := ih (c.advance_frame_lt t d) (h.trans hd)
    rwa [Nat.add_assoc] at hn

/-- Advances by any deltas are playback of their total from the first frame and time on. -/
theorem advanceAll_rests (live : t.Live) {deltas : List UInt32} (hne : deltas ≠ []) :
    t.Rests (c.origin t).1 ((c.origin t).2 + totalMs deltas)
      ((c.advanceAll t deltas).frame, (c.advanceAll t deltas).elapsedMs.toNat) := by
  obtain ⟨d, ds, rfl⟩ := List.exists_cons_of_ne_nil hne
  have h := advanceAll_rests_of_rests live (c.advance_frame_lt t d) (c.advance_rests d live) ds
  rwa [Nat.add_assoc] at h

/-- Cursors that started as one are the same again once playback came to rest in the same place. -/
theorem advanceAll_eq_of_rests {ds ds' : List UInt32}
    (h : ((c.advanceAll t ds).frame, (c.advanceAll t ds).elapsedMs.toNat) =
      ((c.advanceAll t ds').frame, (c.advanceAll t ds').elapsedMs.toNat)) :
    c.advanceAll t ds = c.advanceAll t ds' := by
  have hf := congrArg Prod.fst h
  have he := UInt32.toNat_inj.mp (congrArg Prod.snd h)
  -- Advances never touch the other two fields.
  have ht : (c.advanceAll t ds).track = (c.advanceAll t ds').track := by
    rw [advanceAll_track, advanceAll_track]
  have hn : (c.advanceAll t ds).heldNotified = (c.advanceAll t ds').heldNotified := by
    rw [advanceAll_heldNotified, advanceAll_heldNotified]
  cases hx : c.advanceAll t ds
  cases hy : c.advanceAll t ds'
  simp_all

/-- Playback does not depend on how time is sliced. On a loop the cursor stands at the one place
whose phase is the phase of the start and all the time since, so whole periods act as no time at
all. -/
theorem advanceAll_of_total (t : Track) (c : Cursor) (live : t.hasHold = true ∨ 0 < t.periodMs)
    (ds ds' : List UInt32) (hne : ds ≠ []) (hne' : ds' ≠ []) (hsum : totalMs ds = totalMs ds') :
    c.advanceAll t ds = c.advanceAll t ds' ∧
    (t.hasHold = false → c.frame < t.length →
      (∀ j x,
        (x < t.duration j ∧
          t.before j + x ≡ t.before c.frame + c.elapsedMs.toNat + totalMs ds [MOD t.periodMs]) ↔
        j = (c.advanceAll t ds).frame ∧ x = (c.advanceAll t ds).elapsedMs.toNat) ∧
      (t.periodMs ∣ totalMs ds → c.advanceAll t ds = c.advance t 0)) := by
  have hr := advanceAll_rests (c := c) live hne
  refine ⟨?_, ?_⟩
  · apply advanceAll_eq_of_rests
    exact hr.unique (hsum ▸ advanceAll_rests live hne')
  · intro hh hc
    rw [origin_of_lt hc] at hr
    obtain ⟨hlt, hphase⟩ := hr.phase hh
    rw [← Nat.add_assoc] at hphase
    refine ⟨?_, ?_⟩
    · intro j x
      constructor
      · rintro ⟨hx, hp⟩
        have he := (hp.trans hphase.symm).eq_of_lt_of_lt (Track.phase_lt hx) (Track.phase_lt hlt)
        exact Track.phase_unique hx hlt he
      · rintro ⟨rfl, rfl⟩
        exact ⟨hlt, hphase⟩
    · rintro ⟨count, hcount⟩
      change c.advanceAll t ds = c.advanceAll t [0]
      apply advanceAll_eq_of_rests
      -- No time at all comes to rest somewhere, and whole periods on top of it rest there too.
      have h0 := advanceAll_rests (c := c) live (List.cons_ne_nil 0 [])
      rw [origin_of_lt hc] at h0
      have hq := Track.rests_periods hh count _ _ hc h0
      apply hr.unique
      rw [hcount, Nat.add_comm]
      exact hq

/-- A loop with a frame that takes no time, deltas that pass the greatest word together, and a total
of whole periods. -/
theorem advanceAll_of_total_loop :
    let t : Track := ⟨⟨10000, false⟩, [⟨1, 100⟩, ⟨2, 0⟩, ⟨3, 50⟩], by simp⟩
    let c : Cursor := ⟨⟨"pads.json", 0⟩, 2, 20, false⟩
    (t.hasHold = true ∨ 0 < t.periodMs) ∧
      totalMs [0xFFFFFFFF, 105] = totalMs [1, 0xFFFFFFFF, 104] ∧
      c.advanceAll t [0xFFFFFFFF, 105] = c.advanceAll t [1, 0xFFFFFFFF, 104] ∧
      c.advanceAll t [0xFFFFFFFF, 105] = c.advance t 0 := by
  intro t c
  have live : t.hasHold = true ∨ 0 < t.periodMs := Or.inr (by decide)
  have hsum : totalMs [0xFFFFFFFF, 105] = totalMs [1, 0xFFFFFFFF, 104] := by decide
  have h := advanceAll_of_total t c live _ _ (by simp) (by simp) hsum
  have hperiods : t.periodMs ∣ totalMs [0xFFFFFFFF, 105] := ⟨28633116, by decide⟩
  exact ⟨live, hsum, h.1, (h.2 (by decide) (by decide)).2 hperiods⟩

end Cursor

end TileWorld

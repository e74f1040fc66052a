import Mathlib.Data.Nat.ModEq
import TileWorld.Animation.Cursor

/-! Playback of a track as the plain loop that leaves frame after frame, without any bound on the
number of steps. A cursor advances as this loop does, whole periods left out or not. -/
namespace TileWorld

namespace Track

/-- The milliseconds of a frame; an index without a frame has none. -/
def duration (t : Track) (index : Nat) : Nat :=
  ((t.frame? index).map (·.durationMs.toNat)).getD 0

/-- The milliseconds of all frames before an index. -/
def before (t : Track) (index : Nat) : Nat :=
  ((t.frames.take index).map (·.durationMs.toNat)).sum

/-- A frame that takes any time. -/
def holdsAt (t : Track) (index : Nat) : Bool :=
  (t.frame? index).any t.isHold

/-- A track on which time moves playback: it comes to a hold or takes time for a loop. -/
def Live (t : Track) : Prop :=
  t.hasHold = true ∨ 0 < t.periodMs

theorem frame?_of_lt {t : Track} {index : Nat} (h : index < t.length) :
    ∃ f, t.frame? index = some f :=
  ⟨t.frames[index], List.getElem?_eq_getElem h⟩

theorem lt_of_frame? {t : Track} {index : Nat} {f : Frame} (h : t.frame? index = some f) :
    index < t.length :=
  (List.getElem?_eq_some_iff.mp h).1

theorem duration_of_frame? {t : Track} {index : Nat} {f : Frame} (h : t.frame? index = some f) :
    t.duration index = f.durationMs.toNat := by
  simp [duration, h]

theorem holdsAt_of_frame? {t : Track} {index : Nat} {f : Frame} (h : t.frame? index = some f) :
    t.holdsAt index = t.isHold f := by
  simp [holdsAt, h]

theorem next_lt (t : Track) (index : Nat) : index % t.length < t.length :=
  Nat.mod_lt _ t.length_pos

@[simp]
theorem before_zero (t : Track) : t.before 0 = 0 := by
  simp [before]

theorem before_succ (t : Track) (index : Nat) :
    t.before (index + 1) = t.before index + t.duration index := by
  simp only [before, duration, frame?, List.take_add_one, List.map_append, List.sum_append]
  cases t.frames[index]? <;> simp

theorem before_length (t : Track) : t.before t.length = t.periodMs := by
  simp [before, length, periodMs, List.sum_eq_foldr, List.foldr_map]

theorem before_mono (t : Track) {i j : Nat} (h : i ≤ j) : t.before i ≤ t.before j := by
  induction j, h using Nat.le_induction with
  | base => exact le_rfl
  | succ j _ ih =>
    rw [before_succ]
    omega

theorem holdsAt_eq_false {t : Track} (h : t.hasHold = false) (index : Nat) :
    t.holdsAt index = false := by
  simp only [hasHold, List.any_eq_false] at h
  cases hf : t.frame? index with
  | none => simp [holdsAt, hf]
  | some f =>
    rw [holdsAt_of_frame? hf]
    simpa using h f (List.mem_of_getElem? hf)

theorem exists_holdsAt {t : Track} (h : t.hasHold = true) :
    ∃ index < t.length, t.holdsAt index = true := by
  obtain ⟨f, hf, hh⟩ := List.any_eq_true.mp h
  obtain ⟨index, hi, rfl⟩ := List.mem_iff_getElem.mp hf
  refine ⟨index, hi, ?_⟩
  rwa [holdsAt_of_frame? (List.getElem?_eq_getElem hi)]

theorem hasHold_of_holdsAt {t : Track} {index : Nat} (h : t.holdsAt index = true) :
    t.hasHold = true := by
  by_contra hn
  rw [holdsAt_eq_false (Bool.eq_false_of_not_eq_true hn)] at h
  cases h

theorem lt_of_holdsAt {t : Track} {index : Nat} (h : t.holdsAt index = true) :
    index < t.length := by
  obtain ⟨f, hf, _⟩ := (Option.any_eq_true _ _).mp h
  exact lt_of_frame? hf

/-- Where playback comes to rest with some milliseconds to spend from a frame on: a frame whose time
has passed is left for the next, the last for the first, and a hold frame is never left. -/
inductive Rests (t : Track) : Nat → Nat → Nat × Nat → Prop where
  | hold {frame elapsed : Nat} (lt : frame < t.length) (hh : t.holdsAt frame = true) :
      Rests t frame elapsed (frame, min elapsed t.policy.thresholdMs.toNat)
  | wait {frame elapsed : Nat} (hh : t.holdsAt frame = false) (he : elapsed < t.duration frame) :
      Rests t frame elapsed (frame, elapsed)
  | leave {frame elapsed : Nat} {rest : Nat × Nat} (lt : frame < t.length)
      (hh : t.holdsAt frame = false) (he : t.duration frame ≤ elapsed)
      (next : Rests t ((frame + 1) % t.length) (elapsed - t.duration frame) rest) :
      Rests t frame elapsed rest

theorem Rests.unique {t : Track} {frame elapsed : Nat} {r r' : Nat × Nat}
    (h : t.Rests frame elapsed r) (h' : t.Rests frame elapsed r') : r = r' := by
  -- The premises of the three constructors exclude each other, so only like cases meet.
  induction h with
  | hold _ hh =>
    cases h' with
    | hold => rfl
    | wait hh' => simp [hh] at hh'
    | leave _ hh' => simp [hh] at hh'
  | wait hh he =>
    cases h' with
    | hold _ hh' => simp [hh] at hh'
    | wait => rfl
    | leave _ _ he' => omega
  | leave _ hh he _ ih =>
    cases h' with
    | hold _ hh' => simp [hh] at hh'
    | wait _ he' => omega
    | leave _ _ _ next' => exact ih next'

theorem lt_of_lt_duration {t : Track} {index elapsed : Nat} (h : elapsed < t.duration index) :
    index < t.length := by
  cases hf : t.frame? index with
  | none => simp [duration, hf] at h
  | some f => exact lt_of_frame? hf

theorem duration_lt (t : Track) (index : Nat) : t.duration index < 2 ^ 32 := by
  cases hf : t.frame? index with
  | none => simp [duration, hf]
  | some f =>
    rw [duration_of_frame? hf]
    exact f.durationMs.toNat_lt

theorem Rests.frame_lt {t : Track} {frame elapsed : Nat} {r : Nat × Nat}
    (h : t.Rests frame elapsed r) : r.1 < t.length := by
  induction h with
  | hold lt => exact lt
  | wait _ he => exact lt_of_lt_duration he
  | leave _ _ _ _ ih => exact ih

/-- The time left over fits a word, whatever was spent. -/
theorem Rests.elapsed_lt {t : Track} {frame elapsed : Nat} {r : Nat × Nat}
    (h : t.Rests frame elapsed r) : r.2 < 2 ^ 32 := by
  induction h with
  | hold =>
    have := t.policy.thresholdMs.toNat_lt
    exact lt_of_le_of_lt (min_le_right _ _) this
  | wait _ he => exact he.trans (t.duration_lt _)
  | leave _ _ _ _ ih => exact ih

/-- Time may be spent in two parts. -/
theorem Rests.trans {t : Track} {frame elapsed more : Nat} {r r' : Nat × Nat}
    (h : t.Rests frame elapsed r) (h' : t.Rests r.1 (r.2 + more) r') :
    t.Rests frame (elapsed + more) r' := by
  induction h with
  | @hold frame elapsed lt hh =>
    -- Clamping twice is clamping once, with the second part added in between or before.
    have hr : r' = (frame, min (min elapsed t.policy.thresholdMs.toNat + more)
        t.policy.thresholdMs.toNat) := h'.unique (.hold lt hh)
    have hm : min (min elapsed t.policy.thresholdMs.toNat + more) t.policy.thresholdMs.toNat =
        min (elapsed + more) t.policy.thresholdMs.toNat := by omega
    rw [hr, hm]
    exact .hold lt hh
  | wait => exact h'
  | @leave frame elapsed _ lt hh he _ ih =>
    have hn := ih h'
    rw [show elapsed - t.duration frame + more = elapsed + more - t.duration frame by omega] at hn
    exact .leave lt hh (by omega) hn

/-- The milliseconds of some frames from an index on, the first after the last. -/
def ahead (t : Track) : Nat → Nat → Nat
  | 0, _ => 0
  | count + 1, index => t.duration index + t.ahead count ((index + 1) % t.length)

theorem ahead_add (t : Track) (m n index : Nat) (h : index < t.length) :
    t.ahead (m + n) index = t.ahead m index + t.ahead n ((index + m) % t.length) := by
  induction m generalizing index with
  | zero => rw [Nat.zero_add, ahead, Nat.zero_add, Nat.add_zero, Nat.mod_eq_of_lt h]
  | succ m ih =>
    have hi : ((index + 1) % t.length + m) % t.length = (index + (m + 1)) % t.length := by
      rw [Nat.mod_add_mod, Nat.add_assoc, Nat.add_comm 1 m]
    rw [Nat.succ_add, ahead, ahead, ih _ (t.next_lt _), hi, Nat.add_assoc]

theorem before_add_ahead (t : Track) (n index : Nat) (h : index + n ≤ t.length) :
    t.before index + t.ahead n index = t.before (index + n) := by
  induction n generalizing index with
  | zero => rfl
  | succ n ih =>
    rw [ahead, ← Nat.add_assoc, ← before_succ]
    -- The index wraps only behind the last frame, and then no more frames are to come.
    rcases Nat.eq_zero_or_pos n with rfl | hn
    · rfl
    · rw [Nat.mod_eq_of_lt (by omega), ih (index + 1) (by omega)]
      congr 1
      omega

/-- Once around, from any frame, takes the period. -/
theorem ahead_length (t : Track) (index : Nat) (h : index < t.length) :
    t.ahead t.length index = t.periodMs := by
  -- From the index to the end, and from the start to the index again.
  have hs := t.ahead_add (t.length - index) index index h
  have h1 := t.before_add_ahead (t.length - index) index (by omega)
  have h2 := t.before_add_ahead index 0 (by omega)
  rw [show t.length - index + index = t.length by omega,
    show index + (t.length - index) = t.length by omega, Nat.mod_self] at hs
  rw [show index + (t.length - index) = t.length by omega, before_length] at h1
  rw [before_zero, Nat.zero_add, Nat.zero_add] at h2
  omega

theorem spend_of_holdsAt {t : Track} {n frame elapsed : Nat} (lt : frame < t.length)
    (hh : t.holdsAt frame = true) :
    t.spend (n + 1) frame elapsed = (frame, min elapsed t.policy.thresholdMs.toNat) := by
  obtain ⟨f, hf⟩ := frame?_of_lt lt
  rw [holdsAt_of_frame? hf] at hh
  simp [spend, hf, hh]

theorem spend_of_not_holdsAt {t : Track} {n frame elapsed : Nat} (lt : frame < t.length)
    (hh : t.holdsAt frame = false) :
    t.spend (n + 1) frame elapsed =
      if elapsed < t.duration frame then (frame, elapsed)
      else t.spend n ((frame + 1) % t.length) (elapsed - t.duration frame) := by
  obtain ⟨f, hf⟩ := frame?_of_lt lt
  rw [holdsAt_of_frame? hf] at hh
  rw [duration_of_frame? hf]
  simp [spend, hf, hh]

/-- A bounded number of steps is enough if a hold is among the frames ahead, or more time than is
left to spend. -/
theorem spend_rests {t : Track} (n frame elapsed : Nat) (lt : frame < t.length)
    (h : (∀ k < n, t.holdsAt ((frame + k) % t.length) = false) → elapsed < t.ahead n frame) :
    t.Rests frame elapsed (t.spend n frame elapsed) := by
  induction n generalizing frame elapsed with
  | zero => exact absurd (h (by simp)) (by simp [ahead])
  | succ n ih =>
    cases hh : t.holdsAt frame with
    | true =>
      rw [spend_of_holdsAt lt hh]
      exact .hold lt hh
    | false =>
      rw [spend_of_not_holdsAt lt hh]
      split
      next he => exact .wait hh he
      next he =>
        refine .leave lt hh (by omega) (ih _ _ (t.next_lt _) ?_)
        -- This frame does not hold, so with the frames behind it none does, and `h` bounds the time.
        intro hn
        have ha : elapsed < t.ahead (n + 1) frame := by
          apply h
          intro k hk
          cases k with
          | zero => rwa [Nat.add_zero, Nat.mod_eq_of_lt lt]
          | succ k =>
            have hk' := hn k (by omega)
            rwa [Nat.mod_add_mod, Nat.add_assoc, Nat.add_comm 1 k] at hk'
        rw [ahead] at ha
        omega

/-- Frames that do not hold are left when their time is spent. -/
theorem rests_skip {t : Track} (hh : t.hasHold = false) (n frame elapsed : Nat) {r : Nat × Nat}
    (lt : frame < t.length) (h : t.Rests ((frame + n) % t.length) elapsed r) :
    t.Rests frame (t.ahead n frame + elapsed) r := by
  induction n generalizing frame with
  | zero =>
    rw [Nat.add_zero, Nat.mod_eq_of_lt lt] at h
    rwa [ahead, Nat.zero_add]
  | succ n ih =>
    -- The time ahead begins with that of the frame itself, so the frame may be left.
    refine .leave lt (holdsAt_eq_false hh frame) (by rw [ahead]; omega) ?_
    have hn := ih ((frame + 1) % t.length) (t.next_lt _) (by
      rwa [Nat.mod_add_mod, Nat.add_assoc, Nat.add_comm 1 n])
    rwa [show t.ahead (n + 1) frame + elapsed - t.duration frame =
      t.ahead n ((frame + 1) % t.length) + elapsed by rw [ahead]; omega]

/-- Whole periods change nothing. -/
theorem rests_periods {t : Track} (hh : t.hasHold = false) (count frame elapsed : Nat)
    {r : Nat × Nat} (lt : frame < t.length) (h : t.Rests frame elapsed r) :
    t.Rests frame (t.periodMs * count + elapsed) r := by
  induction count with
  | zero => rwa [Nat.mul_zero, Nat.zero_add]
  | succ count ih =>
    have hs := rests_skip hh t.length frame (t.periodMs * count + elapsed) lt (by
      rwa [Nat.add_mod_right, Nat.mod_eq_of_lt lt])
    rw [ahead_length t frame lt] at hs
    rwa [Nat.mul_succ, Nat.add_comm (t.periodMs * count), Nat.add_assoc]

/-- One pass over the frames finds where playback comes to rest. -/
theorem seek_rests {t : Track} (live : t.Live) {frame : Nat} (lt : frame < t.length)
    (elapsed : Nat) : t.Rests frame elapsed (t.seek frame elapsed) := by
  cases hh : t.hasHold with
  | true =>
    simp only [seek, hh, Bool.not_true, Bool.false_and, Bool.false_eq_true, if_false, if_true]
    apply spend_rests _ _ _ lt
    -- All frames are ahead, among them the one that holds.
    intro hn
    obtain ⟨h, hlt, hold⟩ := exists_holdsAt hh
    have hk := hn ((h + (t.length - frame)) % t.length) (t.next_lt _)
    rw [Nat.add_mod_mod, show frame + (h + (t.length - frame)) = h + t.length by omega,
      Nat.add_mod_right, Nat.mod_eq_of_lt hlt, hold] at hk
    cases hk
  | false =>
    have hp : 0 < t.periodMs := by
      rcases live with h | h
      · simp [hh] at h
      · exact h
    have hz : (!t.hasHold && decide (t.periodMs = 0)) = false := by simp [hp.ne']
    rw [seek, hz, hh, if_neg (by simp), if_neg (by simp)]
    -- Once around takes the period, and less than that is left to spend.
    have hs : t.Rests frame (elapsed % t.periodMs)
        (t.spend t.length frame (elapsed % t.periodMs)) := by
      apply spend_rests _ _ _ lt
      intro _
      rw [ahead_length t frame lt]
      exact Nat.mod_lt _ hp
    have hq := rests_periods hh (elapsed / t.periodMs) frame _ lt hs
    rwa [Nat.div_add_mod] at hq

theorem seek_of_not_live {t : Track} (h : ¬t.Live) (frame elapsed : Nat) :
    t.seek frame elapsed = ((frame + 1) % t.length, 0) := by
  simp only [Live, not_or, Bool.not_eq_true, Nat.not_lt, Nat.le_zero] at h
  simp [seek, h.1, h.2]

end Track

namespace Cursor

@[simp]
theorem start_track (ref : TrackRef) : (start ref).track = ref :=
  rfl

@[simp]
theorem start_heldNotified (ref : TrackRef) : (start ref).heldNotified = false :=
  rfl

variable (c : Cursor) (t : Track) (deltaMs : UInt32)

/-- The frame and time that more time is added to; past the end playback starts again first. -/
def origin : Nat × Nat :=
  if c.frame < t.length then (c.frame, c.elapsedMs.toNat) else (0, 0)

theorem origin_lt : (c.origin t).1 < t.length := by
  simp only [origin]
  split
  next h => exact h
  next => exact t.length_pos

theorem origin_of_lt {c : Cursor} {t : Track} (h : c.frame < t.length) :
    c.origin t = (c.frame, c.elapsedMs.toNat) :=
  if_pos h

theorem advance_eq :
    c.advance t deltaMs =
      let r := t.seek (c.origin t).1 ((c.origin t).2 + deltaMs.toNat)
      { c with frame := r.1, elapsedMs := .ofNat (min r.2 0xFFFFFFFF) } := by
  by_cases h : c.frame < t.length <;> simp [advance, origin, h]

@[simp]
theorem advance_track : (c.advance t deltaMs).track = c.track := by
  rw [advance_eq]

@[simp]
theorem advance_heldNotified : (c.advance t deltaMs).heldNotified = c.heldNotified := by
  rw [advance_eq]

theorem isHolding_eq : c.isHolding t = t.holdsAt c.frame :=
  rfl

/-- On a live track an advance is playback of the time on the cursor and the time added. -/
theorem advance_rests {t : Track} (live : t.Live) :
    t.Rests (c.origin t).1 ((c.origin t).2 + deltaMs.toNat)
      ((c.advance t deltaMs).frame, (c.advance t deltaMs).elapsedMs.toNat) := by
  have hr := Track.seek_rests live (c.origin_lt t) ((c.origin t).2 + deltaMs.toNat)
  have hlt := hr.elapsed_lt
  rw [advance_eq]
  dsimp only
  -- The time left over fits a word, so the clamp has no effect.
  rw [Nat.min_eq_left (by omega), UInt32.toNat_ofNat_of_lt' hlt]
  exact hr

theorem advance_frame_lt : (c.advance t deltaMs).frame < t.length := by
  by_cases live : t.Live
  · exact (c.advance_rests deltaMs live).frame_lt
  · -- A track that time does not move still goes on by one frame, around the end.
    rw [advance_eq, Track.seek_of_not_live live]
    exact t.next_lt _

theorem advance_isHolding {c : Cursor} {t : Track} (h : c.isHolding t = true)
    (deltaMs : UInt32) : (c.advance t deltaMs).isHolding t = true := by
  rw [isHolding_eq] at h
  have hlt : c.frame < t.length := Track.lt_of_holdsAt h
  have hr := c.advance_rests deltaMs (Or.inl (Track.hasHold_of_holdsAt h))
  rw [origin_of_lt hlt] at hr
  -- A hold takes any time, so playback from a hold frame rests right there.
  have hstay : (c.advance t deltaMs).frame = c.frame := congrArg Prod.fst (hr.unique (.hold hlt h))
  rw [isHolding_eq, hstay, h]

end Cursor

end TileWorld

import TileWorld.Geometry.WorldShape
import TileWorld.Proofs.FloatOrder

/-! Containment as a property of the closed outline. It does not matter where the outline is begun. All
around, it passes the height of a point an even number of times, so the rays to both sides tell the
same, and a point is outside that has no passage level with it, or has them all on one side. -/
namespace TileWorld

open Number

namespace Bounds

variable {a b c : Float32}

theorem lt_lesser_iff (ha : a.isNaN = false) (hb : b.isNaN = false) (hc : c.isNaN = false) :
    c < lesser a b ↔ c < a ∧ c < b := by
  unfold lesser
  split
  next h =>
    rw [single_lt_iff_rank_lt ha hb] at h
    rw [single_lt_iff_rank_lt hc ha, single_lt_iff_rank_lt hc hb]
    exact ⟨fun hca => ⟨hca, hca.trans h⟩, And.left⟩
  next h =>
    rw [single_lt_iff_rank_lt ha hb, not_lt] at h
    rw [single_lt_iff_rank_lt hc ha, single_lt_iff_rank_lt hc hb]
    exact ⟨fun hcb => ⟨hcb.trans_le h, hcb⟩, And.right⟩

theorem greater_le_iff (ha : a.isNaN = false) (hb : b.isNaN = false) (hc : c.isNaN = false) :
    greater a b ≤ c ↔ a ≤ c ∧ b ≤ c := by
  unfold greater
  split
  next h =>
    rw [single_lt_iff_rank_lt hb ha] at h
    rw [single_le_iff_rank_le ha hc, single_le_iff_rank_le hb hc]
    exact ⟨fun hac => ⟨hac, h.le.trans hac⟩, And.left⟩
  next h =>
    rw [single_lt_iff_rank_lt hb ha, not_lt] at h
    rw [single_le_iff_rank_le ha hc, single_le_iff_rank_le hb hc]
    exact ⟨fun hbc => ⟨h.trans hbc, hbc⟩, And.right⟩

/-- The heights of both corners are numbers. -/
structure Ranked (b : Bounds) : Prop where
  min : b.min.y.isNaN = false
  max : b.max.y.isNaN = false

theorem ranked_empty : empty.Ranked :=
  ⟨by decide +kernel, by decide +kernel⟩

theorem Ranked.extend {b : Bounds} {q : Point} (hb : b.Ranked) (hq : q.y.isNaN = false) :
    (b.extend q).Ranked where
  min := by
    simp only [Bounds.extend, lesser]
    split
    · exact hb.min
    · exact hq
  max := by
    simp only [Bounds.extend, greater]
    split
    · exact hb.max
    · exact hq

/-- A height is less than that of a box grown over points exactly if it is less than that of the box
and of every point. It is at least the greatest exactly if it is at least that of all these. -/
theorem heights_foldl_extend {points : List Point} (hpoints : ∀ q ∈ points, q.y.isNaN = false)
    (hc : c.isNaN = false) {b : Bounds} (hb : b.Ranked) :
    (c < (points.foldl extend b).min.y ↔ c < b.min.y ∧ ∀ q ∈ points, c < q.y) ∧
      ((points.foldl extend b).max.y ≤ c ↔ b.max.y ≤ c ∧ ∀ q ∈ points, q.y ≤ c) := by
  induction points generalizing b with
  | nil => simp
  | cons q points ih =>
    obtain ⟨hq, hpoints⟩ := List.forall_mem_cons.mp hpoints
    obtain ⟨hmin, hmax⟩ := ih hpoints (hb.extend hq)
    simp only [List.foldl_cons, List.forall_mem_cons, ← and_assoc]
    exact ⟨hmin.trans (and_congr_left' (lt_lesser_iff hb.min hq hc)),
      hmax.trans (and_congr_left' (greater_le_iff hb.max hq hc))⟩

end Bounds

namespace WorldShape

variable {s : WorldShape} {points : List Point} {p : Point}

/-! ### The edges of an outline -/

/-- The edges of the closed outline, each vertex with the one before it; the first edge closes. -/
def edges (points : List Point) : List (Point × Point) :=
  match points.getLast? with
  | none => []
  | some last => points.zip (last :: points)

theorem edges_eq_zip_rotate (points : List Point) :
    edges points = points.zip (points.rotate (points.length - 1)) := by
  rcases List.eq_nil_or_concat' points with rfl | ⟨front, last, rfl⟩
  · rfl
  · have hrotate : (front ++ [last]).rotate front.length = last :: front :=
      List.rotate_append_length_eq front [last]
    have hlength : (front ++ [last]).length = (last :: front).length := by simp
    -- The list of predecessors is one too long, and the zip leaves its end out.
    have hzip : (front ++ [last] ++ []).zip (last :: front ++ [last]) =
        (front ++ [last]).zip (last :: front) ++ [].zip [last] := List.zip_append hlength
    rw [List.length_append, List.length_singleton, Nat.add_sub_cancel, hrotate, edges,
      List.getLast?_concat]
    simpa using hzip

theorem edges_rotate (points : List Point) (k : ℕ) :
    edges (points.rotate k) = (edges points).rotate k := by
  rw [edges_eq_zip_rotate, edges_eq_zip_rotate, List.length_rotate, List.rotate_rotate,
    Nat.add_comm, ← List.rotate_rotate]
  exact (List.zipWith_rotate_distrib _ _ _ k (List.length_rotate _ _).symm).symm

theorem mem_of_mem_edges {edge : Point × Point} (h : edge ∈ edges points) :
    edge.1 ∈ points ∧ edge.2 ∈ points := by
  rw [edges_eq_zip_rotate] at h
  obtain ⟨hfirst, hsecond⟩ := List.of_mem_zip h
  exact ⟨hfirst, List.mem_rotate.mp hsecond⟩

/-- A path changes sides an odd number of times exactly if it ends on the other side of its start. -/
theorem odd_changes_iff (side : Point → Bool) (points : List Point) (start : Point) :
    Odd ((points.zip (start :: points)).countP fun edge => side edge.1 != side edge.2) ↔
      side start ≠ side (points.getLastD start) := by
  induction points generalizing start with
  | nil => simp
  | cons q points ih =>
    -- The first edge leads to `q`, where the rest of the path starts.
    have hrest := ih q
    rw [List.zip_cons_cons, List.countP_cons, List.getLastD_cons]
    by_cases hsame : side start = side q
    · simp only [hsame, bne_self_eq_false, Bool.false_eq_true, if_false, Nat.add_zero]
      exact hrest
    · have hchange : (side q != side start) = true := bne_iff_ne.mpr (Ne.symm hsame)
      have hother : side start = !side q := Bool.eq_not_of_ne hsame
      rw [if_pos hchange, Nat.odd_add_one, hrest, hother]
      cases side q <;> cases side (points.getLastD q) <;> simp

/-- An outline ends where it starts. -/
theorem even_straddles (points : List Point) (p : Point) :
    Even ((edges points).countP (straddles p)) := by
  cases hlast : points.getLast? with
  | none => simp [edges, hlast]
  | some last =>
    have hend : points.getLastD last = last := by
      rw [List.getLastD_eq_getLast?, hlast, Option.getD_some]
    have hodd := odd_changes_iff (fun q => decide (p.y < q.y)) points last
    rw [hend] at hodd
    rw [← Nat.not_odd_iff_even, edges, hlast]
    exact fun h => hodd.mp h rfl

/-! ### The walk around an outline -/

/-- The edge to a vertex starts at the vertex before it, which for the first is the last. -/
theorem take_succ_edges {k : ℕ} (hk : k < points.length) :
    (edges points).take (k + 1) = (edges points).take k ++
      [(points[k]!, points[(k + (points.length - 1)) % points.length]!)] := by
  have htrailing : (k + (points.length - 1)) % points.length < points.length :=
    Nat.mod_lt _ (Nat.zero_lt_of_lt hk)
  rw [edges_eq_zip_rotate, getElem!_pos points k hk, getElem!_pos points _ htrailing,
    List.take_succ_eq_append_getElem (by simpa using hk), List.getElem_zip, List.getElem_rotate]

/-- After `k` steps the trailing vertex is the one before vertex `k`, and the answer has been turned
once for each crossing among the first `k` edges. -/
theorem foldl_turn {k : ℕ} (hk : k ≤ points.length) (hpoints : points ≠ []) :
    (List.range k).foldl (turn points p) (points.length - 1, false) =
      ((k + (points.length - 1)) % points.length,
        decide (Odd (((edges points).take k).countP (crosses p)))) := by
  have hpos := List.length_pos_of_ne_nil hpoints
  induction k with
  | zero => simp [Nat.mod_eq_of_lt (Nat.sub_one_lt_of_lt hpos)]
  | succ k ih =>
    have hnext : (k + 1 + (points.length - 1)) % points.length = k := by
      rw [show k + 1 + (points.length - 1) = k + points.length by omega, Nat.add_mod_right,
        Nat.mod_eq_of_lt hk]
    rw [List.range_succ, List.foldl_append, ih (Nat.le_of_succ_le hk), take_succ_edges hk,
      List.countP_append, List.countP_singleton, hnext, List.foldl_cons, List.foldl_nil, turn]
    split
    · simp only [Nat.odd_add_one, decide_not]
    · rw [Nat.add_zero]

/-- The walk counts the edges that cross the ray, up to parity. -/
theorem contains_iff_odd (s : WorldShape) (p : Point) :
    s.contains p = true ↔ 3 ≤ s.points.length ∧ Odd ((edges s.points).countP (crosses p)) := by
  have hall : (edges s.points).take s.points.length = edges s.points := by
    apply List.take_of_length_le
    rw [edges_eq_zip_rotate, List.length_zip]
    exact min_le_left _ _
  rw [contains]
  split
  next hfew => simp [Nat.not_le.mpr hfew]
  next hmany =>
    have hpoints : s.points ≠ [] := by
      intro hnil
      simp [hnil] at hmany
    rw [foldl_turn le_rfl hpoints, hall, decide_eq_true_iff]
    exact (and_iff_right (Nat.not_lt.mp hmany)).symm

/-! ### Both rays -/

/-- Whether an edge passes the height of a point without crossing the ray towards greater `x`. -/
def passesBehind (p : Point) (edge : Point × Point) : Bool :=
  straddles p edge && !crosses p edge

theorem countP_straddles (p : Point) (es : List (Point × Point)) :
    es.countP (straddles p) = es.countP (crosses p) + es.countP (passesBehind p) := by
  have hcrosses : es.countP (fun e => straddles p e && crosses p e) = es.countP (crosses p) := by
    apply List.countP_congr
    intro e _
    simp only [crosses, Bool.and_eq_true, and_self_left]
  rw [List.countP_eq_countP_filter_add es (straddles p) (crosses p), List.countP_filter,
    List.countP_filter, hcrosses]
  rfl

/-- What passes behind a point tells the same as what crosses the ray in front. -/
theorem contains_iff_odd_behind (s : WorldShape) (p : Point) :
    s.contains p = true ↔
      3 ≤ s.points.length ∧ Odd ((edges s.points).countP (passesBehind p)) := by
  have heven := even_straddles s.points p
  -- Both counts add up to an even number, so they are odd together.
  rw [countP_straddles, Nat.even_add'] at heven
  rw [contains_iff_odd, heven]

/-! ### Outside -/

theorem contains_rotate (s : WorldShape) (p : Point) (k : ℕ) :
    { s with points := s.points.rotate k }.contains p = s.contains p := by
  have hcount := (List.rotate_perm (edges s.points) k).countP_eq (crosses p)
  rw [Bool.eq_iff_iff, contains_iff_odd, contains_iff_odd, edges_rotate, hcount, List.length_rotate]

theorem contains_eq_false_of_one_side (side : Bool)
    (h : ∀ q ∈ s.points, decide (p.y < q.y) = side) : s.contains p = false := by
  have hnone : (edges s.points).countP (crosses p) = 0 := by
    rw [List.countP_eq_zero]
    intro e he
    obtain ⟨hfirst, hsecond⟩ := mem_of_mem_edges he
    simp [crosses, straddles, h _ hfirst, h _ hsecond]
  rw [← Bool.not_eq_true, contains_iff_odd, hnone]
  simp

theorem contains_eq_false_of_outside_bounds (hpoints : ∀ q ∈ s.points, q.y.isNaN = false)
    (h : p.y < s.bounds.min.y ∨ s.bounds.max.y ≤ p.y) : s.contains p = false := by
  have hp : p.y.isNaN = false := by
    rw [Bool.eq_false_iff]
    intro hnan
    rcases h with hbelow | habove
    · exact (single_incomparable (Or.inl hnan)).1 hbelow
    · exact (single_incomparable (Or.inr hnan)).2 habove
  obtain ⟨hmin, hmax⟩ := Bounds.heights_foldl_extend hpoints hp Bounds.ranked_empty
  rcases h with hbelow | habove
  · have hall := (hmin.mp hbelow).2
    exact contains_eq_false_of_one_side true fun q hq => decide_eq_true (hall q hq)
  · have hall := (hmax.mp habove).2
    apply contains_eq_false_of_one_side false
    intro q hq
    rw [decide_eq_false_iff_not, single_lt_iff_rank_lt hp (hpoints q hq), not_lt,
      ← single_le_iff_rank_le (hpoints q hq) hp]
    exact hall q hq

theorem contains_eq_false_of_all_in_front
    (h : ∀ e ∈ edges s.points, straddles p e = true → p.x < crossing p e) :
    s.contains p = false := by
  have hnone : (edges s.points).countP (passesBehind p) = 0 := by
    rw [List.countP_eq_zero]
    intro e he
    have hcrosses : straddles p e = true → crosses p e = true := fun hs => by
      rw [crosses, hs, Bool.true_and, decide_eq_true_iff]
      exact h e he hs
    simpa [passesBehind] using hcrosses
  rw [← Bool.not_eq_true, contains_iff_odd_behind, hnone]
  simp

/-- An outline may be begun at any vertex. A point above or below all of it is outside, and so is one
that has every passage of its height in front, since these are even in number. -/
theorem contains_closed_outline :
    (∀ (s : WorldShape) (p : Point) (k : ℕ),
      { s with points := s.points.rotate k }.contains p = s.contains p) ∧
      (∀ (s : WorldShape) (p : Point), (∀ q ∈ s.points, q.y.isNaN = false) →
        p.y < s.bounds.min.y ∨ s.bounds.max.y ≤ p.y → s.contains p = false) ∧
      ∀ (s : WorldShape) (p : Point),
        Even ((edges s.points).countP (straddles p)) ∧
          (s.contains p = true ↔
            3 ≤ s.points.length ∧ Odd ((edges s.points).countP (passesBehind p))) ∧
          ((∀ e ∈ edges s.points, straddles p e = true → p.x < crossing p e) →
            s.contains p = false) := by
  refine ⟨contains_rotate, fun s p hpoints => ?_, fun s p => ⟨?_, ?_, ?_⟩⟩
  · exact contains_eq_false_of_outside_bounds hpoints
  · exact even_straddles s.points p
  · exact contains_iff_odd_behind s p
  · exact contains_eq_false_of_all_in_front

/-- A ramp begun at its last vertex, a point level with that vertex, and one behind the upright side. -/
theorem contains_closed_outline_ramp :
    let ramp : WorldShape := ⟨.solid, false, 0, [⟨0, 0⟩, ⟨16, 0⟩, ⟨0, 16⟩]⟩
    { ramp with points := ramp.points.rotate 2 }.contains ⟨2, 2⟩ = true ∧
      ramp.bounds.max.y ≤ 16 ∧ ramp.contains ⟨2, 16⟩ = false ∧
      (edges ramp.points).countP (straddles ⟨-1, 2⟩) = 2 ∧ ramp.contains ⟨-1, 2⟩ = false := by
  intro ramp
  obtain ⟨hrotate, houtside, hoddness⟩ := contains_closed_outline
  have hinside : ramp.contains ⟨2, 2⟩ = true := by decide +kernel
  have htop : ramp.bounds.max.y ≤ 16 := by decide +kernel
  refine ⟨(hrotate ramp ⟨2, 2⟩ 2).trans hinside, htop, ?_, by decide +kernel, ?_⟩
  · exact houtside ramp ⟨2, 16⟩ (by decide +kernel) (Or.inr htop)
  · exact (hoddness ramp ⟨-1, 2⟩).2.2 (by decide +kernel)

end WorldShape

end TileWorld

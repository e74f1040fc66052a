import Mathlib.Data.List.TakeWhile
import TileWorld.Proofs.PublishOnce

/-! What a reference resolves to, by the tileset that it names. Once it resolves, only a tileset that is
published under a preferred id can change the answer. -/
namespace TileWorld

/-- The ids that a reference of `base` may mean rather than `id`. -/
def Reference.preferred (base reference id : String) : List String :=
  (candidates base reference).takeWhile (· ≠ id)

theorem Reference.ne_of_mem_preferred {base reference id other : String}
    (h : other ∈ preferred base reference id) : other ≠ id := by
  simpa using List.mem_takeWhile_imp h

/-- The track that references to a tileset stand for. -/
def Tileset.primary? (t : Tileset) : Option TrackRef :=
  t.primarySlot?.map (⟨t.id, ·⟩)

theorem Tileset.primary?_tileset {t : Tileset} {ref : TrackRef} (h : t.primary? = some ref) :
    ref.tileset = t.id := by
  obtain ⟨slot, _, rfl⟩ := Option.map_eq_some_iff.mp h
  rfl

/-- What a tile's reference comes to when it names a tileset, or none. -/
def Tile.resolved (tile : Tile) (reference : String) (target : Option Tileset) :
    Except Error TrackRef :=
  match target.bind Tileset.primary? with
  | some ref => .ok ref
  | none => .error (.brokenReference tile.tileset tile.id reference)

theorem Tile.resolved_eq_ok_iff (tile : Tile) (reference : String) (target : Option Tileset)
    (ref : TrackRef) :
    tile.resolved reference target = .ok ref ↔ ∃ t, target = some t ∧ t.primary? = some ref := by
  rw [resolved, ← Option.bind_eq_some_iff]
  cases target.bind Tileset.primary? <;> simp

namespace Store

/-- The tileset that a reference of `base` names: the first registered candidate. -/
def target? (s : Store) (base reference : String) : Option Tileset :=
  (Reference.candidates base reference).findSome? s.find?

theorem resolveReference_eq (s : Store) {tile : Tile} {reference : String}
    (hr : tile.reference? = some reference) :
    s.resolveReference tile = tile.resolved reference (s.target? tile.tileset reference) := by
  simp only [resolveReference, hr, Tile.resolved, target?]
  cases (Reference.candidates tile.tileset reference).findSome? s.find? with
  | none => rfl
  | some t =>
    rw [Option.bind_some, Tileset.primary?]
    cases hslot : t.primarySlot? <;> simp [hslot]

/-- Nothing preferred to the tileset that a reference names is registered. -/
theorem exists_candidates_of_target? {s : Store} {base reference : String} {u : Tileset}
    (h : s.target? base reference = some u) :
    (∃ rest, Reference.candidates base reference =
      Reference.preferred base reference u.id ++ u.id :: rest) ∧
    ∀ id ∈ Reference.preferred base reference u.id, s.find? id = none := by
  obtain ⟨front, id, rest, hsplit, hu, hfree⟩ := List.findSome?_eq_some_iff.mp h
  obtain rfl := find?_id hu
  have hfront : Reference.preferred base reference u.id = front := by
    have hne : ∀ other ∈ front, decide (other ≠ u.id) = true := by
      intro other hm
      rw [decide_eq_true_eq]
      rintro rfl
      rw [hfree _ hm] at hu
      cases hu
    rw [Reference.preferred, hsplit, List.takeWhile_append_of_pos hne, List.takeWhile_cons_of_neg]
    · exact List.append_nil front
    · simp
  rw [hfront]
  exact ⟨⟨rest, hsplit⟩, hfree⟩

/-- In a store with more tilesets a reference names the first preferred one, if there is any now. -/
theorem Grows.target? {s s' : Store} (hg : s.Grows s') {base reference : String} {u : Tileset}
    (h : s.target? base reference = some u) :
    s'.target? base reference =
      ((Reference.preferred base reference u.id).findSome? s'.find?).or (some u) := by
  obtain ⟨⟨rest, hsplit⟩, _⟩ := exists_candidates_of_target? h
  obtain ⟨id, _, hu⟩ := List.exists_of_findSome?_eq_some h
  have hu' : s'.find? u.id = some u := by
    rw [find?_id hu]
    exact hg id u hu
  rw [Store.target?, hsplit, List.findSome?_append, List.findSome?_cons, hu']

theorem findSome?_insert {s s' : Store} {t : Tileset} (hi : s.insert t = .ok s') {ids : List String}
    (hfree : ∀ id ∈ ids, s.find? id = none) :
    ids.findSome? s'.find? = if t.id ∈ ids then some t else none := by
  induction ids with
  | nil => rfl
  | cons id ids ih =>
    have hid : s'.find? id = if t.id = id then some t else none := by
      rw [find?_insert hi, hfree id List.mem_cons_self]
    rw [List.findSome?_cons, hid, ih fun other hm => hfree other (List.mem_cons_of_mem id hm)]
    by_cases h : t.id = id <;> simp [h]

/-- A reference that resolves goes on to resolve alike, until a tileset is published under an id that
it prefers. From then on it stands for the track of that tileset, if that has one. -/
theorem resolveReference_until_preferred {s : Store} {tile : Tile} {reference : String}
    {ref : TrackRef} (hr : tile.reference? = some reference)
    (h : s.resolveReference tile = .ok ref) :
    let preferred := Reference.preferred tile.tileset reference ref.tileset
    (∀ t s', s.insert t = .ok s' → s'.resolveReference tile =
      if t.id ∈ preferred then tile.resolved reference (some t) else .ok ref) ∧
    ∀ requests, let s' := s.serveAll requests
      s'.resolveReference tile = .ok ref ↔ ∀ id ∈ preferred, s'.contains id = false := by
  intro preferred
  rw [resolveReference_eq s hr] at h
  obtain ⟨u, hu, hprimary⟩ := (Tile.resolved_eq_ok_iff ..).mp h
  have hpreferred : preferred = Reference.preferred tile.tileset reference u.id := by
    rw [← Tileset.primary?_tileset hprimary]
  have hkept : tile.resolved reference (some u) = .ok ref :=
    (Tile.resolved_eq_ok_iff ..).mpr ⟨u, rfl, hprimary⟩
  refine ⟨?_, ?_⟩
  · intro t s' hi
    have hfree := (exists_candidates_of_target? hu).2
    rw [resolveReference_eq s' hr, (insert_grows hi).target? hu, findSome?_insert hi hfree,
      ← hpreferred]
    split
    · rw [Option.some_or]
    · rw [Option.none_or, hkept]
  · intro requests s'
    have hg : s.Grows s' := grows_of_isPrefix (s.serveAll_isPrefix requests)
    rw [resolveReference_eq s' hr, hg.target? hu, ← hpreferred]
    simp only [← find?_eq_none_iff]
    constructor
    · intro hok id hm
      by_contra hid
      -- A preferred tileset has an id of its own, and so has the track it would stand for.
      have hsome : (preferred.findSome? s'.find?).isSome = true := by
        rw [List.findSome?_isSome_iff]
        exact ⟨id, hm, Option.isSome_iff_ne_none.mpr hid⟩
      obtain ⟨v, hv⟩ := Option.isSome_iff_exists.mp hsome
      rw [hv, Option.some_or] at hok
      obtain ⟨w, hw, hprimary'⟩ := (Tile.resolved_eq_ok_iff ..).mp hok
      obtain rfl := Option.some.inj hw
      obtain ⟨other, hother, hfound⟩ := List.exists_of_findSome?_eq_some hv
      apply Reference.ne_of_mem_preferred hother
      rw [← find?_id hfound, Tileset.primary?_tileset hprimary']
    · intro hnone
      rw [List.findSome?_eq_none_iff.mpr hnone, Option.none_or, hkept]

/-- A map editor's file is registered, and its counterpart comes later. An id that merely looks like
the reference comes too late. -/
theorem resolveReference_until_preferred_pad :
    let track : Track := ⟨{}, [⟨0, 100⟩], by simp⟩
    let pad (id : String) : Tileset :=
      ⟨id, "pad", ⟨16, 16⟩, [⟨id, 0, ⟨16, 16⟩, [], [], some (.inline 0)⟩], [track], [0]⟩
    let tile : Tile :=
      ⟨"fg/cliffs.json", 3, ⟨16, 16⟩, [], [("anim", .file "../props/pad.tsx")],
        some (.external "../props/pad.tsx")⟩
    let s : Store := ⟨[pad "props/pad.tsx"], by decide⟩
    tile.reference? = some "../props/pad.tsx" ∧
      s.resolveReference tile = .ok ⟨"props/pad.tsx", 0⟩ ∧
      (∃ s', s.insert (pad "props/pad.json") = .ok s' ∧
        s'.resolveReference tile = .ok ⟨"props/pad.json", 0⟩) ∧
      (s.serveAll [.insert (pad "../props/pad.json")]).resolveReference tile =
        .ok ⟨"props/pad.tsx", 0⟩ := by
  intro track pad tile s
  have hr : tile.reference? = some "../props/pad.tsx" := rfl
  have h : s.resolveReference tile = .ok ⟨"props/pad.tsx", 0⟩ := by decide +kernel
  obtain ⟨hinsert, hserve⟩ := resolveReference_until_preferred hr h
  refine ⟨hr, h, ⟨_, rfl, ?_⟩, ?_⟩
  · rw [hinsert (pad "props/pad.json") _ rfl]
    decide +kernel
  · refine (hserve [.insert (pad "../props/pad.json")]).mpr ?_
    decide +kernel

/-- A tileset beside the referring one is preferred to one at the root. Published later, it redirects
a reference that resolved, or breaks it if it has no track. -/
theorem reference_redirected_by_later_tileset :
    let track : Track := ⟨{}, [⟨0, 100⟩], by simp⟩
    let still (id : String) : Tileset :=
      ⟨id, "", ⟨16, 16⟩, [⟨id, 0, ⟨16, 16⟩, [], [], none⟩], [], []⟩
    let coin (id : String) : Tileset :=
      ⟨id, "", ⟨16, 16⟩, [⟨id, 0, ⟨16, 16⟩, [], [], some (.inline 0)⟩], [track], [0]⟩
    let tile : Tile :=
      ⟨"a/b.json", 0, ⟨16, 16⟩, [], [("anim", .file "c.json")], some (.external "c.json")⟩
    let s : Store := ⟨[coin "c.json", ⟨"a/b.json", "", ⟨16, 16⟩, [tile], [], []⟩], by decide⟩
    s.lookup "a/b.json" 0 = .ok tile ∧ s.resolveReference tile = .ok ⟨"c.json", 0⟩ ∧
      (∃ s', s.insert (coin "a/c.json") = .ok s' ∧
        s'.resolveReference tile = .ok ⟨"a/c.json", 0⟩) ∧
      ∃ s', s.insert (still "a/c.json") = .ok s' ∧
        s'.resolveReference tile = .error (.brokenReference "a/b.json" 0 "c.json") := by
  intro track still coin tile s
  refine ⟨by decide +kernel, by decide +kernel, ⟨_, rfl, by decide +kernel⟩, ⟨_, rfl, ?_⟩⟩
  decide +kernel

end Store

end TileWorld

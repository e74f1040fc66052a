import TileWorld.Proofs.StoreGrowth

/-! Two stores that were given the same tilesets in any order answer alike. Answers are found by id, and
what lists tilesets lists them by id. -/
namespace TileWorld.Store

theorem tileset_eq_of_find? {s s' : Store} (h : s.find? = s'.find?) (id : String) :
    s.tileset id = s'.tileset id := by
  rw [tileset, tileset, h]

theorem lookup_eq_of_find? {s s' : Store} (h : s.find? = s'.find?) (id : String) (tile : TileId) :
    s.lookup id tile = s'.lookup id tile := by
  rw [lookup, lookup, tileset_eq_of_find? h]

theorem track?_eq_of_find? {s s' : Store} (h : s.find? = s'.find?) (ref : TrackRef) :
    s.track? ref = s'.track? ref := by
  rw [track?, track?, h]

theorem resolveReference_eq_of_find? {s s' : Store} (h : s.find? = s'.find?) (tile : Tile) :
    s.resolveReference tile = s'.resolveReference tile := by
  rw [resolveReference, resolveReference, h]

theorem resolve_eq_of_find? {s s' : Store} (h : s.find? = s'.find?) (tile : Tile) :
    s.resolve tile = s'.resolve tile := by
  rw [resolve, resolve, resolveReference_eq_of_find? h]

/-- Ids are distinct, so what is found does not depend on the place it stands in. -/
theorem find?_eq_of_perm {s s' : Store} (hp : s.tilesets.Perm s'.tilesets) : s.find? = s'.find? := by
  funext id
  ext t
  rw [find?_eq_some_iff, find?_eq_some_iff, hp.mem_iff]

theorem sorted_perm (s : Store) : s.sorted.Perm s.tilesets :=
  List.mergeSort_perm ..

theorem sorted_pairwise (s : Store) : s.sorted.Pairwise fun a b => ¬b.id < a.id := by
  let le (a b : Tileset) : Bool := !decide (b.id < a.id)
  have hle (a b : Tileset) : le a b = true ↔ ¬b.id < a.id := by
    rw [Bool.not_eq_true', decide_eq_false_iff_not]
  have htrans (a b c : Tileset) (hab : le a b = true) (hbc : le b c = true) : le a c = true := by
    rw [hle, String.not_lt] at hab hbc ⊢
    exact String.le_trans hab hbc
  have htotal (a b : Tileset) : (le a b || le b a) = true := by
    rw [Bool.or_eq_true, hle, hle, String.not_lt, String.not_lt]
    exact String.le_total a.id b.id
  exact (List.pairwise_mergeSort htrans htotal s.tilesets).imp fun {a b} => (hle a b).mp

theorem sorted_eq_of_perm {s s' : Store} (hp : s.tilesets.Perm s'.tilesets) :
    s.sorted = s'.sorted := by
  have hsorted : s.sorted.Perm s'.sorted := s.sorted_perm.trans (hp.trans s'.sorted_perm.symm)
  refine List.Perm.eq_of_pairwise ?_ s.sorted_pairwise s'.sorted_pairwise hsorted
  -- Two ids of which neither comes first are the same, and so are their tilesets then.
  intro a b ha hb hab hba
  have hid : a.id = b.id := String.le_antisymm (String.not_lt.mp hab) (String.not_lt.mp hba)
  have hb' : b ∈ s.tilesets := s.sorted_perm.mem_iff.mp (hsorted.mem_iff.mpr hb)
  exact List.inj_on_of_nodup_map s.nodup (s.sorted_perm.mem_iff.mp ha) hb' hid

theorem brokenReferences_eq_of_perm {s s' : Store} (hp : s.tilesets.Perm s'.tilesets) :
    s.brokenReferences = s'.brokenReferences := by
  simp only [brokenReferences, sorted_eq_of_perm hp,
    resolveReference_eq_of_find? (find?_eq_of_perm hp)]

/-- Tilesets of ids that are free and distinct are all published. -/
theorem exists_foldlM_insert (s : Store) (ts : List Tileset)
    (h : ((s.tilesets ++ ts).map (·.id)).Nodup) :
    ∃ s', ts.foldlM insert s = .ok s' ∧ s'.tilesets = s.tilesets ++ ts := by
  induction ts generalizing s with
  | nil => exact ⟨s, rfl, (List.append_nil _).symm⟩
  | cons t ts ih =>
    have hfree : s.contains t.id = false := by
      rw [List.map_append, List.nodup_append] at h
      rw [contains, List.any_eq_false]
      intro u hu
      rw [decide_eq_true_eq]
      exact h.2.2 u.id (List.mem_map_of_mem hu) t.id (by simp)
    obtain ⟨s₁, hinsert⟩ := exists_insert hfree
    have hadd : s₁.tilesets = s.tilesets ++ [t] := ((insert_eq_ok_iff ..).mp hinsert).2
    obtain ⟨s', hrest, htilesets⟩ := ih s₁ (by rw [hadd]; simpa using h)
    refine ⟨s', ?_, ?_⟩
    · rw [List.foldlM_cons, hinsert]
      exact hrest
    · rw [htilesets, hadd, List.append_assoc, List.singleton_append]

/-- Tilesets of distinct ids are all published in any order, and no answer depends on which. -/
theorem foldlM_insert_perm {ts ts' : List Tileset} (hn : (ts.map (·.id)).Nodup) (hp : ts.Perm ts') :
    ∃ s s', ts.foldlM insert empty = .ok s ∧ ts'.foldlM insert empty = .ok s' ∧
      (∀ id tile, s.lookup id tile = s'.lookup id tile) ∧
      (∀ ref, s.track? ref = s'.track? ref) ∧
      (∀ tile, s.resolve tile = s'.resolve tile) ∧
      s.brokenReferences = s'.brokenReferences := by
  have hn' : (ts'.map (·.id)).Nodup := (hp.map (·.id)).nodup_iff.mp hn
  obtain ⟨s, hs, htilesets⟩ := exists_foldlM_insert empty ts hn
  obtain ⟨s', hs', htilesets'⟩ := exists_foldlM_insert empty ts' hn'
  have hperm : s.tilesets.Perm s'.tilesets := by
    rw [htilesets, htilesets']
    exact hp
  have hfind : s.find? = s'.find? := find?_eq_of_perm hperm
  exact ⟨s, s', hs, hs', lookup_eq_of_find? hfind, track?_eq_of_find? hfind,
    resolve_eq_of_find? hfind, brokenReferences_eq_of_perm hperm⟩

/-- A tileset that refers to another and to nothing, published before or after the other: the
reference to nothing is listed either way. -/
theorem foldlM_insert_perm_props :
    let track : Track := ⟨{}, [⟨0, 100⟩], by simp⟩
    let pad : Tileset :=
      ⟨"props/pad.json", "pad", ⟨16, 16⟩,
        [⟨"props/pad.json", 0, ⟨16, 16⟩, [], [], some (.inline 0)⟩], [track], [0]⟩
    let tile (id : TileId) (path : String) : Tile :=
      ⟨"props.json", id, ⟨16, 16⟩, [], [("anim", .file path)], some (.external path)⟩
    let props : Tileset :=
      ⟨"props.json", "props", ⟨16, 16⟩,
        [tile 23 "props/pad.tsx", tile 24 "props/missing.json"], [], []⟩
    let s : Store := ⟨[props, pad], by decide⟩
    let s' : Store := ⟨[pad, props], by decide⟩
    ([props, pad].map (·.id)).Nodup ∧ [props, pad].Perm [pad, props] ∧
      [props, pad].foldlM insert empty = .ok s ∧ [pad, props].foldlM insert empty = .ok s' ∧
      s.resolve (tile 23 "props/pad.tsx") = .ok (some ⟨"props/pad.json", 0⟩) ∧
      s'.resolve (tile 23 "props/pad.tsx") = .ok (some ⟨"props/pad.json", 0⟩) ∧
      s.brokenReferences = [.brokenReference "props.json" 24 "props/missing.json"] ∧
      s'.brokenReferences = [.brokenReference "props.json" 24 "props/missing.json"] := by
  intro track pad tile props s s'
  have hn : ([props, pad].map (·.id)).Nodup := by decide
  have hp : [props, pad].Perm [pad, props] := .swap ..
  have hs : [props, pad].foldlM insert empty = .ok s := rfl
  have hs' : [pad, props].foldlM insert empty = .ok s' := rfl
  have hresolve : s.resolve (tile 23 "props/pad.tsx") = .ok (some ⟨"props/pad.json", 0⟩) := by
    decide +kernel
  have hlisted : s.brokenReferences = [.brokenReference "props.json" 24 "props/missing.json"] := by
    have hsorted : s.sorted = [props, pad] := List.mergeSort_of_pairwise (by decide)
    rw [brokenReferences, hsorted]
    decide +kernel
  obtain ⟨u, u', hu, hu', _, _, hsame, hbroken⟩ := foldlM_insert_perm hn hp
  obtain rfl : s = u := Except.ok.inj (hs.symm.trans hu)
  obtain rfl : s' = u' := Except.ok.inj (hs'.symm.trans hu')
  exact ⟨hn, hp, hs, hs', hresolve, (hsame _).symm.trans hresolve, hlisted, hbroken ▸ hlisted⟩

end TileWorld.Store

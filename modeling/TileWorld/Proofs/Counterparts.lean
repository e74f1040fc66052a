import TileWorld.Proofs.ReferencePaths
import TileWorld.Proofs.ReferenceTargets

/-! References to `.tsx` files beside references to their `.json` counterparts. Read in the folder of the
tile they agree; as given they differ, since a leading `./` is only taken off the path itself. -/
namespace TileWorld

namespace Reference

theorem isEnding_tsx : IsEnding ".tsx" :=
  ⟨by decide, by decide⟩

theorem isEnding_json : IsEnding ".json" :=
  ⟨by decide, by decide⟩

theorem candidates_json (base path : String) :
    candidates base (path ++ ".json") = [join base (path ++ ".json"), plain (path ++ ".json")] := by
  obtain ⟨stem, hjoin⟩ := exists_join_append base path
  rw [candidates, hjoin _ isEnding_json, counterpart?_json, counterpart?_json]
  rfl

theorem candidates_tsx (base path : String) :
    candidates base (path ++ ".tsx") =
      [join base (path ++ ".json"), join base (path ++ ".tsx"), path ++ ".json",
        plain (path ++ ".tsx")] := by
  obtain ⟨stem, hjoin⟩ := exists_join_append base path
  rw [candidates, hjoin _ isEnding_json, hjoin _ isEnding_tsx, counterpart?_tsx, counterpart?_tsx]
  rfl

end Reference

namespace Store

/-- The track that a reference to an id stands for, if a tileset with tracks is registered there. -/
def primary? (s : Store) (id : String) : Option TrackRef :=
  (s.find? id).bind Tileset.primary?

/-- No tileset is registered under an id that a map editor's file would have. -/
def FreeOfTsx (s : Store) : Prop :=
  ∀ id, s.contains id = true → ¬".tsx".toList <:+ id.toList

/-- Two tiles refer to one and the same track, or each to nothing under its own path. -/
def ResolvesAlike (s : Store) (a b : Tile) (path path' : String) : Prop :=
  (∃ ref, s.resolveReference a = .ok ref ∧ s.resolveReference b = .ok ref) ∨
    s.resolveReference a = .error (.brokenReference a.tileset a.id path) ∧
      s.resolveReference b = .error (.brokenReference b.tileset b.id path')

theorem resolvesAlike_iff_targets (s : Store) {a b : Tile} {path path' : String}
    (ha : a.reference? = some path) (hb : b.reference? = some path') :
    s.ResolvesAlike a b path path' ↔
      (s.target? a.tileset path).bind Tileset.primary? =
        (s.target? b.tileset path').bind Tileset.primary? := by
  rw [ResolvesAlike, resolveReference_eq s ha, resolveReference_eq s hb, Tile.resolved, Tile.resolved]
  cases (s.target? a.tileset path).bind Tileset.primary? <;>
    cases (s.target? b.tileset path').bind Tileset.primary? <;> simp [eq_comm]

theorem target?_json (s : Store) (base path : String) :
    s.target? base (path ++ ".json") =
      (s.find? (Reference.join base (path ++ ".json"))).or
        (s.find? (Reference.plain (path ++ ".json"))) := by
  rw [target?, Reference.candidates_json, List.findSome?_cons, List.findSome?_singleton]
  cases s.find? (Reference.join base (path ++ ".json")) <;> rfl

theorem FreeOfTsx.target?_tsx {s : Store} (hs : s.FreeOfTsx) (base path : String) :
    s.target? base (path ++ ".tsx") =
      (s.find? (Reference.join base (path ++ ".json"))).or (s.find? (path ++ ".json")) := by
  have hfree (id : String) (h : ".tsx".toList <:+ id.toList) : s.find? id = none := by
    rw [find?_eq_none_iff, Bool.eq_false_iff]
    exact fun hid => hs id hid h
  have hjoined : s.find? (Reference.join base (path ++ ".tsx")) = none := by
    obtain ⟨stem, hjoin⟩ := Reference.exists_join_append base path
    apply hfree
    rw [hjoin _ Reference.isEnding_tsx, String.toList_append]
    exact List.suffix_append ..
  have hplain : s.find? (Reference.plain (path ++ ".tsx")) = none := by
    apply hfree
    apply Reference.suffix_plain Reference.isEnding_tsx
    rw [String.toList_append]
    exact List.suffix_append ..
  simp only [target?, Reference.candidates_tsx, List.findSome?_cons, List.findSome?_nil, hjoined,
    hplain]
  cases s.find? (Reference.join base (path ++ ".json")) <;> cases s.find? (path ++ ".json") <;> rfl

theorem resolvesAlike_counterparts_iff {s : Store} (hs : s.FreeOfTsx) {a b : Tile} {path : String}
    (hbase : a.tileset = b.tileset) (ha : a.reference? = some (path ++ ".tsx"))
    (hb : b.reference? = some (path ++ ".json")) :
    (¬['.', '/'] <+: path.toList → s.ResolvesAlike a b (path ++ ".tsx") (path ++ ".json")) ∧
      (s.ResolvesAlike a b (path ++ ".tsx") (path ++ ".json") ↔
        s.contains (Reference.join b.tileset (path ++ ".json")) = true ∨
          s.primary? (path ++ ".json") = s.primary? (Reference.plain (path ++ ".json"))) := by
  have halike : s.ResolvesAlike a b (path ++ ".tsx") (path ++ ".json") ↔
      s.contains (Reference.join b.tileset (path ++ ".json")) = true ∨
        s.primary? (path ++ ".json") = s.primary? (Reference.plain (path ++ ".json")) := by
    rw [resolvesAlike_iff_targets s ha hb, hs.target?_tsx, target?_json, hbase, contains_eq]
    cases s.find? (Reference.join b.tileset (path ++ ".json")) with
    | none => simp [primary?]
    | some t => simp
  refine ⟨?_, halike⟩
  intro hfront
  rw [halike, Reference.plain_append Reference.isEnding_json hfront]
  exact Or.inr rfl

/-- Both files of a pad, named from a folder beside its own. -/
theorem resolvesAlike_counterparts_iff_pad :
    let track : Track := ⟨{}, [⟨0, 100⟩], by simp⟩
    let pad : Tileset :=
      ⟨"props/pad.json", "pad", ⟨16, 16⟩,
        [⟨"props/pad.json", 0, ⟨16, 16⟩, [], [], some (.inline 0)⟩], [track], [0]⟩
    let tile (id : TileId) (path : String) : Tile :=
      ⟨"fg/cliffs.json", id, ⟨16, 16⟩, [], [("anim", .file path)], some (.external path)⟩
    let s : Store := ⟨[pad], by decide⟩
    s.FreeOfTsx ∧ s.resolveReference (tile 1 "../props/pad.json") = .ok ⟨"props/pad.json", 0⟩ ∧
      s.ResolvesAlike (tile 0 "../props/pad.tsx") (tile 1 "../props/pad.json")
        ("../props/pad" ++ ".tsx") ("../props/pad" ++ ".json") := by
  intro track pad tile s
  have hs : s.FreeOfTsx := by
    intro id hid
    obtain rfl : "props/pad.json" = id := by simpa [contains, s, pad] using hid
    decide +kernel
  have hbase : (tile 0 "../props/pad.tsx").tileset = (tile 1 "../props/pad.json").tileset := rfl
  have ha : (tile 0 "../props/pad.tsx").reference? = some ("../props/pad" ++ ".tsx") := by
    decide +kernel
  have hb : (tile 1 "../props/pad.json").reference? = some ("../props/pad" ++ ".json") := by
    decide +kernel
  obtain ⟨halike, _⟩ := resolvesAlike_counterparts_iff hs hbase ha hb
  exact ⟨hs, by decide +kernel, halike (by decide +kernel)⟩

/-- With `./` in front the two files of one tileset at the root come apart. -/
theorem counterparts_resolve_apart :
    let track : Track := ⟨{}, [⟨0, 100⟩], by simp⟩
    let coin : Tileset :=
      ⟨"x.json", "", ⟨16, 16⟩, [⟨"x.json", 0, ⟨16, 16⟩, [], [], some (.inline 0)⟩], [track], [0]⟩
    let tile (id : TileId) (path : String) : Tile :=
      ⟨"a/b.json", id, ⟨16, 16⟩, [], [("anim", .file path)], some (.external path)⟩
    let user : Tileset :=
      ⟨"a/b.json", "", ⟨16, 16⟩, [tile 0 "./x.tsx", tile 1 "./x.json"], [], []⟩
    let s : Store := ⟨[coin, user], by decide⟩
    s.FreeOfTsx ∧ s.resolveReference (tile 1 "./x.json") = .ok ⟨"x.json", 0⟩ ∧
      s.resolveReference (tile 0 "./x.tsx") = .error (.brokenReference "a/b.json" 0 "./x.tsx") := by
  intro track coin tile user s
  have hs : s.FreeOfTsx := by
    intro id hid
    have hid : "x.json" = id ∨ "a/b.json" = id := by simpa [contains, s, coin, user] using hid
    rcases hid with rfl | rfl <;> decide +kernel
  exact ⟨hs, by decide +kernel, by decide +kernel⟩

end Store

end TileWorld

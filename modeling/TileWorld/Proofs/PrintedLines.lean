import TileWorld.Command
import TileWorld.Proofs.NumeralText
import TileWorld.Proofs.RenderedSections

/-! What a simulation prints, cut at its line feeds. Numbers and the names of classes hold none, so an
entry on an entity has a line feed of its own only if the tileset id that it names has one. -/
namespace TileWorld

theorem Number.mem_render {F : Format} {bits : ℕ} {c : Char} (hc : c ∈ (render F bits).toList) :
    c.isAlphanum = true ∨ c = '.' ∨ c = '-' := by
  have hdigits {m : ℕ} {g : ℤ} (h : c ∈ (positional m g).toList) :
      c.isAlphanum = true ∨ c = '.' ∨ c = '-' := by
    rcases mem_positional h with h | h
    · exact Or.inl (by rw [Char.isAlphanum, h, Bool.or_true])
    · exact Or.inr (Or.inl h)
  have hword {word : String} (hplain : ∀ c ∈ word.toList, c.isAlphanum = true ∨ c = '-')
      (h : c ∈ word.toList) : c.isAlphanum = true ∨ c = '.' ∨ c = '-' :=
    (hplain c h).imp_right Or.inr
  have hfinite {m : ℕ} {ds : ℕ × ℤ}
      (h : c ∈ (if m = 0 then "0" else positional ds.1 ds.2).toList) :
      c.isAlphanum = true ∨ c = '.' ∨ c = '-' := by
    split at h
    · exact hword (by simp) h
    · exact hdigits h
  rw [render] at hc
  split at hc
  next => exact hword (by simp) hc
  next =>
    split at hc
    · exact hword (by simp) hc
    · exact hword (by simp) hc
  next =>
    dsimp only at hc
    split at hc
    · rw [String.toList_append, List.mem_append] at hc
      exact hc.elim (hword (by simp)) hfinite
    · exact hfinite hc

theorem mem_intercalate {α : Type} {sep : List α} {parts : List (List α)} {x : α}
    (h : x ∈ sep.intercalate parts) : x ∈ sep ∨ ∃ part ∈ parts, x ∈ part := by
  induction parts with
  | nil => simp at h
  | cons part parts ih =>
    cases parts with
    | nil => exact Or.inr ⟨part, by simp, by simpa using h⟩
    | cons next rest =>
      rw [List.intercalate_cons_cons, List.mem_append, List.mem_append] at h
      rcases h with (h | h) | h
      · exact Or.inr ⟨part, by simp, h⟩
      · exact Or.inl h
      · refine (ih h).imp_right ?_
        rintro ⟨part', hm, hx⟩
        exact ⟨part', List.mem_cons_of_mem _ hm, hx⟩

namespace Command

theorem newline_not_mem_renderSingle (x : Float32) : '\n' ∉ (Number.renderSingle x).toList := by
  intro h
  rcases Number.mem_render h with h | h | h <;> revert h <;> decide

theorem newline_not_mem_renderShape (s : WorldShape) : '\n' ∉ (renderShape s).toList := by
  have hname : '\n' ∉ s.shapeClass.name.toList := by
    cases s.shapeClass <;> simp [ShapeClass.name]
  simp [renderShape, renderPoint, newline_not_mem_renderSingle, hname, toString]

/-- An entry as one text: the time in a field of six places or more, the tile by name, and the
shapes. -/
theorem renderState_eq (timeMs : ℕ) (tile : TileRef) (shapes : List WorldShape) :
    renderState timeMs tile shapes =
      "t=" ++ String.ofList (List.replicate (6 - (toString timeMs).length) ' ') ++ toString timeMs ++
        "ms  " ++ tile.tileset ++ ":" ++ toString tile.tile.toNat ++ "  [" ++
          ", ".intercalate (shapes.map renderShape) ++ "]" := by
  simp only [renderState, padStart, toString, String.append_assoc]

theorem newline_mem_renderState_iff (timeMs : ℕ) (tile : TileRef) (shapes : List WorldShape) :
    '\n' ∈ (renderState timeMs tile shapes).toList ↔ '\n' ∈ tile.tileset.toList := by
  have hdigits (n : ℕ) : '\n' ∉ Nat.toDigits 10 n := by
    intro h
    exact absurd (Number.isDigit_toDigits _ h) (by decide)
  have hshapes : '\n' ∉ (", ".intercalate (shapes.map renderShape)).toList := by
    rw [String.toList_intercalate]
    intro h
    rcases mem_intercalate h with h | ⟨part, hpart, h⟩
    · simp at h
    · simp only [List.map_map, List.mem_map, Function.comp_apply] at hpart
      obtain ⟨s, -, rfl⟩ := hpart
      exact newline_not_mem_renderShape s h
  rw [renderState_eq]
  simp [hdigits, hshapes, -String.toList_intercalate]

theorem getLast?_renderState (timeMs : ℕ) (tile : TileRef) (shapes : List WorldShape) :
    (renderState timeMs tile shapes).toList.getLast? = some ']' := by
  rw [renderState_eq, String.toList_append]
  exact List.getLast?_concat

end Command

theorem Outcome.toList_text (o : Outcome) :
    o.text.toList = (o.lines.map String.toList).flatMap (· ++ ['\n']) := by
  simp [text, List.flatMap_map]

/-- Entries without a line feed of their own, and none with a carriage return at its end, are the
lines of what is printed. -/
theorem Outcome.lines_text {o : Outcome} (h : ∀ line ∈ o.lines, '\n' ∉ line.toList)
    (hreturn : ∀ line ∈ o.lines, line.toList.getLast? ≠ some '\r') :
    (Text.lines o.text.toList).map String.ofList = o.lines := by
  rw [toList_text, Text.lines_flatMap_ended, List.map_map]
  · simp [Function.comp_def]
  · simpa using h
  · simpa using hreturn

end TileWorld

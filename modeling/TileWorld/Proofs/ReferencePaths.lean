import Mathlib.Data.List.Basic
import TileWorld.Store.Reference

/-! References with a file ending. The ending belongs to the last segment, which is never a step to
another folder, so reading a reference in a folder leaves the ending in its place. -/
namespace TileWorld

namespace Text

theorem split_of_not_mem {sep : Char} {cs : List Char} (h : sep ∉ cs) : split sep cs = [cs] := by
  induction cs with
  | nil => rfl
  | cons c cs ih =>
    obtain ⟨hc, hcs⟩ := not_or.mp (mt List.mem_cons.mpr h)
    rw [split, if_neg (Ne.symm hc), ih hcs]

theorem split_append_cons (sep : Char) (cs rest : List Char) :
    split sep (cs ++ sep :: rest) = split sep cs ++ split sep rest := by
  induction cs with
  | nil => simp [split]
  | cons c cs ih =>
    by_cases hc : c = sep
    · rw [List.cons_append, split, if_pos hc, ih, split, if_pos hc, List.cons_append]
    · obtain ⟨part, parts, hs⟩ := List.exists_cons_of_ne_nil (split_ne_nil sep cs)
      rw [List.cons_append, split, if_neg hc, ih, split, if_neg hc, hs]
      rfl

theorem not_mem_of_mem_split {sep : Char} {cs part : List Char} (h : part ∈ split sep cs) :
    sep ∉ part := by
  induction cs generalizing part with
  | nil =>
    rw [split, List.mem_singleton] at h
    simp [h]
  | cons c cs ih =>
    by_cases hc : c = sep
    · rw [split, if_pos hc] at h
      rcases List.mem_cons.mp h with rfl | h
      · simp
      · exact ih h
    · obtain ⟨first, parts, hs⟩ := List.exists_cons_of_ne_nil (split_ne_nil sep cs)
      rw [split, if_neg hc, hs] at h
      rcases List.mem_cons.mp h with rfl | h
      · have hfirst : sep ∉ first := ih (by rw [hs]; exact List.mem_cons_self)
        simp [Ne.symm hc, hfirst]
      · exact ih (by rw [hs]; exact List.mem_cons_of_mem first h)

/-- Joining loses nothing either, as long as there is a part. -/
theorem split_join {sep : Char} {parts : List (List Char)} (hne : parts ≠ [])
    (h : ∀ part ∈ parts, sep ∉ part) : split sep (join sep parts) = parts := by
  induction parts with
  | nil => exact absurd rfl hne
  | cons part parts ih =>
    obtain ⟨hpart, hparts⟩ := List.forall_mem_cons.mp h
    cases parts with
    | nil =>
      rw [join, List.intercalate_singleton]
      exact split_of_not_mem hpart
    | cons next parts =>
      have hjoin : join sep (part :: next :: parts) = part ++ sep :: join sep (next :: parts) := by
        simp [join, List.intercalate]
      rw [hjoin, split_append_cons, split_of_not_mem hpart, ih (List.cons_ne_nil _ _) hparts,
        List.singleton_append]

/-- What is put behind a text, without a separator, goes to the last part. -/
theorem exists_split_append (sep : Char) (cs : List Char) :
    ∃ front last, ∀ ending, sep ∉ ending → split sep (cs ++ ending) = front ++ [last ++ ending] := by
  induction cs with
  | nil => exact ⟨[], [], fun ending h => split_of_not_mem h⟩
  | cons c cs ih =>
    obtain ⟨front, last, hsplit⟩ := ih
    by_cases hc : c = sep
    · refine ⟨[] :: front, last, ?_⟩
      intro ending h
      rw [List.cons_append, split, if_pos hc, hsplit ending h, List.cons_append]
    · cases front with
      | nil =>
        refine ⟨[], c :: last, ?_⟩
        intro ending h
        rw [List.cons_append, split, if_neg hc, hsplit ending h]
        rfl
      | cons part front =>
        refine ⟨(c :: part) :: front, last, ?_⟩
        intro ending h
        rw [List.cons_append, split, if_neg hc, hsplit ending h]
        rfl

theorem join_concat_append (sep : Char) (parts : List (List Char)) (last ending : List Char) :
    join sep (parts ++ [last ++ ending]) = join sep (parts ++ [last]) ++ ending := by
  induction parts with
  | nil => simp [join]
  | cons part parts ih => cases parts <;> simp_all [join, List.intercalate]

theorem stripEnding?_append (ending cs : List Char) : stripEnding? ending (cs ++ ending) = some cs := by
  simp [stripEnding?]

theorem dropLeading_of_not_isPrefix {start cs : List Char} (h : start.isPrefixOf cs = false)
    (fuel : Nat) : dropLeading start fuel cs = cs := by
  cases fuel with
  | zero => rfl
  | succ fuel => rw [dropLeading, if_neg (by rw [h]; exact Bool.false_ne_true)]

end Text

namespace Reference

/-- An ending within a segment, too long for a segment of dots. -/
structure IsEnding (ending : String) : Prop where
  flat : '/' ∉ ending.toList
  long : 2 < ending.toList.length

theorem step_of_ending {ending : String} (he : IsEnding ending) (folders : List (List Char))
    (last : List Char) :
    step folders (last ++ ending.toList) = (last ++ ending.toList) :: folders := by
  have hlong : 2 < (last ++ ending.toList).length := by
    rw [List.length_append]
    exact Nat.lt_add_left _ he.long
  have hne (dots : List Char) (hdots : dots.length ≤ 2) : last ++ ending.toList ≠ dots := by
    intro h
    rw [h] at hlong
    omega
  rw [step, if_neg, if_neg]
  · exact hne _ (by simp)
  · rintro (h | h)
    · exact hne _ (by simp) h
    · exact hne _ (by simp) h

/-- The ending stays at the end of a path that is read in a folder, behind one and the same stem. -/
theorem exists_join_append (base path : String) :
    ∃ stem, ∀ ending, IsEnding ending → join base (path ++ ending) = stem ++ ending := by
  obtain ⟨front, last, hsplit⟩ := Text.exists_split_append '/' path.toList
  let folders := front.foldl step (Text.split '/' base.toList).dropLast.reverse
  refine ⟨String.ofList (Text.join '/' (folders.reverse ++ [last])), ?_⟩
  intro ending he
  have hsegments : (front ++ [last ++ ending.toList]).foldl step
      (Text.split '/' base.toList).dropLast.reverse = (last ++ ending.toList) :: folders := by
    rw [List.foldl_append, List.foldl_cons, List.foldl_nil, step_of_ending he]
  rw [join, String.toList_append, hsplit _ he.flat, hsegments, List.reverse_cons,
    Text.join_concat_append, String.ofList_append, String.ofList_toList]

/-- Taking off every `./` in front stops before the ending. -/
theorem suffix_plain {path ending : String} (he : IsEnding ending)
    (h : ending.toList <:+ path.toList) : ending.toList <:+ (plain path).toList := by
  have hdrop (fuel : Nat) (cs : List Char) (hcs : ending.toList <:+ cs) :
      ending.toList <:+ Text.dropLeading ['.', '/'] fuel cs := by
    induction fuel generalizing cs with
    | zero => exact hcs
    | succ fuel ih =>
      rw [Text.dropLeading]
      split
      next hfront =>
        obtain ⟨rest, rfl⟩ := List.isPrefixOf_iff_prefix.mp hfront
        -- The ending has no slash, so it lies behind the two characters that go.
        rcases List.suffix_cons_iff.mp hcs with heq | hcs
        · exact absurd (heq ▸ by simp) he.flat
        · rcases List.suffix_cons_iff.mp hcs with heq | hcs
          · exact absurd (heq ▸ by simp) he.flat
          · exact ih rest hcs
      next => exact hcs
  rw [plain, String.toList_ofList]
  exact hdrop _ _ h

theorem plain_append {path ending : String} (he : IsEnding ending)
    (h : ¬['.', '/'] <+: path.toList) : plain (path ++ ending) = path ++ ending := by
  have hfront : (['.', '/'].isPrefixOf (path ++ ending).toList) = false := by
    rw [Bool.eq_false_iff, ne_eq, List.isPrefixOf_iff_prefix, String.toList_append]
    intro hdots
    -- If it is not in the path, then a part of it that ends in its slash is in the ending.
    rcases List.prefix_or_prefix_of_prefix hdots (List.prefix_append _ _) with hpath | ⟨rest, hrest⟩
    · exact h hpath
    · have hending : rest <+: ending.toList := by
        rwa [← hrest, List.prefix_append_right_inj] at hdots
      have hne : rest ≠ [] := by
        rintro rfl
        exact h ⟨[], by rw [← hrest, List.append_nil, List.append_nil]⟩
      have hslash : '/' ∈ rest := by
        have hlast : rest.getLast? = some '/' := by
          rw [← List.getLast?_append_of_ne_nil path.toList hne, hrest]
          rfl
        exact List.mem_of_getLast? hlast
      exact he.flat (hending.subset hslash)
  rw [plain, Text.dropLeading_of_not_isPrefix hfront, String.ofList_toList]

theorem counterpart?_tsx (stem : String) : counterpart? (stem ++ ".tsx") = some (stem ++ ".json") := by
  rw [counterpart?, String.toList_append, Text.stripEnding?_append, Option.map_some,
    String.ofList_append, String.ofList_toList, String.ofList_toList]

theorem counterpart?_json (stem : String) : counterpart? (stem ++ ".json") = none := by
  rw [counterpart?, Option.map_eq_none_iff, Text.stripEnding?, if_neg]
  simp [List.isSuffixOf]

end Reference

end TileWorld

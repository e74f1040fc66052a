import Mathlib.Data.List.Induction
import TileWorld.Proofs.ReferencePaths

/-! References read one after the other. A walk along a reference ends in an outer folder of where it
starts, or further inside by names from the reference, and never outside the root. So the file that a
reference names stands for its folder when the next one is read. -/
namespace TileWorld.Reference

/-- A segment that names a folder or a file. -/
structure IsOrdinary (segment : List Char) : Prop where
  ne_nil : segment ≠ []
  flat : '/' ∉ segment
  ne_here : segment ≠ ['.']
  ne_parent : segment ≠ ['.', '.']

instance (segment : List Char) : Decidable (IsOrdinary segment) :=
  decidable_of_iff (segment ≠ [] ∧ '/' ∉ segment ∧ segment ≠ ['.'] ∧ segment ≠ ['.', '.'])
    ⟨fun ⟨hne, hflat, hhere, hparent⟩ => ⟨hne, hflat, hhere, hparent⟩,
      fun h => ⟨h.ne_nil, h.flat, h.ne_here, h.ne_parent⟩⟩

variable {root segments kept entered : List (List Char)} {segment : List Char}

/-! ### One segment -/

theorem IsOrdinary.step (h : IsOrdinary segment) (folders : List (List Char)) :
    step folders segment = segment :: folders := by
  rw [Reference.step, if_neg (not_or.mpr ⟨h.ne_nil, h.ne_here⟩), if_neg h.ne_parent]

/-- A segment is gone into, or leads back, or leads nowhere. -/
theorem step_cases (hflat : '/' ∉ segment) (folders : List (List Char)) :
    IsOrdinary segment ∨ step folders segment = folders.tail ∨ step folders segment = folders := by
  unfold step
  split
  next => exact Or.inr (Or.inr rfl)
  next hplain =>
    obtain ⟨hne, hhere⟩ := not_or.mp hplain
    split
    next => exact Or.inr (Or.inl rfl)
    next hparent => exact Or.inl ⟨hne, hflat, hhere, hparent⟩

/-! ### Walks -/

/-- Where a walk from the folder `root` along segments may end: in an outer folder of the root, or
further inside by names from the walk, in their order. -/
structure Walked (root segments kept entered : List (List Char)) : Prop where
  outer : kept <+: root
  inner : entered.Sublist segments
  ordinary : ∀ part ∈ entered, IsOrdinary part

theorem Walked.concat (h : Walked root segments kept entered) (segment : List Char) :
    Walked root (segments ++ [segment]) kept entered where
  outer := h.outer
  inner := h.inner.trans (List.sublist_append_left segments [segment])
  ordinary := h.ordinary

theorem Walked.mem_or (h : Walked root segments kept entered) {part : List Char}
    (hpart : part ∈ kept ++ entered) : part ∈ root ∨ IsOrdinary part :=
  (List.mem_append.mp hpart).imp (fun hkept => h.outer.subset hkept) (h.ordinary part)

/-- One more segment goes on to a place where the walk may end. -/
theorem Walked.step (h : Walked root segments kept entered) (hflat : '/' ∉ segment) :
    ∃ kept' entered', Walked root (segments ++ [segment]) kept' entered' ∧
      Reference.step (kept ++ entered).reverse segment = (kept' ++ entered').reverse := by
  rcases step_cases hflat (kept ++ entered).reverse with hordinary | hback | hhere
  · refine ⟨kept, entered ++ [segment], ⟨h.outer, ?_, ?_⟩, ?_⟩
    · exact h.inner.append (List.Sublist.refl [segment])
    · exact List.forall_mem_append.mpr ⟨h.ordinary, List.forall_mem_singleton.mpr hordinary⟩
    · rw [hordinary.step, ← List.append_assoc, List.reverse_concat]
  · rw [hback, List.tail_reverse]
    -- The way back is out of the last name of the walk, else out of the root's own folders.
    rcases List.eq_nil_or_concat' entered with rfl | ⟨front, last, rfl⟩
    · refine ⟨kept.dropLast, [], ⟨?_, List.nil_sublist _, by simp⟩, by simp⟩
      exact (List.dropLast_prefix kept).trans h.outer
    · refine ⟨kept, front, ⟨h.outer, ?_, ?_⟩, ?_⟩
      · exact (List.sublist_append_left front [last]).trans (h.concat segment).inner
      · exact (List.forall_mem_append.mp h.ordinary).1
      · rw [← List.append_assoc, List.dropLast_concat]
  · exact ⟨kept, entered, h.concat segment, hhere⟩

theorem exists_walked (root segments : List (List Char)) (hflat : ∀ part ∈ segments, '/' ∉ part) :
    ∃ kept entered, Walked root segments kept entered ∧
      segments.foldl step root.reverse = (kept ++ entered).reverse := by
  induction segments using List.reverseRecOn with
  | nil =>
    exact ⟨root, [], ⟨List.prefix_refl root, List.Sublist.refl [], by simp⟩, by simp⟩
  | append_singleton segments segment ih =>
    obtain ⟨hflats, hflat⟩ := List.forall_mem_append.mp hflat
    obtain ⟨kept, entered, hwalked, hfold⟩ := ih hflats
    rw [List.foldl_append, List.foldl_cons, List.foldl_nil, hfold]
    exact hwalked.step (hflat segment List.mem_cons_self)

/-- A walk along ordinary segments goes into all of them. -/
theorem foldl_step_of_ordinary (h : ∀ part ∈ segments, IsOrdinary part)
    (folders : List (List Char)) : segments.foldl step folders = segments.reverse ++ folders := by
  induction segments generalizing folders with
  | nil => rfl
  | cons segment segments ih =>
    obtain ⟨hsegment, hsegments⟩ := List.forall_mem_cons.mp h
    rw [List.foldl_cons, hsegment.step, ih hsegments, List.reverse_cons, List.append_assoc,
      List.singleton_append]

/-! ### References -/

theorem split_toList_append (d r : String) :
    Text.split '/' (d ++ "/" ++ r).toList =
      Text.split '/' d.toList ++ Text.split '/' r.toList := by
  rw [String.toList_append, String.toList_append, List.append_assoc]
  exact Text.split_append_cons '/' d.toList r.toList

theorem join_join (base d r : String) {s : String} (hs : IsOrdinary s.toList) :
    join (join base (d ++ "/" ++ s)) r = join base (d ++ "/" ++ r) := by
  -- Both sides walk along `d`. The left one goes on to `s`, writes the path down and reads it again,
  -- and then takes `s` off as the name of a file.
  obtain ⟨kept, entered, hwalked, hfold⟩ :=
    exists_walked (Text.split '/' base.toList).dropLast (Text.split '/' d.toList)
      fun _ => Text.not_mem_of_mem_split
  have hfile : join base (d ++ "/" ++ s) =
      String.ofList (Text.join '/' (kept ++ entered ++ [s.toList])) := by
    rw [join, split_toList_append, Text.split_of_not_mem hs.flat, List.foldl_append, hfold,
      List.foldl_cons, List.foldl_nil, hs.step, List.reverse_cons, List.reverse_reverse]
  have hflat : ∀ part ∈ kept ++ entered ++ [s.toList], '/' ∉ part := by
    intro part hpart
    rcases List.mem_append.mp hpart with hfolder | hlast
    · rcases hwalked.mem_or hfolder with hbase | hordinary
      · exact Text.not_mem_of_mem_split ((List.dropLast_prefix _).subset hbase)
      · exact hordinary.flat
    · rw [List.mem_singleton.mp hlast]
      exact hs.flat
  have hsplit : Text.split '/' (join base (d ++ "/" ++ s)).toList =
      kept ++ entered ++ [s.toList] := by
    rw [hfile, String.toList_ofList]
    exact Text.split_join (by simp) hflat
  rw [join, hsplit, List.dropLast_concat, join, split_toList_append, List.foldl_append, hfold]

/-- A file and a reference read in its folder may be read as one reference. From a base of ordinary
segments a reference leads to outer folders of the base and names of its own, and one of ordinary
segments to just the base's folder and all its names. -/
theorem join_composes_inside_root :
    (∀ base d r s : String, IsOrdinary s.toList →
      join (join base (d ++ "/" ++ s)) r = join base (d ++ "/" ++ r)) ∧
      (∀ base reference : String, (∀ part ∈ Text.split '/' base.toList, IsOrdinary part) →
        ∃ kept entered, kept <+: (Text.split '/' base.toList).dropLast ∧
          entered.Sublist (Text.split '/' reference.toList) ∧
          (∀ part ∈ kept ++ entered, IsOrdinary part) ∧
          join base reference = String.ofList (Text.join '/' (kept ++ entered))) ∧
      ∀ base reference : String, (∀ part ∈ Text.split '/' reference.toList, IsOrdinary part) →
        join base reference = String.ofList (Text.join '/'
          ((Text.split '/' base.toList).dropLast ++ Text.split '/' reference.toList)) := by
  refine ⟨fun base d r s hs => join_join base d r hs, ?_, ?_⟩
  · intro base reference hbase
    obtain ⟨kept, entered, hwalked, hfold⟩ :=
      exists_walked (Text.split '/' base.toList).dropLast (Text.split '/' reference.toList)
        fun _ => Text.not_mem_of_mem_split
    refine ⟨kept, entered, hwalked.outer, hwalked.inner, ?_, ?_⟩
    · intro part hpart
      rcases hwalked.mem_or hpart with hfolder | hordinary
      · exact hbase part ((List.dropLast_prefix _).subset hfolder)
      · exact hordinary
    · rw [join, hfold, List.reverse_reverse]
  · intro base reference hreference
    rw [join, foldl_step_of_ordinary hreference, List.reverse_append, List.reverse_reverse,
      List.reverse_reverse]

/-- A pad beside the cliffs and what it refers to, a reference that climbs past the root, and a plain
one. -/
theorem join_composes_inside_root_cliffs :
    join (join "fg/cliffs.json" ("../props" ++ "/" ++ "pad.json")) "..//art/./pad.png" = "art/pad.png" ∧
      (∃ kept entered, entered.Sublist (Text.split '/' "../../../props//pad.json".toList) ∧
        (∀ part ∈ kept ++ entered, IsOrdinary part) ∧
        String.ofList (Text.join '/' (kept ++ entered)) = "props/pad.json") ∧
      join "fg/cliffs.json" "near/rock.json" = "fg/near/rock.json" := by
  obtain ⟨hcompose, hinside, hplain⟩ := join_composes_inside_root
  refine ⟨?_, ?_, ?_⟩
  · have hread := hcompose "fg/cliffs.json" "../props" "..//art/./pad.png" "pad.json" (by decide +kernel)
    exact hread.trans (by decide +kernel)
  · obtain ⟨kept, entered, -, hinner, hordinary, hjoin⟩ :=
      hinside "fg/cliffs.json" "../../../props//pad.json" (by decide +kernel)
    have hpad : join "fg/cliffs.json" "../../../props//pad.json" = "props/pad.json" := by
      decide +kernel
    exact ⟨kept, entered, hinner, hordinary, hjoin.symm.trans hpad⟩
  · exact (hplain "fg/cliffs.json" "near/rock.json" (by decide +kernel)).trans (by decide +kernel)

end TileWorld.Reference

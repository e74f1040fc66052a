import Mathlib
import TileWorld.Ini
import TileWorld.Proofs.ReferencePaths

/-! Settings text that is written and read back. Names of sections and keys come back as they are; a
value comes back up to the first character that opens a comment. Statements about settings use the
format through `Ini.parse_renderSections`, `Ini.Document.find?_of_mem` and
`Ini.uncommented_eq_self_iff`. -/
namespace TileWorld

namespace Text

/-! ### Lines -/

theorem split_append_sep {sep : Char} {cs : List Char} (h : sep ∉ cs) (rest : List Char) :
    split sep (cs ++ sep :: rest) = cs :: split sep rest := by
  rw [split_append_cons, split_of_not_mem h, List.singleton_append]

theorem split_flatMap_ended {sep : Char} {parts : List (List Char)} (h : ∀ cs ∈ parts, sep ∉ cs) :
    split sep (parts.flatMap (· ++ [sep])) = parts ++ [[]] := by
  induction parts with
  | nil => rfl
  | cons cs parts ih =>
    rw [List.flatMap_cons, List.append_assoc, List.singleton_append,
      split_append_sep (h cs List.mem_cons_self), ih fun cs' h' => h cs' (List.mem_cons_of_mem _ h'),
      List.cons_append]

/-- Lines that are each ended by a line feed are the lines of the text. -/
theorem lines_flatMap_ended {parts : List (List Char)} (h : ∀ cs ∈ parts, '\n' ∉ cs)
    (hreturn : ∀ cs ∈ parts, cs.getLast? ≠ some '\r') : lines (parts.flatMap (· ++ ['\n'])) = parts := by
  rw [lines]
  simp only [split_flatMap_ended h, List.dropLast_concat, List.getLast?_concat]
  exact (List.map_congr_left fun cs hcs => if_neg (hreturn cs hcs)).trans (List.map_id _)

/-! ### White space at the ends -/

/-- A text without white space around it. -/
structure Trimmed (cs : List Char) : Prop where
  head : ∀ c ∈ cs.head?, isBlank c = false
  last : ∀ c ∈ cs.getLast?, isBlank c = false

theorem trimEnd_eq (cs : List Char) : trimEnd cs = cs.rdropWhile isBlank :=
  rfl

theorem trimStart_of_head {cs : List Char} (h : ∀ c ∈ cs.head?, isBlank c = false) :
    trimStart cs = cs := by
  cases cs with
  | nil => rfl
  | cons c cs =>
    rw [trimStart, List.dropWhile_cons_of_neg]
    rw [h c rfl]
    exact Bool.false_ne_true

theorem trimEnd_of_last {cs : List Char} (h : ∀ c ∈ cs.getLast?, isBlank c = false) :
    trimEnd cs = cs := by
  rw [← List.head?_reverse] at h
  have := trimStart_of_head h
  rw [trimStart] at this
  rw [trimEnd, this, List.reverse_reverse]

theorem Trimmed.trim_eq {cs : List Char} (h : Trimmed cs) : trim cs = cs := by
  rw [trim, trimStart_of_head h.head, trimEnd_of_last h.last]

/-- White space is not taken off beyond a character that is none. -/
theorem trimEnd_append_cons {c : Char} (hc : isBlank c = false) (cs ds : List Char) :
    trimEnd (cs ++ c :: ds) = cs ++ c :: trimEnd ds := by
  have hstop : ¬ isBlank c = true := by
    rw [hc]
    exact Bool.false_ne_true
  rw [trimEnd, trimEnd, List.reverse_append, List.reverse_cons, List.append_assoc, List.dropWhile_append]
  split
  next h =>
    rw [List.isEmpty_iff] at h
    rw [h, List.singleton_append, List.dropWhile_cons_of_neg hstop]
    simp
  next => simp

theorem trimEnd_trimEnd (cs : List Char) : trimEnd (trimEnd cs) = trimEnd cs := by
  rw [trimEnd, trimEnd, List.reverse_reverse, List.dropWhile_idempotent]

theorem trimEnd_isPrefix (cs : List Char) : trimEnd cs <+: cs := by
  rw [trimEnd_eq]
  exact List.rdropWhile_prefix _ _

theorem head?_trimEnd {cs : List Char} {c : Char} (h : c ∈ (trimEnd cs).head?) : c ∈ cs.head? := by
  obtain ⟨rest, hrest⟩ := trimEnd_isPrefix cs
  cases hcs : trimEnd cs with
  | nil =>
    rw [hcs] at h
    cases h
  | cons d ds =>
    rw [hcs] at h hrest
    rw [← hrest]
    exact h

end Text

namespace Ini

/-- The part of a value that is read: up to the first character that opens a comment, and without
the white space before it. -/
def uncommented (value : List Char) : List Char :=
  Text.trimEnd (value.takeWhile fun c => !isComment c)

/-- A name made of small letters and underscores, as sections and keys have it. -/
structure IsName (name : List Char) : Prop where
  ne_nil : name ≠ []
  letters : ∀ c ∈ name, c.isLower = true ∨ c = '_'

/-- A value that stands in one line. -/
structure IsValue (value : List Char) : Prop extends Text.Trimmed value where
  oneLine : '\n' ∉ value

/-- What the characters of a name are not. -/
theorem IsName.not_special {name : List Char} (h : IsName name) {c : Char} (hc : c ∈ name) :
    Text.isBlank c = false ∧ isComment c = false ∧ isDelimiter c = false ∧ c ≠ '[' ∧ c ≠ ']' ∧ c ≠ '\n' ∧
      c.toLower = c := by
  have hrange : (97 ≤ c.toNat ∧ c.toNat ≤ 122) ∨ c = '_' := (h.letters c hc).imp_left fun hl => by
    simpa [Char.isLower, UInt32.le_iff_toNat_le] using hl
  rcases hrange with ⟨hlow, hhigh⟩ | rfl
  · have hne {d : Char} (hd : d.toNat < 97) : c ≠ d := by
      rintro rfl
      omega
    refine ⟨?_, ?_, ?_, hne (by decide), hne (by decide), hne (by decide), ?_⟩
    · simp only [Text.isBlank, Bool.or_eq_false_iff, Bool.and_eq_false_iff, decide_eq_false_iff_not]
      omega
    · simp [isComment, hne (show ';'.toNat < 97 by decide), hne (show '#'.toNat < 97 by decide)]
    · simp [isDelimiter, hne (show '='.toNat < 97 by decide), hne (show ':'.toNat < 97 by decide)]
    · rw [Char.toLower, dif_neg]
      simp only [UInt32.le_iff_toNat_le]
      change ¬ (65 ≤ c.toNat ∧ c.toNat ≤ 90)
      omega
  · decide

theorem IsName.lower_eq {name : List Char} (h : IsName name) : Text.lower name = name :=
  (List.map_congr_left fun _ hc => (h.not_special hc).2.2.2.2.2.2).trans (List.map_id _)

theorem IsName.trimmed {name : List Char} (h : IsName name) : Text.Trimmed name :=
  ⟨fun _ hc => (h.not_special (List.mem_of_mem_head? hc)).1,
    fun _ hc => (h.not_special (List.mem_of_mem_getLast? hc)).1⟩

/-- The line of a key. -/
def keyLine (key value : List Char) : List Char :=
  key ++ '=' :: value

/-- The line that opens a section. -/
def sectionLine (name : List Char) : List Char :=
  '[' :: (name ++ [']'])

theorem head?_append_of_isName {name rest : List Char} (h : IsName name) {c : Char}
    (hc : c ∈ (name ++ rest).head?) : c ∈ name := by
  obtain ⟨d, ds, hds⟩ := List.exists_cons_of_ne_nil h.ne_nil
  rw [hds, List.cons_append, List.head?_cons] at hc
  rw [hds, ← Option.mem_some.mp hc]
  exact List.mem_cons_self

theorem trimmed_keyLine {key value : List Char} (hkey : IsName key) (hvalue : Text.Trimmed value) :
    Text.Trimmed (keyLine key value) := by
  refine ⟨fun c hc => (hkey.not_special (head?_append_of_isName hkey hc)).1, fun c hc => ?_⟩
  rw [keyLine, List.getLast?_append, List.getLast?_cons, Option.mem_def] at hc
  cases hlast : value.getLast? with
  | none =>
    rw [hlast] at hc
    obtain rfl : '=' = c := by simpa using hc
    decide
  | some d =>
    rw [hlast] at hc
    obtain rfl : d = c := by simpa using hc
    exact hvalue.last d hlast

theorem content_keyLine {key value : List Char} (hkey : IsName key) (hvalue : Text.Trimmed value) :
    content (keyLine key value) = keyLine key (uncommented value) := by
  have hplain : ∀ c ∈ key ++ ['='], (!isComment c) = true := by
    intro c hc
    rcases List.mem_append.mp hc with hc | hc
    · rw [(hkey.not_special hc).2.1]
      rfl
    · rw [List.mem_singleton.mp hc]
      decide
  have htake : (keyLine key value).takeWhile (fun c => !isComment c) =
      keyLine key (value.takeWhile fun c => !isComment c) := by
    rw [keyLine, List.append_cons, List.takeWhile_append_of_pos hplain, keyLine, ← List.append_cons]
  have hhead : ∀ c ∈ (keyLine key (value.takeWhile fun c => !isComment c)).head?, Text.isBlank c = false :=
    fun c hc => (hkey.not_special (head?_append_of_isName hkey hc)).1
  rw [content, (trimmed_keyLine hkey hvalue).trim_eq, htake, Text.trim, Text.trimStart_of_head hhead]
  exact Text.trimEnd_append_cons (by decide) _ _

theorem keyValue_keyLine {key : List Char} (hkey : IsName key) (value : List Char) :
    keyValue (keyLine key value) = (key, some (Text.trim value)) := by
  have hplain : ∀ c ∈ key, (!isDelimiter c) = true := by
    intro c hc
    rw [(hkey.not_special hc).2.2.1]
    rfl
  have htake : (keyLine key value).takeWhile (fun c => !isDelimiter c) = key := by
    rw [keyLine, List.takeWhile_append_of_pos hplain]
    simp [isDelimiter]
  have hdrop : (keyLine key value).dropWhile (fun c => !isDelimiter c) = '=' :: value := by
    rw [keyLine, List.dropWhile_append_of_pos hplain]
    simp [isDelimiter]
  rw [keyValue, htake, hdrop, hkey.trimmed.trim_eq, hkey.lower_eq]

/-- A value without white space in front has none after a comment is cut off, either. -/
theorem trim_uncommented {value : List Char} (hvalue : Text.Trimmed value) :
    Text.trim (uncommented value) = uncommented value := by
  have hhead : ∀ c ∈ (uncommented value).head?, Text.isBlank c = false := by
    intro c hc
    have hc := Text.head?_trimEnd hc
    cases value with
    | nil => cases hc
    | cons d ds =>
      by_cases hd : isComment d
      · simp [hd] at hc
      · simp [hd] at hc
        exact hvalue.head c (by simp [hc])
  rw [Text.trim, Text.trimStart_of_head hhead, uncommented, Text.trimEnd_trimEnd]

/-- A value is read as it is exactly if nothing in it opens a comment. -/
theorem uncommented_eq_self_iff {value : List Char} (hvalue : Text.Trimmed value) :
    uncommented value = value ↔ ∀ c ∈ value, isComment c = false := by
  constructor
  · intro heq c hc
    have hfront := Text.trimEnd_isPrefix (value.takeWhile fun c => !isComment c)
    rw [← uncommented, heq] at hfront
    have hall := hfront.subset hc
    simpa using List.mem_takeWhile_imp hall
  · intro hplain
    have htake : value.takeWhile (fun c => !isComment c) = value := by
      rw [List.takeWhile_eq_self_iff]
      intro c hc
      rw [hplain c hc]
      rfl
    rw [uncommented, htake, Text.trimEnd_of_last hvalue.last]

theorem readLines_keyLine (n : ℕ) (current : List Char) (rest : List (List Char)) {key value : List Char}
    (hkey : IsName key) (hvalue : Text.Trimmed value) :
    readLines n current (keyLine key value :: rest) =
      (readLines (n + 1) current rest).map (⟨current, key, some (uncommented value)⟩ :: ·) := by
  obtain ⟨d, ds, rfl⟩ := List.exists_cons_of_ne_nil hkey.ne_nil
  have hd : d ≠ '[' := (hkey.not_special List.mem_cons_self).2.2.2.1
  have hkv := keyValue_keyLine hkey (uncommented value)
  rw [trim_uncommented hvalue] at hkv
  rw [readLines, content_keyLine hkey hvalue]
  split
  next heq => cases heq
  next heq => exact absurd (List.cons.inj heq).1 hd
  next => rw [hkv]

theorem trimmed_sectionLine (name : List Char) : Text.Trimmed (sectionLine name) := by
  refine ⟨fun c hc => ?_, fun c hc => ?_⟩
  · obtain rfl := Option.some.inj hc
    decide
  · rw [sectionLine, ← List.cons_append, List.getLast?_concat] at hc
    obtain rfl := Option.some.inj hc
    decide

theorem content_sectionLine {name : List Char} (h : IsName name) :
    content (sectionLine name) = sectionLine name := by
  have htrim := trimmed_sectionLine name
  have hplain : (sectionLine name).takeWhile (fun c => !isComment c) = sectionLine name := by
    rw [List.takeWhile_eq_self_iff]
    intro c hc
    rw [sectionLine, List.mem_cons, List.mem_append, List.mem_singleton] at hc
    rcases hc with rfl | hc | rfl
    · decide
    · rw [(h.not_special hc).2.1]
      rfl
    · decide
  rw [content, htrim.trim_eq, hplain, htrim.trim_eq]

theorem readLines_sectionLine (n : ℕ) (current : List Char) (rest : List (List Char)) {name : List Char}
    (h : IsName name) : readLines n current (sectionLine name :: rest) = readLines (n + 1) name rest := by
  have hbracket : beforeBracket? (name ++ [']']) = some name := by
    simp [beforeBracket?]
  rw [readLines, content_sectionLine h, sectionLine]
  simp only [hbracket, h.trimmed.trim_eq, h.lower_eq]

/-! ### Sections -/

/-- A section to be written, its name and its keys with their values. -/
abbrev Section :=
  String × List (String × String)

/-- Sections whose names can be read, with keys and values that can. -/
structure IsSection (s : Section) : Prop where
  name : IsName s.1.toList
  entries : ∀ e ∈ s.2, IsName e.1.toList ∧ IsValue e.2.toList

def sectionLines (s : Section) : List (List Char) :=
  sectionLine s.1.toList :: s.2.map fun e => keyLine e.1.toList e.2.toList

/-- What is read of a section. -/
def readEntries (s : Section) : Document :=
  s.2.map fun e => ⟨s.1.toList, e.1.toList, some (uncommented e.2.toList)⟩

theorem toList_renderSection (s : Section) :
    (renderSection s.1 s.2).toList = (sectionLines s).flatMap (· ++ ['\n']) := by
  obtain ⟨name, entries⟩ := s
  have hfirst : ("[" ++ name ++ "]\n").toList = sectionLine name.toList ++ ['\n'] := by simp [sectionLine]
  rw [renderSection, sectionLines, List.flatMap_cons, ← hfirst]
  generalize "[" ++ name ++ "]\n" = text
  induction entries generalizing text with
  | nil => simp
  | cons e entries ih =>
    rw [List.foldl_cons, ih]
    simp [keyLine]

theorem readLines_keyLines (n : ℕ) (current : List Char) (rest : List (List Char))
    {entries : List (String × String)} (h : ∀ e ∈ entries, IsName e.1.toList ∧ IsValue e.2.toList) :
    readLines n current ((entries.map fun e => keyLine e.1.toList e.2.toList) ++ rest) =
      (readLines (n + entries.length) current rest).map
        ((entries.map fun e => ⟨current, e.1.toList, some (uncommented e.2.toList)⟩) ++ ·) := by
  induction entries generalizing n with
  | nil =>
    rw [List.map_nil, List.nil_append, List.length_nil, Nat.add_zero]
    cases readLines n current rest <;> rfl
  | cons e entries ih =>
    obtain ⟨hkey, hvalue⟩ := h e List.mem_cons_self
    rw [List.map_cons, List.cons_append, readLines_keyLine _ _ _ hkey hvalue.toTrimmed,
      ih _ fun e' h' => h e' (List.mem_cons_of_mem _ h'), List.length_cons, Nat.add_right_comm,
      ← Nat.add_assoc]
    cases readLines (n + entries.length + 1) current rest <;> rfl

theorem readLines_sectionLines (n : ℕ) (current : List Char) {sections : List Section}
    (h : ∀ s ∈ sections, IsSection s) :
    readLines n current (sections.flatMap sectionLines) = .ok (sections.flatMap readEntries) := by
  induction sections generalizing n current with
  | nil => rfl
  | cons s sections ih =>
    obtain ⟨hname, hentries⟩ := h s List.mem_cons_self
    rw [List.flatMap_cons, sectionLines, List.cons_append, readLines_sectionLine _ _ _ hname,
      readLines_keyLines _ _ _ hentries, ih _ _ fun s' h' => h s' (List.mem_cons_of_mem _ h')]
    rfl

theorem oneLine_of_mem {sections : List Section} (h : ∀ s ∈ sections, IsSection s) {line : List Char}
    (hline : line ∈ sections.flatMap sectionLines) : '\n' ∉ line ∧ Text.Trimmed line := by
  obtain ⟨s, hs, hline⟩ := List.mem_flatMap.mp hline
  obtain ⟨hname, hentries⟩ := h s hs
  have hletters {name : List Char} (hname : IsName name) : '\n' ∉ name :=
    fun hc => (hname.not_special hc).2.2.2.2.2.1 rfl
  rcases List.mem_cons.mp hline with rfl | hline
  · refine ⟨?_, trimmed_sectionLine _⟩
    simp [sectionLine, hletters hname]
  · obtain ⟨e, he, rfl⟩ := List.mem_map.mp hline
    obtain ⟨hkey, hvalue⟩ := hentries e he
    refine ⟨?_, trimmed_keyLine hkey hvalue.toTrimmed⟩
    simp [keyLine, hletters hkey, hvalue.oneLine]

/-- Written sections are read as they are, but for what a comment takes away from a value. -/
theorem parse_renderSections {sections : List Section} (h : ∀ s ∈ sections, IsSection s) :
    parse (String.join (sections.map fun s => renderSection s.1 s.2)) =
      .ok (sections.flatMap readEntries) := by
  have htext : (String.join (sections.map fun s => renderSection s.1 s.2)).toList =
      (sections.flatMap sectionLines).flatMap (· ++ ['\n']) := by
    rw [String.toList_join, List.flatMap_map, List.flatMap_assoc]
    exact List.flatMap_congr fun s _ => toList_renderSection s
  have hreturn : ∀ line ∈ sections.flatMap sectionLines, line.getLast? ≠ some '\r' :=
    fun line hline hlast => absurd ((oneLine_of_mem h hline).2.last _ hlast) (by decide)
  rw [parse, htext, Text.lines_flatMap_ended (fun _ hline => (oneLine_of_mem h hline).1) hreturn,
    readLines_sectionLines _ _ h]

/-- In a document without a key that comes twice, every entry is found. -/
theorem Document.find?_of_mem {d : Document} (hd : (d.map fun e => (e.group, e.key)).Nodup)
    {group key : String} {value : Option (List Char)} (he : ⟨group.toList, key.toList, value⟩ ∈ d) :
    d.find? group key = value := by
  cases hfound : d.reverse.find? fun e => e.group = group.toList && e.key = key.toList with
  | none =>
    rw [List.find?_eq_none] at hfound
    exact absurd (by simp) (hfound _ (List.mem_reverse.mpr he))
  | some e =>
    have hkey := List.find?_some hfound
    rw [Bool.and_eq_true, decide_eq_true_iff, decide_eq_true_iff] at hkey
    have hmem := List.mem_reverse.mp (List.mem_of_find?_eq_some hfound)
    have heq := List.inj_on_of_nodup_map hd hmem he (by rw [hkey.1, hkey.2])
    rw [Document.find?, hfound, heq]
    rfl

end Ini

end TileWorld

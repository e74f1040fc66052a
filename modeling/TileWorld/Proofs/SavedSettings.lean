import TileWorld.Proofs.NumeralText
import TileWorld.Proofs.RenderedSections
import TileWorld.Proofs.WrittenFiles

/-! Settings that are saved and loaded again. All of them come back, but for what a folder's name has
from a comment character on, and for one time scale that is read as its neighbour. -/
namespace TileWorld

namespace Ini

/-- A value without white space and comment characters is read as it is. -/
theorem isValue_of_plain {value : List Char}
    (h : ∀ c ∈ value, Text.isBlank c = false ∧ isComment c = false) : IsValue value ∧ uncommented value = value := by
  have htrim : Text.Trimmed value :=
    ⟨fun c hc => (h c (List.mem_of_mem_head? hc)).1, fun c hc => (h c (List.mem_of_mem_getLast? hc)).1⟩
  refine ⟨⟨htrim, fun hc => absurd (h _ hc).1 (by decide)⟩, ?_⟩
  rw [uncommented_eq_self_iff htrim]
  exact fun c hc => (h c hc).2

end Ini

open Number

theorem plain_of_isDigit {c : Char} (h : c.isDigit = true) :
    Text.isBlank c = false ∧ Ini.isComment c = false := by
  have hrange : 48 ≤ c.toNat ∧ c.toNat ≤ 57 := by
    simpa [Char.isDigit, UInt32.le_iff_toNat_le] using h
  have hne {d : Char} (hd : d.toNat < 48 ∨ 57 < d.toNat) : c ≠ d := by
    rintro rfl
    omega
  constructor
  · simp only [Text.isBlank, Bool.or_eq_false_iff, Bool.and_eq_false_iff, decide_eq_false_iff_not]
    omega
  · simp [Ini.isComment, hne (d := ';') (by decide), hne (d := '#') (by decide)]

namespace Settings

variable {s s₂ : Settings} {d : Ini.Document}

/-- Settings whose folder can stand in a line and whose scale is a number, and not below zero. -/
structure IsPlain (s : Settings) : Prop where
  tilesetDir : Ini.IsValue s.tilesetDir.toList
  timeScale : IsNonneg s.timeScale

/-- The sections of the settings file. -/
def sections (s : Settings) : List Ini.Section :=
  [("animation",
      [("hold_threshold_ms", toString s.holdThresholdMs.toNat),
        ("zero_duration_holds", if s.zeroDurationHolds then "true" else "false"),
        ("time_scale", renderSingle s.timeScale)]),
    ("assets", [("tileset_dir", s.tilesetDir)])]

theorem render_eq (s : Settings) :
    s.render = String.join (s.sections.map fun s => Ini.renderSection s.1 s.2) := by
  simp [render, sections, String.join]

theorem plain_threshold (s : Settings) : ∀ c ∈ (toString s.holdThresholdMs.toNat).toList,
    Text.isBlank c = false ∧ Ini.isComment c = false := by
  intro c hc
  rw [Nat.toString_eq_ofList_toDigits, String.toList_ofList] at hc
  exact plain_of_isDigit (isDigit_toDigits c hc)

theorem plain_zeroHolds (s : Settings) : ∀ c ∈ (if s.zeroDurationHolds then "true" else "false").toList,
    Text.isBlank c = false ∧ Ini.isComment c = false := by
  cases s.zeroDurationHolds <;> simp [Text.isBlank, Ini.isComment]

theorem plain_timeScale (h : IsNonneg s.timeScale) : ∀ c ∈ (renderSingle s.timeScale).toList,
    Text.isBlank c = false ∧ Ini.isComment c = false := by
  intro c hc
  rcases mem_renderSingle h hc with hdigit | rfl | rfl
  · exact plain_of_isDigit hdigit
  · decide
  · decide

theorem isSection_sections (h : s.IsPlain) : ∀ group ∈ s.sections, Ini.IsSection group := by
  have hthreshold := (Ini.isValue_of_plain s.plain_threshold).1
  have hzeroHolds := (Ini.isValue_of_plain s.plain_zeroHolds).1
  have htimeScale := (Ini.isValue_of_plain (plain_timeScale h.timeScale)).1
  have hanimation : Ini.IsName "animation".toList := ⟨by simp, by simp⟩
  have hassets : Ini.IsName "assets".toList := ⟨by simp, by simp⟩
  intro group hgroup
  simp only [sections, List.mem_cons, List.not_mem_nil, or_false] at hgroup
  rcases hgroup with rfl | rfl
  · refine ⟨hanimation, ?_⟩
    simp only [List.forall_mem_cons]
    exact ⟨⟨⟨by simp, by simp⟩, hthreshold⟩, ⟨⟨by simp, by simp⟩, hzeroHolds⟩,
      ⟨⟨by simp, by simp⟩, htimeScale⟩, List.forall_mem_nil _⟩
  · refine ⟨hassets, ?_⟩
    simp only [List.forall_mem_cons]
    exact ⟨⟨⟨by simp, by simp⟩, h.tilesetDir⟩, List.forall_mem_nil _⟩

/-- What is read of the settings file. -/
def readSections (s : Settings) : Ini.Document :=
  s.sections.flatMap Ini.readEntries

theorem nodup_readSections (s : Settings) : (s.readSections.map fun e => (e.group, e.key)).Nodup := by
  simp only [readSections, sections, Ini.readEntries, List.flatMap_cons, List.flatMap_nil, List.map_cons,
    List.map_nil, List.append_nil, List.cons_append, List.nil_append]
  decide

/-! ### Reading, in whatever order the keys stand -/

theorem find?_of_perm {group key : String} {value : Option (List Char)} (hd : d.Perm s.readSections)
    (he : ⟨group.toList, key.toList, value⟩ ∈ s.readSections) : d.find? group key = value :=
  Ini.Document.find?_of_mem ((hd.map _).nodup_iff.mpr s.nodup_readSections) (hd.mem_iff.mpr he)

theorem readThreshold_of_perm (hd : d.Perm s.readSections) (s₂ : Settings) :
    readThreshold d s₂ = .ok { s₂ with holdThresholdMs := s.holdThresholdMs } := by
  have hfind : d.find? "animation" "hold_threshold_ms" =
      some (Ini.uncommented (toString s.holdThresholdMs.toNat).toList) :=
    find?_of_perm hd (.head _)
  have hlt := s.holdThresholdMs.toNat_lt
  have hread : readNat? 0xFFFFFFFFFFFFFFFF (toString s.holdThresholdMs.toNat).toList =
      some s.holdThresholdMs.toNat := by
    rw [Nat.toString_eq_ofList_toDigits, String.toList_ofList, readNat?_toDigits (by omega)]
  rw [readThreshold, hfind, (Ini.isValue_of_plain s.plain_threshold).2, Option.bind_some, hread]
  dsimp only
  rw [if_pos hlt, UInt32.ofNat_toNat]

theorem readZeroHolds_of_perm (hd : d.Perm s.readSections) (s₂ : Settings) :
    readZeroHolds d s₂ = .ok { s₂ with zeroDurationHolds := s.zeroDurationHolds } := by
  have hfind : d.find? "animation" "zero_duration_holds" =
      some (Ini.uncommented (if s.zeroDurationHolds then "true" else "false").toList) :=
    find?_of_perm hd (.tail _ (.head _))
  have hread : readBool? (if s.zeroDurationHolds then "true" else "false").toList =
      some s.zeroDurationHolds := by
    cases s.zeroDurationHolds <;> rfl
  rw [readZeroHolds, hfind, (Ini.isValue_of_plain s.plain_zeroHolds).2, Option.bind_some, hread]

theorem readTimeScale_of_perm (h : IsNonneg s.timeScale) (hd : d.Perm s.readSections) (s₂ : Settings) :
    readTimeScale d s₂ = .ok { s₂ with timeScale := Number.reread s.timeScale } := by
  have hfind : d.find? "animation" "time_scale" = some (Ini.uncommented (renderSingle s.timeScale).toList) :=
    find?_of_perm hd (.tail _ (.tail _ (.head _)))
  obtain ⟨n, hparse, ⟨hfinite, hneg⟩, hnarrow⟩ := exists_numeral_renderSingle h
  rw [readTimeScale, hfind, (Ini.isValue_of_plain (plain_timeScale h)).2, Option.bind_some, hparse]
  dsimp only
  rw [if_neg (by simp [hfinite, hneg]), hnarrow]

theorem readTilesetDir_of_perm (hd : d.Perm s.readSections) (s₂ : Settings) :
    readTilesetDir d s₂ =
      .ok { s₂ with tilesetDir := String.ofList (Ini.uncommented s.tilesetDir.toList) } := by
  have hfind : d.find? "assets" "tileset_dir" = some (Ini.uncommented s.tilesetDir.toList) :=
    find?_of_perm hd (.tail _ (.tail _ (.tail _ (.head _))))
  rw [readTilesetDir, hfind]

/-- The settings that come back. -/
def reread (s : Settings) : Settings :=
  { s with
    timeScale := Number.reread s.timeScale
    tilesetDir := String.ofList (Ini.uncommented s.tilesetDir.toList) }

theorem apply_of_perm (h : IsNonneg s.timeScale) (hd : d.Perm s.readSections) (hpath : s₂.path = s.path) :
    apply d readers s₂ = (none, s.reread) := by
  simp only [readers, apply, readThreshold_of_perm hd, readZeroHolds_of_perm hd, readTimeScale_of_perm h hd,
    readTilesetDir_of_perm hd, reread, hpath]

/-- A text with the sections of the settings file and their keys, each in any order. -/
def Arranges (text : String) (s : Settings) : Prop :=
  ∃ (groups : List Ini.Section) (order : List (String × String) → List (String × String)),
    groups.Perm s.sections ∧ (∀ entries, (order entries).Perm entries) ∧
      text = String.join (groups.map fun g => Ini.renderSection g.1 (order g.2))

theorem arranges_render (s : Settings) : Arranges s.render s :=
  ⟨s.sections, id, .refl _, fun _ => .refl _, s.render_eq⟩

theorem parse_of_arranges {text : String} (h : s.IsPlain) (ha : Arranges text s) :
    ∃ d, Ini.parse text = .ok d ∧ d.Perm s.readSections := by
  obtain ⟨groups, order, hgroups, horder, rfl⟩ := ha
  have hsection : ∀ g ∈ groups.map fun g => ((g.1, order g.2) : Ini.Section), Ini.IsSection g := by
    intro g hg
    obtain ⟨g', hg', rfl⟩ := List.mem_map.mp hg
    obtain ⟨hname, hentries⟩ := isSection_sections h g' (hgroups.mem_iff.mp hg')
    exact ⟨hname, fun e he => hentries e ((horder _).mem_iff.mp he)⟩
  have hparse := Ini.parse_renderSections hsection
  rw [List.map_map, List.flatMap_map] at hparse
  have hkeys : (groups.flatMap fun g => Ini.readEntries (g.1, order g.2)).Perm
      (groups.flatMap Ini.readEntries) :=
    List.Perm.flatMap_left _ fun g _ => (horder g.2).map _
  exact ⟨_, hparse, hkeys.trans (hgroups.flatMap_right _)⟩

/-- Whatever order a settings file has, the same settings come back from it. -/
theorem load_of_arranges {files : FileView} {text : String} (h : s.IsPlain)
    (hfile : files s.path = .ok text) (ha : Arranges text s) (hpath : s₂.path = s.path) : s₂.load files = (none, s.reread) := by
  obtain ⟨d, hparse, hd⟩ := parse_of_arranges h ha
  have hdocument : s₂.document files = .ok d := by
    rw [document, hpath, hfile]
    simp only [Except.mapError, bind, Except.bind, hparse]
  rw [load, hdocument]
  exact apply_of_perm h.timeScale hd hpath

theorem read_of_save {t t' : FileTree} (hsave : s.save t = .ok t') : t'.read s.path = .ok s.render := by
  refine FileTree.read_of_write (t := t) ?_
  rw [save] at hsave
  cases hw : t.write s.path s.render with
  | error e =>
    rw [hw] at hsave
    cases hsave
  | ok _ =>
    rw [hw] at hsave
    exact congrArg Except.ok (Except.ok.inj hsave)

theorem reread_eq_self_iff (h : s.IsPlain) : s.reread = s ↔
    (∀ c ∈ s.tilesetDir.toList, Ini.isComment c = false) ∧ s.timeScale.toBits ≠ 0x15ae43fd := by
  have hfields : s.reread = s ↔ Number.reread s.timeScale = s.timeScale ∧
      String.ofList (Ini.uncommented s.tilesetDir.toList) = s.tilesetDir := by
    cases s
    simp [reread]
  have hdir : String.ofList (Ini.uncommented s.tilesetDir.toList) = s.tilesetDir ↔
      Ini.uncommented s.tilesetDir.toList = s.tilesetDir.toList := by
    rw [← String.toList_inj, String.toList_ofList]
  rw [hfields, hdir, Ini.uncommented_eq_self_iff h.tilesetDir.toTrimmed, Number.reread_eq_self_iff, and_comm]

/-- Settings that were saved are loaded, whatever was there before. All of them come back but for the
part of the folder from a comment character on, and for the one scale whose shortest decimal names a
double halfway between two singles. The order in which the keys are written does not matter. -/
theorem load_of_save {t t' : FileTree} (h : s.IsPlain) (hsave : s.save t = .ok t')
    (hpath : s₂.path = s.path) :
    s₂.load t'.read = (none, s.reread) ∧
      (s₂.load t'.read = (none, s) ↔
        (∀ c ∈ s.tilesetDir.toList, c ≠ ';' ∧ c ≠ '#') ∧ s.timeScale.toBits ≠ 0x15ae43fd) ∧
      ∀ files text, files s.path = .ok text → Arranges text s → s₂.load files = (none, s.reread) := by
  have hload := load_of_arranges h (read_of_save hsave) s.arranges_render hpath
  refine ⟨hload, ?_, fun files text hfile ha => load_of_arranges h hfile ha hpath⟩
  rw [hload, Prod.mk.injEq, and_iff_right rfl, reread_eq_self_iff h]
  simp [Ini.isComment]

theorem exists_save {t : FileTree} (h : (s.save t).toOption.isSome = true) : ∃ t', s.save t = .ok t' := by
  cases hsave : s.save t with
  | error e =>
    rw [hsave] at h
    cases h
  | ok t' => exact ⟨t', rfl⟩

/-- Settings with the scale whose text, `0.00000000000000000000000007038531`, names a double halfway
between it and the next. -/
def halfway : Settings :=
  { timeScale := .ofBits 0x15ae43fd }

theorem isPlain_halfway : halfway.IsPlain := by
  refine ⟨⟨⟨by simp [halfway, Text.isBlank], by simp [halfway, Text.isBlank]⟩, by simp [halfway]⟩, ?_⟩
  rw [isNonneg_iff]
  decide

theorem load_of_save_halfway :
    halfway.IsPlain ∧ ∃ t', halfway.save (FileTree.ofFiles []) = .ok t' ∧
      ({} : Settings).load t'.read = (none, { timeScale := .ofBits 0x15ae43fe }) := by
  obtain ⟨t', hsave⟩ := exists_save (s := halfway) (t := FileTree.ofFiles []) (by decide)
  have hreread : halfway.reread = { timeScale := .ofBits 0x15ae43fe } := by decide
  refine ⟨isPlain_halfway, t', hsave, ?_⟩
  rw [← hreread]
  exact (load_of_save isPlain_halfway hsave (show ({} : Settings).path = halfway.path from rfl)).1

/-- Settings whose folder holds a character that opens a comment. -/
def commented : Settings :=
  { tilesetDir := "a#b" }

theorem isPlain_commented : commented.IsPlain := by
  refine ⟨⟨⟨by simp [commented, Text.isBlank], by simp [commented, Text.isBlank]⟩, by simp [commented]⟩, ?_⟩
  rw [isNonneg_iff]
  decide

/-- Not all that is saved is loaded again. -/
theorem exists_load_of_save_ne :
    ¬ ∀ (s s₂ : Settings) (t t' : FileTree), s.IsPlain → s.save t = .ok t' → s₂.path = s.path →
      s₂.load t'.read = (none, s) := by
  intro h
  obtain ⟨t', hsave⟩ := exists_save (s := commented) (t := FileTree.ofFiles []) (by decide)
  have hload := load_of_arranges isPlain_commented (read_of_save hsave) commented.arranges_render
    (show ({} : Settings).path = commented.path from rfl)
  rw [h commented {} _ _ isPlain_commented hsave rfl] at hload
  have hsame := (reread_eq_self_iff isPlain_commented).mp (congrArg Prod.snd hload).symm
  exact absurd (hsame.1 '#' (by decide)) (by decide)

end Settings

end TileWorld

import Mathlib
import TileWorld.Proofs.BrokenReferences
import TileWorld.Proofs.EntityRun
import TileWorld.Proofs.PrintedLines
import TileWorld.Proofs.ShapeRefresh

/-! What passes an inspection can be simulated. A simulation spawns one tile and ticks; no tick takes
its tile or its shapes away, so that the run is never cut short and every entry names a published
tile. The entries are the printed lines, unless an id of a tileset holds a line feed. -/
namespace TileWorld

namespace World

/-- An entity is there that shows a published tile and has shapes. -/
def Presents (w : World) (i : EntityId) : Prop :=
  ∃ e, w.entity? i = some e ∧ e.Placed ∧ e.Consistent w.store

variable {w : World} {i : EntityId}

theorem presents_of_spawn (hs : w.store.Closed) {tileset : String} {tile : TileId}
    {place : Placement} {w' : World} (h : w.spawn tileset tile place = .ok (i, w')) :
    w'.Presents i ∧ w'.store = w.store := by
  obtain ⟨e, he, hi, hstore, _⟩ := entity?_of_spawn h
  refine ⟨⟨e, hi, (Entity.spawn_placed he).1, ?_⟩, hstore⟩
  rw [hstore]
  exact Entity.spawn_consistent hs he

theorem Presents.tick (h : w.Presents i) (hs : w.store.Closed) (ms : UInt32) :
    (w.tick ms).1.Presents i := by
  obtain ⟨e, hi, hplaced, hconsistent⟩ := h
  refine ⟨(e.pass w.store (w.tickMs ms)).1, ?_, ?_, ?_⟩
  · rw [entity?_tick, hi, Option.map_some]
  · exact Entity.pass_placed hplaced w.store (w.tickMs ms)
  · exact hconsistent.pass hs (w.tickMs ms)

end World

namespace Command

/-- The ticks of a simulation from the `n`-th on; the very first takes no time. -/
def stepTicks (stepMs : UInt32) (n count : Nat) : List Action :=
  (List.range' n count).map fun k => .tick (if k = 0 then 0 else stepMs)

theorem stepTicks_succ (stepMs : UInt32) (n count : Nat) :
    stepTicks stepMs n (count + 1) =
      .tick (if n = 0 then 0 else stepMs) :: stepTicks stepMs (n + 1) count := by
  rw [stepTicks, List.range'_succ, List.map_cons, stepTicks]

theorem run_stepTicks_store (w : World) (stepMs : UInt32) (n count : Nat) :
    (w.run (stepTicks stepMs n count)).store = w.store := by
  induction count generalizing w n with
  | zero => rfl
  | succ count ih =>
    rw [stepTicks_succ]
    exact ih (w.act _) (n + 1)

/-- An entry on an entity of a world: after the time, in six places or more, it names the published
tile that the entity shows, and then lists the shapes. -/
structure Reports (w : World) (i : EntityId) (timeMs : Nat) (line : String) : Prop where
  state : ∃ e shown shapes source, w.entity? i = some e ∧ e.tile.map (·.value) = some shown ∧
    e.shapes = some shapes ∧ w.store.lookup shown.tileset shown.tile = .ok source ∧
    line =
      "t=" ++ String.ofList (List.replicate (6 - (toString timeMs).length) ' ') ++ toString timeMs ++
        "ms  " ++ shown.tileset ++ ":" ++ toString shown.tile.toNat ++ "  [" ++
          ", ".intercalate (shapes.map renderShape) ++ "]"

/-- A line feed in an entry is one in the id of a published tileset, and no entry ends in a carriage
return. -/
theorem Reports.plain {w : World} {i : EntityId} {timeMs : Nat} {line : String}
    (h : Reports w i timeMs line) (hids : ∀ t ∈ w.store.tilesets, '\n' ∉ t.id.toList) :
    '\n' ∉ line.toList ∧ line.toList.getLast? ≠ some '\r' := by
  obtain ⟨_, shown, shapes, _, -, -, -, hl, hline⟩ := h.state
  rw [← renderState_eq] at hline
  obtain ⟨t, ht, -⟩ := (Store.lookup_eq_ok_iff ..).mp hl
  rw [hline, newline_mem_renderState_iff, getLast?_renderState, ← Store.find?_id ht]
  exact ⟨hids t (Store.find?_mem ht), by decide⟩

theorem simulateTicks_succ {w : World} {i : EntityId} (stepMs : UInt32) (count n : Nat)
    (h : (w.act (.tick (if n = 0 then 0 else stepMs))).Presents i) :
    let w' := w.act (.tick (if n = 0 then 0 else stepMs))
    ∃ line, Reports w' i (n * stepMs.toNat) line ∧
      simulateTicks stepMs i (count + 1) n w =
        line :: simulateTicks stepMs i count (n + 1) w' := by
  intro w'
  obtain ⟨e, hi, hplaced, hconsistent⟩ := h
  obtain ⟨tile, source, htile, hl⟩ := hconsistent.tile
  obtain ⟨shapes, hshapes⟩ := hplaced.shapes
  refine ⟨renderState (n * stepMs.toNat) tile.value shapes, ⟨e, tile.value, shapes, source, hi, ?_,
    hshapes, hl, renderState_eq ..⟩, ?_⟩
  · rw [htile, Option.map_some]
  · have hi' : (w.tick (if n = 0 then 0 else stepMs)).1.entity? i = some e := hi
    cases e
    cases htile
    cases hshapes
    rw [simulateTicks, hi']
    rfl

/-- As long as the entity is presented no tick goes without its line, which reports the world that
the ticks up to it lead to. -/
theorem simulateTicks_reports {w : World} {i : EntityId} (hs : w.store.Closed) (h : w.Presents i)
    (stepMs : UInt32) (count n : Nat) :
    (simulateTicks stepMs i count n w).length = count ∧
      ∀ k < count, ∃ line, (simulateTicks stepMs i count n w)[k]? = some line ∧
        Reports (w.run (stepTicks stepMs n (k + 1))) i ((n + k) * stepMs.toNat) line := by
  induction count generalizing w n with
  | zero =>
    refine ⟨rfl, ?_⟩
    intro k hk
    cases hk
  | succ count ih =>
    let w' := w.act (.tick (if n = 0 then 0 else stepMs))
    have hpresents : w'.Presents i := h.tick hs _
    obtain ⟨line, hline, hticks⟩ := simulateTicks_succ stepMs count n hpresents
    obtain ⟨hlength, hrest⟩ := ih (w := w') hs hpresents (n + 1)
    rw [hticks]
    refine ⟨by rw [List.length_cons, hlength], ?_⟩
    intro k hk
    -- The first line reports the world after one tick, and the rest those after that one.
    rw [stepTicks_succ]
    cases k with
    | zero => exact ⟨line, rfl, hline⟩
    | succ k =>
      obtain ⟨later, hlater, hreports⟩ := hrest k (Nat.lt_of_succ_lt_succ hk)
      refine ⟨later, hlater, ?_⟩
      rw [show n + (k + 1) = n + 1 + k by omega]
      exact hreports

theorem world_eq_ok_iff (settings : Settings) (view : FileView) (files : List String) (w : World) :
    world settings view files = .ok w ↔
      ∃ ids, (World.ofSettings settings).loadFiles view files = (.ok ids, w) := by
  simp only [world]
  split
  next ids w' h => simp [h]
  next e w' h => simp [h]

theorem run_eq_ok_iff (view : FileView) (i : Invocation) (o : Outcome) :
    run view i = .ok o ↔ ∃ settings w, Command.settings view i.config = .ok settings ∧
      world settings view i.files = .ok w ∧
      (match i.command with
        | .inspect => .ok (inspectWorld w)
        | .simulate s => simulateWorld s w : Except Error Outcome) = .ok o := by
  simp only [run, bind_eq_ok_iff]
  constructor
  · rintro ⟨settings, hsettings, w, hw, h⟩
    exact ⟨settings, w, hsettings, hw, h⟩
  · rintro ⟨settings, w, hsettings, hw, h⟩
    exact ⟨settings, hsettings, w, hw, h⟩

theorem inspectWorld_code (w : World) :
    (inspectWorld w).code = 0 ↔ w.store.brokenReferences = [] := by
  simp only [inspectWorld]
  split <;> simp_all [List.isEmpty_iff]

/-- The world of a command is one that a run reaches, so its store is in order. -/
theorem world_orderly {settings : Settings} {view : FileView} {files : List String} {w : World}
    (h : world settings view files = .ok w) : w.store.Orderly := by
  obtain ⟨ids, hload⟩ := (world_eq_ok_iff ..).mp h
  have hw : w = (World.ofSettings settings).run [.loadFiles view files] := by
    rw [World.run_singleton, World.act, hload]
  rw [hw]
  exact World.run_orderly settings _

/-- When an inspection finds nothing broken, then with the same settings and files every tile of
every tileset can be simulated, anywhere and for any time. The simulation makes one entry more than
it has ticks, and the `n`-th reports, for `n` times the step, the published tile that the entity then
shows. If no tileset has a line feed in its id, these entries are the lines that are printed. -/
theorem run_simulate_of_inspect (view : FileView) (config : Option String) (files : List String)
    (o : Outcome) (h : run view ⟨config, .inspect, files⟩ = .ok o) (hcode : o.code = 0) :
    ∃ settings w, Command.settings view config = .ok settings ∧
      world settings view files = .ok w ∧
      ∀ t ∈ w.store.tilesets, ∀ s : Simulation, s.tileset = t.id → t.contains s.tile = true →
        ∃ played i spawned, run view ⟨config, .simulate s, files⟩ = .ok played ∧ played.code = 0 ∧
          w.spawn s.tileset s.tile s.place = .ok (i, spawned) ∧
          played.lines.length = s.ticks.toNat + 1 ∧
          (∀ n ≤ s.ticks.toNat, ∃ line, played.lines[n]? = some line ∧
            Reports (spawned.run (stepTicks s.stepMs 0 (n + 1))) i (n * s.stepMs.toNat) line) ∧
          ((∀ u ∈ w.store.tilesets, '\n' ∉ u.id.toList) →
            (Text.lines played.text.toList).map String.ofList = played.lines) := by
  obtain ⟨settings, w, hsettings, hw, ho⟩ := (run_eq_ok_iff ..).mp h
  obtain rfl := Except.ok.inj ho
  have hbroken : w.store.brokenReferences = [] := (inspectWorld_code w).mp hcode
  have hs : w.store.Orderly := world_orderly hw
  refine ⟨settings, w, hsettings, hw, ?_⟩
  intro t ht s htileset hcontains
  obtain ⟨tile, hfound⟩ := Option.isSome_iff_exists.mp hcontains
  have hl : w.store.lookup s.tileset s.tile = .ok tile :=
    (Store.lookup_eq_ok_iff ..).mpr ⟨t, (Store.find?_eq_some_iff ..).mpr ⟨ht, htileset.symm⟩, hfound⟩
  obtain ⟨i, spawned, hspawn⟩ : ∃ i spawned, w.spawn s.tileset s.tile s.place = .ok (i, spawned) := by
    cases hspawn : w.spawn s.tileset s.tile s.place with
    | ok r => exact ⟨r.1, r.2, rfl⟩
    | error e =>
      -- A published tile fails to spawn only with an error of the listing, which is empty.
      have hfails := (onSuccess_eq_error_iff ..).mp hspawn
      have hlisted := ((World.add_eq_error_iff_listed hs hl s.place e).mp hfails).2
      rw [hbroken] at hlisted
      cases hlisted
  obtain ⟨hpresents, hstore⟩ := World.presents_of_spawn hs.closed hspawn
  have hclosed : spawned.store.Closed := hstore ▸ hs.closed
  obtain ⟨hlength, hlines⟩ :=
    simulateTicks_reports hclosed hpresents s.stepMs (s.ticks.toNat + 1) 0
  have hreports (n : ℕ) (hn : n ≤ s.ticks.toNat) := hlines n (Nat.lt_succ_of_le hn)
  simp only [Nat.zero_add] at hreports
  refine ⟨⟨_, 0⟩, i, spawned, (run_eq_ok_iff ..).mpr ⟨settings, w, hsettings, hw, ?_⟩, rfl, hspawn,
    hlength, hreports, ?_⟩
  · simp only [simulateWorld, hspawn]
    rfl
  · intro hids
    have hplain (line : String) (hm : line ∈ simulateTicks s.stepMs i (s.ticks.toNat + 1) 0 spawned) :
        '\n' ∉ line.toList ∧ line.toList.getLast? ≠ some '\r' := by
      obtain ⟨n, hn, rfl⟩ := List.getElem_of_mem hm
      obtain ⟨line', hline', hr⟩ := hreports n (by omega)
      obtain rfl := Option.some.inj ((List.getElem?_eq_getElem hn).symm.trans hline')
      -- Ticks publish nothing, so the ids are those of the inspected store.
      refine hr.plain fun u hu => hids u ?_
      rwa [run_stepTicks_store, hstore] at hu
    exact Outcome.lines_text (fun line hm => (hplain line hm).1) fun line hm => (hplain line hm).2

/-- Without settings a single file makes a world of its tileset alone. -/
theorem run_of_file {view : FileView} {path text : String} {source : Authored.Tileset} {t : Tileset}
    (hdefault : view ({} : Settings).path = .error .notFound) (hfile : view path = .ok text)
    (hsource : Authored.Tileset.parse? text = some source)
    (hload : Tileset.load (Path.tilesetId ({} : Settings).tilesetDir path) source {} = .ok t)
    (c : Command) :
    let w : World := { World.ofSettings {} with store := ⟨[t], List.nodup_singleton _⟩ }
    Command.settings view none = .ok {} ∧ world {} view [path] = .ok w ∧
      run view ⟨none, c, [path]⟩ =
        match c with
        | .inspect => .ok (inspectWorld w)
        | .simulate s => simulateWorld s w := by
  intro w
  have hsettings : Command.settings view none = .ok {} := by
    simp [Command.settings, FileView.exists?, hdefault]
  have hoffered : Tileset.ofFile view (World.ofSettings {}).settings.tilesetDir path
      (World.ofSettings {}).settings.holdPolicy = .ok t := by
    refine (bind_eq_ok_iff ..).mpr ⟨text, by rw [hfile]; rfl, ?_⟩
    rw [Tileset.parse, hsource]
    exact hload
  have hworld : world {} view [path] = .ok w := by
    simp only [world, World.loadFiles, Store.loadFiles, Store.publishFile, hoffered]
    rfl
  refine ⟨hsettings, hworld, ?_⟩
  simp only [run, hsettings, hworld, bind, Except.bind]
  rfl

set_option maxRecDepth 4000 in
/-- An animated tile of its own frame, simulated for two ticks of a tenth of a second. -/
theorem run_simulate_of_inspect_torch :
    let text := "\x7b\"tiles\":[\x7b\"id\":4,\"animation\":[\x7b\"tileid\":4,\"duration\":90\x7d]\x7d]\x7d"
    let view : FileView := fun path => if path = "torch.json" then .ok text else .error .notFound
    let s : Simulation := ⟨"torch.json", 4, 100, 2, ⟨.zero, .none⟩⟩
    let lines :=
      ["t=     0ms  torch.json:4  []", "t=   100ms  torch.json:4  []", "t=   200ms  torch.json:4  []"]
    ∃ o, run view ⟨none, .inspect, ["torch.json"]⟩ = .ok o ∧ o.code = 0 ∧
      ∃ (w : World) (i : EntityId) (spawned : World),
        run view ⟨none, .simulate s, ["torch.json"]⟩ = .ok ⟨lines, 0⟩ ∧
        w.spawn s.tileset s.tile s.place = .ok (i, spawned) ∧
        (∀ n ≤ 2, ∃ line, lines[n]? = some line ∧
          Reports (spawned.run (stepTicks 100 0 (n + 1))) i (n * 100) line) ∧
        (Text.lines (Outcome.text ⟨lines, 0⟩).toList).map String.ofList = lines := by
  intro text view s lines
  let source : Authored.Tileset :=
    ⟨"", 0, 0, none, none, [⟨4, none, none, [], [], [⟨4, 90⟩]⟩]⟩
  let track : Track := ⟨{}, [⟨4, 90⟩], by simp⟩
  let t : Tileset :=
    ⟨"torch.json", "", ⟨0, 0⟩, [⟨"torch.json", 4, ⟨0, 0⟩, [], [], some (.inline 0)⟩], [track], [4]⟩
  let w : World := { World.ofSettings {} with store := ⟨[t], List.nodup_singleton _⟩ }
  let member (name : String) (n : Int) : String × Json := (name, .int n)
  have hjson : Json.parse? text = some (.object [("tiles", .array [.object [member "id" 4,
      ("animation", .array [.object [member "tileid" 4, member "duration" 90]])]])]) := by cbv
  have hsource : Authored.Tileset.parse? text = some source := by
    rw [Authored.Tileset.parse?, hjson]
    rfl
  have hload : Tileset.load (Path.tilesetId ({} : Settings).tilesetDir "torch.json") source {} =
      .ok t := by decide +kernel
  have hrun := @run_of_file view _ _ _ _ rfl rfl hsource hload
  have hinspect : run view ⟨none, .inspect, ["torch.json"]⟩ = .ok (inspectWorld w) := (hrun .inspect).2.2
  have hcode : (inspectWorld w).code = 0 := by decide +kernel
  have hsimulate : run view ⟨none, .simulate s, ["torch.json"]⟩ = .ok ⟨lines, 0⟩ := by
    rw [(hrun (.simulate s)).2.2]
    decide +kernel
  obtain ⟨settings, w', hsettings, hworld, hplays⟩ :=
    run_simulate_of_inspect view none ["torch.json"] _ hinspect hcode
  obtain rfl := Except.ok.inj ((hrun .inspect).1.symm.trans hsettings)
  obtain rfl : w = w' := Except.ok.inj ((hrun .inspect).2.1.symm.trans hworld)
  obtain ⟨played, i, spawned, hplayed, -, hspawn, -, hreports, hprinted⟩ :=
    hplays t (List.mem_singleton_self t) s rfl (by decide +kernel)
  obtain rfl : ⟨lines, 0⟩ = played := Except.ok.inj (hsimulate.symm.trans hplayed)
  refine ⟨inspectWorld w, hinspect, hcode, w, i, spawned, hsimulate, hspawn, hreports, hprinted ?_⟩
  decide +kernel

/-- With a line feed in the id of a tileset, what passes an inspection does not print one line for
every entry. -/
theorem exists_simulate_lines_ne :
    ¬ ∀ (view : FileView) (config : Option String) (files : List String) (o : Outcome)
      (settings : Settings) (w : World), run view ⟨config, .inspect, files⟩ = .ok o → o.code = 0 →
        Command.settings view config = .ok settings → world settings view files = .ok w →
        ∀ t ∈ w.store.tilesets, ∀ s : Simulation, s.tileset = t.id → t.contains s.tile = true →
          ∃ played, run view ⟨config, .simulate s, files⟩ = .ok played ∧
            (Text.lines played.text.toList).length = s.ticks.toNat + 1 := by
  intro h
  let text := "\x7b\"tiles\":[\x7b\"id\":0\x7d]\x7d"
  let view : FileView := fun path => if path = "a\nb.json" then .ok text else .error .notFound
  let s : Simulation := ⟨"a\nb.json", 0, 100, 1, ⟨.zero, .none⟩⟩
  let source : Authored.Tileset := ⟨"", 0, 0, none, none, [⟨0, none, none, [], [], []⟩]⟩
  let t : Tileset := ⟨"a\nb.json", "", ⟨0, 0⟩, [⟨"a\nb.json", 0, ⟨0, 0⟩, [], [], none⟩], [], []⟩
  have hjson : Json.parse? text = some (.object [("tiles", .array [.object [("id", .int 0)]])]) := by cbv
  have hsource : Authored.Tileset.parse? text = some source := by
    rw [Authored.Tileset.parse?, hjson]
    rfl
  have hload : Tileset.load (Path.tilesetId ({} : Settings).tilesetDir "a\nb.json") source {} =
      .ok t := by decide +kernel
  have hrun := @run_of_file view _ _ _ _ rfl rfl hsource hload
  let lines := ["t=     0ms  a\nb.json:0  []", "t=   100ms  a\nb.json:0  []"]
  have hsimulate : run view ⟨none, .simulate s, ["a\nb.json"]⟩ = .ok ⟨lines, 0⟩ := by
    rw [(hrun (.simulate s)).2.2]
    decide +kernel
  obtain ⟨played, hplayed, hlength⟩ := h view none ["a\nb.json"] _ {} _ (hrun .inspect).2.2
    (by decide +kernel) (hrun .inspect).1 (hrun .inspect).2.1 t (List.mem_singleton_self t) s rfl
    (by decide +kernel)
  obtain rfl : ⟨lines, 0⟩ = played := Except.ok.inj (hsimulate.symm.trans hplayed)
  exact absurd hlength (by decide +kernel)

end Command

end TileWorld

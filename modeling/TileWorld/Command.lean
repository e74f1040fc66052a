import TileWorld.World.Basic

/-! The command line: what its arguments ask for, and the lines and exit code that answer it. -/
namespace TileWorld

/-- What to simulate: a tile, its place, and the ticks. -/
structure Simulation where
  tileset : String
  tile : TileId
  stepMs : UInt32
  ticks : UInt32
  place : Placement
deriving DecidableEq

inductive Command where
  /-- Sums up tilesets and checks their references. -/
  | inspect
  /-- Spawns a tile and prints what it shows and collides with. -/
  | simulate (simulation : Simulation)
deriving DecidableEq

/-- What the arguments of a run ask for. Statements about runs start here, however the arguments were
spelled. -/
structure Invocation where
  /-- The settings file, if one is given. -/
  config : Option String
  command : Command
  files : List String
deriving DecidableEq

namespace Invocation

/-- Arguments sorted into options, each with the text of its value, and the rest. -/
structure Sorted where
  options : List (String × String) := []
  rest : List String := []

/-- Whether an argument is read as an option; a lone dash is not. -/
def isOption (arg : String) : Bool :=
  arg.toList.head? = some '-' && arg ≠ "-"

/-- Splits `--name=value`; without the sign of equality there is no value. -/
def splitOption (arg : String) : String × Option String :=
  let cs := arg.toList
  let name := String.ofList (cs.takeWhile (· ≠ '='))
  match cs.dropWhile (· ≠ '=') with
  | [] => (name, none)
  | _ :: value => (name, some (String.ofList value))

/-- Sorts arguments by the options that take a value and the flags that take none. A value may be
the next argument unless that is an option; after `--` nothing is one. -/
def sort? (valued flags : List String) : List String → Option Sorted
  | [] => some {}
  | arg :: args =>
    if arg = "--" then some { rest := args }
    else if isOption arg then
      let (name, value) := splitOption arg
      if name ∈ valued then
        match value, args with
        | some value, args => (sort? valued flags args).map fun s =>
            { s with options := (name, value) :: s.options }
        | none, value :: args =>
          if isOption value then none
          else (sort? valued flags args).map fun s =>
            { s with options := (name, value) :: s.options }
        | none, [] => none
      else if name ∈ flags ∧ value = none then
        (sort? valued flags args).map fun s => { s with options := (name, "") :: s.options }
      else none
    else (sort? valued flags args).map fun s => { s with rest := arg :: s.rest }

/-- The files of sorted arguments: at least one, none of them empty. No option comes twice. -/
def Sorted.files? (s : Sorted) : Option (List String) :=
  if s.rest ≠ [] ∧ "" ∉ s.rest ∧ (s.options.map (·.1)).Nodup then some s.rest else none

def readWord? (text : String) : Option UInt32 :=
  (Number.readInt? text.toList).bind fun n =>
    if 0 ≤ n ∧ n ≤ 0xFFFFFFFF then some (.ofNat n.toNat) else none

def readSingle? (text : String) : Option Float32 :=
  (Number.Numeral.parse? text.toList).map Number.Numeral.toSingle

/-- The value of an option that may be left out. -/
def Sorted.option? {α : Type} (s : Sorted) (name : String) (read : String → Option α)
    (default : α) : Option α :=
  match s.options.lookup name with
  | some text => read text
  | none => some default

def Sorted.flag (s : Sorted) (name : String) : Bool :=
  (s.options.lookup name).isSome

def parseInspect? (args : List String) : Option (Command × List String) := do
  let files ← (← sort? [] [] args).files?
  some (.inspect, files)

def parseSimulate? (args : List String) : Option (Command × List String) := do
  let valued := ["--tileset", "--tile", "--step-ms", "--ticks", "--x", "--y"]
  let s ← sort? valued ["--flip-x", "--flip-y"] args
  let files ← s.files?
  let simulation : Simulation :=
    { tileset := ← s.options.lookup "--tileset"
      tile := ← (s.options.lookup "--tile").bind readWord?
      stepMs := ← s.option? "--step-ms" readWord? 100
      ticks := ← s.option? "--ticks" readWord? 20
      place :=
        { position := ⟨← s.option? "--x" readSingle? 0.0, ← s.option? "--y" readSingle? 0.0⟩
          flip := ⟨s.flag "--flip-x", s.flag "--flip-y", false⟩ } }
  some (.simulate simulation, files)

/-- The command and what follows it. -/
def parseCommand? : List String → Option (Command × List String)
  | "inspect" :: args => parseInspect? args
  | "simulate" :: args => parseSimulate? args
  | _ => none

/-- The invocation that arguments ask for; none for a usage error. Only the settings file may be
named before the command. -/
def parse? (args : List String) : Option Invocation := do
  let (config, args) ← match args with
    | [] => none
    | arg :: args =>
      match splitOption arg, args with
      | ("--config", some path), args => some (some path, args)
      | ("--config", none), path :: args => if isOption path then none else some (some path, args)
      | _, args => some (none, arg :: args)
  if config = some "" then none
  let (command, files) ← parseCommand? args
  some { config, command, files }

end Invocation

/-- The lines and the exit code of a run. -/
structure Outcome where
  lines : List String := []
  code : UInt32
deriving DecidableEq

/-- What a run prints: every line with its end. A line may hold line feeds of its own. -/
def Outcome.text (o : Outcome) : String :=
  String.join (o.lines.map (· ++ "\n"))

namespace Command

/-- A settings file that is named must be read; the default one only if it is there. -/
def settings (files : FileView) (config : Option String) : Except Error Settings :=
  let settings : Settings :=
    match config with
    | some path => { path }
    | none => {}
  if config.isNone && !files.exists? settings.path then .ok settings
  else
    match settings.load files with
    | (none, settings) => .ok settings
    | (some e, _) => .error (.settings e)

/-- A world with the tilesets of files. -/
def world (settings : Settings) (view : FileView) (files : List String) : Except Error World :=
  match (World.ofSettings settings).loadFiles view files with
  | (.ok _, w) => .ok w
  | (.error e, _) => .error e

/-- One line on a tileset. -/
def summary (t : Tileset) : String :=
  let shapes := (t.tiles.flatMap (·.shapes)).length
  let holding := t.arena.countP Track.hasHold
  s!"{t.id}: '{t.name}' {t.tileSize.width.toNat}x{t.tileSize.height.toNat}, {t.size} tiles, " ++
    s!"{shapes} shapes, {t.arena.length} tracks ({holding} holding)"

/-- The tilesets, then the references that do not resolve, which make it a failure. -/
def inspectWorld (w : World) : Outcome :=
  let broken := w.store.brokenReferences
  { lines := w.store.sorted.map summary ++ broken.map fun e => s!"broken: {e.message}"
    code := if broken.isEmpty then 0 else 1 }

def renderPoint (p : Point) : String :=
  s!"({Number.renderSingle p.x}, {Number.renderSingle p.y})"

/-- The class of a shape and its bounds. -/
def renderShape (s : WorldShape) : String :=
  s!"{s.shapeClass.name} {renderPoint s.bounds.min}-{renderPoint s.bounds.max}"

/-- A text with spaces in front up to a width. -/
def padStart (width : Nat) (text : String) : String :=
  String.ofList (List.replicate (width - text.length) ' ') ++ text

/-- One line on what an entity shows and collides with at a time. -/
def renderState (timeMs : Nat) (tile : TileRef) (shapes : List WorldShape) : String :=
  let shapes := ", ".intercalate (shapes.map renderShape)
  s!"t={padStart 6 (toString timeMs)}ms  {tile.tileset}:{tile.tile.toNat}  [{shapes}]"

/-- The lines of `count` ticks, of which the `n`-th comes first. Only the very first takes no
time. -/
def simulateTicks (stepMs : UInt32) (entity : EntityId) : Nat → Nat → World → List String
  | 0, _, _ => []
  | count + 1, n, w =>
    let w := (w.tick (if n = 0 then 0 else stepMs)).1
    match w.entity? entity with
    | some { tile := some tile, shapes := some shapes, .. } =>
      renderState (n * stepMs.toNat) tile.value shapes ::
        simulateTicks stepMs entity count (n + 1) w
    | _ => []

def simulateWorld (s : Simulation) (w : World) : Except Error Outcome := do
  let (entity, w) ← w.spawn s.tileset s.tile s.place
  return { lines := simulateTicks s.stepMs entity (s.ticks.toNat + 1) 0 w, code := 0 }

/-- Carries out an invocation. -/
def run (files : FileView) (i : Invocation) : Except Error Outcome := do
  let w ← world (← settings files i.config) files i.files
  match i.command with
  | .inspect => return inspectWorld w
  | .simulate s => simulateWorld s w

/-- The outcome for arguments: code 2 for a usage error, 1 for any other. -/
def outcome (files : FileView) (args : List String) : Outcome :=
  match Invocation.parse? args with
  | none => { code := 2 }
  | some i =>
    match run files i with
    | .ok outcome => outcome
    | .error _ => { code := 1 }

end Command

end TileWorld

import TileWorld.Command

/-! The program: reads the files that its arguments name, and prints the outcome. -/
open TileWorld

/-- The outcome of reading a file. -/
def readFile (path : String) : IO (Except FileError String) := do
  try
    match FileNode.ofBytes (← IO.FS.readBinFile path) with
    | .text content => return .ok content
    | _ => return .error .notText
  catch
    | .noFileOrDirectory .. => return .error .notFound
    | e => return .error (.other (toString e))

/-- The files at some paths, as they are now. -/
def readFiles (paths : List String) : IO FileView := do
  let contents ← paths.mapM fun path => return (path, ← readFile path)
  return fun path => (contents.lookup path).getD (.error .notFound)

def main (args : List String) : IO UInt32 := do
  match Invocation.parse? args with
  | none =>
    IO.eprintln "usage: [--config PATH] inspect FILES... | simulate --tileset ID --tile N FILES..."
    return 2
  | some i =>
    let files ← readFiles (i.config.getD ({} : Settings).path :: i.files)
    match Command.run files i with
    | .ok outcome =>
      IO.print outcome.text
      return outcome.code
    | .error e =>
      IO.eprintln e.message
      return 1

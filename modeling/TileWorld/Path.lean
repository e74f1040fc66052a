import TileWorld.Text

/-! Paths as written: their components without any file behind them. Repeated slashes, `.` and a
slash at the end do not count; `..` is kept. -/
namespace TileWorld.Path

inductive Component where
  | root
  | parent
  | name (text : List Char)
deriving DecidableEq

/-- The component that a part between slashes stands for. -/
def ofPart? (part : List Char) : Option Component :=
  if part = [] ∨ part = ['.'] then none
  else if part = ['.', '.'] then some .parent
  else some (.name part)

def components (path : String) : List Component :=
  let cs := path.toList
  (if cs.head? = some '/' then [.root] else []) ++ (Text.split '/' cs).filterMap ofPart?

def Component.text : Component → List Char
  | .root => ['/']
  | .parent => ['.', '.']
  | .name text => text

/-- The components that follow `root` in a path that starts with all of it. -/
def relativeTo? : List Component → List Component → Option (List Component)
  | [], path => some path
  | _ :: _, [] => none
  | r :: root, c :: path => if r = c then relativeTo? root path else none

/-- The last component, when it is a name. -/
def fileName? (path : List Component) : Option (List Char) :=
  match path.getLast? with
  | some (.name text) => some text
  | _ => none

/-- The text of a path in its plainest form. -/
def render : List Component → List Char
  | .root :: path => '/' :: Text.join '/' (path.map Component.text)
  | path => Text.join '/' (path.map Component.text)

/-- The tileset id of a file below a root: its components from there on, joined by slashes. A file
elsewhere has its name for an id. -/
def tilesetId (root path : String) : String :=
  let path := components path
  String.ofList <|
    match relativeTo? (components root) path with
    | some (c :: rest) => Text.join '/' ((c :: rest).map Component.text)
    | _ => (fileName? path).getD (render path)

end TileWorld.Path

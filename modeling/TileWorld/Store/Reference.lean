import TileWorld.Text

/-! References between tilesets: relative paths of slash-separated segments, read in the folder of
the tileset that holds them. -/
namespace TileWorld.Reference

/-- A segment after the folders gone through, the innermost first. The root has no parent. -/
def step (folders : List (List Char)) (segment : List Char) : List (List Char) :=
  if segment = [] ∨ segment = ['.'] then folders
  else if segment = ['.', '.'] then folders.tail
  else segment :: folders

/-- A reference read in the folder of `base`. -/
def join (base reference : String) : String :=
  let folders := (Text.split '/' base.toList).dropLast
  let segments := Text.split '/' reference.toList
  String.ofList (Text.join '/' (segments.foldl step folders.reverse).reverse)

/-- Map editors write `.tsx` paths; the description of that tileset ends in `.json`. -/
def counterpart? (path : String) : Option String :=
  (Text.stripEnding? ".tsx".toList path.toList).map fun stem =>
    String.ofList (stem ++ ".json".toList)

/-- A path without any `./` in front. -/
def plain (path : String) : String :=
  let cs := path.toList
  String.ofList (Text.dropLeading ['.', '/'] cs.length cs)

/-- The tileset ids that a reference of `base` may mean, in order of preference: read in its folder
before as given, and the counterpart before the path itself. -/
def candidates (base reference : String) : List String :=
  let joined := join base reference
  (counterpart? joined).toList ++ [joined] ++ (counterpart? reference).toList ++ [plain reference]

end TileWorld.Reference

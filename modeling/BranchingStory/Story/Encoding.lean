import BranchingStory.Json.Record
import BranchingStory.Story.Chapter

/-!
# Chapters in JSON

How the records of a chapter are written and read.  A speaker is written only if
there is one.  A record that leaves out the speaker or the tags is read as one
that has none.
-/

namespace BranchingStory

open Json (ofList ofMap ofSet string? list? map? set? option? record? required? optional? variant?
  unitVariant? recordNumber?)

namespace Translations

/-- A text as an object from languages to strings. -/
def toJson (t : Translations) : Json := ofMap .string t

/-- Reads a text. -/
def ofJson? (v : Json) : Option Translations := map? string? v

end Translations

/-- Reads a kind of node. -/
def NodeKind.ofJson? (v : Json) : Option NodeKind := unitVariant? NodeKind.ofName? v

namespace Perspective

/-- The shared perspective by its name, another one as a track. -/
def toJson : Perspective → Json
  | shared => .string "all"
  | track pov => .object [("track", .string pov)]

/-- Reads a perspective. -/
def ofJson? (v : Json) : Option Perspective :=
  match variant? v with
  | some ("all", none) => some shared
  | some ("all", some .null) => some shared
  | some ("track", some pov) => (string? pov).map track
  | _ => none

end Perspective

namespace Choice

/-- The option with its text and its target. -/
def toJson (o : Choice) : Json :=
  .object [("text", Translations.toJson o.text), ("target", .string o.target)]

/-- Reads an option. -/
def ofJson? (v : Json) : Option Choice := do
  let fields ← record? ["text", "target"] v
  return { text := ← required? fields "text" Translations.ofJson?
           target := ← required? fields "target" string? }

end Choice

namespace Link

/-- The link by its variant. -/
def toJson : Link → Json
  | node id => .object [("node", .string id)]
  | chapter number => .object [("cross_chapter", .nat number)]
  | choice options => .object [("choice", ofList Choice.toJson options)]
  | ending => .string "terminal"

/-- Reads a link. -/
def ofJson? (v : Json) : Option Link :=
  match variant? v with
  | some ("node", some id) => (string? id).map node
  | some ("cross_chapter", some number) => (recordNumber? number).map chapter
  | some ("choice", some options) => (list? Choice.ofJson? options).map choice
  | some ("terminal", none) => some ending
  | some ("terminal", some .null) => some ending
  | _ => none

end Link

namespace Node

/-- The node field by field. -/
def toJson (n : Node) : Json :=
  .object <|
    [("id", .string n.id), ("kind", .string n.kind.name)]
      ++ (n.speaker.map fun s => ("speaker", Json.string s)).toList
      ++ [("text", Translations.toJson n.text), ("next", n.next.toJson), ("pov", n.pov.toJson),
        ("tags", ofSet n.tags)]

/-- Reads a node. -/
def ofJson? (v : Json) : Option Node := do
  let fields ← record? ["id", "kind", "speaker", "text", "next", "pov", "tags"] v
  return { id := ← required? fields "id" string?
           kind := ← required? fields "kind" NodeKind.ofJson?
           speaker := ← optional? fields "speaker" none (option? string?)
           text := ← required? fields "text" Translations.ofJson?
           next := ← required? fields "next" Link.ofJson?
           pov := ← required? fields "pov" Perspective.ofJson?
           tags := ← optional? fields "tags" ∅ set? }

end Node

namespace Track

/-- The track with its perspective and its nodes. -/
def toJson (t : Track) : Json :=
  .object [("pov", .string t.pov), ("nodes", ofList .string t.nodes)]

/-- Reads a track. -/
def ofJson? (v : Json) : Option Track := do
  let fields ← record? ["pov", "nodes"] v
  return { pov := ← required? fields "pov" string?
           nodes := ← required? fields "nodes" (list? string?) }

end Track

namespace Chapter

/-- The chapter field by field. -/
def toJson (c : Chapter) : Json :=
  .object [("number", .nat c.number), ("title", Translations.toJson c.title),
    ("entry", .string c.entry), ("tracks", ofList Track.toJson c.tracks),
    ("nodes", ofList Node.toJson c.nodes)]

/-- Reads a chapter. -/
def ofJson? (v : Json) : Option Chapter := do
  let fields ← record? ["number", "title", "entry", "tracks", "nodes"] v
  return { number := ← required? fields "number" recordNumber?
           title := ← required? fields "title" Translations.ofJson?
           entry := ← required? fields "entry" string?
           tracks := ← required? fields "tracks" (list? Track.ofJson?)
           nodes := ← required? fields "nodes" (list? Node.ofJson?) }

end Chapter

/-- A link to the end may hold null, and a link to a node must name it. -/
example : Link.ofJson? (.object [("terminal", .null)]) = some .ending := rfl
example : Link.ofJson? (.string "node") = none := rfl

end BranchingStory

import QueryWire.Json.Quoted
import QueryWire.Json.Tree

namespace QueryWire

inductive Layout where
  | compact
  | pretty
deriving DecidableEq, Repr

namespace Layout

/-- The start of a new line inside `depth` containers. -/
def lineBreak : Layout → Nat → List Char
  | .compact, _ => []
  | .pretty, depth => '\n' :: List.replicate (2 * depth) ' '

/-- What stands between a member's name and its value. -/
def colon : Layout → List Char
  | .compact => [':']
  | .pretty => [':', ' ']

end Layout

namespace Json

mutual

/-- The text of a tree inside `depth` containers, in front of `rest`. -/
def text (layout : Layout) (depth : Nat) : Json (List Char) → List Char → List Char
  | .null, rest => "null".toList ++ rest
  | .boolean true, rest => "true".toList ++ rest
  | .boolean false, rest => "false".toList ++ rest
  | .number token, rest => token ++ rest
  | .string text, rest => quoted text ++ rest
  | .array [], rest => '[' :: ']' :: rest
  | .array (item :: items), rest =>
      '[' :: layout.lineBreak (depth + 1) ++
        item.text layout (depth + 1)
          (moreItems layout (depth + 1) items (layout.lineBreak depth ++ ']' :: rest))
  | .object [], rest => '\x7b' :: '\x7d' :: rest
  | .object ((name, value) :: members), rest =>
      '\x7b' :: layout.lineBreak (depth + 1) ++ quoted name ++ layout.colon ++
        value.text layout (depth + 1)
          (moreMembers layout (depth + 1) members
            (layout.lineBreak depth ++ '\x7d' :: rest))

/-- The items behind the first one, each with the comma in front of it. -/
def moreItems (layout : Layout) (depth : Nat) :
    List (Json (List Char)) → List Char → List Char
  | [], rest => rest
  | item :: items, rest =>
      ',' :: layout.lineBreak depth ++
        item.text layout depth (moreItems layout depth items rest)

/-- The members behind the first one, each with the comma in front of it. -/
def moreMembers (layout : Layout) (depth : Nat) :
    List (String × Json (List Char)) → List Char → List Char
  | [], rest => rest
  | (name, value) :: members, rest =>
      ',' :: layout.lineBreak depth ++ quoted name ++ layout.colon ++
        value.text layout depth (moreMembers layout depth members rest)

end

def render (layout : Layout) (tree : Json (List Char)) : String :=
  String.ofList (tree.text layout 0 [])

example : (Json.array [.object [("a", .null)], .array []]).render .compact =
    "[\x7b\"a\":null\x7d,[]]" := by decide

end Json

end QueryWire

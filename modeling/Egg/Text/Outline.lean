-- SUMMARY: Outlines of nested data, written on one line or indented over several.

/-! # Outlines

An outline is the shape of a nested value as a reader sees it: names, brackets
and the parts between them. It is written flat, on one line, or indented, with
every part on a line of its own and a comma after it. -/

namespace Egg.Text

/-- The bracket around the parts of a group. -/
inductive Bracket where
  /-- Parts in order, `(a, b)`. -/
  | round
  /-- A list, `[a, b]`. -/
  | square
  /-- Named parts of a record. A space stands between the braces and the parts. -/
  | record
  /-- A set or a table. The braces touch the parts. -/
  | curly

/-- The shape of a nested value. -/
inductive Outline where
  /-- A part that is written as it stands. -/
  | leaf (text : String)
  /-- A part after its name. -/
  | field (name : String) (body : Outline)
  /-- A name, and parts between brackets. -/
  | group (name : String) (bracket : Bracket) (parts : List Outline)

namespace Bracket

/-- The opening bracket on one line. -/
def opening : Bracket → String
  | .round => "("
  | .square => "["
  | .record => " \x7b "
  | .curly => "\x7b"

/-- The closing bracket on one line. -/
def closing : Bracket → String
  | .round => ")"
  | .square => "]"
  | .record => " \x7d"
  | .curly => "\x7d"

/-- The opening bracket at the end of a line. -/
def openingLine : Bracket → String
  | .record => " \x7b"
  | b => b.opening

/-- The closing bracket on a line of its own. -/
def closingLine : Bracket → String
  | .record => "\x7d"
  | b => b.closing

end Bracket

namespace Outline

mutual
/-- The outline on one line, in front of `tail`. -/
def flatOnto : Outline → List Char → List Char
  | .leaf text, tail => text.toList ++ tail
  | .field name body, tail => name.toList ++ ':' :: ' ' :: body.flatOnto tail
  | .group name bracket parts, tail =>
    name.toList ++ (bracket.opening.toList ++
      flatPartsOnto parts (bracket.closing.toList ++ tail))

/-- Parts on one line, with a comma and a space between two of them. -/
def flatPartsOnto : List Outline → List Char → List Char
  | [], tail => tail
  | [part], tail => part.flatOnto tail
  | part :: parts, tail => part.flatOnto (',' :: ' ' :: flatPartsOnto parts tail)
end

/-- The outline on one line. -/
def flat (o : Outline) : String :=
  String.ofList (o.flatOnto [])

/-- The blanks in front of a line at nesting `depth`: four for each level. -/
def margin (depth : Nat) : List Char :=
  List.replicate (4 * depth) ' '

mutual
/-- The outline over several lines, in front of `tail`, where the first line
    stands at nesting `depth`. A group without parts stays on one line. -/
def indentedOnto (depth : Nat) : Outline → List Char → List Char
  | .leaf text, tail => text.toList ++ tail
  | .field name body, tail => name.toList ++ ':' :: ' ' :: body.indentedOnto depth tail
  | .group name bracket [], tail =>
    name.toList ++ (bracket.opening.toList ++ (bracket.closing.toList ++ tail))
  | .group name bracket (part :: parts), tail =>
    name.toList ++ (bracket.openingLine.toList ++ '\n' ::
      indentedPartsOnto (depth + 1) (part :: parts)
        (margin depth ++ (bracket.closingLine.toList ++ tail)))

/-- Parts on lines of their own, each with a comma after it. -/
def indentedPartsOnto (depth : Nat) : List Outline → List Char → List Char
  | [], tail => tail
  | part :: parts, tail =>
    margin depth ++ part.indentedOnto depth (',' :: '\n' :: indentedPartsOnto depth parts tail)
end

/-- The outline over several lines. -/
def indented (o : Outline) : String :=
  String.ofList (o.indentedOnto 0 [])

end Outline

end Egg.Text

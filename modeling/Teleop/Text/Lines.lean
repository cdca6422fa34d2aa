/-!
# Lines of a byte stream

A line ends with a line feed, or with a carriage return and a line feed, neither of which belongs to
it. What stands behind the last line feed is a line unless it is empty; it keeps a carriage return at
its end. A line need not be a text.
-/

namespace Teleop.Text

def lineFeed : UInt8 := 10

def carriageReturn : UInt8 := 13

/-- A line without the carriage return at its end, if it has one. -/
def dropReturn (line : List UInt8) : List UInt8 :=
  if line.getLast? = some carriageReturn then line.dropLast else line

/-- The lines of some bytes, given the bytes before them that belong to the first line, in reverse. -/
def linesFrom (before : List UInt8) : List UInt8 → List (List UInt8)
  | [] => if before.isEmpty then [] else [before.reverse]
  | b :: rest =>
    if b = lineFeed then dropReturn before.reverse :: linesFrom [] rest
    else linesFrom (b :: before) rest

def byteLines (bytes : List UInt8) : List (List UInt8) :=
  linesFrom [] bytes

/-- The text of some bytes, if they encode one. -/
def decode? (bytes : List UInt8) : Option String :=
  String.fromUTF8? ⟨bytes.toArray⟩

end Teleop.Text

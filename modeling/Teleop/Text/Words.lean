import Teleop.Text.Blank
import Teleop.Text.Lowercase

/-!
# Words and phrases

A text is cut at its blank characters into words; the collapsed form of a text puts one space between
its words and writes them in lower case. Phrases are compared word by word, by looking for the phrase
with a space on each side.
-/

namespace Teleop.Text

/-- The words of a text: its stretches between blank characters. -/
def words (text : List Char) : List (List Char) :=
  (text.splitOnP isBlank).filter (!·.isEmpty)

/-- The text of some words with one space between each two. -/
def unwords (ws : List (List Char)) : List Char :=
  [' '].intercalate ws

/-- A text without the marked characters at its two ends. -/
def trimBoth (drop : Char → Bool) (text : List Char) : List Char :=
  ((text.dropWhile drop).reverse.dropWhile drop).reverse

def trim (text : List Char) : List Char :=
  trimBoth isBlank text

/-- The words of a text in lower case, with one space between each two. -/
def collapse (text : List Char) : List Char :=
  lower (unwords (words text))

def occurs (needle : List Char) : List Char → Bool
  | [] => needle.isEmpty
  | c :: rest => needle.isPrefixOf (c :: rest) || occurs needle rest

/-- Whether a phrase stands in a text with a space or an edge of the text on each side. -/
def containsPhrase (text phrase : List Char) : Bool :=
  occurs (' ' :: phrase ++ [' ']) (' ' :: text ++ [' '])

end Teleop.Text

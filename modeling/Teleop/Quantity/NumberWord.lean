import Teleop.Text.CaseFold

/-!
# Number words

English and Urdu words for numbers. The English ones come in two tables, since a word of the second
may be followed by one of the first; the Urdu ones stand alone, romanized or in Urdu script.
-/

namespace Teleop.NumberWord

open Text

/-- The English numbers below twenty. -/
def ones : List (String × Nat) :=
  [("zero", 0), ("one", 1), ("two", 2), ("three", 3), ("four", 4), ("five", 5), ("six", 6),
   ("seven", 7), ("eight", 8), ("nine", 9), ("ten", 10), ("eleven", 11), ("twelve", 12),
   ("thirteen", 13), ("fourteen", 14), ("fifteen", 15), ("sixteen", 16), ("seventeen", 17),
   ("eighteen", 18), ("nineteen", 19)]

/-- The English multiples of ten, and a hundred. -/
def tens : List (String × Nat) :=
  [("twenty", 20), ("thirty", 30), ("forty", 40), ("fifty", 50), ("sixty", 60), ("seventy", 70),
   ("eighty", 80), ("ninety", 90), ("hundred", 100)]

def urdu : List (String × Nat) :=
  [("ek", 1), ("ایک", 1), ("do", 2), ("دو", 2), ("teen", 3), ("تین", 3), ("char", 4),
   ("chaar", 4), ("چار", 4), ("paanch", 5), ("panch", 5), ("پانچ", 5), ("chhe", 6), ("chay", 6),
   ("چھ", 6), ("saat", 7), ("سات", 7), ("aath", 8), ("آٹھ", 8), ("nau", 9), ("نو", 9),
   ("das", 10), ("دس", 10), ("gyarah", 11), ("barah", 12), ("pandrah", 15), ("bees", 20),
   ("بیس", 20), ("pachees", 25), ("tees", 30), ("تیس", 30), ("chalees", 40), ("چالیس", 40),
   ("pachas", 50), ("پچاس", 50), ("saath", 60), ("ساٹھ", 60), ("nawway", 90), ("نوے", 90),
   ("sau", 100), ("سو", 100)]

/-- The number that a single word names, in any case. -/
def value? (word : List Char) : Option Nat :=
  (ones ++ tens ++ urdu).lookup (String.ofList (lower word))

/-- Puts a word before the first one that is shorter than it or as long. -/
def insertByLength (word : String × Nat) : List (String × Nat) → List (String × Nat)
  | [] => [word]
  | other :: rest =>
    if word.1.length < other.1.length then other :: insertByLength word rest
    else word :: other :: rest

/-- The Urdu numbers with the longer words first, so that a word is not taken for a shorter one that
it begins with. -/
def urduByLength : List (String × Nat) :=
  urdu.foldr insertByLength []

end Teleop.NumberWord

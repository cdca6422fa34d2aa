import Teleop.Text.Lowercase

/-!
# Letters that differ in case only

Simple case folding: two characters are taken for one letter if they fold to one character. Beside
the case pairs this joins spelling variants of a letter, such as the long s with `s`, the Kelvin sign
with `k` and the final sigma with the medial one. A letter never folds to several letters.
-/

namespace Teleop.Text

/-- The lower-case letters that are variants of another lower-case letter, with that letter. -/
def letterVariants : List (Char × Char) :=
  [('\u00B5', '\u03BC'), ('\u017F', 's'), ('\u0345', '\u03B9'), ('\u03C2', '\u03C3'),
   ('\u03D0', '\u03B2'), ('\u03D1', '\u03B8'), ('\u03D5', '\u03C6'), ('\u03D6', '\u03C0'),
   ('\u03F0', '\u03BA'), ('\u03F1', '\u03C1'), ('\u03F5', '\u03B5'), ('\u1C80', '\u0432'),
   ('\u1C81', '\u0434'), ('\u1C82', '\u043E'), ('\u1C83', '\u0441'), ('\u1C84', '\u0442'),
   ('\u1C85', '\u0442'), ('\u1C86', '\u044A'), ('\u1C87', '\u0463'), ('\u1C88', '\uA64B'),
   ('\u1E9B', '\u1E61'), ('\u1FBE', '\u03B9'), ('\u1FD3', '\u0390'), ('\u1FE3', '\u03B0'),
   ('\uFB05', '\uFB06')]

/-- The character that stands for all case forms and variants of a letter. -/
def fold (c : Char) : Char :=
  let l := simpleLower c
  (letterVariants.lookup l).getD l

/-- Whether two characters are the same letter up to case. -/
def sameLetter (a b : Char) : Bool :=
  a == b || fold a == fold b

end Teleop.Text

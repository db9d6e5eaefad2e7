import NumericRules.Text.Width

/-! # Folding of lines

A line that is too wide is folded at its blanks. Words go on a line as long as
there is room for them; a word that no line has room for is cut.
-/

namespace NumericRules.Text

/-- The parts of a text between separators. -/
def split (separator : Char) (text : List Char) : List (List Char) := go [] text
where
  go (part : List Char) : List Char → List (List Char)
    | [] => [part.reverse]
    | character :: rest =>
        if character = separator then part.reverse :: go [] rest else go (character :: part) rest

/-- As many characters as there is room for, and those that are left. -/
def cut (room : Nat) : List Char → List Char × List Char
  | [] => ([], [])
  | character :: rest =>
      let width := displayWidth [character]
      if width ≤ room then
        let (taken, left) := cut (room - width) rest
        (character :: taken, left)
      else ([], character :: rest)

/-- Room that no word is put into. -/
def idleRoom : Nat := 2

/-- The lines of words that follow a line begun with the given columns, whose
characters are given from its end. -/
def foldWords (limit : Nat) (fuel : Nat) (line : List Char) (width : Nat)
    (words : List (List Char)) : List (List Char) :=
  match fuel, words with
  | 0, _ => [line.reverse]
  | _, [] => if line.isEmpty then [] else [line.reverse]
  | fuel + 1, word :: rest =>
      let wordWidth := displayWidth word
      let (line, begun) := if line.isEmpty then (line, 0) else (' ' :: line, width + 1)
      if begun + wordWidth ≤ limit then
        let line := word.reverse ++ line
        let width := begun + wordWidth
        if limit < width + idleRoom then line.reverse :: foldWords limit fuel [] 0 rest
        else foldWords limit fuel line width rest
      else if 0 < begun && limit ≤ begun + idleRoom then
        line.tail.reverse :: foldWords limit fuel [] 0 (word :: rest)
      else if limit < wordWidth then
        let (taken, left) := cut (limit - begun) word
        (line.reverse ++ taken) :: foldWords limit fuel [] 0 (left :: rest)
      else if limit < wordWidth + idleRoom then
        line.tail.reverse :: word :: foldWords limit fuel [] 0 rest
      else line.tail.reverse :: foldWords limit fuel word.reverse wordWidth rest

/-- The lines of at most `limit` columns that a line is folded into. -/
def fold (limit : Nat) (line : List Char) : List (List Char) :=
  if displayWidth line ≤ limit then [line]
  else foldWords limit (3 * line.length + 3) [] 0 (split ' ' line)

end NumericRules.Text

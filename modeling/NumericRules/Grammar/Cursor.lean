import NumericRules.Diagnostic

/-! # Cursors

A parser reads a bounded part of a text through a cursor, which knows the index
of its next character in the whole text. Blank characters and comments between
words are skipped; a comment goes from `//` to the end of its line.
-/

namespace NumericRules.Grammar

open Text

/-- The unread characters of a part of the text and the index of the first. -/
structure Cursor where
  index : Nat
  rest : List Char
deriving DecidableEq, Repr

namespace Cursor

def start (text : List Char) : Cursor := ⟨0, text⟩

def next? (cursor : Cursor) : Option Char := cursor.rest.head?

/-- The character after the next one. -/
def second? (cursor : Cursor) : Option Char := cursor.rest.tail.head?

/-- The cursor after the next `count` characters, all of them unread. -/
def advance (cursor : Cursor) (count : Nat) : Cursor :=
  ⟨cursor.index + count, cursor.rest.drop count⟩

/-- A fault where the cursor stands. -/
def fault (cursor : Cursor) (cause : Cause) : Fault :=
  ⟨cause, cursor.index, cursor.index⟩

/-- A fault that starts at the index `start` and reaches to the cursor. -/
def faultFrom (cursor : Cursor) (start : Nat) (cause : Cause) : Fault :=
  ⟨cause, start, max cursor.index start⟩

def skipFrom (inComment : Bool) (index : Nat) : List Char → Cursor
  | [] => ⟨index, []⟩
  | character :: rest =>
      if inComment then skipFrom (character ≠ '\n') (index + 1) rest
      else if isBlank character then skipFrom false (index + 1) rest
      else if character = '/' && rest.head? = some '/' then skipFrom true (index + 1) rest
      else ⟨index, character :: rest⟩

def skip (cursor : Cursor) : Cursor := skipFrom false cursor.index cursor.rest

/-- Fail unless only blanks and comments are left. -/
def expectEnd (cursor : Cursor) : Except Fault Unit :=
  let cursor := cursor.skip
  match cursor.next? with
  | none => pure ()
  | some ')' => throw (cursor.fault .unmatchedClosing)
  | some character => throw (cursor.fault (.trailing character))

/-- The part that has been read between two cursors of one text, as a cursor
bounded by its end. -/
def upTo (cursor stop : Cursor) : Cursor :=
  ⟨cursor.index, cursor.rest.take (stop.index - cursor.index)⟩

/-- Whether the unread part is blank throughout; a comment is not. -/
def isBlank (cursor : Cursor) : Bool := cursor.rest.all Text.isBlank

end Cursor

/-- Everything a parser reads must be read to its end. -/
def whole (parse : Cursor → Except Fault (α × Cursor)) (cursor : Cursor) : Except Fault α := do
  let (result, stop) ← parse cursor
  stop.expectEnd
  pure result

/-! ## Argument lists -/

/-- Split what follows an opening bracket at the separators outside inner
brackets. `opening` is the index of the bracket, `depth` counts open inner
brackets, `start` and `read` are the place and the reversed characters of the
argument being read, and `found` the earlier arguments, last first. Brackets
and separators inside comments count as well. -/
def splitFrom (separator : Char) (opening : Nat) (depth start : Nat) (read : List Char)
    (found : List Cursor) (index : Nat) : List Char → Except Fault (List Cursor × Cursor)
  | [] => throw ⟨.unclosedArguments, opening, max index opening⟩
  | character :: rest =>
      let inside (depth : Nat) :=
        splitFrom separator opening depth start (character :: read) found (index + 1) rest
      if character = '(' then inside (depth + 1)
      else if character = ')' then
        if 0 < depth then inside (depth - 1)
        else
          let after : Cursor := ⟨index + 1, rest⟩
          if read.all isBlank then
            if found.isEmpty then pure ([], after)
            else throw ⟨.missingArgument, index, index⟩
          else pure ((⟨start, read.reverse⟩ :: found).reverse, after)
      else if character = separator && depth = 0 then
        if read.all isBlank then throw ⟨.extraSeparator character, index, index⟩
        else
          splitFrom separator opening 0 (index + 1) [] (⟨start, read.reverse⟩ :: found)
            (index + 1) rest
      else inside depth

/-- Read the argument list whose opening bracket is next. Empty brackets hold no
argument. -/
def readArguments (separator : Char) (cursor : Cursor) : Except Fault (List Cursor × Cursor) :=
  splitFrom separator cursor.index 0 (cursor.index + 1) [] [] (cursor.index + 1)
    (cursor.rest.drop 1)

end NumericRules.Grammar

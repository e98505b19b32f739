/-!
# Cutting text at a separator

Three ways to cut a text at a character: at every occurrence, at the first one and at
the last one.  The separator itself belongs to no part, so the parts put together
again with the separator between them give the text back.
-/

namespace StringAssembler
namespace Text

/-- The pieces between the separators of a text, one more than there are separators. -/
def pieces (separator : Char) (text : List Char) : List (List Char) :=
  text.foldr
    (fun c cut =>
      match cut with
      | [] => [[c]]
      | piece :: more =>
          if c = separator then [] :: piece :: more else (c :: piece) :: more)
    [[]]

/-- What stands before and behind the first separator of a text, if it has one. -/
def cutFirst? (separator : Char) : List Char → Option (List Char × List Char)
  | [] => none
  | c :: rest =>
      if c = separator then some ([], rest)
      else (cutFirst? separator rest).map fun (before, behind) => (c :: before, behind)

/-- What stands before and behind the last separator of a text, if it has one. -/
def cutLast? (separator : Char) : List Char → Option (List Char × List Char)
  | [] => none
  | c :: rest =>
      match cutLast? separator rest with
      | some (before, behind) => some (c :: before, behind)
      | none => if c = separator then some ([], rest) else none

end Text
end StringAssembler

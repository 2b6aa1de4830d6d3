/-!
Texts as lists of characters: the pieces between separators, and what a text holds.
-/

namespace ModuleRecovery.Text

/-- The pieces of a text between separators; one more than there are separators. -/
def pieces (separator : Char) : List Char → List (List Char)
  | [] => [[]]
  | c :: rest =>
      if c = separator then [] :: pieces separator rest
      else
        match pieces separator rest with
        | [] => [[c]]
        | piece :: more => (c :: piece) :: more

/-- Whether a phrase stands somewhere in a text. -/
def mentions (phrase : List Char) : List Char → Bool
  | [] => phrase.isEmpty
  | c :: rest => phrase.isPrefixOf (c :: rest) || mentions phrase rest

end ModuleRecovery.Text

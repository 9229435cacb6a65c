/-!
# Splitting texts

`splitAtChar` takes a text apart at every occurrence of a character.  There is always one
part more than there are occurrences.
-/

namespace LuaRuntime

/-- The texts between the occurrences of a character. -/
def splitAtChar (mark : Char) : List Char → List (List Char)
  | [] => [[]]
  | c :: rest =>
      if c = mark then [] :: splitAtChar mark rest
      else
        match splitAtChar mark rest with
        | [] => [[c]]
        | part :: parts => (c :: part) :: parts

end LuaRuntime

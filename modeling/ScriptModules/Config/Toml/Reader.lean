/-!
# Reading TOML: the small parts

A `Reader` takes something off the front of the text, or fails. Blanks stand inside lines; between
the items of an array there may also be line breaks and comments.
-/

namespace ScriptModules.Toml

/-- A step that takes something off the front of the text, or fails. -/
abbrev Reader := StateT (List Char) Option

/-- The next character, which stays. -/
def peek : Reader (Option Char) := fun cs => some (cs.head?, cs)

/-- Takes the character if it comes next. -/
def takes (c : Char) : Reader Bool := fun cs =>
  match cs with
  | d :: rest => if d = c then some (true, rest) else some (false, cs)
  | [] => some (false, [])

/-- Takes the text if it comes next. -/
def takesText (s : String) : Reader Bool := fun cs =>
  if s.toList.isPrefixOf cs then some (true, cs.drop s.length) else some (false, cs)

/-- Takes the character, which has to come next. -/
def expect (c : Char) : Reader Unit := do
  if ← takes c then return ()
  else failure

/-- Takes all characters up to the first that is not of the kind. -/
def takeAll (kind : Char → Bool) : Reader (List Char) := fun cs =>
  some (cs.takeWhile kind, cs.dropWhile kind)

/-- May the character stand between the words of a line? -/
def isTomlBlank (c : Char) : Bool := c = ' ' || c = '\t'

/-- Is the character barred from comments and texts of one line? -/
def isBarred (c : Char) : Bool := (c < ' ' && c ≠ '\t') || c = '\x7f'

/-- Takes the blanks. -/
def blanks : Reader Unit := do discard (takeAll isTomlBlank)

/-- Takes a comment, if there is one; the line break after it stays. -/
def comment : Reader Unit := do
  if ← takes '#' then
    if (← takeAll (· ≠ '\n')).any isBarred then failure

/-- What is left after blanks, line breaks and comments; none when a comment holds a barred
character. -/
def afterSpace : (inComment : Bool) → List Char → Option (List Char)
  | _, [] => some []
  | false, c :: rest =>
    if isTomlBlank c || c = '\n' then afterSpace false rest
    else if c = '#' then afterSpace true rest
    else some (c :: rest)
  | true, c :: rest =>
    if c = '\n' then afterSpace false rest
    else if isBarred c then none
    else afterSpace true rest

/-- Takes blanks, line breaks and comments. -/
def space : Reader Unit := fun cs => (afterSpace false cs).map ((), ·)

end ScriptModules.Toml

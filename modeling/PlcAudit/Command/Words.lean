/-!
# The words of a command line

A command may be written as one line, which is split as a shell would split it.  Blanks separate
words; single quotes keep everything; double quotes keep everything but a few escapes; a backslash
keeps the next character; and a number sign where a word would begin starts a comment.

* `splitWords`: the words of a line, or `none` when a quote is not closed.
* `quoteWord`, `quoteWords`: a line that is split into given words.
-/

namespace PlcAudit.Command

/-- Where in a line the next character stands. -/
inductive Mode where
  /-- Between words. -/
  | between
  /-- After a backslash between words. -/
  | escapedBetween
  /-- In a word, outside quotes. -/
  | word
  /-- After a backslash in a word. -/
  | escapedWord
  | single
  | double
  /-- After a backslash between double quotes. -/
  | escapedDouble
  | comment
  deriving DecidableEq, Repr

/-- The characters that separate words. -/
def isSeparator (c : Char) : Bool := c = ' ' || c = '\t' || c = '\n'

/-- The characters that a backslash keeps between double quotes. -/
def isEscapable (c : Char) : Bool := c = '$' || c = '`' || c = '"' || c = '\\'

/-- The words of the rest of a line.  `w` holds the characters of the word at hand, the last one
first. -/
def splitFrom : Mode → List Char → List Char → Option (List (List Char))
  | .between, _, [] => some []
  | .comment, _, [] => some []
  | .escapedBetween, w, [] => some [('\\' :: w).reverse]
  | .word, w, [] => some [w.reverse]
  | .escapedWord, w, [] => some [('\\' :: w).reverse]
  | .single, _, [] => none
  | .double, _, [] => none
  | .escapedDouble, _, [] => none
  | .between, w, c :: cs =>
    if c = '\'' then splitFrom .single w cs
    else if c = '"' then splitFrom .double w cs
    else if c = '\\' then splitFrom .escapedBetween w cs
    else if isSeparator c then splitFrom .between w cs
    else if c = '#' then splitFrom .comment w cs
    else splitFrom .word (c :: w) cs
  | .escapedBetween, w, c :: cs =>
    if c = '\n' then splitFrom .between w cs else splitFrom .word (c :: w) cs
  | .word, w, c :: cs =>
    if c = '\'' then splitFrom .single w cs
    else if c = '"' then splitFrom .double w cs
    else if c = '\\' then splitFrom .escapedWord w cs
    else if isSeparator c then (splitFrom .between [] cs).map (w.reverse :: ·)
    else splitFrom .word (c :: w) cs
  | .escapedWord, w, c :: cs =>
    if c = '\n' then splitFrom .word w cs else splitFrom .word (c :: w) cs
  | .single, w, c :: cs =>
    if c = '\'' then splitFrom .word w cs else splitFrom .single (c :: w) cs
  | .double, w, c :: cs =>
    if c = '"' then splitFrom .word w cs
    else if c = '\\' then splitFrom .escapedDouble w cs
    else splitFrom .double (c :: w) cs
  | .escapedDouble, w, c :: cs =>
    if c = '\n' then splitFrom .double w cs
    else if isEscapable c then splitFrom .double (c :: w) cs
    else splitFrom .double (c :: '\\' :: w) cs
  | .comment, w, c :: cs =>
    if c = '\n' then splitFrom .between w cs else splitFrom .comment w cs

/-- The words of a line, or `none` when a quote is not closed. -/
def splitWords (line : String) : Option (List String) :=
  (splitFrom .between [] line.toList).map fun ws => ws.map String.ofList

/-- What is said of a line with a quote that is not closed. -/
def unclosedQuote : String := "missing closing quote"

/-! ## Quoting -/

/-- One character of a word between single quotes; a single quote interrupts them. -/
def quoteChar (c : Char) : List Char := if c = '\'' then ['\'', '\\', '\'', '\''] else [c]

/-- A word in single quotes. -/
def quoteWord (w : String) : List Char := '\'' :: (w.toList.flatMap quoteChar ++ ['\''])

/-- Words in single quotes, with blanks between them. -/
def quoteWords (ws : List String) : String :=
  String.ofList ([' '].intercalate (ws.map quoteWord))

end PlcAudit.Command

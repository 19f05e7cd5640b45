/-!
# Coloured text

A coloured console is told how to show a text by a control sequence in front of it, and to stop by
another one after it.  A text that itself holds the second sequence would end its own style early,
so the first one is repeated after each.

* `Style`: bold, dim, or a colour.
* `paint`: a text in a style, or as it is when there is no colour.
-/

namespace PlcAudit.Console

/-- The colours in use. -/
inductive Colour where
  | red
  | green
  | yellow
  | blue
  | cyan
  | white
  deriving DecidableEq, Repr

/-- The number of a colour in a control sequence. -/
def Colour.code : Colour → List Char
  | red => ['3', '1']
  | green => ['3', '2']
  | yellow => ['3', '3']
  | blue => ['3', '4']
  | cyan => ['3', '6']
  | white => ['3', '7']

/-- How a text is shown. -/
inductive Style where
  | bold
  | dim
  | coloured (c : Colour)
  | boldColoured (c : Colour)
  deriving DecidableEq, Repr

/-- The numbers of a style, the weight before the colour. -/
def Style.codes : Style → List Char
  | bold => ['1']
  | dim => ['2']
  | coloured c => c.code
  | boldColoured c => '1' :: ';' :: c.code

/-- The control sequence with the given numbers. -/
def sequence (codes : List Char) : List Char := '\x1b' :: '[' :: (codes ++ ['m'])

/-- The control sequence that ends every style. -/
def reset : List Char := sequence ['0']

/-- A text with `opening` after each control sequence that ends a style. -/
def reopen (opening : List Char) : List Char → List Char
  | '\x1b' :: '[' :: '0' :: 'm' :: r => reset ++ opening ++ reopen opening r
  | c :: r => c :: reopen opening r
  | [] => []

/-- A text in a style, if there is colour at all. -/
def paint (colour : Bool) (style : Style) (cs : List Char) : List Char :=
  if colour then sequence style.codes ++ reopen (sequence style.codes) cs ++ reset else cs

@[simp] theorem paint_false (style : Style) (cs : List Char) : paint false style cs = cs := rfl

end PlcAudit.Console

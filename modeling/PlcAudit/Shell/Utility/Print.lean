import PlcAudit.Shell.Utility.Lines

/-!
# Printing

* `echo`, `echoEscaped`: arguments with blanks between them, as they are or with their escapes read.
* `printf`: arguments in a format, which is used again while arguments are left.
-/

namespace PlcAudit.Shell.Utility

/-! ## Escapes -/

/-- The text that a text with escapes spells, and whether it ends the output.  In arguments an octal
number follows a zero; in a format it stands alone. -/
def unescape (inArgument : Bool) : Nat → Octets → Octets × Bool
  | 0, _ => ([], false)
  | fuel + 1, cs =>
    match cs with
    | [] => ([], false)
    | '\\' :: c :: r =>
      if inArgument ∧ c = 'c' then ([], true)
      else
        let (out, r) : Octets × Octets :=
          if inArgument ∧ c = '0' then
            match octal? r with
            | some (x, r) => ([x], r)
            | none => (['\x00'], r)
          else
            match octal? (c :: r), letterEscape? c with
            | some (x, r), _ => ([x], r)
            | none, some x => ([x], r)
            | none, none => if c = 'e' then (['\x1b'], r) else (['\\', c], r)
        let (t, stop) := unescape inArgument fuel r
        (out ++ t, stop)
    | c :: r =>
      let (t, stop) := unescape inArgument fuel r
      (c :: t, stop)

/-! ## Arguments as they are -/

/-- The arguments with their escapes read, as a shell prints them. -/
def echoEscaped (t : Task) : Done :=
  let (quiet, args) := match t.args with
    | a :: rest => if a = "-n".toList then (true, rest) else (false, a :: rest)
    | [] => (false, [])
  let text := [' '].intercalate args
  let (out, stop) := unescape true (text.length + 1) text
  t.wrote (out ++ if quiet || stop then [] else ['\n'])

/-- Whether an argument is made of the letters of this utility's options. -/
def isEchoOption (a : Octets) : Bool :=
  match a with
  | '-' :: c :: cs => (c :: cs).all fun x => x = 'n' || x = 'e' || x = 'E'
  | _ => false

/-- The arguments, with their escapes read when that is asked for. -/
def echo (t : Task) : Done :=
  let os := (t.args.takeWhile isEchoOption).flatten
  let text := [' '].intercalate (t.args.dropWhile isEchoOption)
  let (out, stop) := if os.contains 'e' then unescape true (text.length + 1) text else (text, false)
  t.wrote (out ++ if os.contains 'n' || stop then [] else ['\n'])

/-! ## Formats -/

/-- A directive of a format, and how it is written. -/
structure Directive where
  text : Octets
  flags : List Char
  width : Octets
  precision : Option Octets
  conversion : Char

/-- Reads a directive after its percent sign. -/
def readDirective (cs : Octets) : Option (Directive × Octets) :=
  let isFlag (c : Char) : Bool := "-+ #0".toList.contains c
  let flags := cs.takeWhile isFlag
  let r := cs.dropWhile isFlag
  let isWidth (c : Char) : Bool := c.isDigit || c = '*'
  let width := r.takeWhile isWidth
  let r := r.dropWhile isWidth
  let (precision, r) : Option Octets × Octets := match r with
    | '.' :: r => (some (r.takeWhile isWidth), r.dropWhile isWidth)
    | r => (none, r)
  match r with
  | c :: r => some (⟨'%' :: cs.take (cs.length - r.length), flags, width, precision, c⟩, r)
  | [] => none

/-- The integer that an argument spells: decimal, octal, hexadecimal, or a character after a quote.
The second part says whether all of it was read. -/
def integerOf (a : Octets) : Int × Bool :=
  let a := a.dropWhile Char.isWhitespace
  let (negative, a) : Bool × Octets := match a with
    | '-' :: r => (true, r)
    | '+' :: r => (false, r)
    | r => (false, r)
  let digit (c : Char) : Nat :=
    if c.isDigit then c.toNat - '0'.toNat else c.toLower.toNat - 'a'.toNat + 10
  let read (base : Nat) (cs : Octets) : Nat × Bool :=
    let isDigit (c : Char) : Bool := (c.isDigit || c.isAlpha) && digit c < base
    ((cs.takeWhile isDigit).foldl (fun n c => base * n + digit c) 0,
      (cs.dropWhile isDigit).isEmpty && !cs.isEmpty)
  let (n, whole) : Nat × Bool := match a with
    | '\'' :: c :: _ => (c.toNat, true)
    | '"' :: c :: _ => (c.toNat, true)
    | '0' :: 'x' :: r => read 16 r
    | '0' :: r => if r.isEmpty then (0, true) else read 8 r
    | r => read 10 r
  (if negative then -(n : Int) else n, whole)

/-- Fills a text up to a width. -/
def fill (left zero : Bool) (width : Nat) (sign body : Octets) : Octets :=
  let missing := width - (sign.length + body.length)
  if left then sign ++ body ++ List.replicate missing ' '
  else if zero then sign ++ List.replicate missing '0' ++ body
  else List.replicate missing ' ' ++ sign ++ body

/-- A directive with the measures that stars take from the arguments. -/
def Directive.measures (d : Directive) (args : List Octets) :
    (Nat × Bool × Option Nat) × List Octets :=
  let (width, left, args) : Nat × Bool × List Octets :=
    if d.width = ['*'] then
      let n := (integerOf (args.headD [])).1
      (n.natAbs, n < 0, args.drop 1)
    else ((toNat? d.width).getD 0, false, args)
  match d.precision with
  | some ['*'] => ((width, left, some (integerOf (args.headD [])).1.toNat), args.drop 1)
  | some p => ((width, left, some ((toNat? p).getD 0)), args)
  | none => ((width, left, none), args)

/-- A number in a directive. -/
def Directive.number (d : Directive) (width : Nat) (left : Bool) (precision : Option Nat)
    (n : Int) : Octets :=
  let base := if d.conversion = 'o' then 8 else if d.conversion = 'x' ∨ d.conversion = 'X' then 16
    else 10
  let signed := d.conversion = 'd' ∨ d.conversion = 'i'
  let magnitude := if signed then n.natAbs else (n % UInt64.size).toNat
  let digits := Nat.toDigits base magnitude
  let digits := if d.conversion = 'X' then digits.map Char.toUpper else digits
  let digits := List.replicate (precision.getD 1 - digits.length) '0' ++ digits
  let mark : Octets :=
    if d.flags.contains '#' ∧ magnitude ≠ 0 then
      if d.conversion = 'x' then ['0', 'x'] else if d.conversion = 'X' then ['0', 'X']
      else if d.conversion = 'o' then ['0'] else []
    else []
  let sign : Octets :=
    if !signed then mark
    else if n < 0 then ['-']
    else if d.flags.contains '+' then ['+']
    else if d.flags.contains ' ' then [' '] else []
  fill left (d.flags.contains '0' && precision.isNone) width sign digits

/-- What has been printed. -/
structure Printed where
  output : Octets := []
  complaints : List Octets := []
  args : List Octets
  stop : Bool := false

/-- Prints one directive. -/
def Directive.print (d : Directive) (p : Printed) : Printed :=
  let ((width, left, precision), args) := d.measures p.args
  let left := left || d.flags.contains '-'
  let a := args.headD []
  let cut (s : Octets) : Octets := match precision with | some n => s.take n | none => s
  if d.text = ['%', '%'] then { p with output := p.output ++ ['%'] }
  else if d.conversion = 's' then
    { p with output := p.output ++ fill left false width [] (cut a), args := args.drop 1 }
  else if d.conversion = 'b' then
    let (text, stop) := unescape true (a.length + 1) a
    { p with output := p.output ++ fill left false width [] (cut text), args := args.drop 1, stop }
  else if d.conversion = 'c' then
    { p with output := p.output ++ fill left false width [] (a.take 1), args := args.drop 1 }
  else if "diouxX".toList.contains d.conversion then
    let (n, whole) := if args.isEmpty then (0, true) else integerOf a
    let complaints :=
      if whole then p.complaints
      else p.complaints ++ [a ++ (if n = 0 then ": expected numeric value" else
        ": not completely converted").toList]
    { p with
      output := p.output ++ d.number width left precision n, args := args.drop 1, complaints }
  else
    { p with
      complaints := p.complaints ++ [d.text ++ ": invalid directive".toList]
      stop := true }

/-- Prints a format once. -/
def printOnce : Nat → Octets → Printed → Printed
  | 0, _, p => p
  | fuel + 1, cs, p =>
    if p.stop then p
    else
      match cs with
      | [] => p
      | '%' :: r =>
        match readDirective r with
        | some (d, r) => printOnce fuel r (d.print p)
        | none =>
          { p with complaints := p.complaints ++ ["%: invalid directive".toList], stop := true }
      | '\\' :: c :: r =>
        let length := match octal? (c :: r) with
          | some (_, rest) => (c :: r).length - rest.length
          | none => 1
        let (out, stop) := unescape false 2 ('\\' :: (c :: r).take length)
        printOnce fuel ((c :: r).drop length) { p with output := p.output ++ out, stop }
      | c :: r => printOnce fuel r { p with output := p.output ++ [c] }

/-- Prints a format until the arguments are used up. -/
def printAll (format : Octets) : Nat → Printed → Printed
  | 0, p => p
  | fuel + 1, p =>
    let q := printOnce (format.length + 1) format p
    if q.stop ∨ q.args.isEmpty ∨ q.args.length = p.args.length then q
    else printAll format fuel q

/-- Prints arguments in a format. -/
def printf (t : Task) : Done :=
  let args := match t.args with
    | a :: rest => if a = "--".toList then rest else a :: rest
    | [] => []
  match args with
  | [] => t.fail 2 "usage: printf format [arg ...]".toList
  | format :: args =>
    let p := printAll format (args.length + 1) { args }
    { output := p.output
      diagnostics := p.complaints.flatMap t.complaint
      code := if p.complaints.isEmpty then 0 else 1
      tree := t.tree }

end PlcAudit.Shell.Utility

import Formulary.Pattern.Basic
import Formulary.Text.Folding

/-!
# Modes of a pattern

Flags in a pattern switch modes on and off: `i` ignores case, `m` makes anchors match at lines, `s`
lets a dot match the end of a line, `x` allows blanks and comments, `R` takes a carriage return
into account at line ends, `u` takes Unicode into account, and `U` makes repetitions lazy unless
they are marked as such. Without Unicode classes and brackets are limited to ASCII, and so is what
is given as a byte.

## Main definitions

* `Mode` — the modes that are in force
* `Mode.ofFlags?` — the modes after a group of flags
* `Mode.skip` — a text without the blanks and comments in front
* `Mode.literal`, `Mode.close?`, `Mode.dot?` — sets of characters as the modes want them
-/

namespace Formulary

open Text

/-- The modes in force at a place of a pattern. -/
structure Mode where
  /-- Case is ignored. -/
  ignoreCase : Bool := false
  /-- Anchors match at every line. -/
  multiline : Bool := false
  /-- A dot also matches the end of a line. -/
  dotAll : Bool := false
  /-- Blanks and comments are allowed. -/
  verbose : Bool := false
  /-- A carriage return may be part of the end of a line. -/
  crlf : Bool := false
  /-- Classes and case are those of Unicode. -/
  unicode : Bool := true
  /-- Repetitions are lazy, and the mark that makes them so makes them greedy. -/
  lazy : Bool := false
  deriving Repr, DecidableEq, Inhabited

namespace Mode

/-! ### Flags -/

/-- Switches the mode of a flag on or off. -/
def switch? (m : Mode) (on : Bool) : Char → Option Mode
  | 'i' => some { m with ignoreCase := on }
  | 'm' => some { m with multiline := on }
  | 's' => some { m with dotAll := on }
  | 'U' => some { m with lazy := on }
  | 'u' => some { m with unicode := on }
  | 'R' => some { m with crlf := on }
  | 'x' => some { m with verbose := on }
  | _ => none

/-- What a group of flags ends with. -/
inductive FlagsEnd
  /-- The flags hold for the rest of the group around them. -/
  | rest
  /-- The flags hold for the group that they open. -/
  | body
  deriving Repr, DecidableEq, Inhabited

/-- Reads flags up to the mark that ends them, given those already seen, last first. No flag may be
repeated, flags after a hyphen are switched off, and a flag has to follow the hyphen. -/
def flagsFrom? (m : Mode) (seen : List Char) : List Char → Option (Mode × FlagsEnd × List Char)
  | [] => none
  | ':' :: rest => if seen.head? == some '-' then none else some (m, .body, rest)
  | ')' :: rest => if seen.isEmpty || seen.head? == some '-' then none else some (m, .rest, rest)
  | '-' :: rest => if seen.contains '-' then none else flagsFrom? m ('-' :: seen) rest
  | c :: rest =>
    if seen.contains c then none
    else
      match m.switch? (!seen.contains '-') c with
      | some m => flagsFrom? m (c :: seen) rest
      | none => none

/-- The modes after the flags at the front of a text. -/
def ofFlags? (m : Mode) (cs : List Char) : Option (Mode × FlagsEnd × List Char) :=
  flagsFrom? m [] cs

/-! ### Blanks -/

/-- A text without the blanks and comments in front; a comment may be open already. -/
def skipBlanks (comment : Bool) : List Char → List Char
  | [] => []
  | c :: rest =>
    if comment then skipBlanks (c != '\n') rest
    else if isBlank c then skipBlanks false rest
    else if c == '#' then skipBlanks true rest
    else c :: rest

/-- A text without what the modes allow to be skipped. -/
def skip (m : Mode) (cs : List Char) : List Char := if m.verbose then skipBlanks false cs else cs

/-- The longest run of characters with a property, where blanks between them may be skipped, and
the rest. -/
def span (m : Mode) (p : Char → Bool) : (fuel : Nat) → List Char → List Char × List Char
  | 0, cs => ([], cs)
  | _ + 1, [] => ([], [])
  | fuel + 1, c :: rest =>
    if p c then
      let (run, rest) := span m p fuel (m.skip rest)
      (c :: run, rest)
    else ([], c :: rest)

/-- The characters up to a closing brace, and what follows the brace. -/
def braced? (m : Mode) (cs : List Char) : Option (List Char × List Char) :=
  match m.span (· != '\x7d') cs.length (m.skip cs) with
  | (content, _ :: rest) => some (content, rest)
  | (_, []) => none

/-! ### Sets -/

/-- A set as it stands in a pattern: with all case variants where case is ignored, and then its
complement if it is negated. -/
def close? (m : Mode) (negated : Bool) (s : CharSet) : Option CharSet :=
  let s := if m.ignoreCase then s.folded m.unicode else s
  if negated then if m.unicode then some s.complement else none else some s

/-- A character that may stand in brackets or be given as a byte. -/
def allows (m : Mode) (c : Char) : Bool := m.unicode || isAscii c

/-- A character that stands for itself. -/
def literal (m : Mode) (c : Char) : CharSet :=
  if m.ignoreCase then (CharSet.single c).folded m.unicode else .single c

/-- What a dot stands for. -/
def dot? (m : Mode) : Option CharSet :=
  if m.unicode then some (if m.dotAll then .all else .withinLine m.crlf) else none

/-- The anchor at the start. -/
def startAnchor (m : Mode) : Look := if m.multiline then .lineStart m.crlf else .start

/-- The anchor at the end. -/
def stopAnchor (m : Mode) : Look := if m.multiline then .lineStop m.crlf else .stop

end Mode

end Formulary

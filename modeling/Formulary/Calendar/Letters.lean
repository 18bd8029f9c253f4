/-!
# Letter formats

A time format without percent signs is written with letters: runs of `y`, `M`, `d`, `H`, `h`, `m`,
`s`, `S`, `a` and `E` stand for fields, and everything else for itself. Apostrophes enclose literal
text, and two of them stand for one.

## Main definitions

* `Letters.directive?` — the directive of a run of letters
* `Letters.toFormat` — a letter format with directives in place of its runs
-/

namespace Formulary.Calendar.Letters

/-- The directive of a run of `count` times the same letter. -/
def directive? (letter : Char) (count : Nat) : Option String :=
  match letter with
  | 'y' => some (if count = 2 then "%y" else "%Y")
  | 'M' => some (if count ≤ 2 then "%m" else if count = 3 then "%b" else "%B")
  | 'd' => some "%d"
  | 'H' => some "%H"
  | 'h' => some "%I"
  | 'm' => some "%M"
  | 's' => some "%S"
  | 'S' => some "%3f"
  | 'a' => some "%p"
  | 'E' => some (if count ≤ 3 then "%a" else "%A")
  | _ => none

/-- What a run of letters becomes. -/
def run (letter : Char) (count : Nat) : List Char :=
  match directive? letter count with
  | some directive => directive.toList
  | none => List.replicate count letter

/-- The rest of a letter format, `skip` characters of which belong to the run before. -/
private def directives (quoted : Bool) (skip : Nat) : List Char → List Char
  | [] => []
  | c :: rest =>
    match skip with
    | skip + 1 => directives quoted skip rest
    | 0 =>
      if c == '\'' then
        if rest.head? == some '\'' then '\'' :: directives quoted 1 rest
        else directives (!quoted) 0 rest
      else if quoted || !c.isAlpha then c :: directives quoted 0 rest
      else
        let more := (rest.takeWhile (· == c)).length
        run c (more + 1) ++ directives quoted more rest

/-- A format with directives: letter formats are those without a percent sign. -/
def toFormat (format : String) : String :=
  if format.contains '%' then format else String.ofList (directives false 0 format.toList)

end Formulary.Calendar.Letters

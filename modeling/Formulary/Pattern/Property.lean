import Formulary.Text.Age
import Formulary.Text.CaseChanges
import Formulary.Text.Script.Extensions
import Formulary.Text.Segmentation

/-!
# Character properties by name

A property is asked for by a general category, a script, or the name of a property that a
character has or lacks; further properties are asked for with a value. Names are compared without
regard to case, spaces, underscores, hyphens and a leading `is`.

## Main definitions

* `Property.normalName` — the form in which names are compared
* `Property.ofName?` — the set of a single name
* `Property.ofPair?` — the set of the characters for which a property has a given value
-/

namespace Formulary.Property

open Text

/-- The form in which names are compared. -/
def normalName (name : List Char) : String :=
  let (lead, rest) :=
    match name with
    | i :: s :: rest => if i.toLower == 'i' && s.toLower == 's' then (true, rest) else (false, name)
    | _ => (false, name)
  let letters :=
    (rest.filter fun c => isAscii c && c != ' ' && c != '_' && c != '-').map Char.toLower
  if lead && letters == ['c'] then "isc" else String.ofList letters

/-- The long and the further names of the general categories, with their abbreviations. -/
private def categoryNames : List (String × String) :=
  [("control", "cc"), ("cntrl", "cc"), ("format", "cf"), ("unassigned", "cn"),
    ("privateuse", "co"), ("lowercaseletter", "ll"),
    ("modifierletter", "lm"), ("otherletter", "lo"), ("titlecaseletter", "lt"),
    ("uppercaseletter", "lu"), ("spacingmark", "mc"), ("enclosingmark", "me"),
    ("nonspacingmark", "mn"), ("decimalnumber", "nd"), ("digit", "nd"), ("letternumber", "nl"),
    ("othernumber", "no"), ("connectorpunctuation", "pc"), ("dashpunctuation", "pd"),
    ("closepunctuation", "pe"), ("finalpunctuation", "pf"), ("initialpunctuation", "pi"),
    ("otherpunctuation", "po"), ("openpunctuation", "ps"), ("currencysymbol", "sc"),
    ("modifiersymbol", "sk"), ("mathsymbol", "sm"), ("othersymbol", "so"),
    ("lineseparator", "zl"), ("paragraphseparator", "zp"), ("spaceseparator", "zs"),
    ("other", "c"), ("letter", "l"), ("mark", "m"), ("combiningmark", "m"), ("number", "n"),
    ("punctuation", "p"), ("punct", "p"), ("symbol", "s"), ("separator", "z"),
    ("casedletter", "lc")]

/-- The set of a general category or of a group of them. No character is a surrogate. -/
def category? (name : String) : Option CharSet :=
  match name with
  | "any" => some .all
  | "ascii" => some (.range '\x00' '\x7F')
  | "assigned" => some .assigned
  | _ =>
    let name := (categoryNames.lookup name).getD name
    if name == "lc" then
      some (Category.set fun c =>
        [.uppercaseLetter, .lowercaseLetter, .titlecaseLetter].contains c)
    else if ["c", "l", "m", "n", "p", "s", "z"].contains name then
      some (Category.set fun c => (c.abbreviation.take 1).toString.map Char.toLower == name)
    else
      (Category.all.find? fun c => c != .surrogate && c.abbreviation.map Char.toLower == name).map
        fun c => Category.set (· == c)

/-- The set of a script. -/
def script? (name : String) : Option CharSet := (Script.ofName? name).map Script.set

/-- The characters that are used with a script. -/
def scriptExtension? (name : String) : Option CharSet := (Script.ofName? name).map Script.extended

/-- The set of a property that a character has or lacks. -/
def binary? : String → Option CharSet
  | "asciihexdigit" | "ahex" => some .asciiHexDigit
  | "alphabetic" | "alpha" => some .alphabetic
  | "bidicontrol" | "bidic" => some .bidiControl
  | "bidimirrored" | "bidim" => some .bidiMirrored
  | "caseignorable" | "ci" => some .caseIgnorable
  | "cased" => some .cased
  | "changeswhencasefolded" | "cwcf" => some .changesWhenCasefolded
  | "changeswhencasemapped" | "cwcm" => some .changesWhenCasemapped
  | "changeswhenlowercased" | "cwl" => some .changesWhenLowercased
  | "changeswhentitlecased" | "cwt" => some .changesWhenTitlecased
  | "changeswhenuppercased" | "cwu" => some .changesWhenUppercased
  | "dash" => some .dash
  | "defaultignorablecodepoint" | "di" => some .defaultIgnorable
  | "deprecated" | "dep" => some .deprecated
  | "diacritic" | "dia" => some .diacritic
  | "emoji" => some .emoji
  | "emojicomponent" | "ecomp" => some .emojiComponent
  | "emojimodifier" | "emod" => some .emojiModifier
  | "emojimodifierbase" | "ebase" => some .emojiModifierBase
  | "emojipresentation" | "epres" => some .emojiPresentation
  | "extendedpictographic" | "extpict" => some .extendedPictographic
  | "extender" | "ext" => some .extender
  | "graphemebase" | "grbase" => some .graphemeBase
  | "graphemeextend" | "grext" => some .graphemeExtend
  | "graphemelink" | "grlink" => some .graphemeLink
  | "hexdigit" | "hex" => some .hexDigit
  | "hyphen" => some .hyphen
  | "idsbinaryoperator" | "idsb" => some .idsBinaryOperator
  | "idstrinaryoperator" | "idst" => some .idsTrinaryOperator
  | "idsunaryoperator" | "idsu" => some .idsUnaryOperator
  | "idcompatmathcontinue" => some .idCompatMathContinue
  | "idcompatmathstart" => some .idCompatMathStart
  | "idcontinue" | "idc" => some .idContinue
  | "idstart" | "ids" => some .idStart
  | "ideographic" | "ideo" => some .ideographic
  | "joincontrol" | "joinc" => some .joinControl
  | "logicalorderexception" | "loe" => some .logicalOrderException
  | "lowercase" | "lower" => some .lowercase
  | "math" => some .math
  | "modifiercombiningmark" | "mcm" => some .modifierCombiningMark
  | "noncharactercodepoint" | "nchar" => some .noncharacter
  | "otheralphabetic" | "oalpha" => some .otherAlphabetic
  | "otherdefaultignorablecodepoint" | "odi" => some .otherDefaultIgnorable
  | "othergraphemeextend" | "ogrext" => some .otherGraphemeExtend
  | "otheridcontinue" | "oidc" => some .otherIdContinue
  | "otheridstart" | "oids" => some .otherIdStart
  | "otherlowercase" | "olower" => some .otherLowercase
  | "othermath" | "omath" => some .otherMath
  | "otheruppercase" | "oupper" => some .otherUppercase
  | "patternsyntax" | "patsyn" => some .patternSyntax
  | "patternwhitespace" | "patws" => some .patternWhiteSpace
  | "prependedconcatenationmark" | "pcm" => some .prependedConcatenationMark
  | "quotationmark" | "qmark" => some .quotationMark
  | "radical" => some .radical
  | "regionalindicator" | "ri" => some .regionalIndicator
  | "sentenceterminal" | "sterm" => some .sentenceTerminal
  | "softdotted" | "sd" => some .softDotted
  | "terminalpunctuation" | "term" => some .terminalPunctuation
  | "unifiedideograph" | "uideo" => some .unifiedIdeograph
  | "uppercase" | "upper" => some .uppercase
  | "variationselector" | "vs" => some .variationSelector
  | "whitespace" | "wspace" | "space" => some .whiteSpace
  | "xidcontinue" | "xidc" => some .xidContinue
  | "xidstart" | "xids" => some .xidStart
  | _ => none

/-- The set that a single name stands for. -/
def ofName? (name : List Char) : Option CharSet :=
  let name := normalName name
  binary? name <|> category? name <|> script? name

/-- The set of the characters for which a property has a given value. -/
def ofPair? (property value : List Char) : Option CharSet :=
  let value := normalName value
  match normalName property with
  | "gc" | "generalcategory" => category? value
  | "sc" | "script" => script? value
  | "scx" | "scriptextensions" => scriptExtension? value
  | "age" => Age.ofName? value
  | "gcb" | "graphemeclusterbreak" => Segmentation.graphemeClass? value
  | "wb" | "wordbreak" => Segmentation.wordClass? value
  | "sb" | "sentencebreak" => Segmentation.sentenceClass? value
  | _ => none

end Formulary.Property

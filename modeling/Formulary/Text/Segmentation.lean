import Formulary.Text.Classes
import Formulary.Text.Script

/-!
# Where text may be cut

The Unicode annex on segmentation divides the characters into classes three times: for what a reader
takes for one character, for words and for sentences. A class is known by its names in lower case
and without separators. Characters outside all classes of a division have no class here.

## Main definitions

* `Segmentation.graphemeClass?` — the classes that decide where characters end
* `Segmentation.wordClass?` — the classes that decide where words end
* `Segmentation.sentenceClass?` — the classes that decide where sentences end
-/

namespace Formulary.Text.Segmentation

open CharSet

/-- The characters of one category. -/
private def only (category : Category) : CharSet := Category.set (· == category)

/-- The set with one of the names in a list of named sets. -/
private def named? (classes : List (List String × CharSet)) (name : String) : Option CharSet :=
  (classes.find? fun (names, _) => names.contains name).map (·.2)

/-- The joiner, which takes part in all divisions. -/
def joiner : CharSet := codes 0x200D 0x200D

/-- The carriage return. -/
def carriageReturn : CharSet := single '\r'

/-- The line feed. -/
def lineFeed : CharSet := single '\n'

/-- The characters that go with the one before. -/
def extension : CharSet := graphemeExtend.union (only .spacingMark)

/-! ### What is taken for one character -/

/-- The characters that go with the one after. -/
def prepend : CharSet :=
  prependedConcatenationMark.union <| ofRanges
    [(0xD4E, 0xD4E), (0x111C2, 0x111C3), (0x113D1, 0x113D1), (0x1193F, 0x1193F), (0x11941, 0x11941),
      (0x11A3A, 0x11A3A), (0x11A84, 0x11A89), (0x11D46, 0x11D46), (0x11F02, 0x11F02)]

/-- The marks and modifiers that always go with the one before. -/
def graphemeExtension : CharSet := (graphemeExtend.union emojiModifier).diff joiner

/-- The characters that never go with another. -/
def graphemeControl : CharSet :=
  (unions [only .lineSeparator, only .paragraphSeparator, only .control, only .format,
    (only .unassigned).inter defaultIgnorable]).diff
    (unions [carriageReturn, lineFeed, codes 0x200C 0x200D, prepend, graphemeExtension])

/-- The marks with a place of their own that go with the one before. -/
def spacingMark : CharSet :=
  (((only .spacingMark).diff graphemeExtend).diff <| ofRanges
    [(0x102B, 0x102C), (0x1038, 0x1038), (0x1062, 0x1064), (0x1067, 0x106D), (0x1083, 0x1083),
      (0x1087, 0x108C), (0x108F, 0x108F), (0x109A, 0x109C), (0x1A61, 0x1A61), (0x1A63, 0x1A64),
      (0xAA7B, 0xAA7B), (0xAA7D, 0xAA7D), (0x11720, 0x11721)]).union <|
    ofRanges [(0xE33, 0xE33), (0xEB3, 0xEB3)]

/-- The first code point of the Korean syllables. -/
def syllableStart : Nat := 0xAC00

/-- How many Korean syllables there are. -/
def syllableCount : Nat := 11172

/-- How many Korean syllables share their first two letters. -/
def syllableBlock : Nat := 28

/-- The Korean syllables of two letters. -/
def openSyllable : CharSet :=
  ofMembers ((List.range (syllableCount / syllableBlock)).map (syllableStart + syllableBlock * ·))

/-- The Korean syllables of three letters. -/
def closedSyllable : CharSet :=
  (codes syllableStart (syllableStart + syllableCount - 1)).diff openSyllable

/-- The classes that decide where a character ends, with their names. -/
def graphemeClasses : List (List String × CharSet) :=
  [(["cr"], carriageReturn), (["lf"], lineFeed), (["control", "cn"], graphemeControl),
    (["extend", "ex"], graphemeExtension), (["prepend", "pp"], prepend),
    (["spacingmark", "sm"], spacingMark), (["zwj"], joiner),
    (["regionalindicator", "ri"], regionalIndicator),
    (["l"], ofRanges [(0x1100, 0x115F), (0xA960, 0xA97C)]),
    (["v"], ofRanges [(0x1160, 0x11A7), (0xD7B0, 0xD7C6), (0x16D63, 0x16D63), (0x16D67, 0x16D6A)]),
    (["t"], ofRanges [(0x11A8, 0x11FF), (0xD7CB, 0xD7FB)]), (["lv"], openSyllable),
    (["lvt"], closedSyllable)]

/-- The characters of a class that decides where a character ends. -/
def graphemeClass? (name : String) : Option CharSet := named? graphemeClasses name

/-! ### Words -/

/-- The letters of Katakana, with the signs among them. -/
def katakana : CharSet :=
  ofRanges [(0x3031, 0x3035), (0x309B, 0x309C), (0x30A0, 0x30FA), (0x30FC, 0x30FF), (0x31F0,
    0x31FF), (0x32D0, 0x32FE), (0x3300, 0x3357), (0xFF66, 0xFF9D), (0x1AFF0, 0x1AFF3), (0x1AFF5,
    0x1AFFB), (0x1AFFD, 0x1AFFE), (0x1B000, 0x1B000), (0x1B120, 0x1B122), (0x1B155, 0x1B155),
    (0x1B164, 0x1B167)]

/-- The Hebrew letters. -/
def hebrewLetter : CharSet :=
  ofRanges [(0x5D0, 0x5EA), (0x5EF, 0x5F2), (0xFB1D, 0xFB1D), (0xFB1F, 0xFB28), (0xFB2A, 0xFB36),
    (0xFB38, 0xFB3C), (0xFB3E, 0xFB3E), (0xFB40, 0xFB41), (0xFB43, 0xFB44), (0xFB46, 0xFB4F)]

/-- The scripts that put no blanks between words. -/
def unspacedScripts : List String :=
  ["Thai", "Laoo", "Mymr", "Khmr", "Tale", "Talu", "Lana", "Tavt", "Ahom"]

/-- The letters of words, with the signs that count as such. -/
def wordLetter : CharSet :=
  (alphabetic.union <| ofRanges
    [(0x2C2, 0x2C5), (0x2D2, 0x2D7), (0x2DE, 0x2DF), (0x2E5, 0x2EB), (0x2ED, 0x2ED), (0x2EF, 0x2FF),
      (0x55A, 0x55C), (0x55E, 0x55E), (0x58A, 0x58A), (0x5F3, 0x5F3), (0x70F, 0x70F), (0xA708,
      0xA716), (0xA720, 0xA721), (0xA789, 0xA78A), (0xAB5B, 0xAB5B)]).diff <|
    unions ([ideographic, katakana, hebrewLetter, Script.set "Hira", extension, emojiModifier] ++
      unspacedScripts.map Script.set)

/-- The digits, with the signs that belong to numbers. -/
def wordNumeric : CharSet :=
  decimalDigit.union <| ofRanges
    [(0x600, 0x605), (0x66B, 0x66B), (0x6DD, 0x6DD), (0x890, 0x891), (0x8E2, 0x8E2), (0x19DA,
      0x19DA), (0x110BD, 0x110BD), (0x110CD, 0x110CD)]

/-- The formats that do not count inside a word. -/
def wordFormat : CharSet :=
  (only .format).diff <| ofRanges
    [(0x600, 0x605), (0x6DD, 0x6DD), (0x70F, 0x70F), (0x890, 0x891), (0x8E2, 0x8E2), (0x200B,
      0x200D), (0x110BD, 0x110BD), (0x110CD, 0x110CD), (0xE0020, 0xE007F)]

/-- The classes that decide where a word ends, with their names. -/
def wordClasses : List (List String × CharSet) :=
  [(["cr"], carriageReturn), (["lf"], lineFeed),
    (["newline", "nl"], ofRanges [(0xB, 0xC), (0x85, 0x85), (0x2028, 0x2029)]),
    (["extend"], extension.union emojiModifier), (["zwj"], joiner), (["format", "fo"], wordFormat),
    (["regionalindicator", "ri"], regionalIndicator), (["katakana", "ka"], katakana),
    (["hebrewletter", "hl"], hebrewLetter), (["aletter", "le"], wordLetter),
    (["singlequote", "sq"], codes 0x27 0x27), (["doublequote", "dq"], codes 0x22 0x22),
    (["midnumlet", "mb"], ofRanges [(0x2E, 0x2E), (0x2018, 0x2019), (0x2024, 0x2024), (0xFE52,
      0xFE52), (0xFF07, 0xFF07), (0xFF0E, 0xFF0E)]),
    (["midletter", "ml"], ofRanges [(0x3A, 0x3A), (0xB7, 0xB7), (0x387, 0x387), (0x55F, 0x55F),
      (0x5F4, 0x5F4), (0x2027, 0x2027), (0xFE13, 0xFE13), (0xFE55, 0xFE55), (0xFF1A, 0xFF1A)]),
    (["midnum", "mn"], ofRanges [(0x2C, 0x2C), (0x3B, 0x3B), (0x37E, 0x37E), (0x589, 0x589), (0x60C,
      0x60D), (0x66C, 0x66C), (0x7F8, 0x7F8), (0x2044, 0x2044), (0xFE50, 0xFE50), (0xFE54, 0xFE54),
      (0xFF0C, 0xFF0C), (0xFF1B, 0xFF1B)]),
    (["numeric", "nu"], wordNumeric),
    (["extendnumlet", "ex"], (only .connectorPunctuation).union (codes 0x202F 0x202F)),
    (["wsegspace"], ofRanges [(0x20, 0x20), (0x1680, 0x1680), (0x2000, 0x2006), (0x2008, 0x200A),
      (0x205F, 0x205F), (0x3000, 0x3000)])]

/-- The characters of a class that decides where a word ends. -/
def wordClass? (name : String) : Option CharSet := named? wordClasses name

/-! ### Sentences -/

/-- The stops that do not always end a sentence. -/
def ambiguousTerminal : CharSet :=
  ofRanges [(0x2E, 0x2E), (0x2024, 0x2024), (0xFE52, 0xFE52), (0xFF0E, 0xFF0E)]

/-- The stops that end a sentence. -/
def certainTerminal : CharSet := sentenceTerminal.diff ambiguousTerminal

/-- The lower case letters, without those that have another class. -/
def sentenceLower : CharSet :=
  lowercase.diff (ofRanges [(0x345, 0x345), (0x10D0, 0x10FA), (0x10FD, 0x10FF)])

/-- The upper and title case letters, without those that have another class. -/
def sentenceUpper : CharSet :=
  ((only .titlecaseLetter).union uppercase).diff (ofRanges [(0x1C90, 0x1CBA), (0x1CBD, 0x1CBF)])

/-- The marks that do not count inside a sentence, with the joiner. -/
def sentenceExtension : CharSet := extension.union joiner

/-- The letters that have no case. -/
def sentenceLetter : CharSet :=
  (alphabetic.diff (unions [sentenceLower, sentenceUpper, sentenceExtension])).union
    (codes 0x5F3 0x5F3)

/-- The formats that do not count inside a sentence. -/
def sentenceFormat : CharSet :=
  (only .format).diff <| ofRanges
    [(0x600, 0x605), (0x6DD, 0x6DD), (0x890, 0x891), (0x8E2, 0x8E2), (0x200C, 0x200D), (0x110BD,
      0x110BD), (0x110CD, 0x110CD), (0xE0020, 0xE007F)]

/-- The brackets and quotation marks that may follow the end of a sentence. -/
def sentenceClose : CharSet :=
  (unions [only .openPunctuation, only .closePunctuation, only .initialPunctuation,
    only .finalPunctuation, quotationMark]).symmDiff <| ofRanges
    [(0x275B, 0x2760), (0x2E00, 0x2E01), (0x2E06, 0x2E08), (0x2E0B, 0x2E0B), (0xFF02, 0xFF02),
      (0xFF07, 0xFF07), (0x1F676, 0x1F678)]

/-- The classes that decide where a sentence ends, with their names. -/
def sentenceClasses : List (List String × CharSet) :=
  [(["cr"], carriageReturn), (["lf"], lineFeed), (["extend", "ex"], sentenceExtension),
    (["sep", "se"], ofRanges [(0x85, 0x85), (0x2028, 0x2029)]),
    (["format", "fo"], sentenceFormat),
    (["sp"], whiteSpace.diff (ofRanges [(0xA, 0xA), (0xD, 0xD), (0x85, 0x85), (0x2028, 0x2029)])),
    (["lower", "lo"], sentenceLower), (["upper", "up"], sentenceUpper),
    (["oletter", "le"], sentenceLetter),
    (["numeric", "nu"], wordNumeric.union (codes 0x66C 0x66C)),
    (["aterm", "at"], ambiguousTerminal), (["sterm", "st"], certainTerminal),
    (["close", "cl"], sentenceClose),
    (["scontinue", "sc"], ofRanges [(0x2C, 0x2D), (0x3A, 0x3B), (0x37E, 0x37E), (0x55D, 0x55D),
      (0x60C, 0x60D), (0x7F8, 0x7F8), (0x1802, 0x1802), (0x1808, 0x1808), (0x2013, 0x2014), (0x3001,
      0x3001), (0xFE10, 0xFE11), (0xFE13, 0xFE14), (0xFE31, 0xFE32), (0xFE50, 0xFE51), (0xFE54,
      0xFE55), (0xFE58, 0xFE58), (0xFE63, 0xFE63), (0xFF0C, 0xFF0D), (0xFF1A, 0xFF1B), (0xFF64,
      0xFF64)])]

/-- The characters of a class that decides where a sentence ends. -/
def sentenceClass? (name : String) : Option CharSet := named? sentenceClasses name

end Formulary.Text.Segmentation

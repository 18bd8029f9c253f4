import Formulary.Text.Category
import Formulary.Text.Properties

/-!
# Classes of characters

The classes that the language and its patterns are written in. Each is a set of general categories
with a few characters added or taken away, as the Unicode annexes define it. On the ASCII
characters the tests are given outright, so nothing is looked up for them.

Names, digits and the sets of patterns follow the earlier edition of the database. Letters in the
names of groups and the characters around a sigma follow the later one.

## Main definitions

* `isBlank` — what separates tokens and what trimming removes
* `isDecimalDigit` — the digits of every script
* `CharSet.alphabetic`, `CharSet.lowercase`, `CharSet.word` and so on — sets of characters
* `isIdentifierStart`, `isIdentifierContinue` — the characters of names
* `isAlphabetic`, `isAlphanumeric` — letters, and letters and numbers
* `isCased`, `isCaseIgnorable` — the contexts that decide between the two small sigmas
-/

namespace Formulary.Text

/-- Whether a code point lies in one of some closed ranges. -/
def inRanges (ranges : List (Nat × Nat)) (n : Nat) : Bool :=
  ranges.any fun (low, high) => low ≤ n && n ≤ high

/-- The ranges of white space. -/
def blankRanges : List (Nat × Nat) :=
  [(0x9, 0xD), (0x20, 0x20), (0x85, 0x85), (0xA0, 0xA0), (0x1680, 0x1680), (0x2000, 0x200A),
    (0x2028, 0x2029), (0x202F, 0x202F), (0x205F, 0x205F), (0x3000, 0x3000)]

/-- White space. -/
def isBlank (c : Char) : Bool := inRanges blankRanges c.toNat

/-- Whether `c` is an ASCII character. -/
def isAscii (c : Char) : Bool := c.toNat < 0x80

/-- A decimal digit of any script. -/
def isDecimalDigit (c : Char) : Bool :=
  if isAscii c then c.isDigit else Category.of .sixteen c == .decimalNumber

/-! ### Sets of the earlier edition -/

namespace CharSet

/-- White space. -/
def whiteSpace : CharSet := ofRanges blankRanges

/-- The decimal digits of every script. -/
def decimalDigit : CharSet := Category.set (· == .decimalNumber)

/-- The letters, with all that counts as one. -/
def alphabetic : CharSet := (Category.set Category.isLetter).union otherAlphabetic

/-- The lower case characters. -/
def lowercase : CharSet := (Category.set (· == .lowercaseLetter)).union otherLowercase

/-- The upper case characters. -/
def uppercase : CharSet := (Category.set (· == .uppercaseLetter)).union otherUppercase

/-- The characters that have a case. -/
def cased : CharSet :=
  (lowercase.union uppercase).union (Category.set (· == .titlecaseLetter))

/-- The ranges of the punctuation inside words. -/
def innerPunctuation : List (Nat × Nat) :=
  [(0x27, 0x27), (0x2E, 0x2E), (0x3A, 0x3A), (0xB7, 0xB7), (0x387, 0x387), (0x55F, 0x55F),
    (0x5F4, 0x5F4), (0x2018, 0x2019), (0x2024, 0x2024), (0x2027, 0x2027), (0xFE13, 0xFE13),
    (0xFE52, 0xFE52), (0xFE55, 0xFE55), (0xFF07, 0xFF07), (0xFF0E, 0xFF0E), (0xFF1A, 0xFF1A)]

/-- The characters that are passed over when looking for a cased neighbour. -/
def caseIgnorable : CharSet :=
  (Category.set Category.isPassedOver).union (ofRanges innerPunctuation)

/-- The mathematical characters. -/
def math : CharSet := (Category.set (· == .mathSymbol)).union otherMath

/-- The characters that extend the one before. -/
def graphemeExtend : CharSet := (Category.set Category.isExtension).union otherGraphemeExtend

/-- The characters that are visible by themselves. -/
def graphemeBase : CharSet :=
  (Category.set fun c => c.group != 'C' && c != .lineSeparator && c != .paragraphSeparator).diff
    graphemeExtend

/-- The characters that are shown as nothing where they are not supported. -/
def defaultIgnorable : CharSet :=
  (unions [Category.set (· == .format), otherDefaultIgnorable, variationSelector]).diff
    (unions [whiteSpace, prependedConcatenationMark,
      ofRanges [(0xFFF9, 0xFFFB), (0x13430, 0x1343F)]])

/-- The characters of words: letters, marks, digits, connectors and joiners. -/
def word : CharSet :=
  unions [alphabetic, joinControl,
    Category.set fun c => c.isMark || c == .decimalNumber || c == .connectorPunctuation]

/-! ### Names -/

/-- The characters that the syntax of languages keeps for itself. -/
def reserved : CharSet := patternSyntax.union patternWhiteSpace

/-- The characters that may start a name. -/
def idStart : CharSet := ((Category.set Category.isLetter).union otherIdStart).diff reserved

/-- The characters that may continue a name. -/
def idContinue : CharSet :=
  (unions [idStart, otherIdContinue, Category.set fun c =>
    c == .nonspacingMark || c == .spacingMark || c == .decimalNumber ||
      c == .connectorPunctuation]).diff reserved

/-- Characters of names that do not stay such under compatibility composition. -/
def unstable : CharSet :=
  ofRanges [(0x37A, 0x37A), (0x309B, 0x309C), (0xFC5E, 0xFC63), (0xFDFA, 0xFDFB), (0xFE70, 0xFE70),
    (0xFE72, 0xFE72), (0xFE74, 0xFE74), (0xFE76, 0xFE76), (0xFE78, 0xFE78), (0xFE7A, 0xFE7A),
    (0xFE7C, 0xFE7C), (0xFE7E, 0xFE7E)]

/-- Letters that composition makes into marks, so that they only continue a name. -/
def trailing : CharSet := ofRanges [(0xE33, 0xE33), (0xEB3, 0xEB3), (0xFF9E, 0xFF9F)]

/-- The characters that may start a name, whatever composition does to it. -/
def xidStart : CharSet := idStart.diff (unstable.union trailing)

/-- The characters that may continue a name, whatever composition does to it. -/
def xidContinue : CharSet := idContinue.diff unstable

end CharSet

/-- A character that may start a name by the Unicode rule for identifiers. -/
def startsIdentifier (c : Char) : Bool :=
  if isAscii c then c.isAlpha else CharSet.xidStart.contains c

/-- A character that may continue a name by the Unicode rule for identifiers. -/
def continuesIdentifier (c : Char) : Bool :=
  if isAscii c then c.isAlphanum || c == '_' else CharSet.xidContinue.contains c

/-- A character that starts a name of the language: the Unicode rule, `_` and `$`. -/
def isIdentifierStart (c : Char) : Bool := startsIdentifier c || c == '_' || c == '$'

/-- A character that continues a name of the language: the Unicode rule and `$`. -/
def isIdentifierContinue (c : Char) : Bool := continuesIdentifier c || c == '$'

/-! ### Tests of the later edition -/

/-- The characters that the later edition alone counts as letters besides those of the
categories. -/
private def laterAlphabetic : List (Nat × Nat) :=
  [(0x10EFA, 0x10EFB), (0x11B60, 0x11B67), (0x1E6E3, 0x1E6E3), (0x1E6E6, 0x1E6E6),
    (0x1E6EE, 0x1E6EF), (0x1E6F5, 0x1E6F5)]

/-- The characters that the later edition alone counts as lower case besides those of the
category. -/
private def laterLowercase : List (Nat × Nat) := [(0xA7F1, 0xA7F1)]

/-- A letter, or another character that counts as one. -/
def isAlphabetic (c : Char) : Bool :=
  if isAscii c then c.isAlpha
  else
    (Category.of .seventeen c).isLetter || CharSet.otherAlphabetic.contains c ||
      inRanges laterAlphabetic c.toNat

/-- A letter or a number. -/
def isAlphanumeric (c : Char) : Bool :=
  if isAscii c then c.isAlphanum
  else isAlphabetic c || (Category.of .seventeen c).group == 'N'

/-- An upper case character. -/
def isUppercase (c : Char) : Bool :=
  if isAscii c then c.isUpper
  else Category.of .seventeen c == .uppercaseLetter || CharSet.otherUppercase.contains c

/-- A lower case character. -/
def isLowercase (c : Char) : Bool :=
  if isAscii c then c.isLower
  else
    Category.of .seventeen c == .lowercaseLetter || CharSet.otherLowercase.contains c ||
      inRanges laterLowercase c.toNat

/-- A character that has a case. -/
def isCased (c : Char) : Bool :=
  isUppercase c || isLowercase c || Category.of .seventeen c == .titlecaseLetter

/-- A character that is passed over when looking for a cased neighbour. -/
def isCaseIgnorable (c : Char) : Bool :=
  (Category.of .seventeen c).isPassedOver || inRanges CharSet.innerPunctuation c.toNat

/-! ### The ASCII classes sit inside -/

theorem isBlank_of_isWhitespace {c : Char} (h : c.isWhitespace = true) : isBlank c = true := by
  simp only [Char.isWhitespace, Bool.or_eq_true, decide_eq_true_eq, or_assoc] at h
  rcases h with rfl | rfl | rfl | rfl <;> decide

theorem isDecimalDigit_of_isDigit {c : Char} (h : c.isDigit = true) : isDecimalDigit c = true := by
  have hc : isAscii c = true := by
    simp only [Char.isDigit, Bool.and_eq_true, decide_eq_true_eq, UInt32.le_iff_toNat_le] at h
    simp only [isAscii, Char.toNat, decide_eq_true_eq]
    exact Nat.lt_of_le_of_lt h.2 (by decide)
  simp [isDecimalDigit, hc, h]

end Formulary.Text

import Formulary.Text.Casing

/-!
# Characters that case mapping changes

The sets of the characters that are not their own lower case, upper case, title case or folding, as
the earlier edition of the character database has them.

## Main definitions

* `CharSet.changesWhenLowercased` and its kin
-/

namespace Formulary.Text.CharSet

/-- The characters that the earlier edition has assigned. -/
def assigned : CharSet := (Category.set (· == .unassigned)).complement

/-- The characters that are not their own lower case. -/
def changesWhenLowercased : CharSet :=
  (ofMembers (0x130 :: lowerShifts.flatMap Shift.members)).inter assigned

/-- The letters whose upper case only the later edition knows. -/
private def laterCapitalized : CharSet := ofMembers [0xA7D3, 0xA7D5]

/-- The characters that are not their own upper case. -/
def changesWhenUppercased : CharSet :=
  ((ofMembers (upperExpansions.map (·.1) ++ upperShifts.flatMap Shift.members)).inter
    assigned).diff laterCapitalized

/-- The capital digraphs, whose title case has one capital only. -/
private def digraphs : CharSet := ofMembers [0x1C4, 0x1C7, 0x1CA, 0x1F1]

/-- The characters that are their own title case, but not their own upper case. -/
private def titled : CharSet :=
  ofRanges
    [(0x1C5, 0x1C5), (0x1C8, 0x1C8), (0x1CB, 0x1CB), (0x1F2, 0x1F2), (0x10D0, 0x10FA), (0x10FD,
      0x10FF), (0x1F88, 0x1F8F), (0x1F98, 0x1F9F), (0x1FA8, 0x1FAF), (0x1FBC, 0x1FBC), (0x1FCC,
      0x1FCC), (0x1FFC, 0x1FFC)]

/-- The characters that are not their own title case. -/
def changesWhenTitlecased : CharSet := (changesWhenUppercased.union digraphs).diff titled

/-- The characters that case mapping changes in some way. -/
def changesWhenCasemapped : CharSet :=
  unions [changesWhenLowercased, changesWhenUppercased, changesWhenTitlecased]

/-- The small letters that folding changes: signs that are letters by compatibility, ligatures, and
small letters whose capitals stand for both. -/
private def foldedSmall : CharSet :=
  ofRanges
    [(0xB5, 0xB5), (0xDF, 0xDF), (0x149, 0x149), (0x17F, 0x17F), (0x345, 0x345), (0x3C2, 0x3C2),
      (0x3D0, 0x3D1), (0x3D5, 0x3D6), (0x3F0, 0x3F1), (0x3F5, 0x3F5), (0x587, 0x587), (0x13F8,
      0x13FD), (0x1C80, 0x1C88), (0x1E9A, 0x1E9B), (0x1F80, 0x1F87), (0x1F90, 0x1F97), (0x1FA0,
      0x1FA7), (0x1FB2, 0x1FB4), (0x1FB7, 0x1FB7), (0x1FC2, 0x1FC4), (0x1FC7, 0x1FC7), (0x1FF2,
      0x1FF4), (0x1FF7, 0x1FF7), (0xAB70, 0xABBF), (0xFB00, 0xFB06), (0xFB13, 0xFB17)]

/-- The capital letters that folding leaves alone. -/
private def keptCapitals : CharSet := codes 0x13A0 0x13F5

/-- The characters that are not their own folding. -/
def changesWhenCasefolded : CharSet :=
  (changesWhenLowercased.diff keptCapitals).union foldedSmall

end Formulary.Text.CharSet

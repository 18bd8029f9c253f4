import Formulary.Text.Script

/-!
# Script extensions

Some characters are used with several scripts. The table lists them: for each run of characters, the
number of code points since the run before and its length, with an `x` between them, and the codes
of the scripts. Every other character is used with its own script only.

## Main definitions

* `Script.Usage` — a run of characters with their scripts
* `Script.extended` — the characters that are used with a script
-/

namespace Formulary.Text.Script

/-- The characters that are used with other scripts than their own. -/
private def usageTable : String :=
  String.join [
    "183x1AvstCariCoptDuplElbaGeorGlagGongGothGrekHaniLatnLydiMahjPermShaw 516x1BengCyrlDevaLatn",
    "LisuThaiToto 10x1BopoLatn 1x3BopoLatn 1x1LatnLisu 9x1LatnThai 1x1BopoLatn 38x1CherCoptCyrl",
    "GrekLatnPermSunuTale 0x1CherCyrlGrekLatnOsgeSunuTaleTodr 0x1CherCyrlLatnTfng 0x1GlagLatnSunu",
    "SyrcThai 0x1AghbCherCoptCyrlGothGrekLatnOsgeSyrcTfngTodr 0x1CoptElbaGlagGothKanaLatn 0x1Cyrl",
    "GrekLatnPerm 0x1CoptDuplHebrLatnPermSyrcTaleTfngTodr 0x1ArmnCyrlDuplGothGrekHebrLatnPermSyrc",
    "Tale 0x1LatnTfng 0x1DuplLatnSyrc 0x1CherCyrlLatnOsge 0x1CherLatnTale 0x1LatnSunu 0x1EthiLatn",
    " 1x1LatnSunu 0x1CyrlLatnTodr 1x1GrekLatnPermTodr 12x1LatnSyrc 2x1CherDuplKanaLatnSyrc 0x1Cher",
    "DuplLatnSyrc 0x1LatnSyrc 7x1LatnSunuSyrc 0x1LatnSyrc 1x1CherLatnSyrc 0x1AghbCherGothLatnSunu",
    "Thai 16x1Grek 2x1Grek 18x1LatnOsge 5x1AghbLatnTodr 4x13Latn 4x2CoptGrek 269x1CyrlPerm 0x1Cyrl",
    "Glag 0x2CyrlLatn 0x1CyrlGlag 257x1ArmnGeorGlag 130x1ArabGaraNkooRohgSyrcThaaYezi 14x1ArabGara",
    "NkooRohgSyrcThaaYezi 0x1ArabSyrcThaa 2x1AdlmArabGaraNkooRohgSyrcThaaYezi 32x1AdlmArabMandMani",
    "OugrPhlpRohgSogdSyrc 10x11ArabSyrc 10x10ArabThaaYezi 6x1ArabSyrc 99x1ArabRohg 636x1BengDeva",
    "GranGujrGuruKndaLatnMlymOryaShrdTamlTeluTirh 0x1BengDevaGranGujrGuruKndaLatnMlymOryaTamlTelu",
    "Tirh 17x1BengDevaDogrGongGonmGranGujrGuruKndaMahjMlymNandOnaoOryaSindSinhSyloTakrTamlTeluTirh",
    " 0x1BengDevaDogrGongGonmGranGujrGukhGuruKndaLimbMahjMlymNandOnaoOryaSindSinhSyloTakrTamlTelu",
    "Tirh 0x10DevaDogrKthiMahj 118x10BengCakmSylo 118x10GuruMult 118x10GujrKhoj 246x14GranTaml",
    " 242x10KndaNandTutg 848x10CakmMymrTale 177x1GeorGlagLatn 1519x3Runr 71x2BuhdHanoTagbTglg",
    " 203x2MongPhag 1x1MongPhag 1226x1BengDevaGranKnda 0x1Deva 0x1BengDevaGranKnda 0x1DevaGranKnda",
    " 0x1Deva 0x2BengDeva 0x1DevaShrd 0x1BengDeva 0x1DevaShrd 0x1DevaKndaMlymOryaTamlTelu 0x1Deva",
    " 0x2DevaShrd 0x2Deva 0x1DevaShrd 0x1BengDeva 0x7Deva 0x1DevaNand 0x1BengDeva 0x2Deva 0x1Beng",
    "Deva 0x4Deva 0x1BengDevaGranKndaMlymNandOryaSinhTeluTirhTutg 0x1DevaGran 0x1DevaGranKndaTutg",
    " 0x2BengDeva 0x1Beng 0x2DevaGran 0x1Nand 197x2Grek 54x1CyrlLatnSyrc 1x1Syrc 564x1LatnMongPhag",
    " 31x1AdlmArab 10x1CariGeorGlagHungLyciOrkh 2x1CariGrekHungMero 146x1DevaGranLatn 3366x1Copt",
    "Latn 24x1AvstOrkh 0x1AvstCariGeorHungKthiLydiSamr 10x1Dupl 4x1AdlmArabHung 1x1CyrlGlag 428x16",
    "HaniTang 1x1BopoHangHaniHiraKanaMongYiii 0x1BopoHangHaniHiraKanaMongPhagYiii 0x1BopoHangHani",
    "HiraKana 2x1Hani 1x2BopoHangHaniHiraKanaMongTibtYiii 0x2BopoHangHaniHiraKanaLisuMongTibtYiii",
    " 0x6BopoHangHaniHiraKanaYiii 1x1BopoHangHaniHiraKana 0x8BopoHangHaniHiraKanaYiii 0x4BopoHang",
    "HaniHiraKana 10x4BopoHani 2x1BopoHangHaniHiraKana 0x5HiraKana 1x1BopoHangHaniHiraKana 4x2Hani",
    "HiraKana 0x2Hani 89x4HiraKana 3x1HiraKana 90x1BopoHangHaniHiraKanaYiii 0x1HiraKana 147x16Hani",
    " 32x38Hani 9x1HaniTang 48x40Hani 56x49Hani 15x12Hani 51x1Hani 88x25Hani 10x5Hani 96x31Hani",
    " 29296x1CyrlGlag 144x8HaniLatn 296x3DevaDogrGujrGuruKhojKndaKthiMahjMlymModiNandShrdSindTakr",
    "TirhTutg 0x3DevaDogrGujrGuruKhojKndaKthiMahjModiNandShrdSindTakrTirhTutg 0x2DevaDogrGujrGuru",
    "KhojKthiMahjModiSindTakrTirh 0x1DevaDogrGujrGuruKhojKthiMahjModiShrdSindTakrTirh 0x1DevaDogr",
    "GujrGuruKhojKthiMahjModiSindTakrTirh 183x1BengDevaTutg 1x1DevaTaml 58x1KaliLatnMymr 160x1Bugi",
    "Java 21358x2ArabNkoo 178x1ArabThaa 10x1ArabThaa 71x2BopoHangHaniHiraKana 282x5BopoHangHani",
    "HiraKanaYiii 10x1HiraKana 45x2HiraKana 352x2CpmnCprtLinb 0x1CprtLinb 4x45CprtLinaLinb 3x9Cprt",
    "Linb 416x28ArabCopt 2038x1ManiOugr 2062x1GranTaml 1x1GranTaml 55x2GranTaml 3219x2GranTaml 1x1",
    "GranTaml 40140x4Dupl 5820x18Hani 7902x2Hani"]

/-- Code points that are used with the same scripts. -/
structure Usage where
  /-- The first code point. -/
  first : Nat
  /-- The number of code points. -/
  count : Nat
  /-- The codes of the scripts. -/
  codes : List String
  deriving Repr

/-- A text cut into codes of four letters. -/
private def codesOf : List Char → List String
  | a :: b :: c :: d :: rest => String.ofList [a, b, c, d] :: codesOf rest
  | _ => []

/-- The entries of the table from code point `start` on. -/
private def usagesFrom (start : Nat) : List (List Char) → List Usage
  | [] => []
  | word :: rest =>
    let first := start + Runs.number (word.takeWhile Char.isDigit)
    let more := (word.dropWhile Char.isDigit).drop 1
    let count := Runs.number (more.takeWhile Char.isDigit)
    ⟨first, count, codesOf (more.dropWhile Char.isDigit)⟩ :: usagesFrom (first + count) rest

/-- The entries of the table. -/
def usages : List Usage := usagesFrom 0 (words [] usageTable.toList)

/-- The characters of some entries. -/
private def charactersOf (entries : List Usage) : CharSet :=
  .ofMembers (entries.flatMap fun u => (List.range u.count).map (u.first + ·))

/-- The characters that are used with a script: those of the table with its code, and those of the
script that the table does not have. -/
def extended (code : String) : CharSet :=
  ((set code).diff (charactersOf usages)).union
    (charactersOf (usages.filter (·.codes.contains code)))

end Formulary.Text.Script

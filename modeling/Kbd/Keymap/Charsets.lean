import Mathlib.Tactic.Common

/-!
# Character sets (`syms.*.h`)

The symbols of each character set, with their Unicode code points. The tables `syms.latin1.h`,
`syms.latin2.h`, `syms.latin3.h`, `syms.latin4.h`, `syms.iso8859_5.h`, `syms.iso8859_7.h`,
`syms.iso8859_8.h`, `syms.iso8859_9.h`, `syms.iso8859_15.h`, `syms.cp1250.h` and `syms.koi8.h` are
what `gen_charset_syms.pl` makes of `data/consoletrans`.
-/

namespace Kbd.Keymap

/-- `sym`. -/
structure Sym where
  uni : Nat
  name : String

/-- `struct cs`. -/
structure Cs where
  charset : String
  charnames : List Sym
  start : Nat

def latin1Syms : List Sym := [
  ⟨0x00a0, "nobreakspace"⟩, ⟨0x00a1, "exclamdown"⟩, ⟨0x00a2, "cent"⟩, ⟨0x00a3, "sterling"⟩,
  ⟨0x00a4, "currency"⟩, ⟨0x00a5, "yen"⟩, ⟨0x00a6, "brokenbar"⟩, ⟨0x00a7, "section"⟩,
  ⟨0x00a8, "diaeresis"⟩, ⟨0x00a9, "copyright"⟩, ⟨0x00aa, "ordfeminine"⟩,
  ⟨0x00ab, "guillemotleft"⟩, ⟨0x00ac, "notsign"⟩, ⟨0x00ad, "hyphen"⟩, ⟨0x00ae, "registered"⟩,
  ⟨0x00af, "macron"⟩, ⟨0x00b0, "degree"⟩, ⟨0x00b1, "plusminus"⟩, ⟨0x00b2, "twosuperior"⟩,
  ⟨0x00b3, "threesuperior"⟩, ⟨0x00b4, "acute"⟩, ⟨0x00b5, "mu"⟩, ⟨0x00b6, "paragraph"⟩,
  ⟨0x00b7, "periodcentered"⟩, ⟨0x00b8, "cedilla"⟩, ⟨0x00b9, "onesuperior"⟩, ⟨0x00ba, "masculine"⟩,
  ⟨0x00bb, "guillemotright"⟩, ⟨0x00bc, "onequarter"⟩, ⟨0x00bd, "onehalf"⟩,
  ⟨0x00be, "threequarters"⟩, ⟨0x00bf, "questiondown"⟩, ⟨0x00c0, "Agrave"⟩, ⟨0x00c1, "Aacute"⟩,
  ⟨0x00c2, "Acircumflex"⟩, ⟨0x00c3, "Atilde"⟩, ⟨0x00c4, "Adiaeresis"⟩, ⟨0x00c5, "Aring"⟩,
  ⟨0x00c6, "AE"⟩, ⟨0x00c7, "Ccedilla"⟩, ⟨0x00c8, "Egrave"⟩, ⟨0x00c9, "Eacute"⟩,
  ⟨0x00ca, "Ecircumflex"⟩, ⟨0x00cb, "Ediaeresis"⟩, ⟨0x00cc, "Igrave"⟩, ⟨0x00cd, "Iacute"⟩,
  ⟨0x00ce, "Icircumflex"⟩, ⟨0x00cf, "Idiaeresis"⟩, ⟨0x00d0, "ETH"⟩, ⟨0x00d1, "Ntilde"⟩,
  ⟨0x00d2, "Ograve"⟩, ⟨0x00d3, "Oacute"⟩, ⟨0x00d4, "Ocircumflex"⟩, ⟨0x00d5, "Otilde"⟩,
  ⟨0x00d6, "Odiaeresis"⟩, ⟨0x00d7, "multiply"⟩, ⟨0x00d8, "Ooblique"⟩, ⟨0x00d9, "Ugrave"⟩,
  ⟨0x00da, "Uacute"⟩, ⟨0x00db, "Ucircumflex"⟩, ⟨0x00dc, "Udiaeresis"⟩, ⟨0x00dd, "Yacute"⟩,
  ⟨0x00de, "THORN"⟩, ⟨0x00df, "ssharp"⟩, ⟨0x00e0, "agrave"⟩, ⟨0x00e1, "aacute"⟩,
  ⟨0x00e2, "acircumflex"⟩, ⟨0x00e3, "atilde"⟩, ⟨0x00e4, "adiaeresis"⟩, ⟨0x00e5, "aring"⟩,
  ⟨0x00e6, "ae"⟩, ⟨0x00e7, "ccedilla"⟩, ⟨0x00e8, "egrave"⟩, ⟨0x00e9, "eacute"⟩,
  ⟨0x00ea, "ecircumflex"⟩, ⟨0x00eb, "ediaeresis"⟩, ⟨0x00ec, "igrave"⟩, ⟨0x00ed, "iacute"⟩,
  ⟨0x00ee, "icircumflex"⟩, ⟨0x00ef, "idiaeresis"⟩, ⟨0x00f0, "eth"⟩, ⟨0x00f1, "ntilde"⟩,
  ⟨0x00f2, "ograve"⟩, ⟨0x00f3, "oacute"⟩, ⟨0x00f4, "ocircumflex"⟩, ⟨0x00f5, "otilde"⟩,
  ⟨0x00f6, "odiaeresis"⟩, ⟨0x00f7, "division"⟩, ⟨0x00f8, "oslash"⟩, ⟨0x00f9, "ugrave"⟩,
  ⟨0x00fa, "uacute"⟩, ⟨0x00fb, "ucircumflex"⟩, ⟨0x00fc, "udiaeresis"⟩, ⟨0x00fd, "yacute"⟩,
  ⟨0x00fe, "thorn"⟩, ⟨0x00ff, "ydiaeresis"⟩]

def latin2Syms : List Sym := [
  ⟨0x00a0, "nobreakspace"⟩, ⟨0x0104, "Aogonek"⟩, ⟨0x02d8, "breve"⟩, ⟨0x0141, "Lstroke"⟩,
  ⟨0x00a4, "currency"⟩, ⟨0x013d, "Lcaron"⟩, ⟨0x015a, "Sacute"⟩, ⟨0x00a7, "section"⟩,
  ⟨0x00a8, "diaeresis"⟩, ⟨0x0160, "Scaron"⟩, ⟨0x015e, "Scedilla"⟩, ⟨0x0164, "Tcaron"⟩,
  ⟨0x0179, "Zacute"⟩, ⟨0x00ad, "hyphen"⟩, ⟨0x017d, "Zcaron"⟩, ⟨0x017b, "Zabovedot"⟩,
  ⟨0x00b0, "degree"⟩, ⟨0x0105, "aogonek"⟩, ⟨0x02db, "ogonek"⟩, ⟨0x0142, "lstroke"⟩,
  ⟨0x00b4, "acute"⟩, ⟨0x013e, "lcaron"⟩, ⟨0x015b, "sacute"⟩, ⟨0x02c7, "caron"⟩,
  ⟨0x00b8, "cedilla"⟩, ⟨0x0161, "scaron"⟩, ⟨0x015f, "scedilla"⟩, ⟨0x0165, "tcaron"⟩,
  ⟨0x017a, "zacute"⟩, ⟨0x02dd, "doubleacute"⟩, ⟨0x017e, "zcaron"⟩, ⟨0x017c, "zabovedot"⟩,
  ⟨0x0154, "Racute"⟩, ⟨0x00c1, "Aacute"⟩, ⟨0x00c2, "Acircumflex"⟩, ⟨0x0102, "Abreve"⟩,
  ⟨0x00c4, "Adiaeresis"⟩, ⟨0x0139, "Lacute"⟩, ⟨0x0106, "Cacute"⟩, ⟨0x00c7, "Ccedilla"⟩,
  ⟨0x010c, "Ccaron"⟩, ⟨0x00c9, "Eacute"⟩, ⟨0x0118, "Eogonek"⟩, ⟨0x00cb, "Ediaeresis"⟩,
  ⟨0x011a, "Ecaron"⟩, ⟨0x00cd, "Iacute"⟩, ⟨0x00ce, "Icircumflex"⟩, ⟨0x010e, "Dcaron"⟩,
  ⟨0x0110, "Dstroke"⟩, ⟨0x0143, "Nacute"⟩, ⟨0x0147, "Ncaron"⟩, ⟨0x00d3, "Oacute"⟩,
  ⟨0x00d4, "Ocircumflex"⟩, ⟨0x0150, "Odoubleacute"⟩, ⟨0x00d6, "Odiaeresis"⟩, ⟨0x00d7, "multiply"⟩,
  ⟨0x0158, "Rcaron"⟩, ⟨0x016e, "Uring"⟩, ⟨0x00da, "Uacute"⟩, ⟨0x0170, "Udoubleacute"⟩,
  ⟨0x00dc, "Udiaeresis"⟩, ⟨0x00dd, "Yacute"⟩, ⟨0x0162, "Tcedilla"⟩, ⟨0x00df, "ssharp"⟩,
  ⟨0x0155, "racute"⟩, ⟨0x00e1, "aacute"⟩, ⟨0x00e2, "acircumflex"⟩, ⟨0x0103, "abreve"⟩,
  ⟨0x00e4, "adiaeresis"⟩, ⟨0x013a, "lacute"⟩, ⟨0x0107, "cacute"⟩, ⟨0x00e7, "ccedilla"⟩,
  ⟨0x010d, "ccaron"⟩, ⟨0x00e9, "eacute"⟩, ⟨0x0119, "eogonek"⟩, ⟨0x00eb, "ediaeresis"⟩,
  ⟨0x011b, "ecaron"⟩, ⟨0x00ed, "iacute"⟩, ⟨0x00ee, "icircumflex"⟩, ⟨0x010f, "dcaron"⟩,
  ⟨0x0111, "dstroke"⟩, ⟨0x0144, "nacute"⟩, ⟨0x0148, "ncaron"⟩, ⟨0x00f3, "oacute"⟩,
  ⟨0x00f4, "ocircumflex"⟩, ⟨0x0151, "odoubleacute"⟩, ⟨0x00f6, "odiaeresis"⟩, ⟨0x00f7, "division"⟩,
  ⟨0x0159, "rcaron"⟩, ⟨0x016f, "uring"⟩, ⟨0x00fa, "uacute"⟩, ⟨0x0171, "udoubleacute"⟩,
  ⟨0x00fc, "udiaeresis"⟩, ⟨0x00fd, "yacute"⟩, ⟨0x0163, "tcedilla"⟩, ⟨0x02d9, "abovedot"⟩]

def latin3Syms : List Sym := [
  ⟨0x00a0, "nobreakspace"⟩, ⟨0x0126, "Hstroke"⟩, ⟨0x02d8, "breve"⟩, ⟨0x00a3, "sterling"⟩,
  ⟨0x00a4, "currency"⟩, ⟨0xfffd, ""⟩, ⟨0x0124, "Hcircumflex"⟩, ⟨0x00a7, "section"⟩,
  ⟨0x00a8, "diaeresis"⟩, ⟨0x0130, "Iabovedot"⟩, ⟨0x015e, "Scedilla"⟩, ⟨0x011e, "Gbreve"⟩,
  ⟨0x0134, "Jcircumflex"⟩, ⟨0x00ad, "hyphen"⟩, ⟨0xfffd, ""⟩, ⟨0x017b, "Zabovedot"⟩,
  ⟨0x00b0, "degree"⟩, ⟨0x0127, "hstroke"⟩, ⟨0x00b2, "twosuperior"⟩, ⟨0x00b3, "threesuperior"⟩,
  ⟨0x00b4, "acute"⟩, ⟨0x00b5, "mu"⟩, ⟨0x0125, "hcircumflex"⟩, ⟨0x00b7, "periodcentered"⟩,
  ⟨0x00b8, "cedilla"⟩, ⟨0x0131, "idotless"⟩, ⟨0x015f, "scedilla"⟩, ⟨0x011f, "gbreve"⟩,
  ⟨0x0135, "jcircumflex"⟩, ⟨0x00bd, "onehalf"⟩, ⟨0xfffd, ""⟩, ⟨0x017c, "zabovedot"⟩,
  ⟨0x00c0, "Agrave"⟩, ⟨0x00c1, "Aacute"⟩, ⟨0x00c2, "Acircumflex"⟩, ⟨0xfffd, ""⟩,
  ⟨0x00c4, "Adiaeresis"⟩, ⟨0x010a, "Cabovedot"⟩, ⟨0x0108, "Ccircumflex"⟩, ⟨0x00c7, "Ccedilla"⟩,
  ⟨0x00c8, "Egrave"⟩, ⟨0x00c9, "Eacute"⟩, ⟨0x00ca, "Ecircumflex"⟩, ⟨0x00cb, "Ediaeresis"⟩,
  ⟨0x00cc, "Igrave"⟩, ⟨0x00cd, "Iacute"⟩, ⟨0x00ce, "Icircumflex"⟩, ⟨0x00cf, "Idiaeresis"⟩,
  ⟨0xfffd, ""⟩, ⟨0x00d1, "Ntilde"⟩, ⟨0x00d2, "Ograve"⟩, ⟨0x00d3, "Oacute"⟩,
  ⟨0x00d4, "Ocircumflex"⟩, ⟨0x0120, "Gabovedot"⟩, ⟨0x00d6, "Odiaeresis"⟩, ⟨0x00d7, "multiply"⟩,
  ⟨0x011c, "Gcircumflex"⟩, ⟨0x00d9, "Ugrave"⟩, ⟨0x00da, "Uacute"⟩, ⟨0x00db, "Ucircumflex"⟩,
  ⟨0x00dc, "Udiaeresis"⟩, ⟨0x016c, "Ubreve"⟩, ⟨0x015c, "Scircumflex"⟩, ⟨0x00df, "ssharp"⟩,
  ⟨0x00e0, "agrave"⟩, ⟨0x00e1, "aacute"⟩, ⟨0x00e2, "acircumflex"⟩, ⟨0xfffd, ""⟩,
  ⟨0x00e4, "adiaeresis"⟩, ⟨0x010b, "cabovedot"⟩, ⟨0x0109, "ccircumflex"⟩, ⟨0x00e7, "ccedilla"⟩,
  ⟨0x00e8, "egrave"⟩, ⟨0x00e9, "eacute"⟩, ⟨0x00ea, "ecircumflex"⟩, ⟨0x00eb, "ediaeresis"⟩,
  ⟨0x00ec, "igrave"⟩, ⟨0x00ed, "iacute"⟩, ⟨0x00ee, "icircumflex"⟩, ⟨0x00ef, "idiaeresis"⟩,
  ⟨0xfffd, ""⟩, ⟨0x00f1, "ntilde"⟩, ⟨0x00f2, "ograve"⟩, ⟨0x00f3, "oacute"⟩,
  ⟨0x00f4, "ocircumflex"⟩, ⟨0x0121, "gabovedot"⟩, ⟨0x00f6, "odiaeresis"⟩, ⟨0x00f7, "division"⟩,
  ⟨0x011d, "gcircumflex"⟩, ⟨0x00f9, "ugrave"⟩, ⟨0x00fa, "uacute"⟩, ⟨0x00fb, "ucircumflex"⟩,
  ⟨0x00fc, "udiaeresis"⟩, ⟨0x016d, "ubreve"⟩, ⟨0x015d, "scircumflex"⟩, ⟨0x02d9, "abovedot"⟩]

def latin4Syms : List Sym := [
  ⟨0x00a0, "nobreakspace"⟩, ⟨0x0104, "Aogonek"⟩, ⟨0x0138, "kra"⟩, ⟨0x0156, "Rcedilla"⟩,
  ⟨0x00a4, "currency"⟩, ⟨0x0128, "Itilde"⟩, ⟨0x013b, "Lcedilla"⟩, ⟨0x00a7, "section"⟩,
  ⟨0x00a8, "diaeresis"⟩, ⟨0x0160, "Scaron"⟩, ⟨0x0112, "Emacron"⟩, ⟨0x0122, "Gcedilla"⟩,
  ⟨0x0166, "Tslash"⟩, ⟨0x00ad, "hyphen"⟩, ⟨0x017d, "Zcaron"⟩, ⟨0x00af, "macron"⟩,
  ⟨0x00b0, "degree"⟩, ⟨0x0105, "aogonek"⟩, ⟨0x02db, "ogonek"⟩, ⟨0x0157, "rcedilla"⟩,
  ⟨0x00b4, "acute"⟩, ⟨0x0129, "itilde"⟩, ⟨0x013c, "lcedilla"⟩, ⟨0x02c7, "caron"⟩,
  ⟨0x00b8, "cedilla"⟩, ⟨0x0161, "scaron"⟩, ⟨0x0113, "emacron"⟩, ⟨0x0123, "gcedilla"⟩,
  ⟨0x0167, "tslash"⟩, ⟨0x014a, "ENG"⟩, ⟨0x017e, "zcaron"⟩, ⟨0x014b, "eng"⟩, ⟨0x0100, "Amacron"⟩,
  ⟨0x00c1, "Aacute"⟩, ⟨0x00c2, "Acircumflex"⟩, ⟨0x00c3, "Atilde"⟩, ⟨0x00c4, "Adiaeresis"⟩,
  ⟨0x00c5, "Aring"⟩, ⟨0x00c6, "AE"⟩, ⟨0x012e, "Iogonek"⟩, ⟨0x010c, "Ccaron"⟩, ⟨0x00c9, "Eacute"⟩,
  ⟨0x0118, "Eogonek"⟩, ⟨0x00cb, "Ediaeresis"⟩, ⟨0x0116, "Eabovedot"⟩, ⟨0x00cd, "Iacute"⟩,
  ⟨0x00ce, "Icircumflex"⟩, ⟨0x012a, "Imacron"⟩, ⟨0x0110, "Dstroke"⟩, ⟨0x0145, "Ncedilla"⟩,
  ⟨0x014c, "Omacron"⟩, ⟨0x0136, "Kcedilla"⟩, ⟨0x00d4, "Ocircumflex"⟩, ⟨0x00d5, "Otilde"⟩,
  ⟨0x00d6, "Odiaeresis"⟩, ⟨0x00d7, "multiply"⟩, ⟨0x00d8, "Ooblique"⟩, ⟨0x0172, "Uogonek"⟩,
  ⟨0x00da, "Uacute"⟩, ⟨0x00db, "Ucircumflex"⟩, ⟨0x00dc, "Udiaeresis"⟩, ⟨0x0168, "Utilde"⟩,
  ⟨0x016a, "Umacron"⟩, ⟨0x00df, "ssharp"⟩, ⟨0x0101, "amacron"⟩, ⟨0x00e1, "aacute"⟩,
  ⟨0x00e2, "acircumflex"⟩, ⟨0x00e3, "atilde"⟩, ⟨0x00e4, "adiaeresis"⟩, ⟨0x00e5, "aring"⟩,
  ⟨0x00e6, "ae"⟩, ⟨0x012f, "iogonek"⟩, ⟨0x010d, "ccaron"⟩, ⟨0x00e9, "eacute"⟩,
  ⟨0x0119, "eogonek"⟩, ⟨0x00eb, "ediaeresis"⟩, ⟨0x0117, "eabovedot"⟩, ⟨0x00ed, "iacute"⟩,
  ⟨0x00ee, "icircumflex"⟩, ⟨0x012b, "imacron"⟩, ⟨0x0111, "dstroke"⟩, ⟨0x0146, "ncedilla"⟩,
  ⟨0x014d, "omacron"⟩, ⟨0x0137, "kcedilla"⟩, ⟨0x00f4, "ocircumflex"⟩, ⟨0x00f5, "otilde"⟩,
  ⟨0x00f6, "odiaeresis"⟩, ⟨0x00f7, "division"⟩, ⟨0x00f8, "oslash"⟩, ⟨0x0173, "uogonek"⟩,
  ⟨0x00fa, "uacute"⟩, ⟨0x00fb, "ucircumflex"⟩, ⟨0x00fc, "udiaeresis"⟩, ⟨0x0169, "utilde"⟩,
  ⟨0x016b, "umacron"⟩, ⟨0x02d9, "abovedot"⟩]

def iso88595Syms : List Sym := [
  ⟨0x00a0, "nobreakspace"⟩, ⟨0x0401, "cyrillic_capital_letter_io"⟩,
  ⟨0x0402, "serbocroatian_cyrillic_capital_letter_dje"⟩,
  ⟨0x0403, "macedonian_cyrillic_capital_letter_gje"⟩,
  ⟨0x0404, "ukrainian_cyrillic_capital_letter_ie"⟩,
  ⟨0x0405, "macedonian_cyrillic_capital_letter_dze"⟩,
  ⟨0x0406, "ukrainian_cyrillic_capital_letter_i"⟩,
  ⟨0x0407, "ukrainian_cyrillic_capital_letter_yi"⟩, ⟨0x0408, "cyrillic_capital_letter_je"⟩,
  ⟨0x0409, "cyrillic_capital_letter_lje"⟩, ⟨0x040a, "cyrillic_capital_letter_nje"⟩,
  ⟨0x040b, "serbocroatian_cyrillic_capital_letter_chje"⟩,
  ⟨0x040c, "macedonian_cyrillic_capital_letter_kje"⟩, ⟨0x00ad, "hyphen"⟩,
  ⟨0x040e, "bielorussian_cyrillic_capital_letter_short_u"⟩,
  ⟨0x040f, "cyrillic_capital_letter_dzhe"⟩, ⟨0x0410, "cyrillic_capital_letter_a"⟩,
  ⟨0x0411, "cyrillic_capital_letter_be"⟩, ⟨0x0412, "cyrillic_capital_letter_ve"⟩,
  ⟨0x0413, "cyrillic_capital_letter_ghe"⟩, ⟨0x0414, "cyrillic_capital_letter_de"⟩,
  ⟨0x0415, "cyrillic_capital_letter_ie"⟩, ⟨0x0416, "cyrillic_capital_letter_zhe"⟩,
  ⟨0x0417, "cyrillic_capital_letter_ze"⟩, ⟨0x0418, "cyrillic_capital_letter_i"⟩,
  ⟨0x0419, "cyrillic_capital_letter_short_i"⟩, ⟨0x041a, "cyrillic_capital_letter_ka"⟩,
  ⟨0x041b, "cyrillic_capital_letter_el"⟩, ⟨0x041c, "cyrillic_capital_letter_em"⟩,
  ⟨0x041d, "cyrillic_capital_letter_en"⟩, ⟨0x041e, "cyrillic_capital_letter_o"⟩,
  ⟨0x041f, "cyrillic_capital_letter_pe"⟩, ⟨0x0420, "cyrillic_capital_letter_er"⟩,
  ⟨0x0421, "cyrillic_capital_letter_es"⟩, ⟨0x0422, "cyrillic_capital_letter_te"⟩,
  ⟨0x0423, "cyrillic_capital_letter_u"⟩, ⟨0x0424, "cyrillic_capital_letter_ef"⟩,
  ⟨0x0425, "cyrillic_capital_letter_ha"⟩, ⟨0x0426, "cyrillic_capital_letter_tse"⟩,
  ⟨0x0427, "cyrillic_capital_letter_che"⟩, ⟨0x0428, "cyrillic_capital_letter_sha"⟩,
  ⟨0x0429, "cyrillic_capital_letter_shcha"⟩, ⟨0x042a, "cyrillic_capital_hard_sign"⟩,
  ⟨0x042b, "cyrillic_capital_letter_yeru"⟩, ⟨0x042c, "cyrillic_capital_soft_sign"⟩,
  ⟨0x042d, "cyrillic_capital_letter_e"⟩, ⟨0x042e, "cyrillic_capital_letter_yu"⟩,
  ⟨0x042f, "cyrillic_capital_letter_ya"⟩, ⟨0x0430, "cyrillic_small_letter_a"⟩,
  ⟨0x0431, "cyrillic_small_letter_be"⟩, ⟨0x0432, "cyrillic_small_letter_ve"⟩,
  ⟨0x0433, "cyrillic_small_letter_ghe"⟩, ⟨0x0434, "cyrillic_small_letter_de"⟩,
  ⟨0x0435, "cyrillic_small_letter_ie"⟩, ⟨0x0436, "cyrillic_small_letter_zhe"⟩,
  ⟨0x0437, "cyrillic_small_letter_ze"⟩, ⟨0x0438, "cyrillic_small_letter_i"⟩,
  ⟨0x0439, "cyrillic_small_letter_short_i"⟩, ⟨0x043a, "cyrillic_small_letter_ka"⟩,
  ⟨0x043b, "cyrillic_small_letter_el"⟩, ⟨0x043c, "cyrillic_small_letter_em"⟩,
  ⟨0x043d, "cyrillic_small_letter_en"⟩, ⟨0x043e, "cyrillic_small_letter_o"⟩,
  ⟨0x043f, "cyrillic_small_letter_pe"⟩, ⟨0x0440, "cyrillic_small_letter_er"⟩,
  ⟨0x0441, "cyrillic_small_letter_es"⟩, ⟨0x0442, "cyrillic_small_letter_te"⟩,
  ⟨0x0443, "cyrillic_small_letter_u"⟩, ⟨0x0444, "cyrillic_small_letter_ef"⟩,
  ⟨0x0445, "cyrillic_small_letter_ha"⟩, ⟨0x0446, "cyrillic_small_letter_tse"⟩,
  ⟨0x0447, "cyrillic_small_letter_che"⟩, ⟨0x0448, "cyrillic_small_letter_sha"⟩,
  ⟨0x0449, "cyrillic_small_letter_shcha"⟩, ⟨0x044a, "cyrillic_small_hard_sign"⟩,
  ⟨0x044b, "cyrillic_small_letter_yeru"⟩, ⟨0x044c, "cyrillic_small_soft_sign"⟩,
  ⟨0x044d, "cyrillic_small_letter_e"⟩, ⟨0x044e, "cyrillic_small_letter_yu"⟩,
  ⟨0x044f, "cyrillic_small_letter_ya"⟩, ⟨0x2116, "number_acronym"⟩,
  ⟨0x0451, "cyrillic_small_letter_io"⟩, ⟨0x0452, "serbocroatian_cyrillic_small_letter_dje"⟩,
  ⟨0x0453, "macedonian_cyrillic_small_letter_gje"⟩,
  ⟨0x0454, "ukrainian_cyrillic_small_letter_ie"⟩,
  ⟨0x0455, "macedonian_cyrillic_small_letter_dze"⟩, ⟨0x0456, "ukrainian_cyrillic_small_letter_i"⟩,
  ⟨0x0457, "ukrainian_cyrillic_small_letter_yi"⟩, ⟨0x0458, "cyrillic_small_letter_je"⟩,
  ⟨0x0459, "cyrillic_small_letter_lje"⟩, ⟨0x045a, "cyrillic_small_letter_nje"⟩,
  ⟨0x045b, "serbocroatian_cyrillic_small_letter_chje"⟩,
  ⟨0x045c, "macedonian_cyrillic_small_letter_kje"⟩, ⟨0x00a7, "section"⟩,
  ⟨0x045e, "bielorussian_cyrillic_small_letter_short_u"⟩, ⟨0x045f, "cyrillic_small_letter_dzhe"⟩]

def iso88597Syms : List Sym := [
  ⟨0x00a0, "nobreakspace"⟩, ⟨0x2018, "leftquote"⟩, ⟨0x2019, "rightquote"⟩, ⟨0x00a3, "sterling"⟩,
  ⟨0x20ac, "euro"⟩, ⟨0x20af, "drachma"⟩, ⟨0x00a6, "brokenbar"⟩, ⟨0x00a7, "section"⟩,
  ⟨0x00a8, "diaeresis"⟩, ⟨0x00a9, "copyright"⟩, ⟨0x037a, "greek_ypogegrammeni"⟩,
  ⟨0x00ab, "guillemotleft"⟩, ⟨0x00ac, "notsign"⟩, ⟨0x00ad, "hyphen"⟩, ⟨0xfffd, ""⟩,
  ⟨0x2015, "horizontal_bar"⟩, ⟨0x00b0, "degree"⟩, ⟨0x00b1, "plusminus"⟩, ⟨0x00b2, "twosuperior"⟩,
  ⟨0x00b3, "threesuperior"⟩, ⟨0x0384, "accent"⟩, ⟨0x0385, "diaeresisaccent"⟩,
  ⟨0x0386, "Alphaaccent"⟩, ⟨0x00b7, "periodcentered"⟩, ⟨0x0388, "Epsilonaccent"⟩,
  ⟨0x0389, "Etaaccent"⟩, ⟨0x038a, "Iotaaccent"⟩, ⟨0x00bb, "guillemotright"⟩,
  ⟨0x038c, "Omicronaccent"⟩, ⟨0x00bd, "onehalf"⟩, ⟨0x038e, "Upsilonaccent"⟩,
  ⟨0x038f, "Omegaaccent"⟩, ⟨0x0390, "iotadiaeresisaccent"⟩, ⟨0x0391, "Alpha"⟩, ⟨0x0392, "Beta"⟩,
  ⟨0x0393, "Gamma"⟩, ⟨0x0394, "Delta"⟩, ⟨0x0395, "Epsilon"⟩, ⟨0x0396, "Zeta"⟩, ⟨0x0397, "Eta"⟩,
  ⟨0x0398, "Theta"⟩, ⟨0x0399, "Iota"⟩, ⟨0x039a, "Kappa"⟩, ⟨0x039b, "Lamda"⟩, ⟨0x039c, "Mu"⟩,
  ⟨0x039d, "Nu"⟩, ⟨0x039e, "Ksi"⟩, ⟨0x039f, "Omicron"⟩, ⟨0x03a0, "Pi"⟩, ⟨0x03a1, "Rho"⟩,
  ⟨0xfffd, ""⟩, ⟨0x03a3, "Sigma"⟩, ⟨0x03a4, "Tau"⟩, ⟨0x03a5, "Upsilon"⟩, ⟨0x03a6, "Phi"⟩,
  ⟨0x03a7, "Khi"⟩, ⟨0x03a8, "Psi"⟩, ⟨0x03a9, "Omega"⟩, ⟨0x03aa, "Iotadiaeresis"⟩,
  ⟨0x03ab, "Upsilondiaeresis"⟩, ⟨0x03ac, "alphaaccent"⟩, ⟨0x03ad, "epsilonaccent"⟩,
  ⟨0x03ae, "etaaccent"⟩, ⟨0x03af, "iotaaccent"⟩, ⟨0x03b0, "upsilondiaeresisaccent"⟩,
  ⟨0x03b1, "alpha"⟩, ⟨0x03b2, "beta"⟩, ⟨0x03b3, "gamma"⟩, ⟨0x03b4, "delta"⟩, ⟨0x03b5, "epsilon"⟩,
  ⟨0x03b6, "zeta"⟩, ⟨0x03b7, "eta"⟩, ⟨0x03b8, "theta"⟩, ⟨0x03b9, "iota"⟩, ⟨0x03ba, "kappa"⟩,
  ⟨0x03bb, "lamda"⟩, ⟨0x03bc, "mu"⟩, ⟨0x03bd, "nu"⟩, ⟨0x03be, "ksi"⟩, ⟨0x03bf, "omicron"⟩,
  ⟨0x03c0, "pi"⟩, ⟨0x03c1, "rho"⟩, ⟨0x03c2, "terminalsigma"⟩, ⟨0x03c3, "sigma"⟩, ⟨0x03c4, "tau"⟩,
  ⟨0x03c5, "upsilon"⟩, ⟨0x03c6, "phi"⟩, ⟨0x03c7, "khi"⟩, ⟨0x03c8, "psi"⟩, ⟨0x03c9, "omega"⟩,
  ⟨0x03ca, "iotadiaeresis"⟩, ⟨0x03cb, "upsilondiaeresis"⟩, ⟨0x03cc, "omicronaccent"⟩,
  ⟨0x03cd, "upsilonaccent"⟩, ⟨0x03ce, "omegaaccent"⟩, ⟨0xfffd, ""⟩]

def iso88598Syms : List Sym := [
  ⟨0x00a0, "nobreakspace"⟩, ⟨0xfffd, ""⟩, ⟨0x00a2, "cent"⟩, ⟨0x00a3, "sterling"⟩,
  ⟨0x00a4, "currency"⟩, ⟨0x00a5, "yen"⟩, ⟨0x00a6, "brokenbar"⟩, ⟨0x00a7, "section"⟩,
  ⟨0x00a8, "diaeresis"⟩, ⟨0x00a9, "copyright"⟩, ⟨0x00d7, "multiply"⟩, ⟨0x00ab, "guillemotleft"⟩,
  ⟨0x00ac, "notsign"⟩, ⟨0x00ad, "hyphen"⟩, ⟨0x00ae, "registered"⟩, ⟨0x203e, "overscore"⟩,
  ⟨0x00b0, "degree"⟩, ⟨0x00b1, "plusminus"⟩, ⟨0x00b2, "twosuperior"⟩, ⟨0x00b3, "threesuperior"⟩,
  ⟨0x00b4, "acute"⟩, ⟨0x00b5, "mu"⟩, ⟨0x00b6, "paragraph"⟩, ⟨0x00b7, "periodcentered"⟩,
  ⟨0x00b8, "cedilla"⟩, ⟨0x00b9, "onesuperior"⟩, ⟨0x00f7, "division"⟩, ⟨0x00bb, "guillemotright"⟩,
  ⟨0x00bc, "onequarter"⟩, ⟨0x00bd, "onehalf"⟩, ⟨0x00be, "threequarters"⟩, ⟨0xfffd, ""⟩,
  ⟨0xfffd, ""⟩, ⟨0xfffd, ""⟩, ⟨0xfffd, ""⟩, ⟨0xfffd, ""⟩, ⟨0xfffd, ""⟩, ⟨0xfffd, ""⟩,
  ⟨0xfffd, ""⟩, ⟨0xfffd, ""⟩, ⟨0xfffd, ""⟩, ⟨0xfffd, ""⟩, ⟨0xfffd, ""⟩, ⟨0xfffd, ""⟩,
  ⟨0xfffd, ""⟩, ⟨0xfffd, ""⟩, ⟨0xfffd, ""⟩, ⟨0xfffd, ""⟩, ⟨0xfffd, ""⟩, ⟨0xfffd, ""⟩,
  ⟨0xfffd, ""⟩, ⟨0xfffd, ""⟩, ⟨0xfffd, ""⟩, ⟨0xfffd, ""⟩, ⟨0xfffd, ""⟩, ⟨0xfffd, ""⟩,
  ⟨0xfffd, ""⟩, ⟨0xfffd, ""⟩, ⟨0xfffd, ""⟩, ⟨0xfffd, ""⟩, ⟨0xfffd, ""⟩, ⟨0xfffd, ""⟩,
  ⟨0xfffd, ""⟩, ⟨0x2017, "doubleunderscore"⟩, ⟨0x05d0, "alef"⟩, ⟨0x05d1, "bet"⟩,
  ⟨0x05d2, "gimel"⟩, ⟨0x05d3, "dalet"⟩, ⟨0x05d4, "he"⟩, ⟨0x05d5, "vav"⟩, ⟨0x05d6, "zayin"⟩,
  ⟨0x05d7, "het"⟩, ⟨0x05d8, "tet"⟩, ⟨0x05d9, "yod"⟩, ⟨0x05da, "finalkaf"⟩, ⟨0x05db, "kaf"⟩,
  ⟨0x05dc, "lamed"⟩, ⟨0x05dd, "finalmem"⟩, ⟨0x05de, "mem"⟩, ⟨0x05df, "finalnun"⟩, ⟨0x05e0, "nun"⟩,
  ⟨0x05e1, "samekh"⟩, ⟨0x05e2, "ayin"⟩, ⟨0x05e3, "finalpe"⟩, ⟨0x05e4, "pe"⟩,
  ⟨0x05e5, "finaltsadi"⟩, ⟨0x05e6, "tsadi"⟩, ⟨0x05e7, "qof"⟩, ⟨0x05e8, "resh"⟩, ⟨0x05e9, "shin"⟩,
  ⟨0x05ea, "tav"⟩, ⟨0xfffd, ""⟩, ⟨0xfffd, ""⟩, ⟨0xfffd, ""⟩, ⟨0xfffd, ""⟩, ⟨0xfffd, ""⟩]

def iso88599Syms : List Sym := [
  ⟨0x00a0, "nobreakspace"⟩, ⟨0x00a1, "exclamdown"⟩, ⟨0x00a2, "cent"⟩, ⟨0x00a3, "sterling"⟩,
  ⟨0x00a4, "currency"⟩, ⟨0x00a5, "yen"⟩, ⟨0x00a6, "brokenbar"⟩, ⟨0x00a7, "section"⟩,
  ⟨0x00a8, "diaeresis"⟩, ⟨0x00a9, "copyright"⟩, ⟨0x00aa, "ordfeminine"⟩,
  ⟨0x00ab, "guillemotleft"⟩, ⟨0x00ac, "notsign"⟩, ⟨0x00ad, "hyphen"⟩, ⟨0x00ae, "registered"⟩,
  ⟨0x00af, "macron"⟩, ⟨0x00b0, "degree"⟩, ⟨0x00b1, "plusminus"⟩, ⟨0x00b2, "twosuperior"⟩,
  ⟨0x00b3, "threesuperior"⟩, ⟨0x00b4, "acute"⟩, ⟨0x00b5, "mu"⟩, ⟨0x00b6, "paragraph"⟩,
  ⟨0x00b7, "periodcentered"⟩, ⟨0x00b8, "cedilla"⟩, ⟨0x00b9, "onesuperior"⟩, ⟨0x00ba, "masculine"⟩,
  ⟨0x00bb, "guillemotright"⟩, ⟨0x00bc, "onequarter"⟩, ⟨0x00bd, "onehalf"⟩,
  ⟨0x00be, "threequarters"⟩, ⟨0x00bf, "questiondown"⟩, ⟨0x00c0, "Agrave"⟩, ⟨0x00c1, "Aacute"⟩,
  ⟨0x00c2, "Acircumflex"⟩, ⟨0x00c3, "Atilde"⟩, ⟨0x00c4, "Adiaeresis"⟩, ⟨0x00c5, "Aring"⟩,
  ⟨0x00c6, "AE"⟩, ⟨0x00c7, "Ccedilla"⟩, ⟨0x00c8, "Egrave"⟩, ⟨0x00c9, "Eacute"⟩,
  ⟨0x00ca, "Ecircumflex"⟩, ⟨0x00cb, "Ediaeresis"⟩, ⟨0x00cc, "Igrave"⟩, ⟨0x00cd, "Iacute"⟩,
  ⟨0x00ce, "Icircumflex"⟩, ⟨0x00cf, "Idiaeresis"⟩, ⟨0x011e, "Gbreve"⟩, ⟨0x00d1, "Ntilde"⟩,
  ⟨0x00d2, "Ograve"⟩, ⟨0x00d3, "Oacute"⟩, ⟨0x00d4, "Ocircumflex"⟩, ⟨0x00d5, "Otilde"⟩,
  ⟨0x00d6, "Odiaeresis"⟩, ⟨0x00d7, "multiply"⟩, ⟨0x00d8, "Ooblique"⟩, ⟨0x00d9, "Ugrave"⟩,
  ⟨0x00da, "Uacute"⟩, ⟨0x00db, "Ucircumflex"⟩, ⟨0x00dc, "Udiaeresis"⟩, ⟨0x0130, "Iabovedot"⟩,
  ⟨0x015e, "Scedilla"⟩, ⟨0x00df, "ssharp"⟩, ⟨0x00e0, "agrave"⟩, ⟨0x00e1, "aacute"⟩,
  ⟨0x00e2, "acircumflex"⟩, ⟨0x00e3, "atilde"⟩, ⟨0x00e4, "adiaeresis"⟩, ⟨0x00e5, "aring"⟩,
  ⟨0x00e6, "ae"⟩, ⟨0x00e7, "ccedilla"⟩, ⟨0x00e8, "egrave"⟩, ⟨0x00e9, "eacute"⟩,
  ⟨0x00ea, "ecircumflex"⟩, ⟨0x00eb, "ediaeresis"⟩, ⟨0x00ec, "igrave"⟩, ⟨0x00ed, "iacute"⟩,
  ⟨0x00ee, "icircumflex"⟩, ⟨0x00ef, "idiaeresis"⟩, ⟨0x011f, "gbreve"⟩, ⟨0x00f1, "ntilde"⟩,
  ⟨0x00f2, "ograve"⟩, ⟨0x00f3, "oacute"⟩, ⟨0x00f4, "ocircumflex"⟩, ⟨0x00f5, "otilde"⟩,
  ⟨0x00f6, "odiaeresis"⟩, ⟨0x00f7, "division"⟩, ⟨0x00f8, "oslash"⟩, ⟨0x00f9, "ugrave"⟩,
  ⟨0x00fa, "uacute"⟩, ⟨0x00fb, "ucircumflex"⟩, ⟨0x00fc, "udiaeresis"⟩, ⟨0x0131, "idotless"⟩,
  ⟨0x015f, "scedilla"⟩, ⟨0x00ff, "ydiaeresis"⟩]

def latin6Syms : List Sym := [
  ⟨0x00a0, "nobreakspace"⟩, ⟨0x0104, "Aogonek"⟩, ⟨0x0112, "Emacron"⟩, ⟨0x0122, "Gcedilla"⟩,
  ⟨0x012a, "Imacron"⟩, ⟨0x0128, "Itilde"⟩, ⟨0x0136, "Kcedilla"⟩, ⟨0x00a7, "section"⟩,
  ⟨0x013b, "Lcedilla"⟩, ⟨0x0110, "Dstroke"⟩, ⟨0x0160, "Scaron"⟩, ⟨0x0166, "Tstroke"⟩,
  ⟨0x017d, "Zcaron"⟩, ⟨0x00ad, "hyphen"⟩, ⟨0x016a, "Umacron"⟩, ⟨0x014a, "ENG"⟩,
  ⟨0x00b0, "degree"⟩, ⟨0x0105, "aogonek"⟩, ⟨0x0113, "emacron"⟩, ⟨0x0123, "gcedilla"⟩,
  ⟨0x012b, "imacron"⟩, ⟨0x0129, "itilde"⟩, ⟨0x0137, "kcedilla"⟩, ⟨0x00b7, "periodcentered"⟩,
  ⟨0x013c, "lcedilla"⟩, ⟨0x0111, "dstroke"⟩, ⟨0x0161, "scaron"⟩, ⟨0x0167, "tstroke"⟩,
  ⟨0x017e, "zcaron"⟩, ⟨0x2014, "emdash"⟩, ⟨0x016b, "umacron"⟩, ⟨0x014b, "eng"⟩,
  ⟨0x0100, "Amacron"⟩, ⟨0x00c1, "Aacute"⟩, ⟨0x00c2, "Acircumflex"⟩, ⟨0x00c3, "Atilde"⟩,
  ⟨0x00c4, "Adiaeresis"⟩, ⟨0x00c5, "Aring"⟩, ⟨0x00c6, "AE"⟩, ⟨0x012e, "Iogonek"⟩,
  ⟨0x010c, "Ccaron"⟩, ⟨0x00c9, "Eacute"⟩, ⟨0x0118, "Eogonek"⟩, ⟨0x00cb, "Ediaeresis"⟩,
  ⟨0x0116, "Eabovedot"⟩, ⟨0x00cd, "Iacute"⟩, ⟨0x00ce, "Icircumflex"⟩, ⟨0x00cf, "Idiaeresis"⟩,
  ⟨0x00d0, "ETH"⟩, ⟨0x0145, "Ncedilla"⟩, ⟨0x014c, "Omacron"⟩, ⟨0x00d3, "Oacute"⟩,
  ⟨0x00d4, "Ocircumflex"⟩, ⟨0x00d5, "Otilde"⟩, ⟨0x00d6, "Odiaeresis"⟩, ⟨0x0168, "Utilde"⟩,
  ⟨0x00d8, "Ostroke"⟩, ⟨0x0172, "Uogonek"⟩, ⟨0x00da, "Uacute"⟩, ⟨0x00db, "Ucircumflex"⟩,
  ⟨0x00dc, "Udiaeresis"⟩, ⟨0x00dd, "Yacute"⟩, ⟨0x00de, "THORN"⟩, ⟨0x00df, "ssharp"⟩,
  ⟨0x0101, "amacron"⟩, ⟨0x00e1, "aacute"⟩, ⟨0x00e2, "acircumflex"⟩, ⟨0x00e3, "atilde"⟩,
  ⟨0x00e4, "adiaeresis"⟩, ⟨0x00e5, "aring"⟩, ⟨0x00e6, "ae"⟩, ⟨0x012f, "iogonek"⟩,
  ⟨0x010d, "ccaron"⟩, ⟨0x00e9, "eacute"⟩, ⟨0x0119, "eogonek"⟩, ⟨0x00eb, "ediaeresis"⟩,
  ⟨0x0117, "eabovedot"⟩, ⟨0x00ed, "iacute"⟩, ⟨0x00ee, "icircumflex"⟩, ⟨0x00ef, "idiaeresis"⟩,
  ⟨0x00f0, "eth"⟩, ⟨0x0146, "ncedilla"⟩, ⟨0x014d, "omacron"⟩, ⟨0x00f3, "oacute"⟩,
  ⟨0x00f4, "ocircumflex"⟩, ⟨0x00f5, "otilde"⟩, ⟨0x00f6, "odiaeresis"⟩, ⟨0x0169, "utilde"⟩,
  ⟨0x00f8, "ostroke"⟩, ⟨0x0173, "uogonek"⟩, ⟨0x00fa, "uacute"⟩, ⟨0x00fb, "ucircumflex"⟩,
  ⟨0x00fc, "udiaeresis"⟩, ⟨0x00fd, "yacute"⟩, ⟨0x00fe, "thorn"⟩, ⟨0x0138, "kra"⟩]

def iso885915Syms : List Sym := [
  ⟨0x00a0, "nobreakspace"⟩, ⟨0x00a1, "exclamdown"⟩, ⟨0x00a2, "cent"⟩, ⟨0x00a3, "sterling"⟩,
  ⟨0x20ac, "euro"⟩, ⟨0x00a5, "yen"⟩, ⟨0x0160, "Scaron"⟩, ⟨0x00a7, "section"⟩, ⟨0x0161, "scaron"⟩,
  ⟨0x00a9, "copyright"⟩, ⟨0x00aa, "ordfeminine"⟩, ⟨0x00ab, "guillemotleft"⟩, ⟨0x00ac, "notsign"⟩,
  ⟨0x00ad, "hyphen"⟩, ⟨0x00ae, "registered"⟩, ⟨0x00af, "macron"⟩, ⟨0x00b0, "degree"⟩,
  ⟨0x00b1, "plusminus"⟩, ⟨0x00b2, "twosuperior"⟩, ⟨0x00b3, "threesuperior"⟩, ⟨0x017d, "Zcaron"⟩,
  ⟨0x00b5, "mu"⟩, ⟨0x00b6, "paragraph"⟩, ⟨0x00b7, "periodcentered"⟩, ⟨0x017e, "zcaron"⟩,
  ⟨0x00b9, "onesuperior"⟩, ⟨0x00ba, "masculine"⟩, ⟨0x00bb, "guillemotright"⟩, ⟨0x0152, "OE"⟩,
  ⟨0x0153, "oe"⟩, ⟨0x0178, "Ydiaeresis"⟩, ⟨0x00bf, "questiondown"⟩, ⟨0x00c0, "Agrave"⟩,
  ⟨0x00c1, "Aacute"⟩, ⟨0x00c2, "Acircumflex"⟩, ⟨0x00c3, "Atilde"⟩, ⟨0x00c4, "Adiaeresis"⟩,
  ⟨0x00c5, "Aring"⟩, ⟨0x00c6, "AE"⟩, ⟨0x00c7, "Ccedilla"⟩, ⟨0x00c8, "Egrave"⟩, ⟨0x00c9, "Eacute"⟩,
  ⟨0x00ca, "Ecircumflex"⟩, ⟨0x00cb, "Ediaeresis"⟩, ⟨0x00cc, "Igrave"⟩, ⟨0x00cd, "Iacute"⟩,
  ⟨0x00ce, "Icircumflex"⟩, ⟨0x00cf, "Idiaeresis"⟩, ⟨0x00d0, "ETH"⟩, ⟨0x00d1, "Ntilde"⟩,
  ⟨0x00d2, "Ograve"⟩, ⟨0x00d3, "Oacute"⟩, ⟨0x00d4, "Ocircumflex"⟩, ⟨0x00d5, "Otilde"⟩,
  ⟨0x00d6, "Odiaeresis"⟩, ⟨0x00d7, "multiply"⟩, ⟨0x00d8, "Ooblique"⟩, ⟨0x00d9, "Ugrave"⟩,
  ⟨0x00da, "Uacute"⟩, ⟨0x00db, "Ucircumflex"⟩, ⟨0x00dc, "Udiaeresis"⟩, ⟨0x00dd, "Yacute"⟩,
  ⟨0x00de, "THORN"⟩, ⟨0x00df, "ssharp"⟩, ⟨0x00e0, "agrave"⟩, ⟨0x00e1, "aacute"⟩,
  ⟨0x00e2, "acircumflex"⟩, ⟨0x00e3, "atilde"⟩, ⟨0x00e4, "adiaeresis"⟩, ⟨0x00e5, "aring"⟩,
  ⟨0x00e6, "ae"⟩, ⟨0x00e7, "ccedilla"⟩, ⟨0x00e8, "egrave"⟩, ⟨0x00e9, "eacute"⟩,
  ⟨0x00ea, "ecircumflex"⟩, ⟨0x00eb, "ediaeresis"⟩, ⟨0x00ec, "igrave"⟩, ⟨0x00ed, "iacute"⟩,
  ⟨0x00ee, "icircumflex"⟩, ⟨0x00ef, "idiaeresis"⟩, ⟨0x00f0, "eth"⟩, ⟨0x00f1, "ntilde"⟩,
  ⟨0x00f2, "ograve"⟩, ⟨0x00f3, "oacute"⟩, ⟨0x00f4, "ocircumflex"⟩, ⟨0x00f5, "otilde"⟩,
  ⟨0x00f6, "odiaeresis"⟩, ⟨0x00f7, "division"⟩, ⟨0x00f8, "oslash"⟩, ⟨0x00f9, "ugrave"⟩,
  ⟨0x00fa, "uacute"⟩, ⟨0x00fb, "ucircumflex"⟩, ⟨0x00fc, "udiaeresis"⟩, ⟨0x00fd, "yacute"⟩,
  ⟨0x00fe, "thorn"⟩, ⟨0x00ff, "ydiaeresis"⟩]

def mazoviaSyms : List Sym := [
  ⟨0x0080, ""⟩, ⟨0x0081, ""⟩, ⟨0x0082, ""⟩, ⟨0x0083, ""⟩, ⟨0x0084, ""⟩, ⟨0x0085, ""⟩,
  ⟨0x0105, "aogonek"⟩, ⟨0x0087, ""⟩, ⟨0x0088, ""⟩, ⟨0x0089, ""⟩, ⟨0x008a, ""⟩, ⟨0x008b, ""⟩,
  ⟨0x008c, ""⟩, ⟨0x0107, "cacute"⟩, ⟨0x008e, ""⟩, ⟨0x0104, "Aogonek"⟩, ⟨0x0118, "Eogonek"⟩,
  ⟨0x0119, "eogonek"⟩, ⟨0x0142, "lstroke"⟩, ⟨0x0093, ""⟩, ⟨0x0094, ""⟩, ⟨0x0106, "Cacute"⟩,
  ⟨0x0096, ""⟩, ⟨0x0097, ""⟩, ⟨0x015a, "Sacute"⟩, ⟨0x0099, ""⟩, ⟨0x009a, ""⟩, ⟨0x009b, ""⟩,
  ⟨0x0141, "Lstroke"⟩, ⟨0x009d, ""⟩, ⟨0x015b, "sacute"⟩, ⟨0x009f, ""⟩, ⟨0x0179, "Zacute"⟩,
  ⟨0x017b, "Zabovedot"⟩, ⟨0x00f3, "oacute"⟩, ⟨0x00d3, "Oacute"⟩, ⟨0x0144, "nacute"⟩,
  ⟨0x0143, "Nacute"⟩, ⟨0x017a, "zacute"⟩, ⟨0x017c, "zabovedot"⟩, ⟨0x00a8, "diaeresis"⟩,
  ⟨0x00a9, "copyright"⟩, ⟨0x00aa, "ordfeminine"⟩, ⟨0x00ab, "guillemotleft"⟩, ⟨0x00ac, "notsign"⟩,
  ⟨0x00ad, "hyphen"⟩, ⟨0x00ab, "guillemotleft"⟩, ⟨0x00bb, "guillemotright"⟩, ⟨0x00b0, "degree"⟩,
  ⟨0x00b1, "plusminus"⟩, ⟨0x00b2, "twosuperior"⟩, ⟨0x00b3, "threesuperior"⟩, ⟨0x00b4, "acute"⟩,
  ⟨0x00b5, "mu"⟩, ⟨0x00b6, "paragraph"⟩, ⟨0x00b7, "periodcentered"⟩, ⟨0x00b8, "cedilla"⟩,
  ⟨0x00b9, "onesuperior"⟩, ⟨0x00ba, "masculine"⟩, ⟨0x00bb, "guillemotright"⟩,
  ⟨0x00bc, "onequarter"⟩, ⟨0x00bd, "onehalf"⟩, ⟨0x00be, "threequarters"⟩,
  ⟨0x00bf, "questiondown"⟩, ⟨0x00c0, "Agrave"⟩, ⟨0x00c1, "Aacute"⟩, ⟨0x00c2, "Acircumflex"⟩,
  ⟨0x00c3, "Atilde"⟩, ⟨0x00c4, "Adiaeresis"⟩, ⟨0x00c5, "Aring"⟩, ⟨0x00c6, "AE"⟩,
  ⟨0x00c7, "Ccedilla"⟩, ⟨0x00c8, "Egrave"⟩, ⟨0x00c9, "Eacute"⟩, ⟨0x00ca, "Ecircumflex"⟩,
  ⟨0x00cb, "Ediaeresis"⟩, ⟨0x00cc, "Igrave"⟩, ⟨0x00cd, "Iacute"⟩, ⟨0x00ce, "Icircumflex"⟩,
  ⟨0x00cf, "Idiaeresis"⟩, ⟨0x00d0, "ETH"⟩, ⟨0x00d1, "Ntilde"⟩, ⟨0x00d2, "Ograve"⟩,
  ⟨0x00d3, "Oacute"⟩, ⟨0x00d4, "Ocircumflex"⟩, ⟨0x00d5, "Otilde"⟩, ⟨0x00d6, "Odiaeresis"⟩,
  ⟨0x00d7, "multiply"⟩, ⟨0x00d8, "Ooblique"⟩, ⟨0x00d9, "Ugrave"⟩, ⟨0x00da, "Uacute"⟩,
  ⟨0x00db, "Ucircumflex"⟩, ⟨0x00dc, "Udiaeresis"⟩, ⟨0x00dd, "Yacute"⟩, ⟨0x00de, "THORN"⟩,
  ⟨0x00df, "ssharp"⟩, ⟨0x00e0, "agrave"⟩, ⟨0x00e1, "aacute"⟩, ⟨0x00e2, "acircumflex"⟩,
  ⟨0x00e3, "atilde"⟩, ⟨0x00e4, "adiaeresis"⟩, ⟨0x00e5, "aring"⟩, ⟨0x00e6, "ae"⟩,
  ⟨0x00e7, "ccedilla"⟩, ⟨0x00e8, "egrave"⟩, ⟨0x00e9, "eacute"⟩, ⟨0x00ea, "ecircumflex"⟩,
  ⟨0x00eb, "ediaeresis"⟩, ⟨0x00ec, "igrave"⟩, ⟨0x00ed, "iacute"⟩, ⟨0x00ee, "icircumflex"⟩,
  ⟨0x00ef, "idiaeresis"⟩, ⟨0x00f0, "eth"⟩, ⟨0x00f1, "ntilde"⟩, ⟨0x00f2, "ograve"⟩,
  ⟨0x00f3, "oacute"⟩, ⟨0x00f4, "ocircumflex"⟩, ⟨0x00f5, "otilde"⟩, ⟨0x00f6, "odiaeresis"⟩,
  ⟨0x00f7, "division"⟩, ⟨0x00f8, "oslash"⟩, ⟨0x00f9, "ugrave"⟩, ⟨0x00fa, "uacute"⟩,
  ⟨0x00fb, "ucircumflex"⟩, ⟨0x00fc, "udiaeresis"⟩, ⟨0x00fd, "yacute"⟩, ⟨0x00fe, "thorn"⟩,
  ⟨0x201e, "quotedblbase"⟩]

def cp1250Syms : List Sym := [
  ⟨0x20ac, "euro"⟩, ⟨0xfffd, ""⟩, ⟨0x201a, "single_low_9_quotation_mark"⟩, ⟨0xfffd, ""⟩,
  ⟨0x201e, "double_low_9_quotation_mark"⟩, ⟨0x2026, "ellipsis"⟩, ⟨0x2020, "dagger"⟩,
  ⟨0x2021, "doubledagger"⟩, ⟨0xfffd, ""⟩, ⟨0x2030, "permille"⟩, ⟨0x0160, "Scaron"⟩,
  ⟨0x2039, "single_left_pointing_angle_quotation_mark"⟩, ⟨0x015a, "Sacute"⟩, ⟨0x0164, "Tcaron"⟩,
  ⟨0x017d, "Zcaron"⟩, ⟨0x0179, "Zacute"⟩, ⟨0xfffd, ""⟩, ⟨0x2018, "leftquote"⟩,
  ⟨0x2019, "rightquote"⟩, ⟨0x201c, "left_double_quotation_mark"⟩,
  ⟨0x201d, "right_double_quotation_mark"⟩, ⟨0x2022, "bullet"⟩, ⟨0x2013, "endash"⟩,
  ⟨0x2014, "emdash"⟩, ⟨0xfffd, ""⟩, ⟨0x2122, "trademark"⟩, ⟨0x0161, "scaron"⟩,
  ⟨0x203a, "single_right_pointing_angle_quotation_mark"⟩, ⟨0x015b, "sacute"⟩, ⟨0x0165, "tcaron"⟩,
  ⟨0x017e, "zcaron"⟩, ⟨0x017a, "zacute"⟩, ⟨0x00a0, "nobreakspace"⟩, ⟨0x02c7, "caron"⟩,
  ⟨0x02d8, "breve"⟩, ⟨0x0141, "Lstroke"⟩, ⟨0x00a4, "currency"⟩, ⟨0x0104, "Aogonek"⟩,
  ⟨0x00a6, "brokenbar"⟩, ⟨0x00a7, "section"⟩, ⟨0x00a8, "diaeresis"⟩, ⟨0x00a9, "copyright"⟩,
  ⟨0x015e, "Scedilla"⟩, ⟨0x00ab, "guillemotleft"⟩, ⟨0x00ac, "notsign"⟩, ⟨0x00ad, "hyphen"⟩,
  ⟨0x00ae, "registered"⟩, ⟨0x017b, "Zabovedot"⟩, ⟨0x00b0, "degree"⟩, ⟨0x00b1, "plusminus"⟩,
  ⟨0x02db, "ogonek"⟩, ⟨0x0142, "lstroke"⟩, ⟨0x00b4, "acute"⟩, ⟨0x00b5, "mu"⟩,
  ⟨0x00b6, "paragraph"⟩, ⟨0x00b7, "periodcentered"⟩, ⟨0x00b8, "cedilla"⟩, ⟨0x0105, "aogonek"⟩,
  ⟨0x015f, "scedilla"⟩, ⟨0x00bb, "guillemotright"⟩, ⟨0x013d, "Lcaron"⟩, ⟨0x02dd, "doubleacute"⟩,
  ⟨0x013e, "lcaron"⟩, ⟨0x017c, "zabovedot"⟩, ⟨0x0154, "Racute"⟩, ⟨0x00c1, "Aacute"⟩,
  ⟨0x00c2, "Acircumflex"⟩, ⟨0x0102, "Abreve"⟩, ⟨0x00c4, "Adiaeresis"⟩, ⟨0x0139, "Lacute"⟩,
  ⟨0x0106, "Cacute"⟩, ⟨0x00c7, "Ccedilla"⟩, ⟨0x010c, "Ccaron"⟩, ⟨0x00c9, "Eacute"⟩,
  ⟨0x0118, "Eogonek"⟩, ⟨0x00cb, "Ediaeresis"⟩, ⟨0x011a, "Ecaron"⟩, ⟨0x00cd, "Iacute"⟩,
  ⟨0x00ce, "Icircumflex"⟩, ⟨0x010e, "Dcaron"⟩, ⟨0x0110, "Dstroke"⟩, ⟨0x0143, "Nacute"⟩,
  ⟨0x0147, "Ncaron"⟩, ⟨0x00d3, "Oacute"⟩, ⟨0x00d4, "Ocircumflex"⟩, ⟨0x0150, "Odoubleacute"⟩,
  ⟨0x00d6, "Odiaeresis"⟩, ⟨0x00d7, "multiply"⟩, ⟨0x0158, "Rcaron"⟩, ⟨0x016e, "Uring"⟩,
  ⟨0x00da, "Uacute"⟩, ⟨0x0170, "Udoubleacute"⟩, ⟨0x00dc, "Udiaeresis"⟩, ⟨0x00dd, "Yacute"⟩,
  ⟨0x0162, "Tcedilla"⟩, ⟨0x00df, "ssharp"⟩, ⟨0x0155, "racute"⟩, ⟨0x00e1, "aacute"⟩,
  ⟨0x00e2, "acircumflex"⟩, ⟨0x0103, "abreve"⟩, ⟨0x00e4, "adiaeresis"⟩, ⟨0x013a, "lacute"⟩,
  ⟨0x0107, "cacute"⟩, ⟨0x00e7, "ccedilla"⟩, ⟨0x010d, "ccaron"⟩, ⟨0x00e9, "eacute"⟩,
  ⟨0x0119, "eogonek"⟩, ⟨0x00eb, "ediaeresis"⟩, ⟨0x011b, "ecaron"⟩, ⟨0x00ed, "iacute"⟩,
  ⟨0x00ee, "icircumflex"⟩, ⟨0x010f, "dcaron"⟩, ⟨0x0111, "dstroke"⟩, ⟨0x0144, "nacute"⟩,
  ⟨0x0148, "ncaron"⟩, ⟨0x00f3, "oacute"⟩, ⟨0x00f4, "ocircumflex"⟩, ⟨0x0151, "odoubleacute"⟩,
  ⟨0x00f6, "odiaeresis"⟩, ⟨0x00f7, "division"⟩, ⟨0x0159, "rcaron"⟩, ⟨0x016f, "uring"⟩,
  ⟨0x00fa, "uacute"⟩, ⟨0x0171, "udoubleacute"⟩, ⟨0x00fc, "udiaeresis"⟩, ⟨0x00fd, "yacute"⟩,
  ⟨0x0163, "tcedilla"⟩, ⟨0x02d9, "abovedot"⟩]

def koi8Syms : List Sym := [
  ⟨0x2500, "box_drawings_light_horizontal"⟩, ⟨0x2502, "box_drawings_light_vertical"⟩,
  ⟨0x250c, "box_drawings_light_down_and_right"⟩, ⟨0x2510, "box_drawings_light_down_and_left"⟩,
  ⟨0x2514, "box_drawings_light_up_and_right"⟩, ⟨0x2518, "box_drawings_light_up_and_left"⟩,
  ⟨0x251c, "box_drawings_light_vertical_and_right"⟩,
  ⟨0x2524, "box_drawings_light_vertical_and_left"⟩,
  ⟨0x252c, "box_drawings_light_down_and_horizontal"⟩,
  ⟨0x2534, "box_drawings_light_up_and_horizontal"⟩,
  ⟨0x253c, "box_drawings_light_vertical_and_horizontal"⟩, ⟨0x2580, "upper_half_block"⟩,
  ⟨0x2584, "lower_half_block"⟩, ⟨0x2588, "full_block"⟩, ⟨0x258c, "left_half_block"⟩,
  ⟨0x2590, "right_half_block"⟩, ⟨0x2591, "light_shade"⟩, ⟨0x2592, "medium_shade"⟩,
  ⟨0x2593, "dark_shade"⟩, ⟨0x2320, "top_half_integral"⟩, ⟨0x25a0, "black_square"⟩,
  ⟨0x2219, "bullet_operator"⟩, ⟨0x221a, "square_root"⟩, ⟨0x2248, "almost_equal_to"⟩,
  ⟨0x2264, "less_than_or_equal_to"⟩, ⟨0x2265, "greater_than_or_equal_to"⟩,
  ⟨0x00a0, "nobreakspace"⟩, ⟨0x2321, "bottom_half_integral"⟩, ⟨0x00b0, "degree"⟩,
  ⟨0x00b2, "twosuperior"⟩, ⟨0x00b7, "periodcentered"⟩, ⟨0x00f7, "division"⟩,
  ⟨0x2550, "box_drawings_double_horizontal"⟩, ⟨0x2551, "box_drawings_double_vertical"⟩,
  ⟨0x2552, "box_drawings_down_single_and_right_double"⟩, ⟨0x0451, "cyrillic_small_letter_io"⟩,
  ⟨0x0454, "ukrainian_cyrillic_small_letter_ie"⟩, ⟨0x2554, "box_drawings_double_down_and_right"⟩,
  ⟨0x0456, "ukrainian_cyrillic_small_letter_i"⟩, ⟨0x0457, "ukrainian_cyrillic_small_letter_yi"⟩,
  ⟨0x2557, "box_drawings_double_down_and_left"⟩,
  ⟨0x2558, "box_drawings_up_single_and_right_double"⟩,
  ⟨0x2559, "box_drawings_up_double_and_right_single"⟩,
  ⟨0x255a, "box_drawings_double_up_and_right"⟩,
  ⟨0x255b, "box_drawings_up_single_and_left_double"⟩,
  ⟨0x0491, "cyrillic_small_letter_ghe_with_upturn"⟩, ⟨0x255d, "box_drawings_double_up_and_left"⟩,
  ⟨0x255e, "box_drawings_vertical_single_and_right_double"⟩,
  ⟨0x255f, "box_drawings_vertical_double_and_right_single"⟩,
  ⟨0x2560, "box_drawings_double_vertical_and_right"⟩,
  ⟨0x2561, "box_drawings_vertical_single_and_left_double"⟩,
  ⟨0x0401, "cyrillic_capital_letter_io"⟩, ⟨0x0404, "ukrainian_cyrillic_capital_letter_ie"⟩,
  ⟨0x2563, "double_vertical_and_left"⟩, ⟨0x0406, "ukrainian_cyrillic_capital_letter_i"⟩,
  ⟨0x0407, "ukrainian_cyrillic_capital_letter_yi"⟩,
  ⟨0x2566, "box_drawings_double_down_and_horizontal"⟩,
  ⟨0x2567, "box_drawings_up_single_and_horizontal_double"⟩,
  ⟨0x2568, "box_drawings_up_double_and_horizontal_single"⟩,
  ⟨0x2569, "box_drawings_double_up_and_horizontal"⟩,
  ⟨0x256a, "box_drawings_vertical_single_and_horizontal_double"⟩,
  ⟨0x0490, "cyrillic_capital_letter_ghe_with_upturn"⟩,
  ⟨0x256c, "box_drawings_double_vertical_and_horizontal"⟩, ⟨0x00a9, "copyright"⟩,
  ⟨0x044e, "cyrillic_small_letter_yu"⟩, ⟨0x0430, "cyrillic_small_letter_a"⟩,
  ⟨0x0431, "cyrillic_small_letter_be"⟩, ⟨0x0446, "cyrillic_small_letter_tse"⟩,
  ⟨0x0434, "cyrillic_small_letter_de"⟩, ⟨0x0435, "cyrillic_small_letter_ie"⟩,
  ⟨0x0444, "cyrillic_small_letter_ef"⟩, ⟨0x0433, "cyrillic_small_letter_ghe"⟩,
  ⟨0x0445, "cyrillic_small_letter_ha"⟩, ⟨0x0438, "cyrillic_small_letter_i"⟩,
  ⟨0x0439, "cyrillic_small_letter_short_i"⟩, ⟨0x043a, "cyrillic_small_letter_ka"⟩,
  ⟨0x043b, "cyrillic_small_letter_el"⟩, ⟨0x043c, "cyrillic_small_letter_em"⟩,
  ⟨0x043d, "cyrillic_small_letter_en"⟩, ⟨0x043e, "cyrillic_small_letter_o"⟩,
  ⟨0x043f, "cyrillic_small_letter_pe"⟩, ⟨0x044f, "cyrillic_small_letter_ya"⟩,
  ⟨0x0440, "cyrillic_small_letter_er"⟩, ⟨0x0441, "cyrillic_small_letter_es"⟩,
  ⟨0x0442, "cyrillic_small_letter_te"⟩, ⟨0x0443, "cyrillic_small_letter_u"⟩,
  ⟨0x0436, "cyrillic_small_letter_zhe"⟩, ⟨0x0432, "cyrillic_small_letter_ve"⟩,
  ⟨0x044c, "cyrillic_small_soft_sign"⟩, ⟨0x044b, "cyrillic_small_letter_yeru"⟩,
  ⟨0x0437, "cyrillic_small_letter_ze"⟩, ⟨0x0448, "cyrillic_small_letter_sha"⟩,
  ⟨0x044d, "cyrillic_small_letter_e"⟩, ⟨0x0449, "cyrillic_small_letter_shcha"⟩,
  ⟨0x0447, "cyrillic_small_letter_che"⟩, ⟨0x044a, "cyrillic_small_hard_sign"⟩,
  ⟨0x042e, "cyrillic_capital_letter_yu"⟩, ⟨0x0410, "cyrillic_capital_letter_a"⟩,
  ⟨0x0411, "cyrillic_capital_letter_be"⟩, ⟨0x0426, "cyrillic_capital_letter_tse"⟩,
  ⟨0x0414, "cyrillic_capital_letter_de"⟩, ⟨0x0415, "cyrillic_capital_letter_ie"⟩,
  ⟨0x0424, "cyrillic_capital_letter_ef"⟩, ⟨0x0413, "cyrillic_capital_letter_ghe"⟩,
  ⟨0x0425, "cyrillic_capital_letter_ha"⟩, ⟨0x0418, "cyrillic_capital_letter_i"⟩,
  ⟨0x0419, "cyrillic_capital_letter_short_i"⟩, ⟨0x041a, "cyrillic_capital_letter_ka"⟩,
  ⟨0x041b, "cyrillic_capital_letter_el"⟩, ⟨0x041c, "cyrillic_capital_letter_em"⟩,
  ⟨0x041d, "cyrillic_capital_letter_en"⟩, ⟨0x041e, "cyrillic_capital_letter_o"⟩,
  ⟨0x041f, "cyrillic_capital_letter_pe"⟩, ⟨0x042f, "cyrillic_capital_letter_ya"⟩,
  ⟨0x0420, "cyrillic_capital_letter_er"⟩, ⟨0x0421, "cyrillic_capital_letter_es"⟩,
  ⟨0x0422, "cyrillic_capital_letter_te"⟩, ⟨0x0423, "cyrillic_capital_letter_u"⟩,
  ⟨0x0416, "cyrillic_capital_letter_zhe"⟩, ⟨0x0412, "cyrillic_capital_letter_ve"⟩,
  ⟨0x042c, "cyrillic_capital_soft_sign"⟩, ⟨0x042b, "cyrillic_capital_letter_yeru"⟩,
  ⟨0x0417, "cyrillic_capital_letter_ze"⟩, ⟨0x0428, "cyrillic_capital_letter_sha"⟩,
  ⟨0x042d, "cyrillic_capital_letter_e"⟩, ⟨0x0429, "cyrillic_capital_letter_shcha"⟩,
  ⟨0x0427, "cyrillic_capital_letter_che"⟩, ⟨0x042a, "cyrillic_capital_hard_sign"⟩]

def tis620Syms : List Sym := [
  ⟨0x00a0, "nobreakspace"⟩, ⟨0x0e01, "thai_kokai"⟩, ⟨0x0e02, "thai_khokhai"⟩,
  ⟨0x0e03, "thai_khokhuat"⟩, ⟨0x0e04, "thai_khokhwai"⟩, ⟨0x0e05, "thai_khokhon"⟩,
  ⟨0x0e06, "thai_khorakhang"⟩, ⟨0x0e07, "thai_ngongu"⟩, ⟨0x0e08, "thai_chochan"⟩,
  ⟨0x0e09, "thai_choching"⟩, ⟨0x0e0a, "thai_chochang"⟩, ⟨0x0e0b, "thai_soso"⟩,
  ⟨0x0e0c, "thai_chochoe"⟩, ⟨0x0e0d, "thai_yoying"⟩, ⟨0x0e0e, "thai_dochada"⟩,
  ⟨0x0e0f, "thai_topatak"⟩, ⟨0x0e10, "thai_thothan"⟩, ⟨0x0e11, "thai_thonangmontho"⟩,
  ⟨0x0e12, "thai_thophuthao"⟩, ⟨0x0e13, "thai_nonen"⟩, ⟨0x0e14, "thai_dodek"⟩,
  ⟨0x0e15, "thai_totao"⟩, ⟨0x0e16, "thai_thothung"⟩, ⟨0x0e17, "thai_thothahan"⟩,
  ⟨0x0e18, "thai_thothong"⟩, ⟨0x0e19, "thai_nonu"⟩, ⟨0x0e1a, "thai_bobaimai"⟩,
  ⟨0x0e1b, "thai_popla"⟩, ⟨0x0e1c, "thai_phophung"⟩, ⟨0x0e1d, "thai_fofa"⟩,
  ⟨0x0e1e, "thai_phophan"⟩, ⟨0x0e1f, "thai_fofan"⟩, ⟨0x0e20, "thai_phosamphao"⟩,
  ⟨0x0e21, "thai_moma"⟩, ⟨0x0e22, "thai_yoyak"⟩, ⟨0x0e23, "thai_rorua"⟩, ⟨0x0e24, "thai_ru"⟩,
  ⟨0x0e25, "thai_loling"⟩, ⟨0x0e26, "thai_lu"⟩, ⟨0x0e27, "thai_wowaen"⟩, ⟨0x0e28, "thai_sosala"⟩,
  ⟨0x0e29, "thai_sorusi"⟩, ⟨0x0e2a, "thai_sosua"⟩, ⟨0x0e2b, "thai_hohip"⟩,
  ⟨0x0e2c, "thai_lochula"⟩, ⟨0x0e2d, "thai_oang"⟩, ⟨0x0e2e, "thai_honokhuk"⟩,
  ⟨0x0e2f, "thai_paiyannoi"⟩, ⟨0x0e30, "thai_saraa"⟩, ⟨0x0e31, "thai_maihanakat"⟩,
  ⟨0x0e32, "thai_saraaa"⟩, ⟨0x0e33, "thai_saraam"⟩, ⟨0x0e34, "thai_sarai"⟩,
  ⟨0x0e35, "thai_saraii"⟩, ⟨0x0e36, "thai_saraue"⟩, ⟨0x0e37, "thai_sarauee"⟩,
  ⟨0x0e38, "thai_sarau"⟩, ⟨0x0e39, "thai_sarauu"⟩, ⟨0x0e3a, "thai_phinthu"⟩, ⟨0x0e3b, ""⟩,
  ⟨0x0e3c, ""⟩, ⟨0x0e3d, ""⟩, ⟨0x0e3e, ""⟩, ⟨0x0e3f, "thai_baht"⟩, ⟨0x0e40, "thai_sarae"⟩,
  ⟨0x0e41, "thai_saraae"⟩, ⟨0x0e42, "thai_sarao"⟩, ⟨0x0e43, "thai_saraaimaimuan"⟩,
  ⟨0x0e44, "thai_saraaimaimalai"⟩, ⟨0x0e45, "thai_lakkhangyao"⟩, ⟨0x0e46, "thai_maiyamok"⟩,
  ⟨0x0e47, "thai_maitaikhu"⟩, ⟨0x0e48, "thai_maiek"⟩, ⟨0x0e49, "thai_maitho"⟩,
  ⟨0x0e4a, "thai_maitri"⟩, ⟨0x0e4b, "thai_maichattawa"⟩, ⟨0x0e4c, "thai_thanthakhat"⟩,
  ⟨0x0e4d, "thai_nikhahit"⟩, ⟨0x0e4e, "thai_yamakkan"⟩, ⟨0x0e4f, "thai_fongman"⟩,
  ⟨0x0e50, "thai_leksun"⟩, ⟨0x0e51, "thai_leknung"⟩, ⟨0x0e52, "thai_leksong"⟩,
  ⟨0x0e53, "thai_leksam"⟩, ⟨0x0e54, "thai_leksi"⟩, ⟨0x0e55, "thai_lekha"⟩,
  ⟨0x0e56, "thai_lekhok"⟩, ⟨0x0e57, "thai_lekchet"⟩, ⟨0x0e58, "thai_lekpaet"⟩,
  ⟨0x0e59, "thai_lekkao"⟩, ⟨0x0e5a, "thai_angkhankhu"⟩, ⟨0x0e5b, "thai_khomut"⟩, ⟨0x0e5c, ""⟩,
  ⟨0x0e5d, ""⟩, ⟨0x0e5e, ""⟩, ⟨0x0e5f, ""⟩]

def iso1064618Syms : List Sym := [
  ⟨0x1200, "ethiopic_syllable_ha"⟩, ⟨0x1201, "ethiopic_syllable_hu"⟩,
  ⟨0x1202, "ethiopic_syllable_hi"⟩, ⟨0x1203, "ethiopic_syllable_haa"⟩,
  ⟨0x1204, "ethiopic_syllable_hee"⟩, ⟨0x1205, "ethiopic_syllable_he"⟩,
  ⟨0x1206, "ethiopic_syllable_ho"⟩, ⟨0x1207, "ethiopic_syllable_hoa"⟩,
  ⟨0x1208, "ethiopic_syllable_la"⟩, ⟨0x1209, "ethiopic_syllable_lu"⟩,
  ⟨0x120a, "ethiopic_syllable_li"⟩, ⟨0x120b, "ethiopic_syllable_laa"⟩,
  ⟨0x120c, "ethiopic_syllable_lee"⟩, ⟨0x120d, "ethiopic_syllable_le"⟩,
  ⟨0x120e, "ethiopic_syllable_lo"⟩, ⟨0x120f, "ethiopic_syllable_lwa"⟩,
  ⟨0x1210, "ethiopic_syllable_hha"⟩, ⟨0x1211, "ethiopic_syllable_hhu"⟩,
  ⟨0x1212, "ethiopic_syllable_hhi"⟩, ⟨0x1213, "ethiopic_syllable_hhaa"⟩,
  ⟨0x1214, "ethiopic_syllable_hhee"⟩, ⟨0x1215, "ethiopic_syllable_hhe"⟩,
  ⟨0x1216, "ethiopic_syllable_hho"⟩, ⟨0x1217, "ethiopic_syllable_hhwa"⟩,
  ⟨0x1218, "ethiopic_syllable_ma"⟩, ⟨0x1219, "ethiopic_syllable_mu"⟩,
  ⟨0x121a, "ethiopic_syllable_mi"⟩, ⟨0x121b, "ethiopic_syllable_maa"⟩,
  ⟨0x121c, "ethiopic_syllable_mee"⟩, ⟨0x121d, "ethiopic_syllable_me"⟩,
  ⟨0x121e, "ethiopic_syllable_mo"⟩, ⟨0x121f, "ethiopic_syllable_mwaa"⟩,
  ⟨0x1220, "ethiopic_syllable_sza"⟩, ⟨0x1221, "ethiopic_syllable_szu"⟩,
  ⟨0x1222, "ethiopic_syllable_szi"⟩, ⟨0x1223, "ethiopic_syllable_szaa"⟩,
  ⟨0x1224, "ethiopic_syllable_szee"⟩, ⟨0x1225, "ethiopic_syllable_sze"⟩,
  ⟨0x1226, "ethiopic_syllable_szo"⟩, ⟨0x1227, "ethiopic_syllable_szwa"⟩,
  ⟨0x1228, "ethiopic_syllable_ra"⟩, ⟨0x1229, "ethiopic_syllable_ru"⟩,
  ⟨0x122a, "ethiopic_syllable_ri"⟩, ⟨0x122b, "ethiopic_syllable_raa"⟩,
  ⟨0x122c, "ethiopic_syllable_ree"⟩, ⟨0x122d, "ethiopic_syllable_re"⟩,
  ⟨0x122e, "ethiopic_syllable_ro"⟩, ⟨0x122f, "ethiopic_syllable_rwa"⟩,
  ⟨0x1230, "ethiopic_syllable_sa"⟩, ⟨0x1231, "ethiopic_syllable_su"⟩,
  ⟨0x1232, "ethiopic_syllable_si"⟩, ⟨0x1233, "ethiopic_syllable_saa"⟩,
  ⟨0x1234, "ethiopic_syllable_see"⟩, ⟨0x1235, "ethiopic_syllable_se"⟩,
  ⟨0x1236, "ethiopic_syllable_so"⟩, ⟨0x1237, "ethiopic_syllable_swa"⟩,
  ⟨0x1238, "ethiopic_syllable_sha"⟩, ⟨0x1239, "ethiopic_syllable_shu"⟩,
  ⟨0x123a, "ethiopic_syllable_shi"⟩, ⟨0x123b, "ethiopic_syllable_shaa"⟩,
  ⟨0x123c, "ethiopic_syllable_shee"⟩, ⟨0x123d, "ethiopic_syllable_she"⟩,
  ⟨0x123e, "ethiopic_syllable_sho"⟩, ⟨0x123f, "ethiopic_syllable_shwa"⟩,
  ⟨0x1240, "ethiopic_syllable_qa"⟩, ⟨0x1241, "ethiopic_syllable_qu"⟩,
  ⟨0x1242, "ethiopic_syllable_qi"⟩, ⟨0x1243, "ethiopic_syllable_qaa"⟩,
  ⟨0x1244, "ethiopic_syllable_qee"⟩, ⟨0x1245, "ethiopic_syllable_qe"⟩,
  ⟨0x1246, "ethiopic_syllable_qo"⟩, ⟨0x1247, "ethiopic_syllable_qoa"⟩,
  ⟨0x1248, "ethiopic_syllable_qwa"⟩, ⟨0x1249, ""⟩, ⟨0x124a, "ethiopic_syllable_qwi"⟩,
  ⟨0x124b, "ethiopic_syllable_qwaa"⟩, ⟨0x124c, "ethiopic_syllable_qwee"⟩,
  ⟨0x124d, "ethiopic_syllable_qwe"⟩, ⟨0x124e, ""⟩, ⟨0x124f, ""⟩,
  ⟨0x1250, "ethiopic_syllable_qha"⟩, ⟨0x1251, "ethiopic_syllable_qhu"⟩,
  ⟨0x1252, "ethiopic_syllable_qhi"⟩, ⟨0x1253, "ethiopic_syllable_qhaa"⟩,
  ⟨0x1254, "ethiopic_syllable_qhee"⟩, ⟨0x1255, "ethiopic_syllable_qhe"⟩,
  ⟨0x1256, "ethiopic_syllable_qho"⟩, ⟨0x1257, ""⟩, ⟨0x1258, "ethiopic_syllable_qhwa"⟩,
  ⟨0x1259, ""⟩, ⟨0x125a, "ethiopic_syllable_qhwi"⟩, ⟨0x125b, "ethiopic_syllable_qhwaa"⟩,
  ⟨0x125c, "ethiopic_syllable_qhwee"⟩, ⟨0x125d, "ethiopic_syllable_qhwe"⟩, ⟨0x125e, ""⟩,
  ⟨0x125f, ""⟩, ⟨0x1260, "ethiopic_syllable_ba"⟩, ⟨0x1261, "ethiopic_syllable_bu"⟩,
  ⟨0x1262, "ethiopic_syllable_bi"⟩, ⟨0x1263, "ethiopic_syllable_baa"⟩,
  ⟨0x1264, "ethiopic_syllable_bee"⟩, ⟨0x1265, "ethiopic_syllable_be"⟩,
  ⟨0x1266, "ethiopic_syllable_bo"⟩, ⟨0x1267, "ethiopic_syllable_bwaa"⟩,
  ⟨0x1268, "ethiopic_syllable_va"⟩, ⟨0x1269, "ethiopic_syllable_vu"⟩,
  ⟨0x126a, "ethiopic_syllable_vi"⟩, ⟨0x126b, "ethiopic_syllable_vaa"⟩,
  ⟨0x126c, "ethiopic_syllable_vee"⟩, ⟨0x126d, "ethiopic_syllable_ve"⟩,
  ⟨0x126e, "ethiopic_syllable_vo"⟩, ⟨0x126f, "ethiopic_syllable_vwa"⟩,
  ⟨0x1270, "ethiopic_syllable_ta"⟩, ⟨0x1271, "ethiopic_syllable_tu"⟩,
  ⟨0x1272, "ethiopic_syllable_ti"⟩, ⟨0x1273, "ethiopic_syllable_taa"⟩,
  ⟨0x1274, "ethiopic_syllable_tee"⟩, ⟨0x1275, "ethiopic_syllable_te"⟩,
  ⟨0x1276, "ethiopic_syllable_to"⟩, ⟨0x1277, "ethiopic_syllable_twa"⟩,
  ⟨0x1278, "ethiopic_syllable_ca"⟩, ⟨0x1279, "ethiopic_syllable_cu"⟩,
  ⟨0x127a, "ethiopic_syllable_ci"⟩, ⟨0x127b, "ethiopic_syllable_caa"⟩,
  ⟨0x127c, "ethiopic_syllable_cee"⟩, ⟨0x127d, "ethiopic_syllable_ce"⟩,
  ⟨0x127e, "ethiopic_syllable_co"⟩, ⟨0x127f, "ethiopic_syllable_cwa"⟩,
  ⟨0x1280, "ethiopic_syllable_xa"⟩, ⟨0x1281, "ethiopic_syllable_xu"⟩,
  ⟨0x1282, "ethiopic_syllable_xi"⟩, ⟨0x1283, "ethiopic_syllable_xaa"⟩,
  ⟨0x1284, "ethiopic_syllable_xee"⟩, ⟨0x1285, "ethiopic_syllable_xe"⟩,
  ⟨0x1286, "ethiopic_syllable_xo"⟩, ⟨0x1287, "ethiopic_syllable_xoa"⟩,
  ⟨0x1288, "ethiopic_syllable_xwa"⟩, ⟨0x1289, ""⟩, ⟨0x128a, "ethiopic_syllable_xwi"⟩,
  ⟨0x128b, "ethiopic_syllable_xwaa"⟩, ⟨0x128c, "ethiopic_syllable_xwee"⟩,
  ⟨0x128d, "ethiopic_syllable_xwe"⟩, ⟨0x128e, ""⟩, ⟨0x128f, ""⟩, ⟨0x1290, "ethiopic_syllable_na"⟩,
  ⟨0x1291, "ethiopic_syllable_nu"⟩, ⟨0x1292, "ethiopic_syllable_ni"⟩,
  ⟨0x1293, "ethiopic_syllable_naa"⟩, ⟨0x1294, "ethiopic_syllable_nee"⟩,
  ⟨0x1295, "ethiopic_syllable_ne"⟩, ⟨0x1296, "ethiopic_syllable_no"⟩,
  ⟨0x1297, "ethiopic_syllable_nwa"⟩, ⟨0x1298, "ethiopic_syllable_nya"⟩,
  ⟨0x1299, "ethiopic_syllable_nyu"⟩, ⟨0x129a, "ethiopic_syllable_nyi"⟩,
  ⟨0x129b, "ethiopic_syllable_nyaa"⟩, ⟨0x129c, "ethiopic_syllable_nyee"⟩,
  ⟨0x129d, "ethiopic_syllable_nye"⟩, ⟨0x129e, "ethiopic_syllable_nyo"⟩,
  ⟨0x129f, "ethiopic_syllable_nywa"⟩, ⟨0x12a0, "ethiopic_syllable_glottal_a"⟩,
  ⟨0x12a1, "ethiopic_syllable_glottal_u"⟩, ⟨0x12a2, "ethiopic_syllable_glottal_i"⟩,
  ⟨0x12a3, "ethiopic_syllable_glottal_aa"⟩, ⟨0x12a4, "ethiopic_syllable_glottal_ee"⟩,
  ⟨0x12a5, "ethiopic_syllable_glottal_e"⟩, ⟨0x12a6, "ethiopic_syllable_glottal_o"⟩,
  ⟨0x12a7, "ethiopic_syllable_glottal_wa"⟩, ⟨0x12a8, "ethiopic_syllable_ka"⟩,
  ⟨0x12a9, "ethiopic_syllable_ku"⟩, ⟨0x12aa, "ethiopic_syllable_ki"⟩,
  ⟨0x12ab, "ethiopic_syllable_kaa"⟩, ⟨0x12ac, "ethiopic_syllable_kee"⟩,
  ⟨0x12ad, "ethiopic_syllable_ke"⟩, ⟨0x12ae, "ethiopic_syllable_ko"⟩,
  ⟨0x12af, "ethiopic_syllable_koa"⟩, ⟨0x12b0, "ethiopic_syllable_kwa"⟩, ⟨0x12b1, ""⟩,
  ⟨0x12b2, "ethiopic_syllable_kwi"⟩, ⟨0x12b3, "ethiopic_syllable_kwaa"⟩,
  ⟨0x12b4, "ethiopic_syllable_kwee"⟩, ⟨0x12b5, "ethiopic_syllable_kwe"⟩, ⟨0x12b6, ""⟩,
  ⟨0x12b7, ""⟩, ⟨0x12b8, "ethiopic_syllable_kxa"⟩, ⟨0x12b9, "ethiopic_syllable_kxu"⟩,
  ⟨0x12ba, "ethiopic_syllable_kxi"⟩, ⟨0x12bb, "ethiopic_syllable_kxaa"⟩,
  ⟨0x12bc, "ethiopic_syllable_kxee"⟩, ⟨0x12bd, "ethiopic_syllable_kxe"⟩,
  ⟨0x12be, "ethiopic_syllable_kxo"⟩, ⟨0x12bf, ""⟩, ⟨0x12c0, "ethiopic_syllable_kxwa"⟩,
  ⟨0x12c1, ""⟩, ⟨0x12c2, "ethiopic_syllable_kxwi"⟩, ⟨0x12c3, "ethiopic_syllable_kxwaa"⟩,
  ⟨0x12c4, "ethiopic_syllable_kxwee"⟩, ⟨0x12c5, "ethiopic_syllable_kxwe"⟩, ⟨0x12c6, ""⟩,
  ⟨0x12c7, ""⟩, ⟨0x12c8, "ethiopic_syllable_wa"⟩, ⟨0x12c9, "ethiopic_syllable_wu"⟩,
  ⟨0x12ca, "ethiopic_syllable_wi"⟩, ⟨0x12cb, "ethiopic_syllable_waa"⟩,
  ⟨0x12cc, "ethiopic_syllable_wee"⟩, ⟨0x12cd, "ethiopic_syllable_we"⟩,
  ⟨0x12ce, "ethiopic_syllable_wo"⟩, ⟨0x12cf, "ethiopic_syllable_woa"⟩,
  ⟨0x12d0, "ethiopic_syllable_pharyngeal_a"⟩, ⟨0x12d1, "ethiopic_syllable_pharyngeal_u"⟩,
  ⟨0x12d2, "ethiopic_syllable_pharyngeal_i"⟩, ⟨0x12d3, "ethiopic_syllable_pharyngeal_aa"⟩,
  ⟨0x12d4, "ethiopic_syllable_pharyngeal_ee"⟩, ⟨0x12d5, "ethiopic_syllable_pharyngeal_e"⟩,
  ⟨0x12d6, "ethiopic_syllable_pharyngeal_o"⟩, ⟨0x12d7, ""⟩, ⟨0x12d8, "ethiopic_syllable_za"⟩,
  ⟨0x12d9, "ethiopic_syllable_zu"⟩, ⟨0x12da, "ethiopic_syllable_zi"⟩,
  ⟨0x12db, "ethiopic_syllable_zaa"⟩, ⟨0x12dc, "ethiopic_syllable_zee"⟩,
  ⟨0x12dd, "ethiopic_syllable_ze"⟩, ⟨0x12de, "ethiopic_syllable_zo"⟩,
  ⟨0x12df, "ethiopic_syllable_zwa"⟩, ⟨0x12e0, "ethiopic_syllable_zha"⟩,
  ⟨0x12e1, "ethiopic_syllable_zhu"⟩, ⟨0x12e2, "ethiopic_syllable_zhi"⟩,
  ⟨0x12e3, "ethiopic_syllable_zhaa"⟩, ⟨0x12e4, "ethiopic_syllable_zhee"⟩,
  ⟨0x12e5, "ethiopic_syllable_zhe"⟩, ⟨0x12e6, "ethiopic_syllable_zho"⟩,
  ⟨0x12e7, "ethiopic_syllable_zhwa"⟩, ⟨0x12e8, "ethiopic_syllable_ya"⟩,
  ⟨0x12e9, "ethiopic_syllable_yu"⟩, ⟨0x12ea, "ethiopic_syllable_yi"⟩,
  ⟨0x12eb, "ethiopic_syllable_yaa"⟩, ⟨0x12ec, "ethiopic_syllable_yee"⟩,
  ⟨0x12ed, "ethiopic_syllable_ye"⟩, ⟨0x12ee, "ethiopic_syllable_yo"⟩,
  ⟨0x12ef, "ethiopic_syllable_yoa"⟩, ⟨0x12f0, "ethiopic_syllable_da"⟩,
  ⟨0x12f1, "ethiopic_syllable_du"⟩, ⟨0x12f2, "ethiopic_syllable_di"⟩,
  ⟨0x12f3, "ethiopic_syllable_daa"⟩, ⟨0x12f4, "ethiopic_syllable_dee"⟩,
  ⟨0x12f5, "ethiopic_syllable_de"⟩, ⟨0x12f6, "ethiopic_syllable_do"⟩,
  ⟨0x12f7, "ethiopic_syllable_dwa"⟩, ⟨0x12f8, "ethiopic_syllable_dda"⟩,
  ⟨0x12f9, "ethiopic_syllable_ddu"⟩, ⟨0x12fa, "ethiopic_syllable_ddi"⟩,
  ⟨0x12fb, "ethiopic_syllable_ddaa"⟩, ⟨0x12fc, "ethiopic_syllable_ddee"⟩,
  ⟨0x12fd, "ethiopic_syllable_dde"⟩, ⟨0x12fe, "ethiopic_syllable_ddo"⟩,
  ⟨0x12ff, "ethiopic_syllable_ddwa"⟩, ⟨0x1300, "ethiopic_syllable_ja"⟩,
  ⟨0x1301, "ethiopic_syllable_ju"⟩, ⟨0x1302, "ethiopic_syllable_ji"⟩,
  ⟨0x1303, "ethiopic_syllable_jaa"⟩, ⟨0x1304, "ethiopic_syllable_jee"⟩,
  ⟨0x1305, "ethiopic_syllable_je"⟩, ⟨0x1306, "ethiopic_syllable_jo"⟩,
  ⟨0x1307, "ethiopic_syllable_jwa"⟩, ⟨0x1308, "ethiopic_syllable_ga"⟩,
  ⟨0x1309, "ethiopic_syllable_gu"⟩, ⟨0x130a, "ethiopic_syllable_gi"⟩,
  ⟨0x130b, "ethiopic_syllable_gaa"⟩, ⟨0x130c, "ethiopic_syllable_gee"⟩,
  ⟨0x130d, "ethiopic_syllable_ge"⟩, ⟨0x130e, "ethiopic_syllable_go"⟩,
  ⟨0x130f, "ethiopic_syllable_goa"⟩, ⟨0x1310, "ethiopic_syllable_gwa"⟩, ⟨0x1311, ""⟩,
  ⟨0x1312, "ethiopic_syllable_gwi"⟩, ⟨0x1313, "ethiopic_syllable_gwaa"⟩,
  ⟨0x1314, "ethiopic_syllable_gwee"⟩, ⟨0x1315, "ethiopic_syllable_gwe"⟩, ⟨0x1316, ""⟩,
  ⟨0x1317, ""⟩, ⟨0x1318, "ethiopic_syllable_gga"⟩, ⟨0x1319, "ethiopic_syllable_ggu"⟩,
  ⟨0x131a, "ethiopic_syllable_ggi"⟩, ⟨0x131b, "ethiopic_syllable_ggaa"⟩,
  ⟨0x131c, "ethiopic_syllable_ggee"⟩, ⟨0x131d, "ethiopic_syllable_gge"⟩,
  ⟨0x131e, "ethiopic_syllable_ggo"⟩, ⟨0x131f, "ethiopic_syllable_ggwaa"⟩,
  ⟨0x1320, "ethiopic_syllable_tha"⟩, ⟨0x1321, "ethiopic_syllable_thu"⟩,
  ⟨0x1322, "ethiopic_syllable_thi"⟩, ⟨0x1323, "ethiopic_syllable_thaa"⟩,
  ⟨0x1324, "ethiopic_syllable_thee"⟩, ⟨0x1325, "ethiopic_syllable_the"⟩,
  ⟨0x1326, "ethiopic_syllable_tho"⟩, ⟨0x1327, "ethiopic_syllable_thwa"⟩,
  ⟨0x1328, "ethiopic_syllable_cha"⟩, ⟨0x1329, "ethiopic_syllable_chu"⟩,
  ⟨0x132a, "ethiopic_syllable_chi"⟩, ⟨0x132b, "ethiopic_syllable_chaa"⟩,
  ⟨0x132c, "ethiopic_syllable_chee"⟩, ⟨0x132d, "ethiopic_syllable_che"⟩,
  ⟨0x132e, "ethiopic_syllable_cho"⟩, ⟨0x132f, "ethiopic_syllable_chwa"⟩,
  ⟨0x1330, "ethiopic_syllable_pha"⟩, ⟨0x1331, "ethiopic_syllable_phu"⟩,
  ⟨0x1332, "ethiopic_syllable_phi"⟩, ⟨0x1333, "ethiopic_syllable_phaa"⟩,
  ⟨0x1334, "ethiopic_syllable_phee"⟩, ⟨0x1335, "ethiopic_syllable_phe"⟩,
  ⟨0x1336, "ethiopic_syllable_pho"⟩, ⟨0x1337, "ethiopic_syllable_phwa"⟩,
  ⟨0x1338, "ethiopic_syllable_tsa"⟩, ⟨0x1339, "ethiopic_syllable_tsu"⟩,
  ⟨0x133a, "ethiopic_syllable_tsi"⟩, ⟨0x133b, "ethiopic_syllable_tsaa"⟩,
  ⟨0x133c, "ethiopic_syllable_tsee"⟩, ⟨0x133d, "ethiopic_syllable_tse"⟩,
  ⟨0x133e, "ethiopic_syllable_tso"⟩, ⟨0x133f, "ethiopic_syllable_tswa"⟩,
  ⟨0x1340, "ethiopic_syllable_tza"⟩, ⟨0x1341, "ethiopic_syllable_tzu"⟩,
  ⟨0x1342, "ethiopic_syllable_tzi"⟩, ⟨0x1343, "ethiopic_syllable_tzaa"⟩,
  ⟨0x1344, "ethiopic_syllable_tzee"⟩, ⟨0x1345, "ethiopic_syllable_tze"⟩,
  ⟨0x1346, "ethiopic_syllable_tzo"⟩, ⟨0x1347, "ethiopic_syllable_tzoa"⟩,
  ⟨0x1348, "ethiopic_syllable_fa"⟩, ⟨0x1349, "ethiopic_syllable_fu"⟩,
  ⟨0x134a, "ethiopic_syllable_fi"⟩, ⟨0x134b, "ethiopic_syllable_faa"⟩,
  ⟨0x134c, "ethiopic_syllable_fee"⟩, ⟨0x134d, "ethiopic_syllable_fe"⟩,
  ⟨0x134e, "ethiopic_syllable_fo"⟩, ⟨0x134f, "ethiopic_syllable_fwaa"⟩,
  ⟨0x1350, "ethiopic_syllable_pa"⟩, ⟨0x1351, "ethiopic_syllable_pu"⟩,
  ⟨0x1352, "ethiopic_syllable_pi"⟩, ⟨0x1353, "ethiopic_syllable_paa"⟩,
  ⟨0x1354, "ethiopic_syllable_pee"⟩, ⟨0x1355, "ethiopic_syllable_pe"⟩,
  ⟨0x1356, "ethiopic_syllable_po"⟩, ⟨0x1357, "ethiopic_syllable_pwaa"⟩,
  ⟨0x1358, "ethiopic_syllable_mya"⟩, ⟨0x1359, "ethiopic_syllable_rya"⟩,
  ⟨0x135a, "ethiopic_syllable_fya"⟩, ⟨0x135b, ""⟩, ⟨0x135c, ""⟩, ⟨0x135d, ""⟩, ⟨0x135e, ""⟩,
  ⟨0x135f, ""⟩, ⟨0x1360, ""⟩, ⟨0x1361, "ethiopic_wordspace"⟩, ⟨0x1362, "ethiopic_full_stop"⟩,
  ⟨0x1363, "ethiopic_comma"⟩, ⟨0x1364, "ethiopic_semicolon"⟩, ⟨0x1365, "ethiopic_colon"⟩,
  ⟨0x1366, "ethiopic_preface_colon"⟩, ⟨0x1367, "ethiopic_question_mark"⟩,
  ⟨0x1368, "ethiopic_paragraph_separator"⟩, ⟨0x1369, "ethiopic_digit_one"⟩,
  ⟨0x136a, "ethiopic_digit_two"⟩, ⟨0x136b, "ethiopic_digit_three"⟩,
  ⟨0x136c, "ethiopic_digit_four"⟩, ⟨0x136d, "ethiopic_digit_five"⟩,
  ⟨0x136e, "ethiopic_digit_six"⟩, ⟨0x136f, "ethiopic_digit_seven"⟩,
  ⟨0x1370, "ethiopic_digit_eight"⟩, ⟨0x1371, "ethiopic_digit_nine"⟩,
  ⟨0x1372, "ethiopic_number_ten"⟩, ⟨0x1373, "ethiopic_number_twenty"⟩,
  ⟨0x1374, "ethiopic_number_thirty"⟩, ⟨0x1375, "ethiopic_number_forty"⟩,
  ⟨0x1376, "ethiopic_number_fifty"⟩, ⟨0x1377, "ethiopic_number_sixty"⟩,
  ⟨0x1378, "ethiopic_number_seventy"⟩, ⟨0x1379, "ethiopic_number_eighty"⟩,
  ⟨0x137a, "ethiopic_number_ninety"⟩, ⟨0x137b, "ethiopic_number_hundred"⟩,
  ⟨0x137c, "ethiopic_number_ten_thousand"⟩, ⟨0x137d, ""⟩, ⟨0x137e, ""⟩, ⟨0x137f, ""⟩]

def isoIr197Syms : List Sym := [
  ⟨0x00a0, "nobreakspace"⟩, ⟨0x010c, "Ccaron"⟩, ⟨0x010d, "ccaron"⟩, ⟨0x0110, "Dstroke"⟩,
  ⟨0x0111, "dstroke"⟩, ⟨0x01e4, "Gstroke"⟩, ⟨0x01e5, "gstroke"⟩, ⟨0x00a7, "section"⟩,
  ⟨0x01e6, "Gcaron"⟩, ⟨0x00a9, "copyright"⟩, ⟨0x01e7, "gcaron"⟩, ⟨0x00ab, "guillemotleft"⟩,
  ⟨0x01e8, "Kcaron"⟩, ⟨0x00ad, "hyphen"⟩, ⟨0x01e9, "kcaron"⟩, ⟨0x014a, "ENG"⟩, ⟨0x00b0, "degree"⟩,
  ⟨0x014b, "eng"⟩, ⟨0x0160, "Scaron"⟩, ⟨0x0161, "scaron"⟩, ⟨0x00b4, "acute"⟩, ⟨0x0166, "Tstroke"⟩,
  ⟨0x00b6, "paragraph"⟩, ⟨0x00b7, "periodcentered"⟩, ⟨0x0167, "tstroke"⟩, ⟨0x017d, "Zcaron"⟩,
  ⟨0x017e, "zcaron"⟩, ⟨0x00bb, "guillemotright"⟩, ⟨0x01b7, "EZH"⟩, ⟨0x0292, "ezh"⟩,
  ⟨0x01ee, "EZHcaron"⟩, ⟨0x01ef, "ezhcaron"⟩, ⟨0x00c0, "Agrave"⟩, ⟨0x00c1, "Aacute"⟩,
  ⟨0x00c2, "Acircumflex"⟩, ⟨0x00c3, "Atilde"⟩, ⟨0x00c4, "Adiaeresis"⟩, ⟨0x00c5, "Aring"⟩,
  ⟨0x00c6, "AE"⟩, ⟨0x00c7, "Ccedilla"⟩, ⟨0x00c8, "Egrave"⟩, ⟨0x00c9, "Eacute"⟩,
  ⟨0x00ca, "Ecircumflex"⟩, ⟨0x00cb, "Ediaeresis"⟩, ⟨0x00cc, "Igrave"⟩, ⟨0x00cd, "Iacute"⟩,
  ⟨0x00ce, "Icircumflex"⟩, ⟨0x00cf, "Idiaeresis"⟩, ⟨0x00d0, "ETH"⟩, ⟨0x00d1, "Ntilde"⟩,
  ⟨0x00d2, "Ograve"⟩, ⟨0x00d3, "Oacute"⟩, ⟨0x00d4, "Ocircumflex"⟩, ⟨0x00d5, "Otilde"⟩,
  ⟨0x00d6, "Odiaeresis"⟩, ⟨0x00d7, "multiplication"⟩, ⟨0x00d8, "Ostroke"⟩, ⟨0x00d9, "Ugrave"⟩,
  ⟨0x00da, "Uacute"⟩, ⟨0x00db, "Ucircumflex"⟩, ⟨0x00dc, "Udiaeresis"⟩, ⟨0x00dd, "Yacute"⟩,
  ⟨0x00de, "THORN"⟩, ⟨0x00df, "ssharp"⟩, ⟨0x00e0, "agrave"⟩, ⟨0x00e1, "aacute"⟩,
  ⟨0x00e2, "acircumflex"⟩, ⟨0x00e3, "atilde"⟩, ⟨0x00e4, "adiaeresis"⟩, ⟨0x00e5, "aring"⟩,
  ⟨0x00e6, "ae"⟩, ⟨0x00e7, "ccedilla"⟩, ⟨0x00e8, "egrave"⟩, ⟨0x00e9, "eacute"⟩,
  ⟨0x00ea, "ecircumflex"⟩, ⟨0x00eb, "ediaeresis"⟩, ⟨0x00ec, "igrave"⟩, ⟨0x00ed, "iacute"⟩,
  ⟨0x00ee, "icircumflex"⟩, ⟨0x00ef, "idiaeresis"⟩, ⟨0x00f0, "eth"⟩, ⟨0x00f1, "ntilde"⟩,
  ⟨0x00f2, "ograve"⟩, ⟨0x00f3, "oacute"⟩, ⟨0x00f4, "ocircumflex"⟩, ⟨0x00f5, "otilde"⟩,
  ⟨0x00f6, "odiaeresis"⟩, ⟨0x00f7, "division"⟩, ⟨0x00f8, "ostroke"⟩, ⟨0x00f9, "ugrave"⟩,
  ⟨0x00fa, "uacute"⟩, ⟨0x00fb, "ucircumflex"⟩, ⟨0x00fc, "udiaeresis"⟩, ⟨0x00fd, "yacute"⟩,
  ⟨0x00fe, "thorn"⟩, ⟨0x00ff, "ydiaeresis"⟩]

def isoIr209Syms : List Sym := [
  ⟨0x00a0, "nobreakspace"⟩, ⟨0x010c, "Ccaron"⟩, ⟨0x010d, "ccaron"⟩, ⟨0x0110, "Dstroke"⟩,
  ⟨0x0111, "dstroke"⟩, ⟨0x01e4, "Gstroke"⟩, ⟨0x01e5, "gstroke"⟩, ⟨0x00a7, "section"⟩,
  ⟨0x01e6, "Gcaron"⟩, ⟨0x00a9, "copyright"⟩, ⟨0x01e7, "gcaron"⟩, ⟨0x021e, "Hcaron"⟩,
  ⟨0x01e8, "Kcaron"⟩, ⟨0x00ad, "hyphen"⟩, ⟨0x01e9, "kcaron"⟩, ⟨0x014a, "ENG"⟩, ⟨0x00b0, "degree"⟩,
  ⟨0x014b, "eng"⟩, ⟨0x0160, "Scaron"⟩, ⟨0x0161, "scaron"⟩, ⟨0x00b4, "acute"⟩, ⟨0x0166, "Tstroke"⟩,
  ⟨0x00b6, "paragraph"⟩, ⟨0x00b7, "periodcentered"⟩, ⟨0x0167, "tstroke"⟩, ⟨0x017d, "Zcaron"⟩,
  ⟨0x017e, "zcaron"⟩, ⟨0x021f, "hcaron"⟩, ⟨0x01b7, "EZH"⟩, ⟨0x0292, "ezh"⟩, ⟨0x01ee, "EZHcaron"⟩,
  ⟨0x01ef, "ezhcaron"⟩, ⟨0x00c0, "Agrave"⟩, ⟨0x00c1, "Aacute"⟩, ⟨0x00c2, "Acircumflex"⟩,
  ⟨0x00c3, "Atilde"⟩, ⟨0x00c4, "Adiaeresis"⟩, ⟨0x00c5, "Aring"⟩, ⟨0x00c6, "AE"⟩,
  ⟨0x00c7, "Ccedilla"⟩, ⟨0x00c8, "Egrave"⟩, ⟨0x00c9, "Eacute"⟩, ⟨0x00ca, "Ecircumflex"⟩,
  ⟨0x00cb, "Ediaeresis"⟩, ⟨0x00cc, "Igrave"⟩, ⟨0x00cd, "Iacute"⟩, ⟨0x00ce, "Icircumflex"⟩,
  ⟨0x00cf, "Idiaeresis"⟩, ⟨0x00d0, "ETH"⟩, ⟨0x00d1, "Ntilde"⟩, ⟨0x00d2, "Ograve"⟩,
  ⟨0x00d3, "Oacute"⟩, ⟨0x00d4, "Ocircumflex"⟩, ⟨0x00d5, "Otilde"⟩, ⟨0x00d6, "Odiaeresis"⟩,
  ⟨0x00d7, "multiplication"⟩, ⟨0x00d8, "Ostroke"⟩, ⟨0x00d9, "Ugrave"⟩, ⟨0x00da, "Uacute"⟩,
  ⟨0x00db, "Ucircumflex"⟩, ⟨0x00dc, "Udiaeresis"⟩, ⟨0x00dd, "Yacute"⟩, ⟨0x00de, "THORN"⟩,
  ⟨0x00df, "ssharp"⟩, ⟨0x00e0, "agrave"⟩, ⟨0x00e1, "aacute"⟩, ⟨0x00e2, "acircumflex"⟩,
  ⟨0x00e3, "atilde"⟩, ⟨0x00e4, "adiaeresis"⟩, ⟨0x00e5, "aring"⟩, ⟨0x00e6, "ae"⟩,
  ⟨0x00e7, "ccedilla"⟩, ⟨0x00e8, "egrave"⟩, ⟨0x00e9, "eacute"⟩, ⟨0x00ea, "ecircumflex"⟩,
  ⟨0x00eb, "ediaeresis"⟩, ⟨0x00ec, "igrave"⟩, ⟨0x00ed, "iacute"⟩, ⟨0x00ee, "icircumflex"⟩,
  ⟨0x00ef, "idiaeresis"⟩, ⟨0x00f0, "eth"⟩, ⟨0x00f1, "ntilde"⟩, ⟨0x00f2, "ograve"⟩,
  ⟨0x00f3, "oacute"⟩, ⟨0x00f4, "ocircumflex"⟩, ⟨0x00f5, "otilde"⟩, ⟨0x00f6, "odiaeresis"⟩,
  ⟨0x00f7, "division"⟩, ⟨0x00f8, "ostroke"⟩, ⟨0x00f9, "ugrave"⟩, ⟨0x00fa, "uacute"⟩,
  ⟨0x00fb, "ucircumflex"⟩, ⟨0x00fc, "udiaeresis"⟩, ⟨0x00fd, "yacute"⟩, ⟨0x00fe, "thorn"⟩,
  ⟨0x00ff, "ydiaeresis"⟩]

def charsets : List Cs := [
  ⟨"iso-8859-1", latin1Syms, 160⟩,
  ⟨"iso-8859-2", latin2Syms, 160⟩,
  ⟨"iso-8859-3", latin3Syms, 160⟩,
  ⟨"iso-8859-4", latin4Syms, 160⟩,
  ⟨"iso-8859-5", iso88595Syms, 160⟩,
  ⟨"iso-8859-7", iso88597Syms, 160⟩,
  ⟨"iso-8859-8", iso88598Syms, 160⟩,
  ⟨"iso-8859-9", iso88599Syms, 160⟩,
  ⟨"iso-8859-10", latin6Syms, 160⟩,
  ⟨"iso-8859-15", iso885915Syms, 160⟩,
  ⟨"mazovia", mazoviaSyms, 128⟩,
  ⟨"cp-1250", cp1250Syms, 128⟩,
  ⟨"koi8-r", koi8Syms, 128⟩,
  ⟨"koi8-u", koi8Syms, 128⟩,
  ⟨"tis-620", tis620Syms, 160⟩,
  ⟨"iso-10646-18", iso1064618Syms, 159⟩,
  ⟨"iso-ir-197", isoIr197Syms, 160⟩,
  ⟨"iso-ir-209", isoIr209Syms, 160⟩]

end Kbd.Keymap

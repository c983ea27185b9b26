import Kbd.Keymap.Stmt
import Kbd.Lib.Regex

/-!
# The lexer's patterns (`analyze.l`)

The rules of the scanner, in the order of the file, for each start condition. `RVALUE` is an
inclusive condition: the rules without a condition are active in it too. The last rule of every
list is the one flex adds: a character that no rule matches is echoed.
-/

namespace Kbd.Keymap

open Kbd.Lib

/-- The tokens of the grammar, with their values; `eof` is the end marker. -/
inductive Token where
  | eof
  | eol
  | number (n : Int)
  | literal (n : Int)
  | charset
  | keymaps
  | keycode
  | equals
  | plain
  | modifier (m : Modifier)
  | comma
  | dash
  | string
  | strliteral (s : List Char)
  | compose
  | to
  | cchar (n : Int)
  | error
  | plus
  | unumber (n : Int)
  | altIsMeta
  | strings
  | as
  | usual
  | on
  | for
  deriving DecidableEq, Repr

/-- The start conditions. -/
inductive Start where
  | initial
  | rvalue
  | str
  | inclstr
  deriving DecidableEq, Repr

/-- The rules of the scanner. -/
inductive Rule where
  | include
  | inclFile
  | inclError
  | continuation
  | eol
  | blank
  | comment
  | equals
  | string
  | to
  | unicode
  | number
  | literal
  /-- the rules that do nothing but return a token -/
  | token (t : Token)
  | ccharOcta
  | ccharEscape
  | cchar
  | quote
  | strOcta
  | strQuote
  | strBackslash
  | strNewline
  | strText
  | strEnd
  | any
  | echo
  deriving DecidableEq, Repr

/-! ## Patterns -/

/-- One of the characters of `cs`. -/
def oneOf (cs : List Char) : Re Char := .cls fun c => cs.contains c

/-- Any character but those of `cs`. -/
def noneOf (cs : List Char) : Re Char := .cls fun c => !cs.contains c

/-- A character between `lo` and `hi`. -/
def between (lo hi : Char) : Re Char := .cls fun c => lo ≤ c && c ≤ hi

/-- One of several spellings. -/
def spelled (ws : List String) : Re Char := Re.words (ws.map bytes)

def char (c : Char) : Re Char := .cls fun d => d = c

/-- Any character but a newline. -/
def dot : Re Char := noneOf ['\n']

def blankPat : Re Char := oneOf [' ', '\t']
def octDigit : Re Char := between '0' '7'
def decDigit : Re Char := between '0' '9'
def hexDigit : Re Char := .alt decDigit (.alt (between 'a' 'f') (between 'A' 'F'))
def letter : Re Char := .alt (between 'a' 'z') (between 'A' 'Z')

def includePat : Re Char := .seq (spelled ["include"]) (.star blankPat)
def decimalPat : Re Char := .seq (between '1' '9') (.star decDigit)
def octalPat : Re Char := .seq (char '0') (.star octDigit)
def hexPat : Re Char := .seq (char '0') (.seq (oneOf ['x', 'X']) (Re.plus hexDigit))
def unicodePat : Re Char := .seq (char 'U') (.seq (char '+') (Re.rep hexDigit 4 2))
def literalPat : Re Char := .seq letter (.star (.alt letter (.alt (char '_') decDigit)))
def octaPat : Re Char := Re.rep octDigit 1 2

/-- A character in either case. -/
def anyCase (c : Char) : Re Char := oneOf [c, c.toUpper]

def altIsMetaPat : Re Char :=
  let dashPat := oneOf ['-', '_']
  [anyCase 'a', anyCase 'l', anyCase 't', dashPat, anyCase 'i', anyCase 's', dashPat, anyCase 'm',
    anyCase 'e', anyCase 't', anyCase 'a'].foldr .seq .eps

/-! ## Rules -/

/-- The rules without a start condition that come before the one for literals. -/
def rulesBefore : List (Rule × Re Char) := [
  (.include, includePat),
  (.continuation, .seq (char '\\') (char '\n')),
  (.eol, char '\n'),
  (.blank, Re.plus blankPat),
  (.comment, .seq (oneOf ['#', '!']) (.seq (.star dot) (char '\n'))),
  (.equals, char '='),
  (.string, spelled ["string", "String", "STRING"]),
  (.to, spelled ["to", "To", "TO"]),
  (.unicode, unicodePat),
  (.number, .alt decimalPat (.alt octalPat hexPat))]

/-- The rules without a start condition that come after the one for literals. -/
def rulesAfter : List (Rule × Re Char) := [
  (.token .dash, char '-'),
  (.token .comma, char ','),
  (.token .plus, char '+'),
  (.token .charset, spelled ["charset", "Charset", "CharSet", "CHARSET"]),
  (.token .keymaps, spelled ["keymaps", "Keymaps", "KeyMaps", "KEYMAPS"]),
  (.token .keycode, spelled ["keycode", "Keycode", "KeyCode", "KEYCODE"]),
  (.token .plain, spelled ["plain", "Plain", "PLAIN"]),
  (.token (.modifier .shift), spelled ["shift", "Shift", "SHIFT"]),
  (.token (.modifier .control), spelled ["control", "Control", "CONTROL"]),
  (.token (.modifier .alt), spelled ["alt", "Alt", "ALT"]),
  (.token (.modifier .altgr), spelled ["altgr", "Altgr", "AltGr", "ALTGR"]),
  (.token (.modifier .shiftl), spelled ["shiftl", "ShiftL", "SHIFTL"]),
  (.token (.modifier .shiftr), spelled ["shiftr", "ShiftR", "SHIFTR"]),
  (.token (.modifier .ctrll), spelled ["ctrll", "CtrlL", "CTRLL"]),
  (.token (.modifier .ctrlr), spelled ["ctrlr", "CtrlR", "CTRLR"]),
  (.token (.modifier .capsshift), spelled ["capsshift", "Capsshift", "CapsShift", "CAPSSHIFT"]),
  (.token .altIsMeta, altIsMetaPat),
  (.token .strings, spelled ["strings", "Strings", "STRINGS"]),
  (.token .compose, spelled ["compose", "Compose", "COMPOSE"]),
  (.token .as, spelled ["as", "As", "AS"]),
  (.token .usual, spelled ["usual", "Usual", "USUAL"]),
  (.token .on, spelled ["on", "On", "ON"]),
  (.token .for, spelled ["for", "For", "FOR"]),
  (.ccharOcta, .seq (char '\x27') (.seq (char '\\') (.seq octaPat (char '\x27')))),
  (.ccharEscape, .seq (char '\x27') (.seq (char '\\') (.seq dot (char '\x27')))),
  (.cchar, .seq (char '\x27') (.seq dot (char '\x27'))),
  (.quote, char '\x22'),
  (.any, dot)]

/-- The default rule. -/
def echoRule : Rule × Re Char := (.echo, .cls fun _ => true)

def strRules : List (Rule × Re Char) := [
  (.strOcta, .seq (char '\\') octaPat),
  (.strQuote, .seq (char '\\') (char '\x22')),
  (.strBackslash, .seq (char '\\') (char '\\')),
  (.strNewline, .seq (char '\\') (char 'n')),
  (.strText, .star (noneOf ['\x22', '\\'])),
  (.strEnd, char '\x22'),
  echoRule]

def inclRules : List (Rule × Re Char) := [
  (.inclFile, .seq (char '\x22') (.seq (Re.plus (noneOf ['\x22', '\n'])) (char '\x22'))),
  (.inclError, .alt (noneOf ['\x22']) (.alt (.seq (char '\x22') (char '\x22'))
    (.seq (char '\x22') (.seq (.star (noneOf ['\x22', '\n'])) (char '\n'))))),
  echoRule]

/-- The rules that are active in a start condition. -/
def rules : Start → List (Rule × Re Char)
  | .initial => rulesBefore ++ rulesAfter ++ [echoRule]
  | .rvalue => rulesBefore ++ (.literal, literalPat) :: rulesAfter ++ [echoRule]
  | .str => strRules
  | .inclstr => inclRules

end Kbd.Keymap

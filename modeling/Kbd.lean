import Kbd.File.Find
import Kbd.File.Verify.Find
import Kbd.File.Verify.Reference
import Kbd.File.Verify.Scan
import Kbd.File.Verify.Stages
import Kbd.Font.Consolemap
import Kbd.Font.Host
import Kbd.Font.Kdfontop
import Kbd.Font.Loadfont
import Kbd.Font.Loadunimap
import Kbd.Font.Mapscrn
import Kbd.Font.Pointer
import Kbd.Font.Psf
import Kbd.Font.Psfxtable
import Kbd.Font.Setfont
import Kbd.Font.Unicode
import Kbd.Font.Verify.Buffer
import Kbd.Font.Verify.Combine
import Kbd.Font.Verify.Consolemap
import Kbd.Font.Verify.Copy
import Kbd.Font.Verify.Host
import Kbd.Font.Verify.Loadfont
import Kbd.Font.Verify.Loadtable
import Kbd.Font.Verify.Mapscrn
import Kbd.Font.Verify.Merge
import Kbd.Font.Verify.Pitch
import Kbd.Font.Verify.Pointer
import Kbd.Font.Verify.Psf
import Kbd.Font.Verify.Psfxtable
import Kbd.Font.Verify.ReadTable
import Kbd.Font.Verify.Requests
import Kbd.Font.Verify.Restore
import Kbd.Font.Verify.Sizes
import Kbd.Font.Verify.Unimap
import Kbd.Font.Verify.UnimapItab
import Kbd.Font.Verify.UnimapSyntax
import Kbd.Font.Verify.Utf8
import Kbd.Font.Verify.Xtable
import Kbd.Font.Xtable
import Kbd.Keymap.Array
import Kbd.Keymap.Charsets
import Kbd.Keymap.Code
import Kbd.Keymap.Context
import Kbd.Keymap.Diacr
import Kbd.Keymap.Dump
import Kbd.Keymap.DumpBinary
import Kbd.Keymap.DumpTables
import Kbd.Keymap.Include
import Kbd.Keymap.Kernel
import Kbd.Keymap.Kmap
import Kbd.Keymap.Ksyms
import Kbd.Keymap.Lexer
import Kbd.Keymap.Load
import Kbd.Keymap.Parse
import Kbd.Keymap.Parser
import Kbd.Keymap.Programs
import Kbd.Keymap.RawArray
import Kbd.Keymap.Stmt
import Kbd.Keymap.Summary
import Kbd.Keymap.Symbols
import Kbd.Keymap.Text
import Kbd.Keymap.Verify.AddKey
import Kbd.Keymap.Verify.Again
import Kbd.Keymap.Verify.Array
import Kbd.Keymap.Verify.Bounds
import Kbd.Keymap.Verify.CTable
import Kbd.Keymap.Verify.CTokens
import Kbd.Keymap.Verify.Cells
import Kbd.Keymap.Verify.CodeRange
import Kbd.Keymap.Verify.Codes
import Kbd.Keymap.Verify.Compose
import Kbd.Keymap.Verify.Constants
import Kbd.Keymap.Verify.Diacr
import Kbd.Keymap.Verify.Dump
import Kbd.Keymap.Verify.DumpBinary
import Kbd.Keymap.Verify.Files
import Kbd.Keymap.Verify.FindIncl
import Kbd.Keymap.Verify.Include
import Kbd.Keymap.Verify.Kernel
import Kbd.Keymap.Verify.KernelRoundTrip
import Kbd.Keymap.Verify.KeyTables
import Kbd.Keymap.Verify.Keyboard
import Kbd.Keymap.Verify.Keymap
import Kbd.Keymap.Verify.KeymapsLine
import Kbd.Keymap.Verify.Kmap
import Kbd.Keymap.Verify.Ksyms
import Kbd.Keymap.Verify.Letters
import Kbd.Keymap.Verify.Load
import Kbd.Keymap.Verify.MetaCells
import Kbd.Keymap.Verify.NameCodes
import Kbd.Keymap.Verify.Names
import Kbd.Keymap.Verify.NormalForm
import Kbd.Keymap.Verify.Overflow
import Kbd.Keymap.Verify.Override
import Kbd.Keymap.Verify.Parse
import Kbd.Keymap.Verify.Parser
import Kbd.Keymap.Verify.Pipeline
import Kbd.Keymap.Verify.RawArray
import Kbd.Keymap.Verify.ReadBack
import Kbd.Keymap.Verify.ReadLines
import Kbd.Keymap.Verify.Recursion
import Kbd.Keymap.Verify.RoundTrip
import Kbd.Keymap.Verify.Rounds
import Kbd.Keymap.Verify.SameText
import Kbd.Keymap.Verify.Scan
import Kbd.Keymap.Verify.Sessions
import Kbd.Keymap.Verify.ShortLines
import Kbd.Keymap.Verify.ShortRoundTrip
import Kbd.Keymap.Verify.ShortRow
import Kbd.Keymap.Verify.SingleValue
import Kbd.Keymap.Verify.Stmt
import Kbd.Keymap.Verify.Strings
import Kbd.Keymap.Verify.Summary
import Kbd.Keymap.Verify.Text
import Kbd.Keymap.Verify.Values
import Kbd.Lib.Buffer
import Kbd.Lib.CData
import Kbd.Lib.CLexer
import Kbd.Lib.CNumber
import Kbd.Lib.Chase
import Kbd.Lib.Checked
import Kbd.Lib.Consistent
import Kbd.Lib.Cursor
import Kbd.Lib.Digits
import Kbd.Lib.Endian
import Kbd.Lib.FileTree
import Kbd.Lib.Firsts
import Kbd.Lib.Machine
import Kbd.Lib.Regex
import Kbd.Lib.Result
import Kbd.Lib.Search
import Kbd.Lib.Slots
import Kbd.Lib.Sort
import Kbd.Lib.Writer
import Kbd.Xkb.Code
import Kbd.Xkb.Compose
import Kbd.Xkb.Options
import Kbd.Xkb.Release
import Kbd.Xkb.Verify.Append
import Kbd.Xkb.Verify.Compose
import Kbd.Xkb.Verify.Groups
import Kbd.Xkb.Verify.Options
import Kbd.Xkb.Verify.Release
import Kbd.Xkb.Verify.Select
import Kbd.Xkb.Verify.Walk
import Kbd.Xkb.Walk

import IDAPlugins.Loop
import IDAPlugins.TextStream
import IDAPlugins.Walk
import IDAPlugins.HexText
import IDAPlugins.Overlay
import IDAPlugins.Groups
import IDAPlugins.Codes
import IDAPlugins.Image
import IDAPlugins.LittleEndian
import IDAPlugins.Words
import IDAPlugins.Search.Pattern
import IDAPlugins.Search.FailureTable
import IDAPlugins.Search.Scan
import IDAPlugins.Search.Overlap
import IDAPlugins.Search.Completeness
import IDAPlugins.Search.Glob
import IDAPlugins.Search.Delimiter
import IDAPlugins.Machine
import IDAPlugins.CopyString.Utf8
import IDAPlugins.CopyString.Gb2132
import IDAPlugins.Bubble
import IDAPlugins.CopyString.Tables
import IDAPlugins.CopyString.Unicode
import IDAPlugins.CopyString.Within
import IDAPlugins.CopyString.Widths
import IDAPlugins.CopyString.Reading
import IDAPlugins.FindHex.Element
import IDAPlugins.FindHex.Kmp
import IDAPlugins.FindHex.Wildcards
import IDAPlugins.FindHex.Skipped
import IDAPlugins.FindHex.Enumerate
import IDAPlugins.FindHex.MyFindHex
import IDAPlugins.FindHex.LetterCase
import IDAPlugins.FindCode.Finding
import IDAPlugins.FindCode.Leftmost
import IDAPlugins.FindCode.Matching
import IDAPlugins.FindCode.Globbing
import IDAPlugins.FindCode.Prefilter
import IDAPlugins.FindCode.Snapshot
import IDAPlugins.FindCode.AutoBuffer
import IDAPlugins.FindCode.Spacing
import IDAPlugins.FindCode.Query
import IDAPlugins.FindCode.FilterSpacing
import IDAPlugins.FindCode.Building
import IDAPlugins.FindCode.Netnode
import IDAPlugins.FindCode.Storing
import IDAPlugins.FindCode.Dichotomy
import IDAPlugins.FindCode.Find
import IDAPlugins.Transition
import IDAPlugins.FindCode.Publishing
import IDAPlugins.FindCode.Reopening
import IDAPlugins.FindCode.Searching
import IDAPlugins.FindCode.Kmp
import IDAPlugins.Firsts
import IDAPlugins.CommentList.Filters
import IDAPlugins.CommentList.Comments
import IDAPlugins.Segments
import IDAPlugins.AddressSpace
import IDAPlugins.DefaultRange
import IDAPlugins.FindHex.Range
import IDAPlugins.CommentList.Scanning
import IDAPlugins.CommentList.Rows
import IDAPlugins.CommentList.Escaping
import IDAPlugins.CommentList.Sessions
import IDAPlugins.Scans
import IDAPlugins.PatchArm.Assembler
import IDAPlugins.PatchArm.ClacBL
import IDAPlugins.PatchArm.Branches
import IDAPlugins.PatchArm.Lines
import IDAPlugins.PatchArm.AnalyzerStr
import IDAPlugins.PatchArm.MapFile
import IDAPlugins.PatchArm.Bookkeeping
import IDAPlugins.PatchArm.Displacement
import IDAPlugins.PatchArm.Buffers
import IDAPlugins.PatchArm.Labels
import IDAPlugins.PatchArm.RealBranches
import IDAPlugins.PatchArm.Indentation
import IDAPlugins.MoreMenu.ApplyPatches
import IDAPlugins.MoreMenu.RepairElf
import IDAPlugins.MoreMenu.ApplyDialog
import IDAPlugins.MoreMenu.RepairableElf
import IDAPlugins.SignedDivision
import IDAPlugins.MoreMenu.CalcDlg
import IDAPlugins.MoreMenu.Decimal
import IDAPlugins.MoreMenu.Hexadecimal
import IDAPlugins.Patch.Data
import IDAPlugins.Patch.Patching
import IDAPlugins.Patch.Repeating
import IDAPlugins.Patch.MyPatchData
import IDAPlugins.Patch.Accesses
import IDAPlugins.Dump
import IDAPlugins.ImportSym
import IDAPlugins.PatchArm.Console
import IDAPlugins.PatchArm.Strtoul64
import IDAPlugins.PatchArm.OnButtonCalc
import IDAPlugins.Cyclic
import IDAPlugins.PatchArm.Translation
import IDAPlugins.PatchArm.Keyboard
import IDAPlugins.PatchArm.Sessions
import IDAPlugins.MoreMenu.Toolbar
import IDAPlugins.MoreMenu.CheckedList
import IDAPlugins.MoreMenu.ApplySessions
import IDAPlugins.MoreMenu.Conversions
import IDAPlugins.Patch.Restoring
import IDAPlugins.CopyString.Encodings
import IDAPlugins.MoreMenu.RepairSessions
import IDAPlugins.MoreMenu.CalcSessions

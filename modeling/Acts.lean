import Acts.Fastfile.BdiffBounds
import Acts.Core.MemoryAllocatorRuns
import Acts.Core.PreprocessorMacros
import Acts.Vm.Walk
import Acts.Gsc.Stmt
import Acts.Gsc.StmtCode
import Acts.Gsc.StmtSim
import Acts.Gsc.AsmJump
import Acts.Vm.Thread
import Acts.Vm.OperandStack
import Acts.Vm.RefCounts
import Acts.Fastfile.LinkerMemory
import Acts.Fastfile.LinkerReplay
import Acts.Lib.BinarySearch
import Acts.Lib.Tiling
import Acts.Lib.Traced
import Acts.Mw19.Xpak
import Acts.Mw19.XpakBlocks
import Acts.Mw19.XpakArchive
import Acts.Mw19.FfStream
import Acts.Mw19.FfStreamInv
import Acts.Gsc.Handler
import Acts.Gsc.TableEntries
import Acts.Gsc.TableNodes
import Acts.Gsc.TablesSound
import Acts.Mw19.Linker
import Acts.Mw19.LinkerRuns
import Acts.Lib.Csv
import Acts.Mw19.Payload
import Acts.Mw19.Stringtable
import Acts.Mw19.StringtableExport
import Acts.Mw19.StringtableRuns
import Acts.Core.ByteBuffer
import Acts.Core.ByteBufferCalls
import Acts.Fastfile.Flexible
import Acts.Fastfile.FlexibleRead
import Acts.Gsc.OpcodeMap
import Acts.Gsc.StringLiteral
import Acts.Lib.Outcome
import Acts.Lib.Traversal
import Acts.Vm.Loader
import Acts.Vm.LoaderLink
import Acts.Vm.LoaderRuns
import Acts.Gsc.FunctionVars
import Acts.Vm.LocalVars
import Acts.Gsc.Fastfile
import Acts.Gsc.FastfileRead
import Acts.Gsc.Obfuscator
import Acts.Gsc.Trampolines
import Acts.Core.RawFile
import Acts.Core.RawFileRead
import Acts.Core.RawFileJson
import Acts.Actslib.Kmerger
import Acts.Actslib.KmergerRuns
import Acts.Fastfile.BdiffProgress
import Acts.Vm.LoaderResolved
import Acts.Actslib.Compact
import Acts.Actslib.Io
import Acts.Actslib.Raio
import Acts.Deps.NameFiles
import Acts.Fastfile.DecompressorIw
import Acts.Vm.Fields
import Acts.Vm.FunctionInfo
import Acts.Vm.LoaderFailures
import Acts.Vm.Strings
import Acts.Extension.Acef
import Acts.Extension.AcefFiles
import Acts.Extension.AcefLoaded
import Acts.Extension.AcefLost
import Acts.Fastfile.CompressorT789
import Acts.Hook.ContainerRight
import Acts.Core.PreprocessorFrame
import Acts.Fastfile.LinkerData
import Acts.Fastfile.LinkerDataSizes
import Acts.Gsc.ConstExpr
import Acts.Gsc.ConstExprProg
import Acts.Gsc.DevBlockTable
import Acts.Gsc.DevLines
import Acts.Gsc.DevStrings
import Acts.Gsc.Imports
import Acts.Gsc.NumberNode
import Acts.Gsc.Numbers
import Acts.Fastfile.BdiffPrefix
import Acts.Core.ByteBufferFind
import Acts.Core.HashLookup
import Acts.Gsc.FastfileBlocks
import Acts.Gsc.OpcodeAliases
import Acts.Gsc.RewriteImports
import Acts.Hook.LoadScansMissing
import Acts.Hook.ScanPrint
import Acts.Gsc.PrivateExports
import Acts.Gsc.PrivateHashes
import Acts.Core.PreprocessorStrings
import Acts.Gsc.Checksums
import Acts.Actslib.HdtIndex
import Acts.Actslib.MergeIterator
import Acts.Actslib.RdfParser
import Acts.Adl.Data
import Acts.Adl.Enums
import Acts.Core.CompressUtils
import Acts.Core.HashPattern
import Acts.Ddl.Member
import Acts.Hashes.ExpandRuns
import Acts.Adl.Struct
import Acts.Adl.StructLayout
import Acts.Ddl.Struct
import Acts.Ddl.StructLayout
import Acts.Ddl.StructRight
import Acts.Fastfile.DecompressorIwFile
import Acts.Mw19.Pack
import Acts.Mw19.PackRead

import ModuleAssembly.Body.DocBlock
import ModuleAssembly.Body.Item
import ModuleAssembly.Body.Literal
import ModuleAssembly.Body.RuntimeLibrary
import ModuleAssembly.Body.Symbol
import ModuleAssembly.Command
import ModuleAssembly.Digest.Sha256
import ModuleAssembly.Entity.Basic
import ModuleAssembly.Entity.Inquiry
import ModuleAssembly.Entity.Naming
import ModuleAssembly.Entity.Registry
import ModuleAssembly.Error
import ModuleAssembly.FileTree
import ModuleAssembly.Format
import ModuleAssembly.Import.Identifier
import ModuleAssembly.Import.Path
import ModuleAssembly.Import.Resolution
import ModuleAssembly.Import.Statement
import ModuleAssembly.Json.Basic
import ModuleAssembly.Json.Decoder
import ModuleAssembly.Json.Draft
import ModuleAssembly.Json.Fault
import ModuleAssembly.Json.Lexeme
import ModuleAssembly.Json.Numeral
import ModuleAssembly.Json.Printer
import ModuleAssembly.Main
import ModuleAssembly.Manifest
import ModuleAssembly.Number.Decimal
import ModuleAssembly.Number.Double
import ModuleAssembly.Number.Numeral
import ModuleAssembly.Number.Scaling
import ModuleAssembly.Number.Shortest
import ModuleAssembly.OutputFile
import ModuleAssembly.Plan
import ModuleAssembly.Preamble
import ModuleAssembly.Run
import ModuleAssembly.Session
import ModuleAssembly.Settings
import ModuleAssembly.Table
import ModuleAssembly.Text.Affix
import ModuleAssembly.Text.Base64
import ModuleAssembly.Text.Blank
import ModuleAssembly.Text.CaseData
import ModuleAssembly.Text.Lowercase
import ModuleAssembly.Text.Quoted
import ModuleAssembly.Workers
import ModuleAssembly.Proofs.Identifiers
import ModuleAssembly.Proofs.ImportBlock
import ModuleAssembly.Proofs.FileHistory
import ModuleAssembly.Proofs.FileContent
import ModuleAssembly.Proofs.SessionHistory
import ModuleAssembly.Proofs.Schedules
import ModuleAssembly.Proofs.Parameters
import ModuleAssembly.Proofs.PlanFiles
import ModuleAssembly.Proofs.Relocation
import ModuleAssembly.Proofs.ImportExtension
import ModuleAssembly.Proofs.ModuleNames
import ModuleAssembly.Proofs.References
import ModuleAssembly.Proofs.SameSymbols
import ModuleAssembly.Proofs.Numerals
import ModuleAssembly.Proofs.JsonLexemes
import ModuleAssembly.Proofs.JsonText
import ModuleAssembly.Proofs.Records
import ModuleAssembly.Proofs.PlanText
import ModuleAssembly.Proofs.Fingerprint
import ModuleAssembly.Proofs.RegistryHistory
import ModuleAssembly.Proofs.EntityIdentities
import ModuleAssembly.Proofs.CommentEnd
import ModuleAssembly.Proofs.ImportTargets
import ModuleAssembly.Proofs.Aliases
import ModuleAssembly.Proofs.BlockOrder
import ModuleAssembly.Proofs.LongerBodies
import ModuleAssembly.Proofs.BlockText
import ModuleAssembly.Proofs.ItemGrammar
import ModuleAssembly.Proofs.StringLiterals
import ModuleAssembly.Proofs.LineLeaves
import ModuleAssembly.Proofs.Templates
import ModuleAssembly.Proofs.IntegerLiterals
import ModuleAssembly.Proofs.ByteLiterals
import ModuleAssembly.Proofs.Rounding
import ModuleAssembly.Proofs.ShortestDigits
import ModuleAssembly.Proofs.WholeNumerals
import ModuleAssembly.Proofs.NumeralValues
import ModuleAssembly.Proofs.NumberLiterals
import ModuleAssembly.Proofs.ByteOrder
import ModuleAssembly.Proofs.MemberOrder
import ModuleAssembly.Proofs.CompactText
import ModuleAssembly.Proofs.CanonicalJson
import ModuleAssembly.Proofs.PreambleLines
import ModuleAssembly.Proofs.ImportSources
import ModuleAssembly.Proofs.EntityListing

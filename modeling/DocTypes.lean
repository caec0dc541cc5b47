import DocTypes.Analyzer
import DocTypes.Annotation.Basic
import DocTypes.Annotation.Json
import DocTypes.ClassDeclaration.Basic
import DocTypes.ClassDeclaration.Json
import DocTypes.CommandLine.Arguments
import DocTypes.CommandLine.Command
import DocTypes.CommandLine.Run
import DocTypes.ConstructionError
import DocTypes.Decimal.Numeral
import DocTypes.Decimal.Shortest
import DocTypes.Descriptor.Basic
import DocTypes.Descriptor.Build
import DocTypes.Descriptor.Json
import DocTypes.Diagnostic
import DocTypes.Grammar.Matching
import DocTypes.Grammar.Rule
import DocTypes.Import.Statement
import DocTypes.Import.Table
import DocTypes.Json.Basic
import DocTypes.Json.Node
import DocTypes.Json.Printer
import DocTypes.Json.Record
import DocTypes.Json.Token
import DocTypes.Keyword
import DocTypes.Main
import DocTypes.Manifest
import DocTypes.MetadataFactory
import DocTypes.ObjectContext
import DocTypes.OrderedMap
import DocTypes.ParseError
import DocTypes.Proofs.AncestorTable
import DocTypes.Proofs.BuildOutcome
import DocTypes.Proofs.Building
import DocTypes.Proofs.CacheRuns
import DocTypes.Proofs.CacheValidity
import DocTypes.Proofs.ClassIdentifier
import DocTypes.Proofs.ConstructionFault
import DocTypes.Proofs.DeclarationMatch
import DocTypes.Proofs.DeclarationShape
import DocTypes.Proofs.DeclaredMembers
import DocTypes.Proofs.DescribedClasses
import DocTypes.Proofs.DescriptorStore
import DocTypes.Proofs.ErrorPosition
import DocTypes.Proofs.FaultyPiece
import DocTypes.Proofs.FinishOrder
import DocTypes.Proofs.FirstFault
import DocTypes.Proofs.FreshReceiver
import DocTypes.Proofs.Hierarchy
import DocTypes.Proofs.ImportGrammar
import DocTypes.Proofs.ImportOutcome
import DocTypes.Proofs.ImportPath
import DocTypes.Proofs.ImportTable
import DocTypes.Proofs.ImportedName
import DocTypes.Proofs.JsonLayout
import DocTypes.Proofs.JsonRecord
import DocTypes.Proofs.JsonScan
import DocTypes.Proofs.JsonText
import DocTypes.Proofs.JsonTree
import DocTypes.Proofs.KeptContent
import DocTypes.Proofs.ManifestRegistry
import DocTypes.Proofs.ManifestText
import DocTypes.Proofs.MapM
import DocTypes.Proofs.Matching
import DocTypes.Proofs.MemberMatch
import DocTypes.Proofs.MemberTypes
import DocTypes.Proofs.NamePath
import DocTypes.Proofs.NamespaceCapture
import DocTypes.Proofs.ObjectProperties
import DocTypes.Proofs.Observation
import DocTypes.Proofs.OwnName
import DocTypes.Proofs.ParentChain
import DocTypes.Proofs.PieceBoundary
import DocTypes.Proofs.PrintedText
import DocTypes.Proofs.QualifiedText
import DocTypes.Proofs.ReportedCycle
import DocTypes.Proofs.SingleInheritance
import DocTypes.Proofs.SplitGrammar
import DocTypes.Proofs.StackSearch
import DocTypes.Proofs.StatementMatch
import DocTypes.Proofs.Substitution
import DocTypes.Proofs.Subtyping
import DocTypes.Proofs.TermGrammar
import DocTypes.Proofs.TermMatch
import DocTypes.Proofs.Traversal
import DocTypes.Proofs.UnionValidation
import DocTypes.Registry.Basic
import DocTypes.Registry.Build
import DocTypes.Registry.Definition
import DocTypes.Registry.Traversal
import DocTypes.Scope
import DocTypes.Text.Lexeme
import DocTypes.Text.Quoted
import DocTypes.Text.Span
import DocTypes.Text.Visible
import DocTypes.TypeExpr.Basic
import DocTypes.TypeExpr.Reader
import DocTypes.TypeTerm.Basic
import DocTypes.TypeTerm.Json
import DocTypes.Validation
import DocTypes.Value.Basic
import DocTypes.Value.Json

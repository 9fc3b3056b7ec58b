import OnchainSchema.Main
import OnchainSchema.Session
import OnchainSchema.Proofs.SchemaCodec
import OnchainSchema.Proofs.SchemaGrammar
import OnchainSchema.Proofs.Compilation
import OnchainSchema.Proofs.CompileErrors
import OnchainSchema.Proofs.Commitment
import OnchainSchema.Proofs.Loading
import OnchainSchema.Proofs.CacheView
import OnchainSchema.Proofs.SharedSession
import OnchainSchema.Proofs.FieldIndependence
import OnchainSchema.Proofs.LoadHistory
import OnchainSchema.Proofs.Outcomes
import OnchainSchema.Proofs.ReservedSlots
import OnchainSchema.Proofs.RetiredFields
import OnchainSchema.Proofs.LintedFiles
import OnchainSchema.Proofs.LintedProjects
import OnchainSchema.Proofs.LintForecast
import OnchainSchema.Proofs.Precedence
import OnchainSchema.Proofs.EffectiveTypes
import OnchainSchema.Proofs.Restatement
import OnchainSchema.Proofs.Documentation
import OnchainSchema.Proofs.WrittenFiles
import OnchainSchema.Proofs.Addresses
import OnchainSchema.Proofs.CompileCommand
import OnchainSchema.Proofs.CommandLine
import OnchainSchema.Proofs.PublishedRecord
import OnchainSchema.Proofs.RefForms
import OnchainSchema.Proofs.LowerCase
import OnchainSchema.Proofs.CanonicalDids
import OnchainSchema.Proofs.PointerPaths
import OnchainSchema.Proofs.MergedProperties
import OnchainSchema.Proofs.BuildReports
import OnchainSchema.Proofs.JudgedRefs
import OnchainSchema.Proofs.HexPatterns
import OnchainSchema.Proofs.OfferedTypes
import OnchainSchema.Proofs.Revocability
import OnchainSchema.Proofs.LintTotals
import OnchainSchema.Proofs.ObjectOrder
import OnchainSchema.Proofs.LintTraversal
import OnchainSchema.Proofs.FindingPaths
import OnchainSchema.Proofs.PathOrder
import OnchainSchema.Proofs.ListingOrder
import OnchainSchema.Proofs.ListedFiles
import OnchainSchema.Proofs.WrittenJson
import OnchainSchema.Proofs.ReadRecords
import OnchainSchema.Proofs.RecordText

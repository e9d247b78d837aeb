import EntryPoints.Main
import EntryPoints.Proofs.FormNotices
import EntryPoints.Proofs.History
import EntryPoints.Proofs.Invocation
import EntryPoints.Proofs.FormWords
import EntryPoints.Proofs.Spelling
import EntryPoints.Proofs.SearchedScripts
import EntryPoints.Proofs.LeftInterpreters
import EntryPoints.Proofs.Resettling
import EntryPoints.Proofs.Independence
import EntryPoints.Proofs.FailedRuns
import EntryPoints.Proofs.Confinement
import EntryPoints.Proofs.WrapperPlaces
import EntryPoints.Proofs.DirectCommands
import EntryPoints.Proofs.Verbatim
import EntryPoints.Proofs.Reaches
import EntryPoints.Proofs.FirstLines
import EntryPoints.Proofs.WrappedWords
import EntryPoints.Proofs.WrittenJson
import EntryPoints.Proofs.ByteOrder
import EntryPoints.Proofs.MemberOrder
import EntryPoints.Proofs.ManifestDocuments
import EntryPoints.Proofs.Overrides
import EntryPoints.Proofs.Warnings
import EntryPoints.Proofs.BestMatch
import EntryPoints.Proofs.FailedSettlements
import EntryPoints.Proofs.ScriptForms
import EntryPoints.Proofs.FoundCommands
import EntryPoints.Proofs.CanonicalTexts
import EntryPoints.Proofs.JoinedWords
import EntryPoints.Proofs.PathsFromRoot
import EntryPoints.Proofs.Rewordings
import EntryPoints.Proofs.SpacedWords
import EntryPoints.Proofs.WriteSteps
import EntryPoints.Proofs.ScriptLines

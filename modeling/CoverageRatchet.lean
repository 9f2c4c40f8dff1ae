import CoverageRatchet.Machine.Setup
import CoverageRatchet.Machine.Surroundings
import CoverageRatchet.Main
import CoverageRatchet.Proofs.FileWrites
import CoverageRatchet.Proofs.RatchetHistory
import CoverageRatchet.Proofs.Replacement
import CoverageRatchet.Proofs.StoredRoundTrip
import CoverageRatchet.Proofs.GitSteps
import CoverageRatchet.Proofs.GitProtocol
import CoverageRatchet.Proofs.ReferenceRoundTrip
import CoverageRatchet.Proofs.FailedRuns
import CoverageRatchet.Proofs.RepeatedRuns
import CoverageRatchet.Proofs.LogEntries
import CoverageRatchet.Proofs.Survey
import CoverageRatchet.Proofs.PushTarget
import CoverageRatchet.Proofs.ConclusionLog
import CoverageRatchet.Proofs.Rehearsal
import CoverageRatchet.Proofs.Rearranged
import CoverageRatchet.Proofs.TestAnswers
import CoverageRatchet.Proofs.Renderings
import CoverageRatchet.Proofs.Partition
import CoverageRatchet.Proofs.SummaryLanguage
import CoverageRatchet.Proofs.SummaryPatterns
import CoverageRatchet.Proofs.DocumentedLines
import CoverageRatchet.Proofs.Lockstep
import CoverageRatchet.Proofs.SettingsPrecedence
import CoverageRatchet.Proofs.ReferenceGrammar
import CoverageRatchet.Proofs.ReportText
import CoverageRatchet.Proofs.SettingsValidation
import CoverageRatchet.Proofs.CommitIdentity
import CoverageRatchet.Proofs.QuotedWords
import CoverageRatchet.Proofs.CommandLineRendering
import CoverageRatchet.Proofs.VerdictOrder
import CoverageRatchet.Proofs.ExchangedComparison
import CoverageRatchet.Proofs.LineEndings
import CoverageRatchet.Proofs.GoProject
import CoverageRatchet.Proofs.PercentTexts
import CoverageRatchet.Proofs.TestVariables

import PhraseTable.Main
import PhraseTable.Session
import PhraseTable.Proofs.Counts.Operations
import PhraseTable.Proofs.TupleIndex
import PhraseTable.Proofs.Counts.Accounting
import PhraseTable.Proofs.AlignedPair
import PhraseTable.Proofs.Counts.LinkCounts
import PhraseTable.Proofs.Counts.Interleaving
import PhraseTable.Proofs.Mirror
import PhraseTable.Proofs.PhraseIndex
import PhraseTable.Proofs.PhraseReader
import PhraseTable.Proofs.Run.Passes
import PhraseTable.Proofs.Run.Schedules
import PhraseTable.Proofs.Run.Program
import PhraseTable.Proofs.Run.PhraseAccounts
import PhraseTable.Proofs.Run.Rows
import PhraseTable.Proofs.Corpus
import PhraseTable.Proofs.Renaming
import PhraseTable.Proofs.Run.CorpusOrder
import PhraseTable.Proofs.Number.Double
import PhraseTable.Proofs.Text.Fields
import PhraseTable.Proofs.Number.Integer
import PhraseTable.Proofs.PhraseAlignment
import PhraseTable.Proofs.PhraseText
import PhraseTable.Proofs.Text.Lines
import PhraseTable.Proofs.Run.Recheck
import PhraseTable.Proofs.Run.ExactCounts
import PhraseTable.Proofs.Run.PhraseOrder
import PhraseTable.Proofs.SentenceAlignment
import PhraseTable.Proofs.Counts.NullCounts
import PhraseTable.Proofs.PhraseGaps
import PhraseTable.Proofs.SharedVocabulary
import PhraseTable.Proofs.PhraseNumbers
import PhraseTable.Proofs.Reference.Check
import PhraseTable.Proofs.Reference.Again
import PhraseTable.Proofs.Run.Output
import PhraseTable.Proofs.Counts.Passes
import PhraseTable.Proofs.Score.AveragedWeights
import PhraseTable.Proofs.Score.Filters
import PhraseTable.Proofs.DebugLevel
import PhraseTable.Proofs.Run.ReadBack
import PhraseTable.Proofs.Score.Layout
import PhraseTable.Proofs.Score.WeightOrder
import PhraseTable.Proofs.LinkLists
import PhraseTable.Proofs.AlignmentGrammar
import PhraseTable.Proofs.AlignmentNotations
import PhraseTable.Proofs.AlignmentText
import PhraseTable.Proofs.CorpusOutcome
import PhraseTable.Proofs.GapInsertion
import PhraseTable.Proofs.Number.SelfQuotient
import PhraseTable.Proofs.Reference.Mismatches
import PhraseTable.Proofs.WordNumbers
import PhraseTable.Proofs.PhrasePositions
import PhraseTable.Proofs.Text.Canonical

import TextGrammar.Main
import TextGrammar.Generator
import TextGrammar.Proofs.Answers
import TextGrammar.Proofs.Canonical
import TextGrammar.Proofs.Compiled
import TextGrammar.Proofs.ReadCanonical
import TextGrammar.Proofs.DecimalText
import TextGrammar.Proofs.Spelling
import TextGrammar.Proofs.RoundTrip
import TextGrammar.Proofs.Phrases
import TextGrammar.Proofs.Derivations
import TextGrammar.Proofs.WeightedPick
import TextGrammar.Proofs.RangeDraw
import TextGrammar.Proofs.Machine
import TextGrammar.Proofs.Depth
import TextGrammar.Proofs.OpenSymbols
import TextGrammar.Proofs.Limits
import TextGrammar.Proofs.Parts
import TextGrammar.Proofs.Productive
import TextGrammar.Proofs.DeadSymbols
import TextGrammar.Proofs.CleanGrammars
import TextGrammar.Proofs.Outline
import TextGrammar.Proofs.CompiledBlocks
import TextGrammar.Proofs.Defects
import TextGrammar.Proofs.Acceptance
import TextGrammar.Proofs.DeclaredNames
import TextGrammar.Proofs.WrittenDoubles
import TextGrammar.Proofs.WrittenTokens
import TextGrammar.Proofs.Readers
import TextGrammar.Proofs.ReadValues
import TextGrammar.Proofs.SavedGrammars
import TextGrammar.Proofs.SavedSources
import TextGrammar.Proofs.SealedRules
import TextGrammar.Proofs.Comments
import TextGrammar.Proofs.PrintedSources
import TextGrammar.Proofs.EnclosedBars
import TextGrammar.Proofs.UnknownModifiers
import TextGrammar.Proofs.Blame
import TextGrammar.Proofs.NamedChoices
import TextGrammar.Proofs.FaultPlaces
import TextGrammar.Proofs.Positions
import TextGrammar.Proofs.ScansByPosition
import TextGrammar.Proofs.ReadersByPosition
import TextGrammar.Proofs.SourcesByPosition
import TextGrammar.Proofs.InflectionByPosition
import TextGrammar.Proofs.ExpansionByPosition
import TextGrammar.Proofs.EveryRule
import TextGrammar.Proofs.WeightedSelection
import TextGrammar.Proofs.Layout
import TextGrammar.Proofs.Folders
import TextGrammar.Proofs.Reports
import TextGrammar.Proofs.LetterCases
import TextGrammar.Proofs.PluralWords
import TextGrammar.Proofs.Markers
import TextGrammar.Proofs.LeftoverMarkers
import TextGrammar.Proofs.EnclosedBodies
import TextGrammar.Proofs.QuotedTexts
import TextGrammar.Proofs.ArticleMarkers
import TextGrammar.Proofs.PluralMarkers
import TextGrammar.Proofs.NumberArticles
import TextGrammar.Proofs.PluralCapitals
import TextGrammar.Proofs.Columns
import TextGrammar.Proofs.JoinedPatterns
import TextGrammar.Proofs.NearestDoubles
import TextGrammar.Proofs.StatedWeights
import TextGrammar.Proofs.Ordinals
import TextGrammar.Proofs.NumberRanges
import TextGrammar.Proofs.NestedBrackets
import TextGrammar.Proofs.UndefinedReferences
import TextGrammar.Proofs.CommentMarks

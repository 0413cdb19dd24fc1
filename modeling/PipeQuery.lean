import PipeQuery.Proofs.Analysis.Metrics
import PipeQuery.Proofs.Analysis.Reports
import PipeQuery.Proofs.Analysis.Verdict
import PipeQuery.Proofs.Bytes.Tokenizer
import PipeQuery.Proofs.Log.EventRecord
import PipeQuery.Proofs.Log.History
import PipeQuery.Proofs.Log.Shared
import PipeQuery.Proofs.Mode.History
import PipeQuery.Proofs.Recognizer.Bracket
import PipeQuery.Proofs.Recognizer.LetterCase
import PipeQuery.Proofs.Recognizer.LexemeLanguage
import PipeQuery.Proofs.Recognizer.Longest
import PipeQuery.Proofs.Recognizer.Nesting
import PipeQuery.Proofs.Recognizer.StringLanguage
import PipeQuery.Proofs.Recognizer.Trivia
import PipeQuery.Proofs.Settings.Profile
import PipeQuery.Proofs.SourceMap.Excerpt
import PipeQuery.Proofs.SourceMap.Positions
import PipeQuery.Proofs.Stream.Coverage
import PipeQuery.Proofs.Stream.Cursor
import PipeQuery.Proofs.Stream.Trivia
import PipeQuery.Proofs.Token.Record
import PipeQuery.Proofs.Tokenizer.DepthLimit
import PipeQuery.Proofs.Tokenizer.EarlyEnd
import PipeQuery.Proofs.Tokenizer.Frame
import PipeQuery.Proofs.Tokenizer.Layering
import PipeQuery.Proofs.Tokenizer.LetterCase
import PipeQuery.Proofs.Tokenizer.Lists
import PipeQuery.Proofs.Tokenizer.Spelling
import PipeQuery.Proofs.Tokenizer.Unknown
import PipeQuery.Proofs.Tokenizer.Words
import PipeQuery.Session
import PipeQuery.Settings.PreferencesFile
import PipeQuery.Settings.Profile
import PipeQuery.Stream.Counts
import PipeQuery.Token.Record

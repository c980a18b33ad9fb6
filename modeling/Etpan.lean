import Etpan.Charconv.RoundTrip
import Etpan.Stream.ReadLine
import Etpan.Mime.PartParse
import Etpan.Mime.QuotedPrintableRoundTrip
import Etpan.Mime.MultipartEnvelope
import Etpan.Data.Forest
import Etpan.Thread.References
import Etpan.Thread.Linking
import Etpan.Stream.DataSize
import Etpan.Stream.WriteCalls
import Etpan.Activesync.Wbxml
import Etpan.Stream.ReadCalls
import Etpan.Activesync.WbxmlRoundTrip
import Etpan.Activesync.WbxmlStable
import Etpan.Mbox.Fields
import Etpan.Mbox.Parse
import Etpan.Mbox.Folder
import Etpan.Mbox.Contents
import Etpan.Mbox.Numbering
import Etpan.Mbox.Headers
import Etpan.Mbox.Regions
import Etpan.Mbox.Operations
import Etpan.Mbox.Expunge
import Etpan.Mbox.ExpungeKeeps
import Etpan.Imap.Sender
import Etpan.Imap.Literal
import Etpan.Imap.Parser
import Etpan.Imap.Grammar
import Etpan.Imap.Astring
import Etpan.Imap.LiteralParse
import Etpan.Imap.ParserFront
import Etpan.Imap.StatusName
import Etpan.Imap.Response
import Etpan.Imap.Selection
import Etpan.Imap.Session
import Etpan.Imap.Vanished
import Etpan.Imap.SelectedState
import Etpan.Data.Delimited
import Etpan.Imap.CommandSend
import Etpan.Imap.CommandSyntax
import Etpan.Imap.QresyncSyntax
import Etpan.Data.Reading
import Etpan.Imap.SearchReading
import Etpan.Imap.SearchUnique
import Etpan.Imap.SearchReadBack
import Etpan.Data.FileCalls
import Etpan.Maildir.Operations
import Etpan.Maildir.Consistency
import Etpan.Maildir.Runs
import Etpan.Mbox.Additional
import Etpan.Mbox.Append
import Etpan.Data.Block
import Etpan.Data.Loop
import Etpan.DataTypes.Carray
import Etpan.Data.Chain
import Etpan.DataTypes.CarrayList
import Etpan.DataTypes.Clist
import Etpan.DataTypes.ClistChains
import Etpan.Data.Tabulate
import Etpan.DataTypes.Chash
import Etpan.DataTypes.ClistRuns
import Etpan.Cache.FlagsStore
import Etpan.Cache.FlagsStoreRuns
import Etpan.Cache.ImfCache
import Etpan.Cache.ImfCacheRoundTrip
import Etpan.DataTypes.MmapString
import Etpan.DataTypes.MmapStringList
import Etpan.Pop3.Bookkeeping
import Etpan.Pop3.BookkeepingRuns
import Etpan.Pop3.CommandLines
import Etpan.Pop3.EndOfStream
import Etpan.Data.BlankWords
import Etpan.Data.Calendar
import Etpan.Data.Collapse
import Etpan.Data.Comparator
import Etpan.Data.Contraction
import Etpan.Data.Cursor
import Etpan.Data.Json
import Etpan.Data.NormalForm
import Etpan.Data.Regroup
import Etpan.Data.Words
import Etpan.DataTypes.Mailjson
import Etpan.DataTypes.MailjsonExact
import Etpan.DataTypes.MailjsonUnique
import Etpan.Imf.Address
import Etpan.Mbox.Placed
import Etpan.Mbox.ExpungeSizes
import Etpan.Mbox.LetterFile
import Etpan.Mbox.AppendRuns
import Etpan.Mh.Folder
import Etpan.Mh.FolderFree
import Etpan.Mh.FolderRuns
import Etpan.Mh.MessageRuns
import Etpan.Mime.EncodedExact
import Etpan.Mime.HeadlessParts
import Etpan.Mime.Preamble
import Etpan.Mime.Rfc2231
import Etpan.Mime.Rfc2231Exact
import Etpan.Mime.Sections
import Etpan.Mime.PartTree
import Etpan.Smtp.Ehlo
import Etpan.Smtp.EhloExact
import Etpan.Smtp.EhloReply
import Etpan.Thread.OrderedSubject
import Etpan.Thread.Dates
import Etpan.Thread.DummyPruning
import Etpan.Thread.OrderedSubjectForest
import Etpan.Thread.Subject
import Etpan.Thread.SubjectBase
import Etpan.Thread.SubjectExact
import Etpan.Thread.SubjectMerge
import Etpan.Thread.SubjectResult
import Etpan.Imap.DriverFlags
import Etpan.Imf.Word
import Etpan.Mime.Language
import Etpan.Imap.MessageSet
import Etpan.Imf.DateTime
import Etpan.Imf.DateTimeRoundTrip
import Etpan.Imf.MessageId
import Etpan.Imf.HeaderFold
import Etpan.Imf.WriteRuns
import Etpan.Imap.SearchModseq
import Etpan.Mime.ContentWritten
import Etpan.Data.Repetition
import Etpan.DataTypes.Base64
import Etpan.DataTypes.ChashOld
import Etpan.Imap.ListRead
import Etpan.Imap.NumberWrap
import Etpan.Imap.Section
import Etpan.Imf.CommentGrammar
import Etpan.Imf.Repetition
import Etpan.Nntp.Overview
import Etpan.Nntp.OverviewExact
import Etpan.Mbox.FolderRuns
import Etpan.Thread.ThreadTree
import Etpan.Driver.Storage

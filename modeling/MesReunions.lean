import MesReunions.Ingest.Redelivery
import MesReunions.VideoIngest.Attempts
import MesReunions.Transcript.HiddenBlocks
import MesReunions.Transcript.Term
import MesReunions.Portal.AudioProxy
import MesReunions.Watchdog.Bounded
import MesReunions.Watchdog.Coverage
import MesReunions.Watchdog.Single
import MesReunions.Watchdog.Transient
import MesReunions.Watchdog.Erased
import MesReunions.Watchdog.Recoverable
import MesReunions.Subtitles.Align
import MesReunions.Subtitles.Redundant
import MesReunions.Base.CheckThenAct
import MesReunions.Devices.Owner
import MesReunions.Devices.Revocation
import MesReunions.Devices.Keyed
import MesReunions.Devices.Heartbeat
import MesReunions.Upload.Agreement
import MesReunions.Upload.Steps
import MesReunions.Upload.Winner
import MesReunions.Upload.Quota
import MesReunions.Upload.Lock
import MesReunions.Upload.Recovery
import MesReunions.Upload.Retention
import MesReunions.Upload.Change
import MesReunions.Ingest.Concurrent
import MesReunions.Pipeline.Antivirus
import MesReunions.Pipeline.Dropped
import MesReunions.Pipeline.Order
import MesReunions.Meetings.Isolation
import MesReunions.Transcript.ReFilter
import MesReunions.Outcome.Agreement
import MesReunions.VideoIngest.Quota
import MesReunions.VideoIngest.Provider
import MesReunions.Purges.Purges
import MesReunions.Purges.Sessions
import MesReunions.Shared.FilenameDatetime
import MesReunions.Shared.DateRenderings
import MesReunions.Shared.DatesReadBack
import MesReunions.Shared.RateLimit
import MesReunions.Shared.DeviceToken
import MesReunions.Shared.QueueEta
import MesReunions.Glossary.Relevant
import MesReunions.Glossary.Curation
import MesReunions.Glossary.FromBrief
import MesReunions.Preparations.Series
import MesReunions.Base.Base64
import MesReunions.Base.JsonText
import MesReunions.Base.JsonDumps
import MesReunions.Base.Calendar
import MesReunions.Base.NextAfter
import MesReunions.Base.Regex
import MesReunions.Base.RegexFind
import MesReunions.Base.Gather
import MesReunions.Recurrence.Rule
import MesReunions.Recurrence.Next
import MesReunions.Imports.Once
import MesReunions.Kevent.Polling
import MesReunions.Mcr.Once
import MesReunions.Reprocess.Single
import MesReunions.Transcript.Imported
import MesReunions.Transcript.Speakers
import MesReunions.Subtitles.Inside
import MesReunions.Llm.Verdict
import MesReunions.Devices.Rotation
import MesReunions.Meetings.AutoLink
import MesReunions.VideoIngest.YouTubeUrl
import MesReunions.Portal.TokenStore
import MesReunions.Base.WordChars
import MesReunions.Base.Template
import MesReunions.Formats.Blocks
import MesReunions.Formats.Markdown
import MesReunions.Formats.Plain
import MesReunions.Preparations.Corpus
import MesReunions.Llm.Prompts
import MesReunions.VideoIngest.Duration
import MesReunions.Base.FirstMax
import MesReunions.Transcript.Attribution
import MesReunions.Base.Utf16
import MesReunions.Search.Snippet
import MesReunions.Llm.Echo
import MesReunions.Llm.Chunks
import MesReunions.Base.Fields
import MesReunions.Formats.Analysis
import MesReunions.Preparations.Export
import MesReunions.Preparations.Odf
import MesReunions.Search.Texts
import MesReunions.Search.Hits
import MesReunions.Base.BinarySearch
import MesReunions.Portal.Karaoke
import MesReunions.VideoIngest.Catalogue
import MesReunions.Base.Unwinding
import MesReunions.Preparations.Themes
import MesReunions.Preparations.Records
import MesReunions.Preparations.RecordRuns
import MesReunions.Preparations.GenerationJobs
import MesReunions.Portal.Trash
import MesReunions.Portal.TrashRuns

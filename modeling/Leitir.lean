import Leitir.SumdbHonestLog
import Leitir.SumdbEquivocation
import Leitir.ArchiveOrder
import Leitir.BtsArtifact
import Leitir.SearchStreamAlike
import Leitir.SuitabilitySound
import Leitir.UsageConserved
import Leitir.BtsCanonical
import Leitir.ShelfExact
import Leitir.LockfileCounted
import Leitir.CompositionKeys
import Leitir.Catalogue
import Leitir.ImpactListed
import Leitir.CheckAlarms
import Leitir.DiscoveryComplete
import Leitir.GitParity
import Leitir.SnapshotWell
import Leitir.UsageCatalog
import Leitir.UsageFlow
import Leitir.UsageSnippet
import Leitir.RelocateImports
import Leitir.LicenseRaise
import Leitir.LicenseReadBack
import Leitir.SumdbCurve
import Leitir.BtsBreadth
import Leitir.IndexRank
import Leitir.TreeHashScope
import Leitir.ComparisonChosen
import Leitir.ApiSurface
import Leitir.GoMask
import Leitir.PortContractLexed
import Leitir.SnapshotIdentity
import Leitir.CorpusApart
import Leitir.SearchMaskStable
import Leitir.ScoreBounds
import Leitir.ScoreRanks
import Leitir.SbomIdentity
import Leitir.LogRedaction
import Leitir.RelocatePaths

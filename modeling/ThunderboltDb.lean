import ThunderboltDb.Engine.Rotation
import ThunderboltDb.Engine.PublicationBarrier
import ThunderboltDb.Engine.WaveTail
import ThunderboltDb.Engine.CommitWaveProgress
import ThunderboltDb.Replication.RaftNode
import ThunderboltDb.Replication.RaftVotes
import ThunderboltDb.Wal.TerminalMarkerLaws
import ThunderboltDb.Wal.LaneCut
import ThunderboltDb.Wal.CanonicalFootprint
import ThunderboltDb.Wal.CanonicalExact
import ThunderboltDb.Wal.ExactDrain
import ThunderboltDb.Wal.RetentionCrash
import ThunderboltDb.Wal.ScatterSource
import ThunderboltDb.Engine.VersionChains
import ThunderboltDb.Engine.PreflightSound
import ThunderboltDb.Engine.EqualityProbe
import ThunderboltDb.Engine.OverflowScope
import ThunderboltDb.WriteConveyor.FenceSafety
import ThunderboltDb.Server.Authentication
import ThunderboltDb.Server.Cancellation

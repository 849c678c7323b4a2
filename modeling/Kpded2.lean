import Kpded2.Rcon
import Kpded2.NetChanStream
import Kpded2.PacketEntities
import Kpded2.EntityRing
import Kpded2.FrameDatagram
import Kpded2.DeltaChains
import Kpded2.MessageStorage
import Kpded2.MessageSlots
import Kpded2.CommandBuffer
import Kpded2.CollisionMap
import Kpded2.Cvar
import Kpded2.Userinfo
import Kpded2.CommandTime
import Kpded2.ClientNames
import Kpded2.ZoneMemory
import Kpded2.SizeBufMemory
import Kpded2.ScopedCommands
import Kpded2.CvarProtection
import Kpded2.AreaPortals
import Kpded2.EntityClusters
import Kpded2.MapReferences
import Kpded2.PacketCompression
import Kpded2.FinalMessage
import Kpded2.ReliableMessages
import Kpded2.InfoLaws
import Kpded2.UserinfoBans
import Kpded2.Configstrings
import Kpded2.DownloadCache
import Kpded2.Downloads
import Kpded2.DownloadReferences
import Kpded2.DownloadChunks
import Kpded2.DraftMessages
import Kpded2.ReservedSpace
import Kpded2.UnreliableMessages
import Kpded2.SequenceCheck
import Kpded2.ActivateKey
import Kpded2.SkinIndex
import Kpded2.InsertText
import Kpded2.AliasExpansion
import Kpded2.EntityAreas
import Kpded2.BeamClusters
import Kpded2.TraceMerge
import Kpded2.Visibility
import Kpded2.InlineModels
import Kpded2.ChallengeTable
import Kpded2.ClientSearch
import Kpded2.NextServer
import Kpded2.MessageBuffer
import Kpded2.DemoRecording
import Kpded2.DemoPlayback
import Kpded2.ReconnectCheck
import Kpded2.PlayerDelta
import Kpded2.SuppressCount
import Kpded2.InfoErrors
import Kpded2.BanScan
import Kpded2.DownloadPath
import Kpded2.CompressedDownload
import Kpded2.SkinBuffer
import Kpded2.SoundMessage
import Kpded2.UsercmdDelta
import Kpded2.PlayerBox
import Kpded2.AreaLinks
import Kpded2.FileCache
import Kpded2.PackFiles
import Kpded2.ChunkTransmit
import Kpded2.CvarChecks
import Kpded2.ModelskinUpdates
import Kpded2.MultiMoves
import Kpded2.ClientDemo
import Kpded2.SignonMessages
import Kpded2.MacroExpansion
import Kpded2.ClosedLines
import Kpded2.BoxTrace
import Kpded2.BrushClips
import Kpded2.HullPasses
import Kpded2.HullSearch
import Kpded2.TableCopies
import Kpded2.Replication
import Kpded2.FrameBuilding
import Kpded2.FrameReading
import Kpded2.FrameReplication
import Kpded2.ColouredTree
import Kpded2.RedBlack
import Kpded2.RedBlackDelete
import Kpded2.NameTrees
import Kpded2.NameLists
import Kpded2.Wildcard
import Kpded2.CommandTable
import Kpded2.BlockStream
import Kpded2.Md4
import Kpded2.MersenneTwister
import Kpded2.DemoRoundTrip

import RemotePkgInstaller.Downloads
import RemotePkgInstaller.NamedObjects
import RemotePkgInstaller.SettingsRuns
import RemotePkgInstaller.Sfo
import RemotePkgInstaller.PieceUrls
import RemotePkgInstaller.ConformingHosts
import RemotePkgInstaller.TempFiles
import RemotePkgInstaller.RegisteredTasks
import RemotePkgInstaller.TlsPolicy
import RemotePkgInstaller.SettingsUpdates
import RemotePkgInstaller.TempNames
import RemotePkgInstaller.SendStream
import RemotePkgInstaller.ErrorStatus
import RemotePkgInstaller.LegalUrls
import RemotePkgInstaller.ReferenceJson
import RemotePkgInstaller.Payloads
import RemotePkgInstaller.PieceSizes
import RemotePkgInstaller.PackageInspection
import RemotePkgInstaller.BundleRuns
import RemotePkgInstaller.ContentIdParts
import RemotePkgInstaller.StaticFiles
import RemotePkgInstaller.DownloadBuffer
import RemotePkgInstaller.LastErrorText
import RemotePkgInstaller.InstallerErrors
import RemotePkgInstaller.LibraryRuns
import RemotePkgInstaller.CompleteFiles
import RemotePkgInstaller.SfoValues
import RemotePkgInstaller.TempCleanup
import RemotePkgInstaller.RequestTeardown
import RemotePkgInstaller.SavedSettings
import RemotePkgInstaller.StreamLocks
import RemotePkgInstaller.SentResponses
import RemotePkgInstaller.JsonTrees
import RemotePkgInstaller.ServerMutex
import RemotePkgInstaller.HeaderSearch
import RemotePkgInstaller.Connections
import RemotePkgInstaller.SfoMemory
import RemotePkgInstaller.PieceMemory

import SegsLauncher.Lib.KeyTree
import SegsLauncher.Lib.Directory
import SegsLauncher.Lib.Frames
import SegsLauncher.Lib.Runs
import SegsLauncher.Lib.Sorter
import SegsLauncher.Lib.ReplySlot
import SegsLauncher.Lib.KeyedUpdates
import SegsLauncher.Lib.Markup
import SegsLauncher.Qt
import SegsLauncher.Launcher
import SegsLauncher.LauncherSettings
import SegsLauncher.Confinement
import SegsLauncher.Records
import SegsLauncher.VersionCheck
import SegsLauncher.MainWindow
import SegsLauncher.Handlers
import SegsLauncher.ServerList
import SegsLauncher.Network
import SegsLauncher.Selection
import SegsLauncher.Sweeps
import SegsLauncher.World
import SegsLauncher.Attribution
import SegsLauncher.ProbeOrder
import SegsLauncher.Session
import SegsLauncher.LastUsedServer
import SegsLauncher.Uptime
import SegsLauncher.SettingsRoundTrip
import SegsLauncher.StatusUpdates
import SegsLauncher.FetchOutcome
import SegsLauncher.ServerInformation
import SegsLauncher.VersionSelection
import SegsLauncher.Setup
import SegsLauncher.Lib.Blocks
import SegsLauncher.Lib.Framing
import SegsLauncher.Lib.JsonText
import SegsLauncher.Endpoint
import SegsLauncher.RpcClient
import SegsLauncher.RpcServer
import SegsLauncher.RpcSystem
import SegsLauncher.Probes
import SegsLauncher.Display
import SegsLauncher.Served

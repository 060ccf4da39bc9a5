import NiraOS.Lib.Transition
import NiraOS.Lib.Text
import NiraOS.Lib.Words
import NiraOS.Lib.Channel
import NiraOS.Lib.Potential
import NiraOS.Permission.Policy
import NiraOS.ActionManager.ExecuteAction
import NiraOS.ActionManager.Mediation
import NiraOS.Greeter.Ipc
import NiraOS.Greeter.Login
import NiraOS.AiDaemon.Requests
import NiraOS.AiDaemon.Inference
import NiraOS.AiDaemon.Program
import NiraOS.AiDaemon.Daemon
import NiraOS.AiDaemon.Protocol
import NiraOS.AiDaemon.OneModel
import NiraOS.AiDaemon.Agreement
import NiraOS.AiDaemon.Watchdog
import NiraOS.AiDaemon.Ledger
import NiraOS.AiDaemon.Delivery
import NiraOS.AiDaemon.Progress
import NiraOS.Lib.FileTree
import NiraOS.Lib.FileTree.Depth
import NiraOS.Compositor.ContextExporter
import NiraOS.Settings.Service
import NiraOS.Settings.Saving
import NiraOS.Lib.Framing
import NiraOS.Greeter.Framing
import NiraOS.Shell.AiClient
import NiraOS.Shell.Sessions
import NiraOS.AiDaemon.Handlers
import NiraOS.Compositor.WindowManager
import NiraOS.Files.FileOperations
import NiraOS.Files.Frames
import NiraOS.Files.NoClobber
import NiraOS.Files.Confinement
import NiraOS.Files.Copying
import NiraOS.Files.Selection
import NiraOS.Files.History
import NiraOS.Files.Loading
import NiraOS.Files.Sorting
import NiraOS.Files.Search
import NiraOS.Notepad.RecentFiles
import NiraOS.Notepad.BlockComments
import NiraOS.Notepad.Rehighlighting
import NiraOS.Notepad.Replace
import NiraOS.Desktop.Names
import NiraOS.Desktop.Shortcuts
import NiraOS.Desktop.Exec
import NiraOS.Desktop.IconActions
import NiraOS.Desktop.AppModel
import NiraOS.Files.MoveAndTrash
import NiraOS.Files.Endless
import NiraOS.Notepad.Closing
import NiraOS.Notepad.Documents
import NiraOS.Notepad.OwnDocuments
import NiraOS.Shell.Taskbar
import NiraOS.Shell.TaskbarConvergence
import NiraOS.Shell.Notifications
import NiraOS.ActionManager.Installing
import NiraOS.ActionManager.MoveFile
import NiraOS.ContextBroker.ReadFile
import NiraOS.ActionManager.Validation
import NiraOS.AiDaemon.Generation
import NiraOS.AiDaemon.Lifecycle
import NiraOS.AiDaemon.LoadingFlag
import NiraOS.AiDaemon.Refinement
import NiraOS.AiDaemon.Tools
import NiraOS.Compositor.Bookkeeping
import NiraOS.Permission.Expiry
import NiraOS.Settings.Refusals
import NiraOS.Settings.Restarts
import NiraOS.Lib.ClampedWalk
import NiraOS.Compositor.Resizing
import NiraOS.Compositor.Maximising
import NiraOS.Compositor.KeyboardFocus
import NiraOS.AiDaemon.Gguf
import NiraOS.AiDaemon.Overflow
import NiraOS.AiDaemon.Downloader
import NiraOS.ModelManager.Install
import NiraOS.Notepad.AtomicSave
import NiraOS.Notepad.RoundTrip
import NiraOS.Greeter.Secrets
import NiraOS.Greeter.LoginButton
import NiraOS.Lib.JsonWriter
import NiraOS.AiDaemon.ToolResponses
import NiraOS.ContextBroker.ActiveWindow
import NiraOS.Compositor.Stacking
import NiraOS.Files.Watching
import NiraOS.Settings.WholeFile
import NiraOS.Shell.Assistant
import NiraOS.Lib.Fields
import NiraOS.Greeter.UserModel
import NiraOS.Compositor.OnRecord
import NiraOS.Compositor.Minimising
import NiraOS.Shell.WindowList
import NiraOS.AiDaemon.Acting
import NiraOS.Lib.Simulation
import NiraOS.Greeter.Conversation
import NiraOS.Greeter.Wire
import NiraOS.Lib.FileTree.Provenance
import NiraOS.Files.Sessions

import Reins.NodeProtocol.RpcReceive
import Reins.Node.ExecExit
import Reins.Backend.Reattach
import Reins.Backend.OnNode
import Reins.Backend.NodeStreams
import Reins.Backend.NodeRevocation
import Reins.Backend.PiCommit
import Reins.Backend.PagedToolCalls
import Reins.Backend.Supervisor
import Reins.Node.Pausing
import Reins.Backend.ExtensionServices
import Reins.Backend.Automations
import Reins.Node.Reconnecting
import Reins.Backend.McpOauth
import Reins.Backend.NodeAuthentication
import Reins.NodeProtocol.WebSocketLink
import Reins.Backend.Migrations
import Reins.Backend.ReviewPrompts
import Reins.Backend.ChildReports
import Reins.Backend.TaskDeletion
import Reins.Frontend.LostEvents
import Reins.Frontend.RunEnds
import Reins.Node.NodeInstall
import Reins.Node.OneNode
import Reins.Backend.NodePairing
import Reins.Frontend.AppClient
import Reins.Frontend.SessionOperations
import Reins.Frontend.CodeReviewStore
import Reins.Frontend.NodesStore
import Reins.Frontend.DiffStore
import Reins.Frontend.SessionMetadata
import Reins.Frontend.ConversationViews
import Reins.Backend.Credentials
import Reins.Backend.PendingLogins
import Reins.Backend.McpSignIns
import Reins.Backend.McpTokens
import Reins.Backend.NewSessions
import Reins.Backend.RunRecords
import Reins.Backend.Shutdown
import Reins.Frontend.ProjectHistory
import Reins.Backend.RunningApp
import Reins.Backend.BashCalls
import Reins.Backend.SessionMoves
import Reins.Backend.ModelChanges
import Reins.Frontend.McpServersStore
import Reins.Backend.SettlementWaits
import Reins.Frontend.SessionCache
import Reins.Frontend.ShownFiles
import Reins.Backend.Rebase
import Reins.Backend.BranchNames
import Reins.Backend.FileLists
import Reins.Backend.DiffParser
import Reins.Frontend.StreamingMarkdown
import Reins.Backend.ScriptArgs
import Reins.Frontend.FileContents
import Reins.Frontend.FileChanges
import Reins.Backend.AutoResumes
import Reins.Backend.Router
import Reins.Backend.SkillBlocks
import Reins.Backend.UploadedFile
import Reins.Backend.FileCopies

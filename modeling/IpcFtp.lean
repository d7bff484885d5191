import IpcFtp.Arguments
import IpcFtp.ByteWrites
import IpcFtp.CString
import IpcFtp.Client.CommandLine
import IpcFtp.Client.Commands
import IpcFtp.Client.Keystrokes
import IpcFtp.Client.Login
import IpcFtp.Client.Opening
import IpcFtp.Client.Requests
import IpcFtp.Client.RoundTrip
import IpcFtp.Client.Shell
import IpcFtp.Communication.Address
import IpcFtp.Communication.ClosedChannel
import IpcFtp.Communication.Connection
import IpcFtp.Communication.Delivery
import IpcFtp.Communication.Frame
import IpcFtp.Communication.Gathering
import IpcFtp.Communication.Handshake
import IpcFtp.Communication.OneFrame
import IpcFtp.Communication.Paths
import IpcFtp.Communication.Receive
import IpcFtp.Communication.Socket
import IpcFtp.Communication.StartUp
import IpcFtp.Communication.Turns
import IpcFtp.Communication.Urls
import IpcFtp.FileUtils
import IpcFtp.Lib.Contract
import IpcFtp.Lib.Delimiter
import IpcFtp.Lib.Fifo
import IpcFtp.Lib.Guarded
import IpcFtp.Lib.Lines
import IpcFtp.Lib.MessageQueue
import IpcFtp.Lib.PathResolve
import IpcFtp.Lib.Pieces
import IpcFtp.Lib.Processes
import IpcFtp.Lib.Program
import IpcFtp.Lib.QuotedText
import IpcFtp.Lib.Reader
import IpcFtp.Lib.Register
import IpcFtp.Lib.Registry
import IpcFtp.Lib.Semaphore
import IpcFtp.Lib.Table
import IpcFtp.Lib.Tokens
import IpcFtp.Lib.Words
import IpcFtp.Lib.Writes
import IpcFtp.Logging.Delivery
import IpcFtp.Logging.Reading
import IpcFtp.Logging.Service
import IpcFtp.Monitor.Posts
import IpcFtp.Monitor.Screen
import IpcFtp.Monitor.SharedStatus
import IpcFtp.Monitor.Tables
import IpcFtp.Monitor.Turns
import IpcFtp.RawMemory
import IpcFtp.Serialization
import IpcFtp.Serialization.Messages
import IpcFtp.Serialization.ParseResult
import IpcFtp.Server.Accepting
import IpcFtp.Server.Accounts
import IpcFtp.Server.Authorization
import IpcFtp.Server.Blocks
import IpcFtp.Server.CommandEffects
import IpcFtp.Server.Confinement
import IpcFtp.Server.Database
import IpcFtp.Server.Dialogue
import IpcFtp.Server.Echo
import IpcFtp.Server.Identification
import IpcFtp.Server.InTurn
import IpcFtp.Server.Ownership
import IpcFtp.Server.PostedFile
import IpcFtp.Server.Process
import IpcFtp.Server.Responder
import IpcFtp.Server.Sessions
import IpcFtp.Server.SqlHelpers
import IpcFtp.Server.StatementReading
import IpcFtp.Server.Status
import IpcFtp.Server.ThreadTable
import IpcFtp.Server.Uniqueness
import IpcFtp.Server.World
import IpcFtp.Sqlite.Closing
import IpcFtp.Sqlite.Columns
import IpcFtp.Sqlite.Execution
import IpcFtp.Sqlite.Like
import IpcFtp.Sqlite.Query
import IpcFtp.Sqlite.Reading
import IpcFtp.Sqlite.Response
import IpcFtp.Sqlite.ResultSet
import IpcFtp.Sqlite.Service
import IpcFtp.Sqlite.SharedPipes
import IpcFtp.Utils

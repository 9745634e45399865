import Ppcom.Proofs.TermOriginal
import Ppcom.Proofs.TermSet
import Ppcom.Proofs.TermRuns
import Ppcom.Proofs.TermRefinement
import Ppcom.Proofs.TermCalls
import Ppcom.Spec.TermMap
import Ppcom.Lib.Slots
import Ppcom.Term
import Ppcom.Proofs.SplitQuoted
import Ppcom.Proofs.Conservation
import Ppcom.Proofs.PortWrite
import Ppcom.Proofs.MapAssertions
import Ppcom.Proofs.ControlSocket
import Ppcom.Proofs.EscapeProtocol
import Ppcom.Proofs.BaudSettings
import Ppcom.Proofs.RunCmd
import Ppcom.Proofs.TransferArgv
import Ppcom.Proofs.Ownership
import Ppcom.Proofs.GracefulExit
import Ppcom.Proofs.Forwarding
import Ppcom.Proofs.LogName
import Ppcom.Proofs.Cli
import Ppcom.Proofs.TermDescriptors
import Ppcom.Proofs.LineSettings
import Ppcom.Proofs.QueueAcceptance
import Ppcom.Proofs.RejectedSettings
import Ppcom.Proofs.ExitPolicy
import Ppcom.Proofs.OwnConnection
import Ppcom.Proofs.UucpLock
import Ppcom.Proofs.Chunking
import Ppcom.Proofs.SplitAlgebra
import Ppcom.Proofs.HexText
import Ppcom.Lib.TextRow
import Ppcom.Readline
import Ppcom.Spec.Editor
import Ppcom.Proofs.Readline
import Ppcom.Proofs.MapLists
import Ppcom.Fdio
import Ppcom.Proofs.Fdio
import Ppcom.Args
import Ppcom.Lib.Numeral
import Ppcom.Spec.Numeral
import Ppcom.Proofs.Numeral
import Ppcom.Proofs.NumericArgs
import Ppcom.Lib.Neighbours
import Ppcom.SpeedTable
import Ppcom.Proofs.BaudStepping
import Ppcom.Spec.Requested
import Ppcom.Proofs.OptionFrames
import Ppcom.Proofs.RequestedSettings
import Ppcom.Modem
import Ppcom.Proofs.ModemLines
import Ppcom.Proofs.FakeFlush
import Ppcom.CustbaudBsd
import Ppcom.Proofs.CustbaudBsd
import Ppcom.QueueTurns
import Ppcom.Proofs.QueueArithmetic
import Ppcom.Lib.Code
import Ppcom.Proofs.Lossless
import Ppcom.Epoll
import Ppcom.Proofs.EpollRegistry
import Ppcom.Listening
import Ppcom.Proofs.ServerDescriptors
import Ppcom.MsgPak
import Ppcom.Spec.Packed
import Ppcom.Proofs.MsgPak
import Ppcom.Lib.Handles
import Ppcom.DescriptorOwners
import Ppcom.Proofs.DescriptorOwners
import Ppcom.Proofs.WriteLoop
import Ppcom.Completion
import Ppcom.Spec.Completion
import Ppcom.Proofs.Completion
import Ppcom.Lib.Pathname
import Ppcom.Lib.StringBlock
import Ppcom.WriteLoop
import Ppcom.Lib.Block
import Ppcom.Lib.BoundedLog
import Ppcom.LineHistory
import Ppcom.Linenoise
import Ppcom.LinenoiseEdit
import Ppcom.Lib.CursorLine
import Ppcom.Spec.LineEditor
import Ppcom.Proofs.LineView
import Ppcom.Proofs.LinenoiseOps
import Ppcom.Proofs.LinenoiseKeys
import Ppcom.Proofs.LinenoiseRuns
import Ppcom.Lib.Screen
import Ppcom.LinenoisePrompts
import Ppcom.Proofs.LineHistory
import Ppcom.Proofs.LinenoiseScreen
import Ppcom.Proofs.LinenoiseMemory
import Ppcom.Proofs.LinenoisePrompts
import Ppcom.Proofs.LinenoiseAgreement
import Ppcom.LinenoiseColumns
import Ppcom.Proofs.LinenoiseColumns
import Ppcom.LinenoiseStdin
import Ppcom.Proofs.LinenoiseStdin
import Ppcom.Lib.Parallel
import Ppcom.RawMode
import Ppcom.Proofs.RawMode
import Ppcom.Receiving
import Ppcom.Proofs.Receiving
import Ppcom.ServerThread
import Ppcom.Proofs.ServerThread

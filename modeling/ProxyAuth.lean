import ProxyAuth.Control
import ProxyAuth.CString
import ProxyAuth.Getline
import ProxyAuth.Stat
import ProxyAuth.Sec
import ProxyAuth.BtMisc
import ProxyAuth.BtPair
import ProxyAuth.BtTrust
import ProxyAuth.Login
import ProxyAuth.Sanitize
import ProxyAuth.Counted
import ProxyAuth.Deauth
import ProxyAuth.Silence
import ProxyAuth.FailClosed
import ProxyAuth.Agree
import ProxyAuth.PeerSafety
import ProxyAuth.Gate
import ProxyAuth.PostAuth
import ProxyAuth.FileSystem
import ProxyAuth.Unprivileged
import ProxyAuth.PathString
import ProxyAuth.Race
import ProxyAuth.Isolation
import ProxyAuth.Counter
import ProxyAuth.Windows
import ProxyAuth.Echo
import ProxyAuth.Instances
import ProxyAuth.LineBuffer
import ProxyAuth.Utf8
import ProxyAuth.Hex
import ProxyAuth.Runs
import ProxyAuth.MainActivity
import ProxyAuth.BluetoothInteraction
import ProxyAuth.Messages
import ProxyAuth.Disconnect
import ProxyAuth.Ends
import ProxyAuth.Handover
import ProxyAuth.Launch
import ProxyAuth.Stream
import ProxyAuth.Payment
import ProxyAuth.Conversation
import ProxyAuth.Waiting
import ProxyAuth.Ledger
import ProxyAuth.Heap
import ProxyAuth.Leaks
import ProxyAuth.Balance
import ProxyAuth.Stdio
import ProxyAuth.LogFile
import ProxyAuth.LogLines
import ProxyAuth.Chosen
import ProxyAuth.Teardown
import ProxyAuth.Forged

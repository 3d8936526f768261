import SecureMessaging.HostileBytes
import SecureMessaging.Network
import SecureMessaging.SenderHistory
import SecureMessaging.SessionProperties
import SecureMessaging.Pairing
import SecureMessaging.Dispatch
import SecureMessaging.EventLoop
import SecureMessaging.Lib.Residue
import SecureMessaging.TwoServers
import SecureMessaging.PasswordFlow
import SecureMessaging.Forwarding
import SecureMessaging.Verdict
import SecureMessaging.Commuting
import SecureMessaging.Inbox
import SecureMessaging.Lib.Ledger
import SecureMessaging.Registration
import SecureMessaging.InPlace
import SecureMessaging.LoggingOut
import SecureMessaging.Lib.Ownership
import SecureMessaging.Sockets
import SecureMessaging.Handles
import SecureMessaging.Lookups
import SecureMessaging.FailedSends
import SecureMessaging.RegisteredNames
import SecureMessaging.Cursors
import SecureMessaging.Hash
import SecureMessaging.CommandLine
import SecureMessaging.CommandLanguage
import SecureMessaging.Lib.Handout
import SecureMessaging.ThreadPool
import SecureMessaging.Lib.BlockChaining
import SecureMessaging.SecureKey
import SecureMessaging.KeyAgreement
import SecureMessaging.CommandLoop
import SecureMessaging.ChatService
import SecureMessaging.Lib.Simulation
import SecureMessaging.Reports
import SecureMessaging.Lib.Progress
import SecureMessaging.Wakeups
import SecureMessaging.EndToEnd
import SecureMessaging.Liveness
import SecureMessaging.RegistrationReports
import SecureMessaging.Terminal
import SecureMessaging.HiddenAccounts
import SecureMessaging.ServerLog
import SecureMessaging.SavedAccounts
import SecureMessaging.AddressText
import SecureMessaging.Tampering

import UserVault.Disk.Edit
import UserVault.Main
import UserVault.Proofs.Link.Front
import UserVault.Proofs.Link.Willing
import UserVault.Proofs.Protocol.Reply
import UserVault.Proofs.Protocol.Message
import UserVault.Proofs.Session.Conversation
import UserVault.Proofs.Text.Utf8
import UserVault.Proofs.Vault.Layout
import UserVault.Proofs.Disk.Walk
import UserVault.Proofs.Disk.Tree
import UserVault.Proofs.Vault.Tree
import UserVault.Proofs.Vault.Changes
import UserVault.Proofs.Vault.Calls
import UserVault.Proofs.Vault.Moves
import UserVault.Proofs.Vault.Holding
import UserVault.Proofs.Vault.Stores
import UserVault.Proofs.Vault.Removals
import UserVault.Proofs.Vault.Ledger
import UserVault.Proofs.Session.Service
import UserVault.Proofs.Vault.Crowd
import UserVault.Proofs.Vault.Visibility
import UserVault.Proofs.Session.CutOff
import UserVault.Proofs.Session.LostReplies
import UserVault.Proofs.Vault.Shape
import UserVault.Proofs.Vault.Isolation
import UserVault.Proofs.Vault.Serial
import UserVault.Proofs.Protocol.Deliveries
import UserVault.Proofs.Session.Speech
import UserVault.Proofs.Session.Pieces
import UserVault.Proofs.Session.Modes
import UserVault.Proofs.Protocol.Answers
import UserVault.Proofs.Protocol.Grammar
import UserVault.Proofs.Vault.Payload
import UserVault.Proofs.Vault.Aside
import UserVault.Proofs.Vault.InPlace
import UserVault.Proofs.Text.Grammar
import UserVault.Proofs.Vault.Names
import UserVault.Proofs.Session.Listings
import UserVault.Proofs.Vault.Absence
import UserVault.Proofs.Vault.Resolution
import UserVault.Proofs.Vault.Enumeration
import UserVault.Proofs.Protocol.ReplyGrammar
import UserVault.Proofs.Protocol.Streaming
import UserVault.Proofs.Vault.Parties

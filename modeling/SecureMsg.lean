import SecureMsg.Theory.Run
import SecureMsg.Theory.Queues
import SecureMsg.Theory.Transactions
import SecureMsg.Theory.Rows
import SecureMsg.Theory.Dict
import SecureMsg.Theory.Vouchers
import SecureMsg.Theory.Cascade
import SecureMsg.Theory.Decimal
import SecureMsg.Theory.Hex
import SecureMsg.Theory.Base64
import SecureMsg.Theory.Pattern
import SecureMsg.Theory.Consultation
import SecureMsg.Store.Tables
import SecureMsg.Store.Cascade
import SecureMsg.Store.Integrity
import SecureMsg.Store.Statements
import SecureMsg.Repository.Group
import SecureMsg.Repository.User
import SecureMsg.Repository.Message
import SecureMsg.Repository.KeyBundle
import SecureMsg.Repository.Frame
import SecureMsg.Repository.Ownership
import SecureMsg.Repository.Operation
import SecureMsg.Repository.Isolation
import SecureMsg.Repository.Personal
import SecureMsg.Repository.Membership
import SecureMsg.Groups.RemoveMember
import SecureMsg.Groups.DeleteUser
import SecureMsg.Groups.SenderKeys
import SecureMsg.Groups.Delivery
import SecureMsg.Groups.Readers
import SecureMsg.Groups.Acknowledge
import SecureMsg.Messages.Inbox
import SecureMsg.Messages.Cap
import SecureMsg.Keys.Queue
import SecureMsg.Keys.Pop
import SecureMsg.Api.Groups
import SecureMsg.Api.Interleaving
import SecureMsg.Api.Membership
import SecureMsg.Api.Keys
import SecureMsg.Api.Messages
import SecureMsg.Auth.Tokens
import SecureMsg.Auth.Totp
import SecureMsg.Auth.SrpSession
import SecureMsg.Auth.Endpoints
import SecureMsg.Auth.SingleUse
import SecureMsg.Auth.Login
import SecureMsg.Auth.Namesake
import SecureMsg.Keys.Bundle
import SecureMsg.App.Service
import SecureMsg.App.Calls
import SecureMsg.App.RateLimit
import SecureMsg.App.Interleaving
import SecureMsg.App.DeletedAccount
import SecureMsg.Groups.Epochs
import SecureMsg.Groups.KeyDelivery
import SecureMsg.Groups.BulkCreation
import SecureMsg.Api.UnknownIds
import SecureMsg.Auth.SrpLifetime
import SecureMsg.Auth.RateLimitKey
import SecureMsg.Auth.HexFields
import SecureMsg.Messages.Paging
import SecureMsg.Middleware.Security
import SecureMsg.Theory.Lines
import SecureMsg.Theory.Json
import SecureMsg.Audit.Parsers
import SecureMsg.Audit.Record
import SecureMsg.Audit.Watcher
import SecureMsg.Audit.Tailing
import SecureMsg.Audit.EventHash
import SecureMsg.Theory.Locks
import SecureMsg.Groups.Departures
import SecureMsg.Groups.DepartureSteps
import SecureMsg.Groups.Deadlock
import SecureMsg.Groups.DeletionTransfer
import SecureMsg.Groups.ConcurrentDeletion
import SecureMsg.Schemas.Bodies
import SecureMsg.Schemas.Application
import SecureMsg.Schemas.MessageSize
import SecureMsg.Schemas.PrekeyMarker
import SecureMsg.App.Engine
import SecureMsg.Groups.ConcurrentKeys
import SecureMsg.Groups.Directory
import SecureMsg.Groups.DirectoryTables
import SecureMsg.App.Commits
import SecureMsg.App.Policy
import SecureMsg.App.Exchange
import SecureMsg.Audit.Chain
import SecureMsg.Theory.JsonText
import SecureMsg.Audit.Entries
import SecureMsg.Auth.HonestLogin
import SecureMsg.App.Frame
import SecureMsg.App.TokenTable
import SecureMsg.Theory.Linearization
import SecureMsg.Theory.Sequences
import SecureMsg.Theory.Completion
import SecureMsg.Messages.Linear
import SecureMsg.Groups.Mail
import SecureMsg.Groups.MailLinear
import SecureMsg.Groups.MailDeadlock

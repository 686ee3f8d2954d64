import CleanStack.Proofs.LeaseFencing
import CleanStack.Proofs.UnitOfWork
import CleanStack.Proofs.HandlerDelivery
import CleanStack.Proofs.OneKey
import CleanStack.Proofs.OutboxDeath
import CleanStack.Proofs.EmailExhaustion
import CleanStack.Proofs.StaffEscalation
import CleanStack.Proofs.AccountWipe
import CleanStack.Proofs.FourEyes
import CleanStack.Proofs.PublicRequests
import CleanStack.Proofs.WebhookAccounting
import CleanStack.Proofs.AutoDisable
import CleanStack.Proofs.AuditChain
import CleanStack.Proofs.AuditSoundness
import CleanStack.Proofs.Withdrawal
import CleanStack.Proofs.Ownership
import CleanStack.Proofs.SeatCap
import CleanStack.Proofs.FanoutOnce
import CleanStack.Proofs.ReplayClaim
import CleanStack.Proofs.SweepLease
import CleanStack.Proofs.TotpReplay
import CleanStack.Proofs.TokenMembership
import CleanStack.Proofs.SecretGrace
import CleanStack.Proofs.ListenerSingle
import CleanStack.Proofs.TimeIdPages
import CleanStack.Proofs.TimestampPages
import CleanStack.Proofs.StorageErasure
import CleanStack.Proofs.DigestFlush
import CleanStack.Proofs.DispatcherWakes
import CleanStack.Proofs.QuotaReserve
import CleanStack.Proofs.BatchLease
import CleanStack.Proofs.SendsCovered
import CleanStack.Proofs.AddressGuard
import CleanStack.Proofs.ForwardedHops
import CleanStack.Proofs.TokenCodec
import CleanStack.Proofs.UploadKeys
import CleanStack.Proofs.ScrubReach
import CleanStack.Proofs.InternalSigning
import CleanStack.Kit.WatchedList
import CleanStack.Proofs.WatchedChanges
import CleanStack.ApiToken.GithubKeyVerifier
import CleanStack.Coolify.Apply
import CleanStack.Coolify.Deploy
import CleanStack.Env.Shutdown
import CleanStack.Kit.Uuid
import CleanStack.Lib.Digits
import CleanStack.Lib.Split
import CleanStack.Proofs.ApplyConverges
import CleanStack.Proofs.CanonicalKeys
import CleanStack.Proofs.DeployReport
import CleanStack.Proofs.DerSignatures
import CleanStack.Proofs.OutboxRetention
import CleanStack.Proofs.ShutdownBudget
import CleanStack.Proofs.StreamChunks
import CleanStack.Proofs.UuidOrder
import CleanStack.ApiToken.Bearer
import CleanStack.Proofs.TokenRows
import CleanStack.Proofs.TokenRevocation
import CleanStack.Proofs.TokenBearer
import CleanStack.Proofs.TokenUsage
import CleanStack.Proofs.PepperRotation
import CleanStack.Billing.Entitlements
import CleanStack.Billing.PlanOverrides
import CleanStack.Proofs.OverrideLog
import CleanStack.Proofs.OverrideConflict
import CleanStack.Admin.StepUp
import CleanStack.Proofs.StepUpCodes
import CleanStack.Auth.EmailRedirect
import CleanStack.Proofs.RedirectLinks

import Accrual.Main
import Accrual.Record.Json
import Accrual.Session
import Accrual.Proofs.Decimal.Text
import Accrual.Proofs.Listing
import Accrual.Proofs.RoundTrip
import Accrual.Proofs.Key
import Accrual.Proofs.Rewards.Produced
import Accrual.Proofs.Rewards.Refusal
import Accrual.Proofs.Rewards.Sums
import Accrual.Proofs.Ledger.Shares
import Accrual.Proofs.Ledger.Lockout
import Accrual.Proofs.Ledger.Conservation
import Accrual.Proofs.Ledger.Refinement
import Accrual.Proofs.Ledger.Settlement
import Accrual.Proofs.Ledger.Commute
import Accrual.Proofs.Ledger.Options
import Accrual.Proofs.Ledger.Growth
import Accrual.Proofs.Ledger.Differences
import Accrual.Proofs.Session.WellFormed
import Accrual.Proofs.Session.Settlement
import Accrual.Proofs.Session.Cache
import Accrual.Proofs.Session.Isolation
import Accrual.Proofs.Session.Enumeration
import Accrual.Proofs.Report

import Selatpay.Core.Trace
import Selatpay.Core.Program
import Selatpay.Core.Protocol
import Selatpay.Core.Table
import Selatpay.Core.Transaction
import Selatpay.Quoter.Amount
import Selatpay.Quoter.MidRate
import Selatpay.Data.Uuid
import Selatpay.Data.Errors
import Selatpay.Ledger.Balance
import Selatpay.Recon.Walker
import Selatpay.Settlement.Funding
import Selatpay.Settlement.Correspondence
import Selatpay.Settlement.Booking
import Selatpay.Settlement.Polling
import Selatpay.Settlement.Expiry
import Selatpay.Settlement.Custody
import Selatpay.Idempotency.Turns
import Selatpay.Quoter.Price
import Selatpay.Api.Creates
import Selatpay.Api.Tenants
import Selatpay.Idempotency.Refinement
import Selatpay.Idempotency.Sequential
import Selatpay.MockBank.Server
import Selatpay.Outbox.Accounting
import Selatpay.Outbox.Delivery
import Selatpay.Outbox.Ordering
import Selatpay.Auth.Hmac
import Selatpay.Chain.FullAmount
import Selatpay.Ledger.Validate
import Selatpay.Webhook.Header
import Selatpay.Webhook.Sign
import Selatpay.Quoter.Relations
import Selatpay.Quoter.Sign
import Selatpay.Auth.Binding
import Selatpay.Api.Rate
import Selatpay.Api.Matches
import Selatpay.Chain.References
import Selatpay.Outbox.Backoff
import Selatpay.Outbox.Takeover
import Selatpay.Outbox.Waiting
import Selatpay.Dashboard.View
import Selatpay.Scripts.Pay
import Selatpay.Payout.Paid
import Selatpay.Webhook.Completion
import Selatpay.Webhook.Sender
import Selatpay.Settlement.Postable
import Selatpay.Settlement.Budget

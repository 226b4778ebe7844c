import CryptoGateway.AccountingCsv
import CryptoGateway.Prices.Aggregation
import CryptoGateway.Prices.Ingestion
import CryptoGateway.Properties.Agreement
import CryptoGateway.Properties.Chronicle
import CryptoGateway.Properties.Collection
import CryptoGateway.Properties.Digests
import CryptoGateway.Properties.DualControl
import CryptoGateway.Properties.Evidence
import CryptoGateway.Properties.Exports
import CryptoGateway.Properties.Fencing
import CryptoGateway.Properties.History
import CryptoGateway.Properties.Idempotency
import CryptoGateway.Properties.Intake
import CryptoGateway.Properties.Matching
import CryptoGateway.Properties.Plans
import CryptoGateway.Properties.Quotes
import CryptoGateway.Properties.Resolutions
import CryptoGateway.Properties.Risk
import CryptoGateway.Properties.Settling
import CryptoGateway.Properties.Tenancy
import CryptoGateway.Properties.Transfers
import CryptoGateway.Retention
import CryptoGateway.Webhooks.Egress
import CryptoGateway.Webhooks.Records
import CryptoGateway.Webhooks.Rotation
import CryptoGateway.WooCommerce.Completion
import CryptoGateway.WooCommerce.OrderLock
import CryptoGateway.WooCommerce.Reconciler

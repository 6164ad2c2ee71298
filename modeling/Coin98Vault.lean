import Coin98Vault.Framework.Trace
import Coin98Vault.Framework.Merkle
import Coin98Vault.Properties.Isolation
import Coin98Vault.Program.Reference
import Coin98Vault.Properties.MerkleAcceptance
import Coin98Vault.Properties.RedemptionSafety
import Coin98Vault.Properties.Authority
import Coin98Vault.Properties.Ownership
import Coin98Vault.Properties.Storage
import Coin98Vault.Properties.Payout
import Coin98Vault.Properties.Settlement
import Coin98Vault.Properties.OffChainTrees
import Coin98Vault.Properties.MultiTokenClient
import Coin98Vault.Properties.DerivedAddresses
import Coin98Vault.Properties.WellFormed
import Coin98Vault.Properties.RecordedMints
import Coin98Vault.Properties.Conservation
import Coin98Vault.Properties.Allocation
import Coin98Vault.Properties.Distribution
import Coin98Vault.Properties.Solvency
import Coin98Vault.Properties.TokenFormat
import Coin98Vault.Properties.ClientRequests
import Coin98Vault.Properties.Privileges
import Coin98Vault.Properties.ClientActions
import Coin98Vault.Properties.ClientCreation
import Coin98Vault.Properties.Campaign
import Coin98Vault.Framework.Registry
import Coin98Vault.Properties.CampaignSafety
import Coin98Vault.Properties.ClientGovernance
import Coin98Vault.Properties.Registry
import Coin98Vault.Properties.Refusals
import Coin98Vault.Framework.Footprint
import Coin98Vault.Properties.Parallelism
import Coin98Vault.Properties.Treasury

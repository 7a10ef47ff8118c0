import AssuranceLayer.Acceptance
import AssuranceLayer.AmountCodec
import AssuranceLayer.AnchoredReports
import AssuranceLayer.ChainAgreement
import AssuranceLayer.DesignerAgreement
import AssuranceLayer.Establishment
import AssuranceLayer.LeafOrder
import AssuranceLayer.LedgerTests
import AssuranceLayer.Offsets
import AssuranceLayer.ProofAgreement
import AssuranceLayer.Publishing
import AssuranceLayer.Recompute
import AssuranceLayer.SignedDocuments
import AssuranceLayer.Timestamps
import AssuranceLayer.BalanceFile
import AssuranceLayer.BrowserConsole
import AssuranceLayer.Compat
import AssuranceLayer.Custody
import AssuranceLayer.DamlRendering
import AssuranceLayer.DepthFirst
import AssuranceLayer.Packaging
import AssuranceLayer.EffectWalk
import AssuranceLayer.PreparedEffects
import AssuranceLayer.Rollbacks
import AssuranceLayer.StepIntegral
import AssuranceLayer.TransferFee
import AssuranceLayer.BrowserCsv
import AssuranceLayer.PreviewTotals
import AssuranceLayer.PreviewRows
import AssuranceLayer.PreviewAgreement
import AssuranceLayer.ScanSchedule
import AssuranceLayer.ProofNames
import AssuranceLayer.Decoding
import AssuranceLayer.KeyOrder
import AssuranceLayer.Interleaving
import AssuranceLayer.Tenancy
import AssuranceLayer.TenancyRuns
import AssuranceLayer.TenancyOwners
import AssuranceLayer.TenancyIsolation
import AssuranceLayer.Directory
import AssuranceLayer.Keystore
import AssuranceLayer.SigningKeys
import AssuranceLayer.AnchorContract
import AssuranceLayer.CoverageClaim
import AssuranceLayer.TenancyKeys
import AssuranceLayer.ProvenanceAgreement
import AssuranceLayer.AssuranceAgreement

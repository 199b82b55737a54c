import SlothBox.Proofs.Terminal
import SlothBox.Proofs.Promotion
import SlothBox.Proofs.SingleUse
import SlothBox.Proofs.Destruction
import SlothBox.Proofs.Convergence
import SlothBox.Proofs.Pairing
import SlothBox.Proofs.Tampering
import SlothBox.Proofs.AuditTransactions
import SlothBox.Proofs.Verification
import SlothBox.Library.Double
import SlothBox.Proofs.Truthful
import SlothBox.Proofs.Cap
import SlothBox.Proofs.Outsider
import SlothBox.Proofs.Frozen
import SlothBox.Proofs.Acknowledged
import SlothBox.Proofs.EndToEnd
import SlothBox.Schema
import SlothBox.Proofs.Tokens
import SlothBox.Proofs.Quota
import SlothBox.Proofs.Creation
import SlothBox.Proofs.RateLimit
import SlothBox.Proofs.Base64Url
import SlothBox.Proofs.PasswordKey
import SlothBox.Proofs.Appending
import SlothBox.Proofs.Archive
import SlothBox.Proofs.Progress
import SlothBox.Proofs.Migrate
import SlothBox.Proofs.UploadDrop
import SlothBox.Proofs.Redaction
import SlothBox.Proofs.Domains
import SlothBox.Proofs.Draining
import SlothBox.Proofs.Ledger
import SlothBox.Proofs.Lifecycle
import SlothBox.Proofs.Expiry
import SlothBox.Proofs.Isolation
import SlothBox.Proofs.Session
import SlothBox.Backend
import SlothBox.Proofs.UploadSession
import SlothBox.Proofs.Declaration
import SlothBox.Proofs.Handlers
import SlothBox.Proofs.Filling
import SlothBox.Proofs.Delivery

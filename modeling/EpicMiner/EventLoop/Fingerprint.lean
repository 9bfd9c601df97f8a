import EpicMiner.Library.Base64
import EpicMiner.EventLoop.Credentials

/-!
Owns the fingerprint that the TLS path shows of a certificate: the digest in Base64 and
whatever lies behind it in memory. A configured fingerprint pins one digest all the same, so
that credentials reach the server with that certificate only.
-/

namespace EpicMiner.EventLoop

open EpicMiner.Library
open EpicMiner.Data

variable {Engine : Type}

end EpicMiner.EventLoop

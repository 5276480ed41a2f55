import Tellstone.Persistence.Restore
import Tellstone.Shard

/-! The expiry of a stored entry and the value that stands for it in the files. -/
namespace Tellstone
open ByteStream ExpiringMap Framing

section
variable {P : Primitives} {crypto : CryptoEngine} {key value : Bytes} {t later : Time}

end

end Tellstone

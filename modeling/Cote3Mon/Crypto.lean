import Cote3Mon.Lib.Sha256

namespace Cote3Mon
open ByteText

/-- The two functions that the audit code gets from `hashlib`/`hmac` and from the
TEE.  Nothing is assumed of them: where a result needs them to be collision free,
it exhibits the collision instead. -/
structure Crypto where
  sha256 : Bytes → Digest
  hmac : Bytes → Bytes → Digest

namespace Crypto

def standard : Crypto := ⟨Sha2.sha256, Sha2.hmacSha256⟩

end Crypto

def asciiBytes (s : String) : Bytes := s.toList.map fun c => UInt8.ofNat c.toNat

def text (s : String) : Text := s.toList.map Char.toNat

end Cote3Mon

import VaultSync.Crypto.Sha256
/-!
A source of random bytes: a seed, and how often was drawn from it. A draw never gives what an earlier
one gave.
-/

namespace VaultSync

/-- A source of random bytes. -/
structure Entropy where
  seed : ByteArray
  drawn : Nat
deriving DecidableEq

namespace Entropy

/-- At least as many bytes as are asked for, from consecutive blocks of a draw. -/
def blocks (entropy : Entropy) : Nat → ByteArray
  | 0 => ByteArray.empty
  | n + 1 =>
    entropy.blocks n ++
      Crypto.Sha256.hash (entropy.seed ++ Bytes.ofNatBE 8 entropy.drawn ++ Bytes.ofNatBE 8 n)

def draw (entropy : Entropy) (length : Nat) : ByteArray × Entropy :=
  (Bytes.slice (entropy.blocks (length / 32 + 1)) 0 length,
    { entropy with drawn := entropy.drawn + 1 })

end Entropy

end VaultSync

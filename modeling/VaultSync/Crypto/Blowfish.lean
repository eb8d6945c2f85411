import VaultSync.Bytes
/-!
The Blowfish cipher with the key schedule that takes a salt as well. Its first words are the digits of
π behind the point, in base 2 ^ 32.
-/

namespace VaultSync.Crypto.Blowfish

/-! ### The digits of π -/

/-- The terms of the series of the arc tangent of `1 / x` from a power of it on, two at a time. All
numbers are scaled by a common factor. -/
def arcTangentFrom (x : Nat) : Nat → Nat → Nat → Nat → Nat
  | 0, _, _, acc => acc
  | fuel + 1, power, n, acc =>
    if power = 0 then acc
    else
      let next := power / (x * x)
      arcTangentFrom x fuel (next / (x * x)) (n + 4) (acc + power / n - next / (n + 2))

/-- The arc tangent of `1 / x` with a number of binary places. -/
def arcTangent (x places : Nat) : Nat :=
  arcTangentFrom x places ((1 <<< places) / x) 1 0

/-- How many words the state of the cipher has: 18 round keys and four tables of 256 words. -/
def stateSize : Nat := 18 + 4 * 256

/-- Spare binary places that take up the rounding of the series. -/
def sparePlaces : Nat := 64

def initial : Array UInt32 :=
  let places := 32 * stateSize + sparePlaces
  let pi := 4 * (4 * arcTangent 5 places - arcTangent 239 places)
  let digits := (pi >>> sparePlaces) % (1 <<< (32 * stateSize))
  (Array.range stateSize).map fun i => UInt32.ofNat (digits >>> (32 * (stateSize - 1 - i)))

/-! ### Rounds -/

/-- A word looked up in the four tables, byte by byte. -/
@[inline] def mix (state : Array UInt32) (x : UInt32) : UInt32 :=
  let a := state.getD (18 + (x >>> 24).toNat) 0
  let b := state.getD (274 + ((x >>> 16) &&& 0xff).toNat) 0
  let c := state.getD (530 + ((x >>> 8) &&& 0xff).toNat) 0
  let d := state.getD (786 + (x &&& 0xff).toNat) 0
  ((a + b) ^^^ c) + d

/-- The last rounds on the two halves of a block. -/
def rounds (state : Array UInt32) : Nat → UInt32 → UInt32 → UInt32 × UInt32
  | 0, left, right => (right ^^^ state.getD 17 0, left)
  | n + 1, left, right =>
    rounds state n (right ^^^ mix state left ^^^ state.getD (16 - n) 0) left

def encrypt (state : Array UInt32) (left right : UInt32) : UInt32 × UInt32 :=
  rounds state 16 (left ^^^ state.getD 0 0) right

/-! ### Keys -/

/-- Replaces the last `2 * n` words of the state, two at a time, by blocks encrypted one after the
other. The words of a salt are mixed in over and over. -/
def fill (salt : Array UInt32) : Nat → UInt32 → UInt32 → Array UInt32 → Array UInt32
  | 0, _, _, state => state
  | n + 1, left, right, state =>
    let i := stateSize - 2 * (n + 1)
    let (left, right) := encrypt state (left ^^^ salt.getD (i % salt.size) 0)
      (right ^^^ salt.getD ((i + 1) % salt.size) 0)
    fill salt n left right ((state.setIfInBounds i left).setIfInBounds (i + 1) right)

/-- Takes the words of a key, over and over, into the round keys. -/
def addKey (key : Array UInt32) (state : Array UInt32) : Array UInt32 :=
  (List.range 18).foldl (fun state i =>
    state.setIfInBounds i (state.getD i 0 ^^^ key.getD (i % key.size) 0)) state

/-- Takes a key and a salt into the state. The salt may be empty. -/
def expand (salt key state : Array UInt32) : Array UInt32 :=
  fill salt (stateSize / 2) 0 0 (addKey key state)

end VaultSync.Crypto.Blowfish

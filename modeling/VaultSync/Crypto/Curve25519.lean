import VaultSync.Bytes
/-!
Arithmetic on Curve25519: shared secrets, and the public part of a signing key on the curve in its
other shape.
-/

namespace VaultSync.Crypto.Curve25519

def prime : Nat := (1 <<< 255) - 19

def sub (a b : Nat) : Nat := (a + prime - b) % prime

def pow (base exponent : Nat) : Nat :=
  ((List.range 256).foldl (fun (acc, square) i =>
    (if exponent.testBit i then acc * square % prime else acc, square * square % prime))
    ((1, base % prime) : Nat × Nat)).1

/-- The inverse in the field; that of zero is zero. -/
def inverse (a : Nat) : Nat := pow a (prime - 2)

def clamp (secret : ByteArray) : Nat :=
  let n := Bytes.toNatLE secret
  n % (1 <<< 254) / 8 * 8 + (1 <<< 254)

/-- Two points of the ladder, in projective coordinates. -/
structure Ladder where
  x₂ : Nat
  z₂ : Nat
  x₃ : Nat
  z₃ : Nat

def Ladder.swap (l : Ladder) : Ladder := ⟨l.x₃, l.z₃, l.x₂, l.z₂⟩

def Ladder.step (u : Nat) (l : Ladder) : Ladder :=
  let a := (l.x₂ + l.z₂) % prime
  let aa := a * a % prime
  let b := sub l.x₂ l.z₂
  let bb := b * b % prime
  let e := sub aa bb
  let c := (l.x₃ + l.z₃) % prime
  let d := sub l.x₃ l.z₃
  let da := d * a % prime
  let cb := c * b % prime
  let sum := (da + cb) % prime
  let diff := sub da cb
  ⟨aa * bb % prime, e * ((aa + 121665 * e) % prime) % prime, sum * sum % prime,
    u * (diff * diff % prime) % prime⟩

def multiply (secret point : ByteArray) : ByteArray :=
  let k := clamp secret
  let u := Bytes.toNatLE point % (1 <<< 255) % prime
  let l := (List.range 255).foldl (fun (l : Ladder) i =>
    if k.testBit (254 - i) then (l.swap.step u).swap else l.step u) ⟨1, 0, u, 1⟩
  Bytes.ofNatLE 32 (l.x₂ * inverse l.z₂ % prime)

def base : ByteArray := Bytes.ofNatLE 32 9

/-! ### Signing keys -/

/-- A point of the twisted curve in extended coordinates. -/
structure Point where
  x : Nat
  y : Nat
  z : Nat
  t : Nat

/-- Twice the constant of the twisted curve. -/
def twiceD : Nat := 2 * sub 0 (121665 * inverse 121666 % prime) % prime

def Point.add (p q : Point) : Point :=
  let a := sub p.y p.x * sub q.y q.x % prime
  let b := (p.y + p.x) * (q.y + q.x) % prime
  let c := p.t * twiceD % prime * q.t % prime
  let d := 2 * p.z * q.z % prime
  let e := sub b a
  let f := sub d c
  let g := (d + c) % prime
  let h := (b + a) % prime
  ⟨e * f % prime, g * h % prime, f * g % prime, e * h % prime⟩

def basePoint : Point :=
  let x := 15112221349535400772501151409588531511454012693041857206046113283949847762202
  let y := 46316835694926478169428394003475163141307993866256225615783033603165251855960
  ⟨x, y, 1, x * y % prime⟩

/-- The multiple of the base point by a number below 2 ^ 255. -/
def multiplyBase (n : Nat) : Point :=
  ((List.range 255).foldl (fun (acc, power) i =>
    (if n.testBit i then acc.add power else acc, power.add power))
    ((⟨0, 1, 1, 0⟩, basePoint) : Point × Point)).1

/-- A point as bytes: its height, and the parity of the other coordinate in the top bit. -/
def Point.encode (p : Point) : ByteArray :=
  let z := inverse p.z
  let x := p.x * z % prime
  let y := p.y * z % prime
  Bytes.ofNatLE 32 (y + (x % 2) * (1 <<< 255))

/-- The public part of a signing key whose seed has the given digest. -/
def signingKey (digest : ByteArray) : ByteArray :=
  (multiplyBase (clamp (Bytes.slice digest 0 32))).encode

end VaultSync.Crypto.Curve25519

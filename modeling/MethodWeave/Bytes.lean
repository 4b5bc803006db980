/-!
Little-endian words: a natural number as a fixed count of bytes, lowest byte first.

Main statements: `toNat_ofNat`, a word that fits is read back, and `ofNat_toNat`, bytes are written
back as they were read.
-/

namespace MethodWeave.Bytes

/-- The lowest `count` bytes of `n`, lowest first. -/
def ofNat : (count n : Nat) → List UInt8
  | 0, _ => []
  | count + 1, n => UInt8.ofNat n :: ofNat count (n / 256)

/-- The number that a list of bytes stands for, lowest first. -/
def toNat : List UInt8 → Nat
  | [] => 0
  | b :: rest => b.toNat + 256 * toNat rest

@[simp] theorem length_ofNat (count n : Nat) : (ofNat count n).length = count := by
  induction count generalizing n with
  | zero => rfl
  | succ count ih => simp [ofNat, ih]

/-- How many numbers `count` bytes tell apart. -/
def limit : (count : Nat) → Nat
  | 0 => 1
  | count + 1 => 256 * limit count

theorem toNat_ofNat (count n : Nat) (h : n < limit count) : toNat (ofNat count n) = n := by
  induction count generalizing n with
  | zero => simp [limit] at h; simp [ofNat, toNat, h]
  | succ count ih =>
    have hd : n / 256 < limit count := Nat.div_lt_of_lt_mul h
    simp only [ofNat, toNat, ih _ hd, UInt8.toNat_ofNat']
    omega

theorem ofNat_toNat (bytes : List UInt8) : ofNat bytes.length (toNat bytes) = bytes := by
  induction bytes with
  | nil => rfl
  | cons b rest ih =>
    have hb : b.toNat < 256 := b.toNat_lt
    have hdiv : (b.toNat + 256 * toNat rest) / 256 = toNat rest := by omega
    have hlow : UInt8.ofNat (b.toNat + 256 * toNat rest) = b := by
      apply UInt8.toNat_inj.1
      rw [UInt8.toNat_ofNat']
      omega
    simp [ofNat, toNat, hdiv, hlow, ih]

theorem toNat_lt (bytes : List UInt8) : toNat bytes < limit bytes.length := by
  induction bytes with
  | nil => simp [toNat, limit]
  | cons b rest ih =>
    have hb : b.toNat < 256 := b.toNat_lt
    simp only [toNat, List.length_cons, limit]
    omega

/-! ### The widths in use -/

/-- A 16-bit word. -/
def ofUInt16 (v : UInt16) : List UInt8 := ofNat 2 v.toNat

/-- A 32-bit word. -/
def ofUInt32 (v : UInt32) : List UInt8 := ofNat 4 v.toNat

/-- A 64-bit word. -/
def ofUInt64 (v : UInt64) : List UInt8 := ofNat 8 v.toNat

def toUInt16 (bytes : List UInt8) : UInt16 := UInt16.ofNat (toNat bytes)

def toUInt32 (bytes : List UInt8) : UInt32 := UInt32.ofNat (toNat bytes)

def toUInt64 (bytes : List UInt8) : UInt64 := UInt64.ofNat (toNat bytes)

@[simp] theorem toUInt16_ofUInt16 (v : UInt16) : toUInt16 (ofUInt16 v) = v := by
  simp [toUInt16, ofUInt16, toNat_ofNat 2 v.toNat v.toNat_lt]

@[simp] theorem toUInt32_ofUInt32 (v : UInt32) : toUInt32 (ofUInt32 v) = v := by
  simp [toUInt32, ofUInt32, toNat_ofNat 4 v.toNat v.toNat_lt]

@[simp] theorem toUInt64_ofUInt64 (v : UInt64) : toUInt64 (ofUInt64 v) = v := by
  simp [toUInt64, ofUInt64, toNat_ofNat 8 v.toNat v.toNat_lt]

end MethodWeave.Bytes

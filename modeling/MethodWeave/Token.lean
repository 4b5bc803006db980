import MethodWeave.Text.Hex
/-!
Metadata tokens: a table number in the high byte of a 32-bit word, and a row in the other three
bytes.  Rows are counted from one.
-/

namespace MethodWeave

/-- The name of a row of a metadata table. -/
structure Token where
  value : UInt32
deriving DecidableEq, Repr, Inhabited

namespace Token

/-! ### Table numbers -/

def typeRefTable : UInt8 := 0x01
def typeDefTable : UInt8 := 0x02
def fieldTable : UInt8 := 0x04
def methodDefTable : UInt8 := 0x06
def memberRefTable : UInt8 := 0x0a
def signatureTable : UInt8 := 0x11
def typeSpecTable : UInt8 := 0x1b
def userStringTable : UInt8 := 0x70

/-- How many rows a token can tell apart. -/
def rowLimit : Nat := 0x1000000

/-- The token of a row; a row that needs more than three bytes loses its high bits. -/
def ofRow (table : UInt8) (row : Nat) : Token :=
  ⟨UInt32.ofNat (table.toNat * rowLimit + row % rowLimit)⟩

/-- The table a token points into. -/
def table (t : Token) : UInt8 := UInt8.ofNat (t.value.toNat / rowLimit)

/-- The row a token points at. -/
def row (t : Token) : Nat := t.value.toNat % rowLimit

/-- The number a token is kept under in tables. -/
def key (t : Token) : Nat := t.value.toNat

/-- A token is printed as a hexadecimal word of eight digits. -/
def text (t : Token) : String := "0x" ++ Text.hex 8 t.value.toNat

/-- The token in messages about the token itself. -/
def describe (t : Token) : String := "Token(" ++ t.text ++ ")"

theorem toNat_value_ofRow (tbl : UInt8) (r : Nat) :
    (ofRow tbl r).value.toNat = tbl.toNat * rowLimit + r % rowLimit := by
  have ht : tbl.toNat < 256 := tbl.toNat_lt
  have hr : r % rowLimit < rowLimit := Nat.mod_lt _ (by decide)
  simp only [rowLimit] at *
  simp only [ofRow, rowLimit, UInt32.toNat_ofNat']
  omega

@[simp] theorem table_ofRow (tbl : UInt8) (r : Nat) : (ofRow tbl r).table = tbl := by
  have hr : r % rowLimit < rowLimit := Nat.mod_lt _ (by decide)
  apply UInt8.toNat_inj.1
  have ht : tbl.toNat < 256 := tbl.toNat_lt
  simp only [table, toNat_value_ofRow, UInt8.toNat_ofNat']
  simp only [rowLimit] at *
  omega

@[simp] theorem row_ofRow (tbl : UInt8) (r : Nat) : (ofRow tbl r).row = r % rowLimit := by
  simp only [row, toNat_value_ofRow, rowLimit]
  omega

theorem ofRow_table_row (t : Token) : ofRow t.table t.row = t := by
  cases t with
  | mk v =>
    have hv : v.toNat < 0x100000000 := v.toNat_lt
    refine congrArg Token.mk (UInt32.toNat_inj.1 ?_)
    simp only [table, row, rowLimit, UInt32.toNat_ofNat', UInt8.toNat_ofNat']
    omega

end Token

end MethodWeave
